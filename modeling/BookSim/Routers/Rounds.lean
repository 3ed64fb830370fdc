/-
# Rounds — what one round of each loop of the router does

A stage is a loop over its queue.  For the proofs about runs each round is described once, by
the router it leaves behind:

    enterFlit      `entered`     a flit goes to its VC, whose packet may start
    routeItem      `routed`      … has a route and asks for an output VC
    vcAllocItem    `allocated`   … has one, or asks again
    swHoldItem     `sent`, `concluded`   its front flit is sent, or the held switch is given up
    swAllocItem    `sent`, `concluded`   its front flit is sent, or the VC bids again

The notes of NOQ, the offsets of the arbiters and the activity flag are not described; two
routers that differ in these only have the same `core`.
-/
import BookSim.Routers.Stages

namespace BookSim

open Function (update update_self)

/-! ## Queues that grow -/

/-- Elements with `P` have been put at the end of a list. -/
def Grows {α : Type} (P : α → Prop) (q q' : List α) : Prop :=
  ∃ new, q' = q ++ new ∧ ∀ c ∈ new, P c

namespace Grows

variable {α : Type} {P : α → Prop} {q q' q'' : List α}

theorem refl (q : List α) : Grows P q q := ⟨[], (List.append_nil q).symm, by simp⟩

theorem trans (h : Grows P q q') (h' : Grows P q' q'') : Grows P q q'' := by
  obtain ⟨new, rfl, hnew⟩ := h
  obtain ⟨new', rfl, hnew'⟩ := h'
  exact ⟨new ++ new', List.append_assoc _ _ _, fun c hc =>
    (List.mem_append.mp hc).elim (hnew c) (hnew' c)⟩

theorem concat (q : List α) {c : α} (hc : P c) : Grows P q (q ++ [c]) :=
  ⟨_, rfl, fun c' hc' => by rwa [List.mem_singleton.mp hc']⟩

theorem mem {c : α} (h : Grows P q q') (hc : c ∈ q) : c ∈ q' := by
  obtain ⟨new, rfl, -⟩ := h
  exact List.mem_append_left new hc

theorem exists_append {c : α} {rest : List α} (h : Grows P q.tail q') (hq : q = c :: rest) :
    ∃ new, q' = rest ++ new := by
  obtain ⟨new, rfl, -⟩ := h
  exact ⟨new, by rw [hq, List.tail_cons]⟩

end Grows

/-- An entry no Evaluate has seen yet. -/
def Entry.IsFresh (e : Entry) : Prop := e.time = -1 ∧ e.result = -1

/-- New entries have been put at the end of a queue. -/
abbrev GrowsFresh : List Entry → List Entry → Prop := Grows Entry.IsFresh

theorem GrowsFresh.push (q : List Entry) (i v : ℤ) :
    GrowsFresh q (q ++ [{ input := i, vc := v }]) :=
  .concat q ⟨rfl, rfl⟩

namespace Router

/-- The router without what the rounds are not described for. -/
def core (r : Router) : Router :=
  { r with
    active := false
    vcRROffset := fun _ => 0
    swRROffset := fun _ => 0
    noqNextOutputPort := fun _ _ => 0
    noqNextVCStart := fun _ _ => 0
    noqNextVCEnd := fun _ _ => 0 }

/-- The packet at the front of a VC starts: `startPacket` without the notes of NOQ. -/
def begun (cfg : RouterConfig) (r : Router) (i v : ℤ) (routeSet : OutputSet) : Router :=
  if cfg.routingDelay ≠ 0 then
    { r.setState i v .routing with routeVCs := r.routeVCs ++ [{ input := i, vc := v }] }
  else
    (r.setVC i v { (r.vcAt i v).setRouteSet routeSet with state := .vc_alloc }).requestVC cfg i v

/-- After the flit `f` has been added to its VC, which gave the buffer `b`. -/
def entered (cfg : RouterConfig) (r : Router) (i : ℤ) (f : Flit) (b : Buffer)
    (routeSet : OutputSet) : Router :=
  let r' : Router := { r with
    buf := update r.buf i b
    inQueueFlits := update r.inQueueFlits i none }
  match (r.vcAt i f.vc).state with
  | .idle => r'.begun cfg i f.vc routeSet
  | .active =>
    if (r.vcAt i f.vc).buffer ≠ [] then r'
    else if r.switchHoldVC (cfg.expandedInput i f.vc) = f.vc then r'.pushSWHold i f.vc
    else r'.pushSWAlloc i f.vc
  | _ => r'

/-- The packet of the first entry of the routing queue has a route. -/
def routed (cfg : RouterConfig) (r : Router) (i v : ℤ) (routeSet : OutputSet) : Router :=
  Router.requestVC cfg
    { r.setVC i v { (r.vcAt i v).setRouteSet routeSet with state := .vc_alloc } with
      routeVCs := r.routeVCs.tail } i v

/-- The VC has the output VC `w` of `o`. -/
def taken (r : Router) (i v o w : ℤ) (dest : BufferState) : Router :=
  { r.setVC i v { (r.vcAt i v).setOutput o w with state := .active } with
    nextBuf := update r.nextBuf o dest }

def allocated (cfg : RouterConfig) (r : Router) (i v o w : ℤ) (dest : BufferState) : Router :=
  let r' := Router.taken { r with vcAllocVCs := r.vcAllocVCs.tail } i v o w dest
  if cfg.speculative then r' else r'.pushSWAlloc i v

theorem allocated_eq (cfg : RouterConfig) (r : Router) (i v o w : ℤ) (dest : BufferState) :
    r.allocated cfg i v o w dest = { r.taken i v o w dest with
      vcAllocVCs := r.vcAllocVCs.tail
      swAllocVCs := if cfg.speculative then r.swAllocVCs else r.swAllocVCs ++
        [{ input := i, vc := v }] } := by
  unfold allocated
  split_ifs
  · rfl
  · rfl

/-- The flit as it leaves through an output VC. -/
def leaving (r : Router) (i v : ℤ) (f : Flit) : Flit :=
  { f with hops := f.hops + 1, vc := (r.vcAt i v).outVC }

/-- The front flit `f` of a VC is in the crossbar, on its way to the expanded output `x`. -/
def sent (cfg : RouterConfig) (r : Router) (i v x : ℤ) (f : Flit) (b : Buffer)
    (dest : BufferState) : Router :=
  { r with
    buf := update r.buf i b
    nextBuf := update r.nextBuf (x / cfg.outputSpeedup) dest
    crossbarFlits := r.crossbarFlits ++ [{
      flit := r.leaving i v f, expandedInput := cfg.expandedInput i v, expandedOutput := x }]
    outQueueCredits := update r.outQueueCredits i
      (some (((r.outQueueCredits i).getD {}).insert v)) }

/-- What happens to a VC after `f` has left it and `rest` is behind: `done` when it does not go
on competing, `stay` when it does. -/
def concluded (cfg : RouterConfig) (r : Router) (i v : ℤ) (f : Flit) (rest : List Flit)
    (routeSet : OutputSet) (done stay : Router → Router) : Router :=
  if f.tail then
    if rest = [] then (done r).setState i v .idle else (done r).begun cfg i v routeSet
  else if rest = [] then done r else stay r

/-- What is known of the VC of an entry, whose front flit is `f`. -/
structure AtFront (cfg : RouterConfig) (r : Router) (i v : ℤ) (f : Flit) (rest : List Flit) :
    Prop where
  input : cfg.IsInput i
  vc : cfg.IsVC v
  buffer : (r.vcAt i v).buffer = f :: rest
  own : f.vc = v

variable {cfg : RouterConfig} {env : RouterEnv} {r r' : Router}

variable {f : Flit} {e : Entry} {done stay : Router → Router}

theorem front_eq_ok (h : r.front cfg e = .ok f) : ∃ rest, AtFront cfg r e.input e.vc f rest := by
  obtain ⟨hi, h⟩ := require_ok.mp h
  obtain ⟨hv, h⟩ := require_ok.mp h
  cases hbuffer : (r.vcAt e.input e.vc).buffer with
  | nil =>
    rw [hbuffer] at h
    cases h
  | cons g rest =>
    rw [hbuffer] at h
    obtain ⟨hf, rfl⟩ := require_return_ok.mp h
    exact ⟨rest, hi, hv, hbuffer, hf⟩

theorem frontHead_eq_ok {s : VCState} (h : r.frontHead cfg s e = .ok f) :
    (∃ rest, AtFront cfg r e.input e.vc f rest) ∧ (r.vcAt e.input e.vc).state = s ∧
      f.head = true := by
  obtain ⟨g, hg, h⟩ := bind_ok.mp h
  obtain ⟨hs, h⟩ := require_ok.mp h
  obtain ⟨hhead, rfl⟩ := require_return_ok.mp h
  exact ⟨front_eq_ok hg, hs, hhead⟩

theorem frontForSwitch_eq_ok (h : r.frontForSwitch cfg e = .ok f) :
    (∃ rest, AtFront cfg r e.input e.vc f rest) ∧ ((r.vcAt e.input e.vc).state = .active ∨
        cfg.speculative ∧ (r.vcAt e.input e.vc).state = .vc_alloc) := by
  obtain ⟨g, hg, h⟩ := bind_ok.mp h
  obtain ⟨hs, rfl⟩ := require_return_ok.mp h
  exact ⟨front_eq_ok hg, hs⟩

/-! ## One VC at a time -/

theorem vcAt_of_buf {i v i' v' : ℤ} {b : Buffer} {w : VC} (hbuf : r'.buf = update r.buf i b)
    (hb : b.vc = update (r.buf i).vc v w) :
    r'.vcAt i' v' = if i' = i ∧ v' = v then w else r.vcAt i' v' := by
  unfold vcAt
  rw [hbuf]
  by_cases hi : i' = i
  · subst hi
    rw [update_self, hb, Function.update_apply]
    simp only [true_and]
  · rw [Function.update_of_ne hi, if_neg fun h => hi h.1]

theorem vcAt_setVC_ne {i v i' v' : ℤ} (w : VC) (hne : ¬ (i' = i ∧ v' = v)) :
    (r.setVC i v w).vcAt i' v' = r.vcAt i' v' :=
  (vcAt_of_buf rfl rfl).trans (if_neg hne)

theorem vcAt_setVC_self {i v : ℤ} (w : VC) : (r.setVC i v w).vcAt i v = w :=
  (vcAt_of_buf (b := (r.buf i).setVC v w) rfl rfl).trans (if_pos ⟨rfl, rfl⟩)

/-! ## Packets that start -/

theorem updateNOQ_core {i v : ℤ} (h : r.updateNOQ cfg env i v f = .ok r') : r'.core = r.core := by
  obtain ⟨-, h⟩ := require_ok.mp h
  obtain ⟨-, h⟩ := require_ok.mp h
  split at h
  · split at h
    · obtain rfl := return_ok.mp h
      rfl
    · obtain ⟨-, h⟩ := require_ok.mp h
      obtain ⟨-, h⟩ := require_ok.mp h
      obtain ⟨-, h⟩ := require_ok.mp h
      obtain ⟨-, h⟩ := require_ok.mp h
      obtain ⟨-, h⟩ := require_ok.mp h
      obtain ⟨-, h⟩ := require_ok.mp h
      obtain ⟨-, rfl⟩ := require_return_ok.mp h
      rfl
    · cases h
  · cases h

theorem startPacket_core {i v : ℤ} (h : startPacket cfg env r i v f = .ok r') :
    r'.core = (r.begun cfg i v (env.route i f)).core := by
  unfold startPacket at h
  unfold begun
  split_ifs at h ⊢
  · cases h
    rfl
  · exact updateNOQ_core h
  · cases h
    rfl

theorem addFlit_front {cfg : VCConfig} {b b' : Buffer} {f : Flit} {now vc : ℤ}
    (h : b.addFlit cfg now vc f = .ok b') : (b'.vc vc).state = (b.vc vc).state ∧
      ((b'.vc vc).buffer.length = 1 ↔ (b.vc vc).buffer = []) := by
  obtain ⟨-, v, hv, rfl⟩ := Buffer.addFlit_eq_ok h
  obtain ⟨-, fpri, pri, rfl⟩ := VC.addFlit_eq_ok hv
  simp [Buffer.setVC]

theorem enterFlit_core {i : ℤ} (h : enterFlit cfg env r i f = .ok r') :
    cfg.IsVC f.vc ∧ ∃ b, (r.buf i).addFlit cfg.vcConfig env.now f.vc f = .ok b ∧
      ((r.vcAt i f.vc).state = .idle → (r.vcAt i f.vc).buffer = []) ∧
      r'.core = (r.entered cfg i f b (env.route i f)).core := by
  obtain ⟨hvc, h⟩ := require_ok.mp h
  obtain ⟨b, hb, h⟩ := bind_ok.mp h
  obtain ⟨hstate, hfront⟩ := addFlit_front hb
  refine ⟨hvc, b, hb, ?_⟩
  unfold entered
  cases hs : (b.vc f.vc).state with
  | idle =>
    simp only [hs] at h
    obtain ⟨hempty, h⟩ := require_ok.mp h
    obtain ⟨-, h⟩ := require_ok.mp h
    obtain ⟨-, h⟩ := require_ok.mp h
    rw [show (r.vcAt i f.vc).state = .idle from hstate.symm.trans hs]
    exact ⟨fun _ => hfront.mp hempty, startPacket_core h⟩
  | active =>
    simp only [hs] at h
    obtain rfl := return_ok.mp h
    rw [show (r.vcAt i f.vc).state = .active from hstate.symm.trans hs]
    refine ⟨fun hidle => absurd hidle (by decide), ?_⟩
    by_cases hempty : (r.vcAt i f.vc).buffer = []
    · simp only [if_pos (hfront.mpr hempty), if_neg (not_not_intro hempty)]
    · simp only [if_neg (mt hfront.mp hempty), if_pos hempty]
  | routing =>
    simp only [hs] at h
    obtain rfl := return_ok.mp h
    rw [show (r.vcAt i f.vc).state = .routing from hstate.symm.trans hs]
    exact ⟨fun hidle => absurd hidle (by decide), rfl⟩
  | vc_alloc =>
    simp only [hs] at h
    obtain rfl := return_ok.mp h
    rw [show (r.vcAt i f.vc).state = .vc_alloc from hstate.symm.trans hs]
    exact ⟨fun hidle => absurd hidle (by decide), rfl⟩

theorem routeItem_eq_ok (h : routeItem cfg env r e = .ok r') :
    env.now = e.time ∧ (∃ f rest, AtFront cfg r e.input e.vc f rest) ∧
      (r.vcAt e.input e.vc).state = .routing ∧
      ∃ routeSet, r' = r.routed cfg e.input e.vc routeSet := by
  obtain ⟨htime, h⟩ := require_ok.mp h
  obtain ⟨f, hf, h⟩ := bind_ok.mp h
  obtain ⟨⟨rest, hfront⟩, hstate, -⟩ := frontHead_eq_ok hf
  exact ⟨htime, ⟨f, rest, hfront⟩, hstate, _, (return_ok.mp h).symm⟩

/-! ## Output VCs -/

theorem splitOutputVC_eq_ok {x : ℤ} {m : ℤ × ℤ} (h : splitOutputVC cfg x = .ok m) :
    m = (x.tdiv cfg.vcs, x.tmod cfg.vcs) ∧ cfg.IsOutput m.1 ∧ cfg.IsVC m.2 := by
  obtain ⟨ho, h⟩ := require_ok.mp h
  obtain ⟨hv, rfl⟩ := require_return_ok.mp h
  exact ⟨rfl, ho, hv⟩

theorem takeOutputVC_eq_ok {i v o w : ℤ} (h : takeOutputVC cfg r i v o w = .ok r') :
    ∃ dest, (r.nextBuf o).takeBuffer w (i * cfg.vcs + v) = .ok dest ∧
      r' = r.taken i v o w dest := by
  obtain ⟨dest, hdest, h⟩ := bind_ok.mp h
  exact ⟨dest, hdest, (return_ok.mp h).symm⟩

/-- What the result of a VC allocation is once it is known to be a grant. -/
structure GrantedVC (cfg : RouterConfig) (r : Router) (x o w : ℤ) : Prop where
  output_eq : o = x.tdiv cfg.vcs
  vc_eq : w = x.tmod cfg.vcs
  output : cfg.IsOutput o
  vc : cfg.IsVC w
  available : (r.nextBuf o).isAvailableFor w = true

theorem vcAllocItem_eq_ok (h : vcAllocItem cfg env r e = .ok r') :
    env.now = e.time ∧ (∃ f rest, AtFront cfg r e.input e.vc f rest) ∧
      (r.vcAt e.input e.vc).state = .vc_alloc ∧ (e.result < 0 ∧ r' = { r with
          vcAllocVCs := r.vcAllocVCs.tail ++ [{ input := e.input, vc := e.vc }] } ∨
        0 ≤ e.result ∧ ∃ o w dest, GrantedVC cfg r e.result o w ∧
          (r.nextBuf o).takeBuffer w (e.input * cfg.vcs + e.vc) = .ok dest ∧
          r' = r.allocated cfg e.input e.vc o w dest) := by
  obtain ⟨htime, h⟩ := require_ok.mp h
  obtain ⟨-, h⟩ := require_ok.mp h
  obtain ⟨f, hf, h⟩ := bind_ok.mp h
  obtain ⟨⟨rest, hfront⟩, hstate, -⟩ := frontHead_eq_ok hf
  refine ⟨htime, ⟨f, rest, hfront⟩, hstate, ?_⟩
  rcases ite_ok.mp h with ⟨hresult, h⟩ | ⟨hresult, h⟩
  · obtain ⟨m, hm, h⟩ := bind_ok.mp h
    obtain ⟨havail, h⟩ := require_ok.mp h
    obtain ⟨r₁, hr₁, h⟩ := bind_ok.mp h
    obtain ⟨dest, hdest, rfl⟩ := takeOutputVC_eq_ok hr₁
    obtain ⟨hsplit, ho, hw⟩ := splitOutputVC_eq_ok hm
    refine .inr ⟨hresult, m.1, m.2, dest, ⟨?_, ?_, ho, hw, havail⟩, hdest, ?_⟩
    · rw [hsplit]
    · rw [hsplit]
    · exact (return_ok.mp h).symm
  · exact .inl ⟨not_le.mp hresult, (return_ok.mp h).symm⟩

/-! ## Flits that are sent -/

theorem core_begun (i v : ℤ) (routeSet : OutputSet) :
    (r.begun cfg i v routeSet).core = r.core.begun cfg i v routeSet := by
  unfold begun
  split
  · rfl
  · rfl

theorem core_concluded {i v : ℤ} {rest : List Flit} {routeSet : OutputSet}
    (hdone : ∀ r, (done r).core = done r.core) (hstay : ∀ r, (stay r).core = stay r.core) :
    (r.concluded cfg i v f rest routeSet done stay).core =
      r.core.concluded cfg i v f rest routeSet done stay := by
  unfold concluded
  split_ifs
  · exact congrArg (setState · i v .idle) (hdone r)
  · rw [core_begun, hdone]
  · exact hdone r
  · exact hstay r

theorem clearNOQ_core {i v : ℤ} (h : clearNOQ cfg r i v = .ok r') : r'.core = r.core := by
  obtain ⟨-, h⟩ := require_ok.mp h
  obtain ⟨-, h⟩ := require_ok.mp h
  obtain ⟨-, rfl⟩ := require_return_ok.mp h
  rfl

theorem sendFlit_core {i v x : ℤ} {s : Flit × Router}
    (h : sendFlit cfg env r i v (r.vcAt i v).outVC x = .ok s) :
    ∃ f b dest, (r.buf i).removeFlit cfg.vcConfig v = .ok (f, b) ∧ s.1 = r.leaving i v f ∧
      (r.nextBuf (x / cfg.outputSpeedup)).sendingFlit env.now (r.leaving i v f) = .ok dest ∧
      s.2.core = (r.sent cfg i v x f b dest).core := by
  obtain ⟨removed, hremoved, h⟩ := bind_ok.mp h
  obtain ⟨r₁, hr₁, h⟩ := bind_ok.mp h
  obtain ⟨dest, hdest, rfl⟩ := bind_return_ok.mp h
  have hcore : r₁.core = core { r with buf := update r.buf i removed.2 } := by
    split_ifs at hr₁
    · exact clearNOQ_core hr₁
    · cases hr₁
      rfl
  have hnext : r₁.nextBuf = r.nextBuf := (congrArg nextBuf hcore :)
  rw [hnext] at hdest
  refine ⟨removed.1, removed.2, dest, hremoved, rfl, hdest, ?_⟩
  calc core { r₁ with
          nextBuf := update r₁.nextBuf (x / cfg.outputSpeedup) dest
          crossbarFlits := r₁.crossbarFlits ++ [{
            flit := r.leaving i v removed.1, expandedInput := cfg.expandedInput i v,
            expandedOutput := x }]
          outQueueCredits := update r₁.outQueueCredits i
            (some (((r₁.outQueueCredits i).getD {}).insert v)) }
      = { r₁.core with
          nextBuf := update r₁.core.nextBuf (x / cfg.outputSpeedup) dest
          crossbarFlits := r₁.core.crossbarFlits ++ [{
            flit := r.leaving i v removed.1, expandedInput := cfg.expandedInput i v,
            expandedOutput := x }]
          outQueueCredits := update r₁.core.outQueueCredits i
            (some (((r₁.core.outQueueCredits i).getD {}).insert v)) } := rfl
    _ = (r.sent cfg i v x removed.1 removed.2 dest).core := by rw [hcore]; rfl

theorem afterSend_core {i v : ℤ}
    (hdone : ∀ r, (done r).core = done r.core) (hstay : ∀ r, (stay r).core = stay r.core)
    (h : afterSend cfg env r i v f done stay = .ok r') :
    ∃ routeSet, r'.core = r.core.concluded cfg i v f (r.vcAt i v).buffer routeSet done stay := by
  unfold afterSend at h
  unfold concluded
  cases hbuffer : (r.vcAt i v).buffer with
  | nil =>
    simp only [hbuffer] at h
    cases h
    refine ⟨env.route i f, ?_⟩
    cases f.tail with
    | true => exact congrArg (setState · i v .idle) (hdone r)
    | false => exact hdone r
  | cons next rest =>
    simp only [hbuffer] at h
    obtain ⟨-, h⟩ := require_ok.mp h
    refine ⟨env.route i next, ?_⟩
    cases htail : f.tail with
    | true =>
      rw [htail] at h
      obtain ⟨-, h⟩ := require_ok.mp h
      have hcore := startPacket_core h
      rwa [core_begun, hdone] at hcore
    | false =>
      rw [htail] at h
      obtain rfl := return_ok.mp h
      exact hstay r

/-- The front flit of a VC has been sent. -/
structure Sent (cfg : RouterConfig) (r : Router) (i v x : ℤ) (done stay : Router → Router)
    (f : Flit) (rest : List Flit) (dest : BufferState) (r' : Router) : Prop where
  buffer : (r.vcAt i v).buffer = f :: rest
  dest_eq : ∃ now, (r.nextBuf (x / cfg.outputSpeedup)).sendingFlit now (r.leaving i v f) = .ok dest
  core_eq : ∃ b routeSet, (r.buf i).removeFlit cfg.vcConfig v = .ok (f, b) ∧
    r'.core = ((r.sent cfg i v x f b dest).concluded cfg i v f rest routeSet done stay).core

theorem send_core {i v x : ℤ}
    (hdone : ∀ r, (done r).core = done r.core) (hstay : ∀ r, (stay r).core = stay r.core) (h : (do
      let s ← sendFlit cfg env r i v (r.vcAt i v).outVC x
      afterSend cfg env s.2 i v s.1 done stay) = .ok r') :
    ∃ f rest dest, Sent cfg r i v x done stay f rest dest r' := by
  obtain ⟨s, hs, h⟩ := bind_ok.mp h
  obtain ⟨f, b, dest, hremoved, hf, hdest, hcore⟩ := sendFlit_core hs
  obtain ⟨routeSet, hr'⟩ := afterSend_core hdone hstay h
  obtain ⟨rest, pri, hbuffer, hb⟩ := Buffer.removeFlit_eq_ok hremoved
  refine ⟨f, rest, dest, hbuffer, ⟨env.now, hdest⟩, b, routeSet, hremoved, ?_⟩
  have hrest : (s.2.vcAt i v).buffer = rest := by
    have hbuf : s.2.buf = update r.buf i b := (congrArg buf hcore :)
    simp only [vcAt, hbuf, update_self, hb, Buffer.setVC]
  rw [core_concluded hdone hstay, ← hcore, hr', hrest]
  unfold concluded
  rw [show s.1.tail = f.tail by rw [hf]; rfl]

theorem swHoldItem_core (h : swHoldItem cfg env r e = .ok r') :
    env.now = e.time ∧ (∃ f rest, AtFront cfg r e.input e.vc f rest) ∧
      (r.vcAt e.input e.vc).state = .active ∧
      r.switchHoldVC (cfg.expandedInput e.input e.vc) = e.vc ∧
      ((0 ≤ e.result ∧ r.hasRoom cfg (e.result / cfg.outputSpeedup) = true ∧
          r.switchHoldIn (cfg.expandedInput e.input e.vc) = e.result ∧
          cfg.IsOutput (e.result / cfg.outputSpeedup) ∧
          (r.vcAt e.input e.vc).outPort = e.result / cfg.outputSpeedup ∧
          cfg.IsVC (r.vcAt e.input e.vc).outVC ∧
          ∃ f rest dest, Sent cfg { r with swHoldVCs := r.swHoldVCs.tail } e.input e.vc e.result
            (releaseSwitch (cfg.expandedInput e.input e.vc) e.result)
            (·.pushSWHold e.input e.vc) f rest dest r') ∨
        0 ≤ r.switchHoldIn (cfg.expandedInput e.input e.vc) ∧
          r' = (releaseSwitch (cfg.expandedInput e.input e.vc)
            (r.switchHoldIn (cfg.expandedInput e.input e.vc))
            { r with swHoldVCs := r.swHoldVCs.tail }).pushSWAlloc e.input e.vc) := by
  obtain ⟨htime, h⟩ := require_ok.mp h
  obtain ⟨-, h⟩ := require_ok.mp h
  obtain ⟨f, hf, h⟩ := bind_ok.mp h
  obtain ⟨rest, hfront⟩ := front_eq_ok hf
  obtain ⟨hactive, h⟩ := require_ok.mp h
  obtain ⟨hheld, h⟩ := require_ok.mp h
  refine ⟨htime, ⟨f, rest, hfront⟩, hactive, hheld, ?_⟩
  rcases ite_ok.mp h with ⟨hgo, h⟩ | ⟨-, h⟩
  · obtain ⟨hin, h⟩ := require_ok.mp h
    obtain ⟨-, h⟩ := require_ok.mp h
    obtain ⟨ho, h⟩ := require_ok.mp h
    obtain ⟨hport, h⟩ := require_ok.mp h
    obtain ⟨hw, h⟩ := require_ok.mp h
    exact .inl ⟨hgo.1, hgo.2, hin, ho, hport, hw, send_core (fun _ => rfl) (fun _ => rfl) h⟩
  · obtain ⟨-, h⟩ := require_ok.mp h
    obtain ⟨hin, h⟩ := require_ok.mp h
    exact .inr ⟨hin, (return_ok.mp h).symm⟩

theorem piggyback_core {o : ℤ} (h : piggyback cfg env r e f o = .ok r') :
    ∃ w dest, (r.nextBuf o).takeBuffer w (e.input * cfg.vcs + e.vc) = .ok dest ∧
      r'.core = (r.taken e.input e.vc o w dest).core := by
  obtain ⟨-, h⟩ := require_ok.mp h
  obtain ⟨-, h⟩ := require_ok.mp h
  obtain ⟨w, -, h⟩ := bind_ok.mp h
  obtain ⟨r₁, hr₁, h⟩ := bind_ok.mp h
  obtain ⟨dest, hdest, rfl⟩ := takeOutputVC_eq_ok hr₁
  obtain rfl := return_ok.mp h
  exact ⟨w, dest, hdest, rfl⟩

/-- A VC that has won the switch has an output VC, or gets one now: the router is then `r₁`. -/
inductive Equipped (cfg : RouterConfig) (r : Router) (i v o : ℤ) (r₁ : Router) : Prop
  | already (h : r₁ = r) : Equipped cfg r i v o r₁
  | piggyback {w : ℤ} {dest : BufferState} (hvc : cfg.hasVCAllocator = false)
      (hstate : (r.vcAt i v).state = .vc_alloc)
      (hdest : (r.nextBuf o).takeBuffer w (i * cfg.vcs + v) = .ok dest)
      (h : r₁.core = (r.taken i v o w dest).core) : Equipped cfg r i v o r₁

/-- How a VC goes on that has won the switch and has more flits of its packet. -/
def stays (cfg : RouterConfig) (i v x : ℤ) (r : Router) : Router :=
  if cfg.holdSwitchForPacket then (r.holdSwitch (cfg.expandedInput i v) x v).pushSWHold i v
  else r.pushSWAlloc i v

theorem core_stays (i v x : ℤ) (r : Router) : (stays cfg i v x r).core =
    stays cfg i v x r.core := by
  unfold stays
  split
  · rfl
  · rfl

theorem swAllocItem_core (h : swAllocItem cfg env r e = .ok r') :
    env.now = e.time ∧ (∃ f rest, AtFront cfg r e.input e.vc f rest) ∧
      ((r.vcAt e.input e.vc).state = .active ∨
        cfg.speculative ∧ (r.vcAt e.input e.vc).state = .vc_alloc) ∧ (e.result < 0 ∧
          r' = Router.pushSWAlloc { r with swAllocVCs := r.swAllocVCs.tail } e.input e.vc ∨
        0 ≤ e.result ∧ cfg.IsOutput (e.result / cfg.outputSpeedup) ∧
          r.switchHoldVC (cfg.expandedInput e.input e.vc) < 0 ∧
          r.switchHoldIn (cfg.expandedInput e.input e.vc) < 0 ∧ r.switchHoldOut e.result < 0 ∧
          ∃ r₁, Equipped cfg { r with swAllocVCs := r.swAllocVCs.tail } e.input e.vc
              (e.result / cfg.outputSpeedup) r₁ ∧
            (r₁.vcAt e.input e.vc).outPort = e.result / cfg.outputSpeedup ∧
            cfg.IsVC (r₁.vcAt e.input e.vc).outVC ∧
            ∃ f rest dest, Sent cfg r₁ e.input e.vc e.result id
              (stays cfg e.input e.vc e.result) f rest dest r') := by
  obtain ⟨htime, h⟩ := require_ok.mp h
  obtain ⟨f, hf, h⟩ := bind_ok.mp h
  obtain ⟨⟨rest, hfront⟩, hstate⟩ := frontForSwitch_eq_ok hf
  refine ⟨htime, ⟨f, rest, hfront⟩, hstate, ?_⟩
  rcases ite_ok.mp h with ⟨hresult, h⟩ | ⟨hresult, h⟩
  · obtain ⟨hvc, h⟩ := require_ok.mp h
    obtain ⟨hin, h⟩ := require_ok.mp h
    obtain ⟨hout, h⟩ := require_ok.mp h
    obtain ⟨ho, h⟩ := require_ok.mp h
    obtain ⟨r₁, hr₁, h⟩ := bind_ok.mp h
    obtain ⟨hport, h⟩ := require_ok.mp h
    obtain ⟨hw, h⟩ := require_ok.mp h
    refine .inr ⟨hresult, ho, hvc, hin, hout, r₁, ?_, hport, hw,
      send_core (fun _ => rfl) (core_stays e.input e.vc e.result) h⟩
    rcases ite_ok.mp hr₁ with ⟨hpiggy, hr₁⟩ | ⟨-, hr₁⟩
    · obtain ⟨w, dest, hdest, hcore⟩ := piggyback_core hr₁
      exact .piggyback (by simpa using hpiggy.1) hpiggy.2 hdest hcore
    · cases hr₁
      exact .already rfl
  · exact .inl ⟨not_le.mp hresult, (return_ok.mp h).symm⟩

/-! What the rounds do not touch. -/

/-- The held connections. -/
structure Holds where
  switchHoldIn : ℤ → ℤ
  switchHoldOut : ℤ → ℤ
  switchHoldVC : ℤ → ℤ

def holds (r : Router) : Holds where
  switchHoldIn := r.switchHoldIn
  switchHoldOut := r.switchHoldOut
  switchHoldVC := r.switchHoldVC

theorem holds_begun (i v : ℤ) (routeSet : OutputSet) : (r.begun cfg i v routeSet).holds =
    r.holds := by
  unfold begun
  split
  · rfl
  · rfl

theorem holds_entered (i : ℤ) (f : Flit) (b : Buffer) (routeSet : OutputSet) :
    (r.entered cfg i f b routeSet).holds = r.holds := by
  unfold entered
  split
  · exact holds_begun i f.vc routeSet
  · split_ifs
    · rfl
    · rfl
    · rfl
  · rfl

/-- The parts of a router apart from its VCs, the queues of the stages before the crossbar and
the held connections. -/
structure Backdrop where
  nextBuf : ℤ → BufferState
  inQueueFlits : ℤ → Option Flit
  procCredits : List (ℤ × Credit × ℤ)
  crossbarFlits : List Crossing
  outQueueCredits : ℤ → Option Credit
  outputBuffer : ℤ → List Flit
  creditBuffer : ℤ → List Credit

def backdrop (r : Router) : Backdrop where
  nextBuf := r.nextBuf
  inQueueFlits := r.inQueueFlits
  procCredits := r.procCredits
  crossbarFlits := r.crossbarFlits
  outQueueCredits := r.outQueueCredits
  outputBuffer := r.outputBuffer
  creditBuffer := r.creditBuffer

/-- All that taking an output VC changes is that VC, and the buffer state. -/
structure Equipped.Same (r : Router) (i v : ℤ) (r₁ : Router) : Prop where
  swHold : r₁.swHoldVCs = r.swHoldVCs
  swAlloc : r₁.swAllocVCs = r.swAllocVCs
  holds : r₁.holds = r.holds
  vcAt : ∀ i' v', ¬ (i' = i ∧ v' = v) → r₁.vcAt i' v' = r.vcAt i' v'

theorem Equipped.same {i v o : ℤ} {r₁ : Router} (h : Equipped cfg r i v o r₁) :
    Equipped.Same r i v r₁ := by
  cases h with
  | already h₁ =>
    rw [h₁]
    exact ⟨rfl, rfl, rfl, fun _ _ _ => rfl⟩
  | @piggyback w dest _ _ _ hcore =>
    refine ⟨(congrArg swHoldVCs hcore :), (congrArg swAllocVCs hcore :),
      (congrArg Router.holds hcore :), fun i' v' hne => ?_⟩
    have hvc : r₁.vcAt = (r.taken i v o w dest).vcAt := (congrArg Router.vcAt hcore :)
    rw [hvc]
    exact vcAt_setVC_ne (r := r) _ hne

theorem backdrop_begun (i v : ℤ) (routeSet : OutputSet) :
    (r.begun cfg i v routeSet).backdrop = r.backdrop := by
  unfold begun
  split
  · rfl
  · rfl

theorem backdrop_stays (i v x : ℤ) (r : Router) : (stays cfg i v x r).backdrop = r.backdrop := by
  unfold stays
  split
  · rfl
  · rfl

theorem Sent.backdrop_eq {i v x : ℤ} {rest : List Flit}
    {dest : BufferState} (h : Sent cfg r i v x done stay f rest dest r')
    (hdone : ∀ r, (done r).backdrop = r.backdrop) (hstay : ∀ r, (stay r).backdrop = r.backdrop) :
    r'.backdrop = { r.backdrop with
      nextBuf := update r.nextBuf (x / cfg.outputSpeedup) dest
      crossbarFlits := r.crossbarFlits ++ [{
        flit := r.leaving i v f, expandedInput := cfg.expandedInput i v, expandedOutput := x }]
      outQueueCredits := update r.outQueueCredits i
        (some (((r.outQueueCredits i).getD {}).insert v)) } := by
  obtain ⟨b, routeSet, -, hcore⟩ := h.core_eq
  have hr' : r'.backdrop =
      ((r.sent cfg i v x f b dest).concluded cfg i v f rest routeSet done stay).backdrop :=
    (congrArg backdrop hcore :)
  rw [hr']
  unfold concluded
  split_ifs
  · exact hdone _
  · rw [backdrop_begun, hdone]
    rfl
  · exact hdone _
  · exact hstay _

/-! ## Rounds of one VC -/

/-- What a round for one VC does to the others: nothing, but that new entries may come into the
queues. -/
structure RoundOf (i v : ℤ) (r r' : Router) : Prop where
  vcAt : ∀ i' v', ¬ (i' = i ∧ v' = v) → r'.vcAt i' v' = r.vcAt i' v'
  route : GrowsFresh r.routeVCs r'.routeVCs
  vcAlloc : GrowsFresh r.vcAllocVCs r'.vcAllocVCs
  swHold : GrowsFresh r.swHoldVCs r'.swHoldVCs
  swAlloc : GrowsFresh r.swAllocVCs r'.swAllocVCs
  crossbar : Grows (·.time = -1) r.crossbarFlits r'.crossbarFlits

namespace RoundOf

variable {i v : ℤ}

theorem refl (r : Router) : RoundOf i v r r :=
  ⟨fun _ _ _ => rfl, .refl _, .refl _, .refl _, .refl _, .refl _⟩

theorem trans {r'' : Router} (h : RoundOf i v r r') (h' : RoundOf i v r' r'') : RoundOf i v r r'' :=
  ⟨fun i' v' hne => (h'.vcAt i' v' hne).trans (h.vcAt i' v' hne), h.route.trans h'.route,
    h.vcAlloc.trans h'.vcAlloc, h.swHold.trans h'.swHold, h.swAlloc.trans h'.swAlloc,
    h.crossbar.trans h'.crossbar⟩

theorem of_core {s : Router} (hcore : s.core = r'.core) (h : RoundOf i v r r') :
    RoundOf i v r s := by
  have hvc : s.vcAt = r'.vcAt := (congrArg Router.vcAt hcore :)
  constructor
  · rw [hvc]
    exact h.vcAt
  · exact (congrArg routeVCs hcore :) ▸ h.route
  · exact (congrArg vcAllocVCs hcore :) ▸ h.vcAlloc
  · exact (congrArg swHoldVCs hcore :) ▸ h.swHold
  · exact (congrArg swAllocVCs hcore :) ▸ h.swAlloc
  · exact (congrArg crossbarFlits hcore :) ▸ h.crossbar

theorem setVC (w : VC) : RoundOf i v r (r.setVC i v w) :=
  ⟨fun _ _ => vcAt_setVC_ne w, .refl _, .refl _, .refl _, .refl _, .refl _⟩

theorem pushSWHold : RoundOf i v r (r.pushSWHold i v) :=
  ⟨fun _ _ _ => rfl, .refl _, .refl _, .push _ _ _, .refl _, .refl _⟩

theorem pushSWAlloc : RoundOf i v r (r.pushSWAlloc i v) :=
  ⟨fun _ _ _ => rfl, .refl _, .refl _, .refl _, .push _ _ _, .refl _⟩

theorem requestVC : RoundOf i v r (r.requestVC cfg i v) := by
  refine ⟨fun _ _ _ => rfl, .refl _, ?_, .refl _, ?_, .refl _⟩
  · unfold Router.requestVC
    dsimp only
    split_ifs
    · exact .push _ _ _
    · exact .refl _
  · unfold Router.requestVC
    dsimp only
    split_ifs
    · exact .push _ _ _
    · exact .refl _

theorem begun (routeSet : OutputSet) : RoundOf i v r (r.begun cfg i v routeSet) := by
  unfold Router.begun
  split_ifs
  · exact ⟨fun _ _ => vcAt_setVC_ne (r := r) _, .push _ _ _, .refl _, .refl _, .refl _, .refl _⟩
  · exact (setVC _).trans requestVC

theorem stays (x : ℤ) : RoundOf i v r (stays cfg i v x r) := by
  unfold Router.stays
  split_ifs
  · exact ⟨fun _ _ _ => rfl, .refl _, .refl _, .push _ _ _, .refl _, .refl _⟩
  · exact pushSWAlloc

theorem releaseSwitch (x y : ℤ) : RoundOf i v r (releaseSwitch x y r) :=
  ⟨fun _ _ _ => rfl, .refl _, .refl _, .refl _, .refl _, .refl _⟩

theorem taken (o w : ℤ) (dest : BufferState) : RoundOf i v r (r.taken i v o w dest) :=
  ⟨fun _ _ => vcAt_setVC_ne (r := r) _, .refl _, .refl _, .refl _, .refl _, .refl _⟩

end RoundOf

theorem enterFlit_roundOf {i : ℤ} (h : enterFlit cfg env r i f = .ok r') : RoundOf i f.vc r r' := by
  obtain ⟨-, b, hb, -, hcore⟩ := enterFlit_core h
  obtain ⟨-, w, -, hbvc⟩ := Buffer.addFlit_eq_ok hb
  have hadded : RoundOf i f.vc r { r with
      buf := update r.buf i b
      inQueueFlits := update r.inQueueFlits i none } :=
    ⟨fun _ _ hne => (vcAt_of_buf (w := w) rfl (by rw [hbvc]; rfl)).trans (if_neg hne), .refl _,
      .refl _, .refl _, .refl _, .refl _⟩
  refine .of_core hcore ?_
  unfold entered
  split
  · exact hadded.trans (.begun _)
  · split_ifs
    · exact hadded
    · exact hadded.trans .pushSWHold
    · exact hadded.trans .pushSWAlloc
  · exact hadded

theorem routeItem_roundOf (h : routeItem cfg env r e = .ok r') :
    RoundOf e.input e.vc { r with routeVCs := r.routeVCs.tail } r' := by
  obtain ⟨-, -, -, routeSet, rfl⟩ := routeItem_eq_ok h
  exact (RoundOf.setVC _).trans .requestVC

theorem allocated_roundOf (i v o w : ℤ) (dest : BufferState) :
    RoundOf i v { r with vcAllocVCs := r.vcAllocVCs.tail } (r.allocated cfg i v o w dest) := by
  unfold allocated
  dsimp only
  split_ifs
  · exact .taken _ _ _
  · exact .trans (.taken _ _ _) .pushSWAlloc

theorem vcAllocItem_roundOf (h : vcAllocItem cfg env r e = .ok r') :
    RoundOf e.input e.vc { r with vcAllocVCs := r.vcAllocVCs.tail } r' := by
  obtain ⟨-, -, -, ⟨-, rfl⟩ | ⟨-, o, w, dest, -, -, rfl⟩⟩ := vcAllocItem_eq_ok h
  · exact ⟨fun _ _ _ => rfl, .refl _, .push _ _ _, .refl _, .refl _, .refl _⟩
  · exact allocated_roundOf _ _ _ _ _

theorem Sent.roundOf {i v x : ℤ} {rest : List Flit} {dest : BufferState}
    (h : Sent cfg r i v x done stay f rest dest r')
    (hdone : ∀ s, RoundOf i v s (done s)) (hstay : ∀ s, RoundOf i v s (stay s)) :
    RoundOf i v r r' := by
  obtain ⟨b, routeSet, hremoved, hcore⟩ := h.core_eq
  obtain ⟨rest', pri, -, hb⟩ := Buffer.removeFlit_eq_ok hremoved
  have hsent : RoundOf i v r (r.sent cfg i v x f b dest) :=
    ⟨fun _ _ hne => (vcAt_of_buf (w := { r.vcAt i v with buffer := rest', pri }) rfl
      (by rw [hb]; rfl)).trans (if_neg hne), .refl _, .refl _, .refl _, .refl _, .concat _ rfl⟩
  refine .of_core hcore ?_
  unfold concluded
  split_ifs
  · exact (hsent.trans (hdone _)).trans (.setVC _)
  · exact (hsent.trans (hdone _)).trans (.begun _)
  · exact hsent.trans (hdone _)
  · exact hsent.trans (hstay _)

theorem Equipped.roundOf {i v o : ℤ} (h : Equipped cfg r i v o r') : RoundOf i v r r' := by
  cases h with
  | already h =>
    rw [h]
    exact .refl r
  | piggyback _ _ _ hcore => exact .of_core hcore (.taken _ _ _)

theorem swHoldItem_roundOf (h : swHoldItem cfg env r e = .ok r') :
    RoundOf e.input e.vc { r with swHoldVCs := r.swHoldVCs.tail } r' := by
  obtain ⟨-, -, -, -, ⟨-, -, -, -, -, -, f, rest, dest, hsent⟩ | ⟨-, rfl⟩⟩ := swHoldItem_core h
  · exact hsent.roundOf (fun s => .releaseSwitch _ _) fun s => .pushSWHold
  · exact .trans (.releaseSwitch _ _) .pushSWAlloc

theorem swAllocItem_roundOf (h : swAllocItem cfg env r e = .ok r') :
    RoundOf e.input e.vc { r with swAllocVCs := r.swAllocVCs.tail } r' := by
  obtain ⟨-, -, -, ⟨-, rfl⟩ | ⟨-, -, -, -, -, r₁, hequipped, -, -, f, rest, dest, hsent⟩⟩ :=
    swAllocItem_core h
  · exact .pushSWAlloc
  · exact hequipped.roundOf.trans (hsent.roundOf .refl fun s => .stays _)

/-! ## The crossbar and the credits -/

theorem switchItem_eq_ok {c : Crossing} (h : switchItem cfg env r c = .ok r') :
    env.now = c.time ∧ cfg.IsOutput (c.expandedOutput / cfg.outputSpeedup) ∧ r' = { r with
        crossbarFlits := r.crossbarFlits.tail
        outputBuffer := update r.outputBuffer (c.expandedOutput / cfg.outputSpeedup)
          (r.outputBuffer (c.expandedOutput / cfg.outputSpeedup) ++ [c.flit]) } := by
  obtain ⟨htime, h⟩ := require_ok.mp h
  obtain ⟨-, h⟩ := require_ok.mp h
  obtain ⟨ho, h⟩ := require_ok.mp h
  obtain ⟨-, h⟩ := require_ok.mp h
  exact ⟨htime, ho, (return_ok.mp h).symm⟩

theorem creditItem_eq_ok {item : ℤ × Credit × ℤ} (h : creditItem cfg env r item = .ok r') :
    cfg.IsOutput item.2.2 ∧
      ∃ dest, (r.nextBuf item.2.2).processCredit env.now item.2.1 = .ok dest ∧ r' = { r with
        nextBuf := update r.nextBuf item.2.2 dest
        procCredits := r.procCredits.tail } := by
  obtain ⟨ho, h⟩ := require_ok.mp h
  obtain ⟨dest, hdest, h⟩ := bind_ok.mp h
  exact ⟨ho, dest, hdest, (return_ok.mp h).symm⟩

theorem outputQueuing_eq_ok (h : outputQueuing cfg r = .ok r') : r' = { r with
      creditBuffer := fun i => r.creditBuffer i ++ (r.outQueueCredits i).toList
      outQueueCredits := fun _ => none } := by
  obtain ⟨-, h⟩ := require_ok.mp h
  exact (return_ok.mp h).symm

end Router

end BookSim
