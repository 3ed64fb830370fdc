/-
# Queues — every VC is in the queues its state asks for

A VC whose packet is to go on has to be in the queue of the next stage, or it is stranded; in a
second queue, or twice in one, it would be dealt with twice.  By the state of its packet:

    idle        empty, in no queue
    routing     once in `_route_vcs`
    vc_alloc    once in `_vc_alloc_vcs`, and with speculation once in `_sw_alloc_vcs`
    active      once in `_sw_alloc_vcs` or `_sw_hold_vcs`; in no queue while it is empty

This holds between all rounds (`tidy_reached`).  A router that is not active has nothing in its
queues, so that nothing is stranded when its step is left out (`idle_of_inactive`).
-/
import BookSim.Routers.Run

namespace BookSim

open List
open Function (update)

/-- A VC and how often it is in each of the queues. -/
@[ext] structure Filing where
  vc : VC
  route : ℕ
  vcAlloc : ℕ
  swAlloc : ℕ
  swHold : ℕ

namespace Filing

/-- The VC is where it should be. -/
def InPlace (cfg : RouterConfig) (p : Filing) : Prop :=
  match p.vc.state with
  | .idle => p.vc.buffer = [] ∧ p.route = 0 ∧ p.vcAlloc = 0 ∧ p.swAlloc = 0 ∧ p.swHold = 0
  | .routing => p.vc.buffer ≠ [] ∧ p.route = 1 ∧ p.vcAlloc = 0 ∧ p.swAlloc = 0 ∧ p.swHold = 0
  | .vc_alloc => p.vc.buffer ≠ [] ∧ p.route = 0 ∧
      p.vcAlloc = (if cfg.hasVCAllocator then 1 else 0) ∧
      p.swAlloc = (if cfg.speculative then 1 else 0) ∧ p.swHold = 0
  | .active => p.route = 0 ∧ p.vcAlloc = 0 ∧
      p.swAlloc + p.swHold = (if p.vc.buffer = [] then 0 else 1)

variable {cfg : RouterConfig} {p : Filing}

theorem InPlace.idle (h : p.InPlace cfg) (hs : p.vc.state = .idle) :
    p.vc.buffer = [] ∧ p.route = 0 ∧ p.vcAlloc = 0 ∧ p.swAlloc = 0 ∧ p.swHold = 0 := by
  unfold InPlace at h
  rwa [hs] at h

theorem InPlace.routing (h : p.InPlace cfg) (hs : p.vc.state = .routing) :
    p.vc.buffer ≠ [] ∧ p.route = 1 ∧ p.vcAlloc = 0 ∧ p.swAlloc = 0 ∧ p.swHold = 0 := by
  unfold InPlace at h
  rwa [hs] at h

theorem InPlace.vc_alloc (h : p.InPlace cfg) (hs : p.vc.state = .vc_alloc) :
    p.vc.buffer ≠ [] ∧ p.route = 0 ∧ p.vcAlloc = (if cfg.hasVCAllocator then 1 else 0) ∧
      p.swAlloc = (if cfg.speculative then 1 else 0) ∧ p.swHold = 0 := by
  unfold InPlace at h
  rwa [hs] at h

theorem InPlace.active (h : p.InPlace cfg) (hs : p.vc.state = .active) :
    p.route = 0 ∧ p.vcAlloc = 0 ∧ p.swAlloc + p.swHold = (if p.vc.buffer = [] then 0 else 1) := by
  unfold InPlace at h
  rwa [hs] at h

theorem InPlace.swAlloc_le_one (h : p.InPlace cfg) : p.swAlloc ≤ 1 := by
  unfold InPlace at h
  split at h
  · omega
  · omega
  · split_ifs at h <;> omega
  · split_ifs at h <;> omega

theorem InPlace.vcAlloc_le_one (h : p.InPlace cfg) : p.vcAlloc ≤ 1 := by
  unfold InPlace at h
  split at h
  · omega
  · omega
  · split_ifs at h <;> omega
  · omega

theorem InPlace.of_swHold (h : p.InPlace cfg) (hheld : 0 < p.swHold) :
    p.vc.state = .active ∧ p.vc.buffer ≠ [] ∧ p.swHold = 1 ∧ p.swAlloc = 0 := by
  unfold InPlace at h
  split at h
  · omega
  · omega
  · omega
  · rename_i hstate
    refine ⟨hstate, ?_⟩
    split_ifs at h with hempty
    · omega
    · exact ⟨hempty, by omega⟩

end Filing

/-- How often a VC is in a queue. -/
def queued (q : List Entry) (i v : ℤ) : ℕ := (q.map Entry.place).count (i, v)

theorem queued_concat (q : List Entry) (e : Entry) (i v : ℤ) :
    queued (q ++ [e]) i v = queued q i v + if i = e.input ∧ v = e.vc then 1 else 0 := by
  rw [queued, map_append, count_append, map_singleton, count_singleton]
  simp only [Entry.place, beq_iff_eq, Prod.mk.injEq, @eq_comm _ e.input, @eq_comm _ e.vc]
  rfl

theorem queued_cons (q : List Entry) (e : Entry) (i v : ℤ) :
    queued (e :: q) i v = queued q i v + if i = e.input ∧ v = e.vc then 1 else 0 := by
  rw [queued, map_cons, count_cons]
  simp only [Entry.place, beq_iff_eq, Prod.mk.injEq, @eq_comm _ e.input, @eq_comm _ e.vc]
  rfl

namespace Router

def filing (r : Router) (i v : ℤ) : Filing where
  vc := r.vcAt i v
  route := queued r.routeVCs i v
  vcAlloc := queued r.vcAllocVCs i v
  swAlloc := queued r.swAllocVCs i v
  swHold := queued r.swHoldVCs i v

variable {cfg : RouterConfig} {env : RouterEnv} {r r' : Router} {i v i' v' : ℤ}

/-! ## How the parts of a round change the filing

Each of them changes that of one VC. -/

theorem filing_eq_update {p : Filing}
    (h : ∀ i' v', r'.filing i' v' = if i' = i ∧ v' = v then p else r.filing i' v') :
    r'.filing = update₂ r.filing i v p :=
  funext₂ fun i' v' => (h i' v').trans update₂_apply.symm

theorem filing_at {p : Filing} (h : r'.filing = update₂ r.filing i v p) : r'.filing i v = p := by
  rw [h, update₂_apply, if_pos ⟨rfl, rfl⟩]

/-- The VC `v` of input `i` has been replaced by `w`, in a buffer that counts its flits. -/
theorem filing_of_buf {b : Buffer} {w : VC} (hbuf : r'.buf = update r.buf i b)
    (hb : b.vc = update (r.buf i).vc v w) (hroute : r'.routeVCs = r.routeVCs)
    (hvcAlloc : r'.vcAllocVCs = r.vcAllocVCs) (hswAlloc : r'.swAllocVCs = r.swAllocVCs)
    (hswHold : r'.swHoldVCs = r.swHoldVCs) :
    r'.filing = update₂ r.filing i v { r.filing i v with vc := w } := by
  refine filing_eq_update fun i' v' => ?_
  have hvc := @vcAt_of_buf r r' i v i' v' b w hbuf hb
  by_cases h : i' = i ∧ v' = v
  · obtain ⟨rfl, rfl⟩ := h
    simp [filing, hvc, hroute, hvcAlloc, hswAlloc, hswHold]
  · simp [filing, hvc, hroute, hvcAlloc, hswAlloc, hswHold, h]

theorem filing_setVC (w : VC) :
    (r.setVC i v w).filing = update₂ r.filing i v { r.filing i v with vc := w } :=
  filing_of_buf (b := (r.buf i).setVC v w) rfl rfl rfl rfl rfl rfl

theorem filing_taken (o w : ℤ) (dest : BufferState) : (r.taken i v o w dest).filing =
    update₂ r.filing i v { r.filing i v with
      vc := { (r.vcAt i v).setOutput o w with state := .active } } :=
  filing_setVC _

theorem filing_pushSWAlloc : (r.pushSWAlloc i v).filing =
    update₂ r.filing i v { r.filing i v with swAlloc := (r.filing i v).swAlloc + 1 } := by
  refine filing_eq_update fun i' v' => ?_
  by_cases h : i' = i ∧ v' = v
  · simp [filing, pushSWAlloc, queued_concat, h, vcAt]
  · simp [filing, pushSWAlloc, queued_concat, h, vcAt]

theorem filing_pushSWHold : (r.pushSWHold i v).filing =
    update₂ r.filing i v { r.filing i v with swHold := (r.filing i v).swHold + 1 } := by
  refine filing_eq_update fun i' v' => ?_
  by_cases h : i' = i ∧ v' = v
  · simp [filing, pushSWHold, queued_concat, h, vcAt]
  · simp [filing, pushSWHold, queued_concat, h, vcAt]

theorem filing_pushRoute : filing { r with routeVCs := r.routeVCs ++ [{ input := i, vc := v }] } =
    update₂ r.filing i v { r.filing i v with route := (r.filing i v).route + 1 } := by
  refine filing_eq_update fun i' v' => ?_
  by_cases h : i' = i ∧ v' = v
  · simp [filing, queued_concat, h, vcAt]
  · simp [filing, queued_concat, h, vcAt]

theorem filing_requestVC : (r.requestVC cfg i v).filing = update₂ r.filing i v { r.filing i v with
    vcAlloc := (r.filing i v).vcAlloc + if cfg.hasVCAllocator then 1 else 0
    swAlloc := (r.filing i v).swAlloc + if cfg.speculative then 1 else 0 } := by
  have hqueued : ∀ (c : Bool) (q : List Entry) (e : Entry) (i' v' : ℤ),
      queued (if c then q ++ [e] else q) i' v' =
        queued q i' v' + if i' = e.input ∧ v' = e.vc then if c then 1 else 0 else 0 := by
    intro c q e i' v'
    cases c with
    | true => exact queued_concat q e i' v'
    | false => simp
  refine filing_eq_update fun i' v' => ?_
  by_cases h : i' = i ∧ v' = v
  · simp [filing, requestVC, hqueued, h, vcAt]
  · simp [filing, requestVC, hqueued, h, vcAt]

theorem queued_pos_iff {q : List Entry} : 0 < queued q i v ↔ ∃ e ∈ q, e.place = (i, v) := by
  rw [queued, count_pos_iff, mem_map]

variable {q : List Entry} {e : Entry}

theorem queued_pos {rest : List Entry} (hq : q = e :: rest) : 0 < queued q e.input e.vc :=
  queued_pos_iff.mpr ⟨e, hq ▸ mem_cons_self, rfl⟩

theorem filing_popRoute (hq : r.routeVCs = e :: q) : filing { r with routeVCs := r.routeVCs.tail } =
    update₂ r.filing e.input e.vc { r.filing e.input e.vc with
      route := (r.filing e.input e.vc).route - 1 } := by
  refine filing_eq_update fun i' v' => ?_
  by_cases h : i' = e.input ∧ v' = e.vc
  · simp [filing, hq, queued_cons, h, vcAt]
  · simp [filing, hq, queued_cons, h, vcAt]

theorem filing_popVCAlloc (hq : r.vcAllocVCs = e :: q) :
    filing { r with vcAllocVCs := r.vcAllocVCs.tail } =
    update₂ r.filing e.input e.vc { r.filing e.input e.vc with
      vcAlloc := (r.filing e.input e.vc).vcAlloc - 1 } := by
  refine filing_eq_update fun i' v' => ?_
  by_cases h : i' = e.input ∧ v' = e.vc
  · simp [filing, hq, queued_cons, h, vcAt]
  · simp [filing, hq, queued_cons, h, vcAt]

theorem filing_popSWHold (hq : r.swHoldVCs = e :: q) :
    filing { r with swHoldVCs := r.swHoldVCs.tail } =
    update₂ r.filing e.input e.vc { r.filing e.input e.vc with
      swHold := (r.filing e.input e.vc).swHold - 1 } := by
  refine filing_eq_update fun i' v' => ?_
  by_cases h : i' = e.input ∧ v' = e.vc
  · simp [filing, hq, queued_cons, h, vcAt]
  · simp [filing, hq, queued_cons, h, vcAt]

theorem filing_popSWAlloc (hq : r.swAllocVCs = e :: q) :
    filing { r with swAllocVCs := r.swAllocVCs.tail } =
    update₂ r.filing e.input e.vc { r.filing e.input e.vc with
      swAlloc := (r.filing e.input e.vc).swAlloc - 1 } := by
  refine filing_eq_update fun i' v' => ?_
  by_cases h : i' = e.input ∧ v' = e.vc
  · simp [filing, hq, queued_cons, h, vcAt]
  · simp [filing, hq, queued_cons, h, vcAt]

theorem queued_rotate {rest : List Entry} (hq : q = e :: rest) :
    queued (q.tail ++ [{ input := e.input, vc := e.vc }]) = queued q := by
  funext i' v'
  rw [queued_concat, hq, tail_cons, queued_cons]

/-! ## The invariant -/

end Router

/-- The VC is in place, and one that waits for an output VC has no output. -/
def Filing.Sound (cfg : RouterConfig) (p : Filing) : Prop :=
  p.InPlace cfg ∧ (p.vc.state = .vc_alloc → p.vc.outPort = -1)

namespace Router

def Tidy (cfg : RouterConfig) (r : Router) : Prop := ∀ i v, (r.filing i v).Sound cfg

theorem Tidy.nodup_swAlloc (h : Tidy cfg r) : (r.swAllocVCs.map Entry.place).Nodup :=
  nodup_iff_count_le_one.mpr fun p => (h p.1 p.2).1.swAlloc_le_one

theorem Tidy.nodup_vcAlloc (h : Tidy cfg r) : (r.vcAllocVCs.map Entry.place).Nodup :=
  nodup_iff_count_le_one.mpr fun p => (h p.1 p.2).1.vcAlloc_le_one

theorem Tidy.nodup_swHold (h : Tidy cfg r) : (r.swHoldVCs.map Entry.place).Nodup := by
  refine nodup_iff_count_le_one.mpr fun p => ?_
  by_cases hheld : 0 < (r.filing p.1 p.2).swHold
  · exact ((h p.1 p.2).1.of_swHold hheld).2.2.1.le
  · exact le_trans (not_lt.mp hheld) (Nat.zero_le 1)

theorem tidy_of_filing (heq : r'.filing = r.filing) (h : Tidy cfg r) : Tidy cfg r' := by
  intro i v
  rw [heq]
  exact h i v

/-- All VCs but one, which is being dealt with. -/
def TidyBut (cfg : RouterConfig) (r : Router) (i v : ℤ) : Prop :=
  ∀ i' v', ¬ (i' = i ∧ v' = v) → (r.filing i' v').Sound cfg

theorem Tidy.but (h : Tidy cfg r) : TidyBut cfg r i v := fun i' v' _ => h i' v'

variable {p : Filing}

theorem TidyBut.update (h : TidyBut cfg r i v) (hr' : r'.filing = update₂ r.filing i v p) :
    TidyBut cfg r' i v := fun i' v' hne => by
  rw [hr', update₂_apply, if_neg hne]
  exact h i' v' hne

theorem TidyBut.tidy (h : TidyBut cfg r i v) (hr' : r'.filing = update₂ r.filing i v p)
    (hp : p.Sound cfg) : Tidy cfg r' := by
  intro i' v'
  rw [hr', update₂_apply]
  split_ifs with hplace
  · exact hp
  · exact h i' v' hplace

/-- An active VC stays in place with any flits behind it, as long as it bids if and only if it
has some. -/
theorem active_sound (hstate : p.vc.state = .active) (hroute : p.route = 0)
    (hvcAlloc : p.vcAlloc = 0)
    (hbids : p.swAlloc + p.swHold = if p.vc.buffer = [] then 0 else 1) : p.Sound cfg := by
  refine ⟨?_, fun hvc => absurd (hstate.symm.trans hvc) (by decide)⟩
  unfold Filing.InPlace
  rw [hstate]
  exact ⟨hroute, hvcAlloc, hbids⟩

/-- An active VC that has flits and is in no queue is put into one of the queues for the switch. -/
theorem pushed_tidy (h : TidyBut cfg r i v) (hstate : (r.vcAt i v).state = .active)
    (hbuffer : (r.vcAt i v).buffer ≠ []) (hroute : (r.filing i v).route = 0)
    (hvcAlloc : (r.filing i v).vcAlloc = 0)
    (hbids : (r.filing i v).swAlloc + (r.filing i v).swHold = 0) :
    Tidy cfg (r.pushSWAlloc i v) ∧ Tidy cfg (r.pushSWHold i v) := by
  refine ⟨h.tidy filing_pushSWAlloc ?_, h.tidy filing_pushSWHold ?_⟩
  all_goals
    refine active_sound hstate hroute hvcAlloc (Eq.trans ?_ (if_neg hbuffer).symm)
    dsimp only
    omega

theorem begun_tidy {routeSet : OutputSet} (h : TidyBut cfg r i v)
    (hbuffer : (r.vcAt i v).buffer ≠ []) (hroute : (r.filing i v).route = 0)
    (hvcAlloc : (r.filing i v).vcAlloc = 0) (hswAlloc : (r.filing i v).swAlloc = 0)
    (hswHold : (r.filing i v).swHold = 0) : Tidy cfg (r.begun cfg i v routeSet) := by
  unfold begun
  split_ifs
  · have hstate : (r.setState i v .routing).filing = _ := filing_setVC _
    refine (h.update hstate).tidy (filing_pushRoute (r := r.setState i v .routing)) ?_
    rw [filing_at hstate]
    exact ⟨⟨hbuffer, congrArg (· + 1) hroute, hvcAlloc, hswAlloc, hswHold⟩, nofun⟩
  · refine (h.update (filing_setVC _)).tidy filing_requestVC ?_
    rw [filing_at (filing_setVC _)]
    refine ⟨⟨hbuffer, hroute, ?_, ?_, hswHold⟩, fun _ => rfl⟩
    · exact (congrArg (· + _) hvcAlloc).trans (Nat.zero_add _)
    · exact (congrArg (· + _) hswAlloc).trans (Nat.zero_add _)

variable {done stay : Router → Router}

/-- The front flit of an active VC is sent.  The VC has been taken out of its queue. -/
theorem Sent.tidy {x : ℤ} {f : Flit} {rest : List Flit}
    {dest : BufferState} (hsent : Sent cfg r i v x done stay f rest dest r')
    (h : TidyBut cfg r i v) (hstate : (r.vcAt i v).state = .active)
    (hroute : (r.filing i v).route = 0) (hvcAlloc : (r.filing i v).vcAlloc = 0)
    (hbids : (r.filing i v).swAlloc + (r.filing i v).swHold = 0)
    (hdone : ∀ r, (done r).filing = r.filing)
    (hstay : (∀ r, (stay r).filing = (r.pushSWAlloc i v).filing) ∨
      ∀ r, (stay r).filing = (r.pushSWHold i v).filing) : Tidy cfg r' := by
  obtain ⟨hswAlloc, hswHold⟩ := Nat.add_eq_zero_iff.mp hbids
  obtain ⟨b, routeSet, hremoved, hcore⟩ := hsent.core_eq
  obtain ⟨rest', pri, hbuffer, hb⟩ := Buffer.removeFlit_eq_ok hremoved
  obtain rfl : rest = rest' := (List.cons.inj (hsent.buffer.symm.trans hbuffer)).2
  refine tidy_of_filing (congrArg filing hcore :) ?_
  have hs : (r.sent cfg i v x f b dest).filing = update₂ r.filing i v
      { r.filing i v with vc := { r.vcAt i v with buffer := rest, pri } } :=
    filing_of_buf rfl (by rw [hb]; rfl) rfl rfl rfl rfl
  have hd := (hdone (r.sent cfg i v x f b dest)).trans hs
  have hvc : (r.sent cfg i v x f b dest).vcAt i v = { r.vcAt i v with buffer := rest, pri } :=
    congrArg Filing.vc (filing_at hs)
  have hdonevc : (done (r.sent cfg i v x f b dest)).vcAt i v = _ :=
      congrArg Filing.vc (filing_at hd)
  unfold concluded
  split_ifs with htail hrest hrest
  · refine (h.update hd).tidy (filing_setVC _) ?_
    rw [filing_at hd, hdonevc]
    exact ⟨⟨hrest, hroute, hvcAlloc, hswAlloc, hswHold⟩, nofun⟩
  · refine begun_tidy (h.update hd) ?_ ?_ ?_ ?_ ?_
    · rwa [hdonevc]
    all_goals rw [filing_at hd]
    · exact hroute
    · exact hvcAlloc
    · exact hswAlloc
    · exact hswHold
  · refine h.tidy hd (active_sound hstate hroute hvcAlloc (Eq.trans ?_ (if_pos hrest).symm))
    exact hbids
  · have hpushed := pushed_tidy (h.update hs) (by rw [hvc]; exact hstate) (by rw [hvc]; exact hrest)
      (by rw [filing_at hs]; exact hroute) (by rw [filing_at hs]; exact hvcAlloc)
      (by rw [filing_at hs]; exact hbids)
    rcases hstay with hstay | hstay
    · exact tidy_of_filing (hstay _) hpushed.1
    · exact tidy_of_filing (hstay _) hpushed.2

theorem enterFlit_tidy {f : Flit} (henter : enterFlit cfg env r i f = .ok r') (h : Tidy cfg r) :
    Tidy cfg r' := by
  obtain ⟨-, b, hb, hidle, hcore⟩ := enterFlit_core henter
  obtain ⟨-, w, hw, hbvc⟩ := Buffer.addFlit_eq_ok hb
  obtain ⟨-, fpri, pri, rfl⟩ := VC.addFlit_eq_ok hw
  refine tidy_of_filing (congrArg filing hcore :) ?_
  let r₁ : Router := { r with
    buf := update r.buf i b
    inQueueFlits := update r.inQueueFlits i none }
  have h₁ : r₁.filing = update₂ r.filing i f.vc { r.filing i f.vc with
      vc := { r.vcAt i f.vc with
        expectedPid := (r.vcAt i f.vc).expectAfter f
        buffer := (r.vcAt i f.vc).buffer ++ [{ f with pri := fpri }]
        entered := (r.vcAt i f.vc).entered ++ [f.label]
        pri := pri } } :=
    filing_of_buf rfl (by rw [hbvc]; rfl) rfl rfl rfl rfl
  have hat := filing_at h₁
  have hbut : TidyBut cfg r₁ i f.vc := h.but.update h₁
  have hvc₁ : r₁.vcAt i f.vc = _ := congrArg Filing.vc hat
  have hnonempty : ∀ {g : Flit}, (r.vcAt i f.vc).buffer ++ [g] ≠ [] :=
    append_ne_nil_of_right_ne_nil _ (cons_ne_nil _ _)
  have hbuffer : (r₁.vcAt i f.vc).buffer ≠ [] := by
    rw [hvc₁]
    exact hnonempty
  obtain ⟨hplace, hport⟩ := h i f.vc
  unfold entered
  cases hs : (r.vcAt i f.vc).state with
  | idle =>
    obtain ⟨-, hroute, hvcAlloc, hswAlloc, hswHold⟩ := hplace.idle hs
    refine begun_tidy hbut hbuffer ?_ ?_ ?_ ?_
    all_goals rw [hat]
    · exact hroute
    · exact hvcAlloc
    · exact hswAlloc
    · exact hswHold
  | routing =>
    refine h.but.tidy h₁ ⟨?_, fun hvc => absurd (hs.symm.trans hvc) (by decide)⟩
    unfold Filing.InPlace
    simp only [hs]
    exact ⟨hnonempty, (hplace.routing hs).2⟩
  | vc_alloc =>
    refine h.but.tidy h₁ ⟨?_, fun _ => hport hs⟩
    unfold Filing.InPlace
    simp only [hs]
    exact ⟨hnonempty, (hplace.vc_alloc hs).2⟩
  | active =>
    obtain ⟨hroute, hvcAlloc, hbids⟩ := hplace.active hs
    by_cases hempty : (r.vcAt i f.vc).buffer = []
    · have hnone : (r.filing i f.vc).swAlloc + (r.filing i f.vc).swHold = 0 :=
        hbids.trans (if_pos hempty)
      simp only [if_neg (not_not_intro hempty)]
      have hpushed := pushed_tidy hbut (by rw [hvc₁]; exact hs) hbuffer (by rw [hat]; exact hroute)
        (by rw [hat]; exact hvcAlloc) (by rw [hat]; exact hnone)
      split_ifs
      · exact hpushed.2
      · exact hpushed.1
    · simp only [if_pos hempty]
      refine h.but.tidy h₁ (active_sound hs hroute hvcAlloc ?_)
      exact hbids.trans ((if_neg hempty).trans (if_neg hnonempty).symm)

theorem routeItem_tidy (hq : r.routeVCs = e :: q) (hitem : routeItem cfg env r e = .ok r')
    (h : Tidy cfg r) : Tidy cfg r' := by
  obtain ⟨-, -, hstate, routeSet, rfl⟩ := routeItem_eq_ok hitem
  obtain ⟨hbuffer, hroute, hvcAlloc, hswAlloc, hswHold⟩ := (h e.input e.vc).1.routing hstate
  let r₁ : Router := { r with routeVCs := r.routeVCs.tail }
  let w : VC := { (r.vcAt e.input e.vc).setRouteSet routeSet with state := .vc_alloc }
  have hw : (r₁.setVC e.input e.vc w).filing = _ := filing_setVC _
  refine ((h.but.update (filing_popRoute hq)).update hw).tidy
    (filing_requestVC (r := r₁.setVC e.input e.vc w)) ?_
  rw [filing_at hw, filing_at (filing_popRoute hq), hroute]
  refine ⟨⟨hbuffer, rfl, ?_, ?_, hswHold⟩, fun _ => rfl⟩
  · exact (congrArg (· + _) hvcAlloc).trans (Nat.zero_add _)
  · exact (congrArg (· + _) hswAlloc).trans (Nat.zero_add _)

theorem vcAllocItem_tidy (hq : r.vcAllocVCs = e :: q) (hitem : vcAllocItem cfg env r e = .ok r')
    (h : Tidy cfg r) : Tidy cfg r' := by
  obtain ⟨-, -, hstate, hcases⟩ := vcAllocItem_eq_ok hitem
  obtain ⟨hbuffer, hroute, hvcAlloc, hswAlloc, hswHold⟩ := (h e.input e.vc).1.vc_alloc hstate
  have hcount : (r.filing e.input e.vc).vcAlloc = 1 := by
    have hpos : 0 < (r.filing e.input e.vc).vcAlloc := queued_pos hq
    split at hvcAlloc
    · exact hvcAlloc
    · omega
  rcases hcases with ⟨-, rfl⟩ | ⟨-, o, w, dest, -, -, rfl⟩
  · refine tidy_of_filing ?_ h
    funext i' v'
    simp only [filing, queued_rotate hq]
    rfl
  · let r₁ : Router := { r with vcAllocVCs := r.vcAllocVCs.tail }
    have hpop : r₁.filing = _ := filing_popVCAlloc hq
    have htaken := filing_taken (r := r₁) (i := e.input) (v := e.vc) o w dest
    rw [filing_at hpop, hcount] at htaken
    have hbut : TidyBut cfg r₁ e.input e.vc := h.but.update hpop
    unfold allocated
    split_ifs at hswAlloc ⊢
    · refine hbut.tidy htaken (active_sound rfl hroute rfl (Eq.trans ?_ (if_neg hbuffer).symm))
      dsimp only
      omega
    · have hat := filing_at htaken
      have hvc : (r₁.taken e.input e.vc o w dest).vcAt e.input e.vc = _ := congrArg Filing.vc hat
      refine (pushed_tidy (hbut.update htaken) (by rw [hvc]) (by rw [hvc]; exact hbuffer)
        (by rw [hat]; exact hroute) (by rw [hat]) ?_).1
      rw [hat]
      dsimp only
      omega

theorem swHoldItem_tidy (hq : r.swHoldVCs = e :: q) (hitem : swHoldItem cfg env r e = .ok r')
    (h : Tidy cfg r) : Tidy cfg r' := by
  obtain ⟨-, ⟨f, rest, hfront⟩, hstate, -, hcases⟩ := swHoldItem_core hitem
  obtain ⟨hroute, hvcAlloc, hbids⟩ := (h e.input e.vc).1.active hstate
  have hbuffer : (r.vcAt e.input e.vc).buffer ≠ [] := by
    rw [hfront.buffer]
    exact cons_ne_nil _ _
  have hpos : 0 < (r.filing e.input e.vc).swHold := queued_pos hq
  let r₁ : Router := { r with swHoldVCs := r.swHoldVCs.tail }
  have hpop : r₁.filing = _ := filing_popSWHold hq
  have hbut : TidyBut cfg r₁ e.input e.vc := h.but.update hpop
  have hbids₁ : (r₁.filing e.input e.vc).swAlloc + (r₁.filing e.input e.vc).swHold = 0 := by
    rw [filing_at hpop]
    have hone := hbids.trans (if_neg hbuffer)
    dsimp only at hone ⊢
    omega
  rcases hcases with ⟨-, -, -, -, -, -, f, rest, dest, hsent⟩ | ⟨-, rfl⟩
  · exact hsent.tidy hbut hstate hroute hvcAlloc hbids₁ (fun _ => rfl) (.inr fun _ => rfl)
  · exact (pushed_tidy (r := releaseSwitch _ _ r₁) hbut hstate hbuffer hroute hvcAlloc hbids₁).1

theorem swAllocItem_tidy (hq : r.swAllocVCs = e :: q) (hitem : swAllocItem cfg env r e = .ok r')
    (h : Tidy cfg r) : Tidy cfg r' := by
  obtain ⟨-, ⟨f, rest, hfront⟩, hready, hcases⟩ := swAllocItem_core hitem
  have hpos : 0 < (r.filing e.input e.vc).swAlloc := queued_pos hq
  let r₀ : Router := { r with swAllocVCs := r.swAllocVCs.tail }
  have hpop : r₀.filing = _ := filing_popSWAlloc hq
  have hbut : TidyBut cfg r₀ e.input e.vc := h.but.update hpop
  rcases hcases with ⟨-, rfl⟩ | ⟨-, ho, -, -, -, r₁, hequipped, hport, -, f', rest', dest, hsent⟩
  · refine tidy_of_filing ?_ h
    funext i' v'
    simp only [filing, pushSWAlloc, queued_rotate hq]
    rfl
  · have hstay : (∀ s, (stays cfg e.input e.vc e.result s).filing =
        (s.pushSWAlloc e.input e.vc).filing) ∨
        ∀ s, (stays cfg e.input e.vc e.result s).filing = (s.pushSWHold e.input e.vc).filing := by
      unfold stays
      cases cfg.holdSwitchForPacket with
      | true => exact .inr fun _ => rfl
      | false => exact .inl fun _ => rfl
    cases hequipped with
    | already h₁ =>
      subst h₁
      -- a VC that waits for an output VC has no output port
      have hactive : (r.vcAt e.input e.vc).state = .active := by
        refine hready.resolve_right fun hvc => ?_
        have hnone : e.result / cfg.outputSpeedup = -1 :=
            hport.symm.trans ((h e.input e.vc).2 hvc.2)
        exact absurd ho.1 (by rw [hnone]; decide)
      obtain ⟨hroute, hvcAlloc, hbids⟩ := (h e.input e.vc).1.active hactive
      have hone := hbids.trans (if_neg (by
        rw [show (r.filing e.input e.vc).vc.buffer = f :: rest from hfront.buffer]
        exact cons_ne_nil _ _))
      refine hsent.tidy hbut hactive hroute hvcAlloc ?_ (fun _ => rfl) hstay
      rw [filing_at hpop]
      dsimp only
      omega
    | @piggyback w dest' hvcAllocator hstate _ hcore =>
      obtain ⟨-, hroute, hvcAlloc, hswAlloc, hswHold⟩ := (h e.input e.vc).1.vc_alloc hstate
      rw [hvcAllocator] at hvcAlloc
      have hone : (r.filing e.input e.vc).swAlloc = 1 := by
        split at hswAlloc
        · exact hswAlloc
        · omega
      have h₁ : r₁.filing = _ := (congrArg filing hcore :).trans (filing_taken _ w dest')
      rw [filing_at hpop] at h₁
      have hat := filing_at h₁
      refine hsent.tidy (hbut.update h₁) ?_ (by rw [hat]; exact hroute)
        (by rw [hat]; exact hvcAlloc) ?_ (fun _ => rfl) hstay
      · rw [show r₁.vcAt e.input e.vc = _ from congrArg Filing.vc hat]
      · rw [hat]
        dsimp only
        omega

theorem Evaluated.filing_eq (h : Evaluated r r') : r'.filing = r.filing := by
  funext i v
  have hvc : r'.vcAt i v = r.vcAt i v := by rw [h.same]; rfl
  simp only [filing, queued, hvc, h.route, h.vcAlloc, h.swAlloc, h.swHold]

theorem tidy_kept : Kept cfg env (Tidy cfg) where
  enter _ _ henter _ := enterFlit_tidy henter
  credit _ hitem _ := by
    obtain ⟨-, dest, -, rfl⟩ := creditItem_eq_ok hitem
    exact tidy_of_filing rfl
  evaluate heval _ := tidy_of_filing (evaluateStages_ends.of_eq_ok heval).filing_eq
  route hq _ hitem _ := routeItem_tidy hq hitem
  vcAlloc hq _ hitem _ := vcAllocItem_tidy hq hitem
  swHold hq _ hitem _ := swHoldItem_tidy hq hitem
  swAlloc hq _ hitem _ := swAllocItem_tidy hq hitem
  switch _ _ hitem _ := by
    obtain ⟨-, -, rfl⟩ := switchItem_eq_ok hitem
    exact tidy_of_filing rfl
  flush hflush _ := by
    obtain rfl := outputQueuing_eq_ok hflush
    exact tidy_of_filing rfl
  active _ := tidy_of_filing rfl

variable {bufCfg : BufferConfig} {C : RouterEnv → Router → Prop} {now : ℤ}

theorem tidy_new (next : ℤ → BufferState) : Tidy cfg (.new cfg bufCfg next) :=
  fun _ _ => ⟨⟨rfl, rfl, rfl, rfl, rfl⟩, nofun⟩

theorem tidy_reached (h : Reached cfg bufCfg C now r) : Tidy cfg r :=
  Kept.reached h (fun _ => tidy_kept) (fun next _ _ => tidy_new next) (tidy_of_filing rfl)
    (tidy_of_filing rfl)

/-! ## The switch is only held when it may be -/

/-- Without `hold_switch_for_packet` no switch is held. -/
def HoldsNothing (r : Router) : Prop := r.swHoldVCs = [] ∧ ∀ x, r.switchHoldVC x = -1

theorem HoldsNothing.of_core {s : Router} (hcore : s.core = r'.core) (h : HoldsNothing r') :
    HoldsNothing s := by
  have hhold : s.swHoldVCs = r'.swHoldVCs := (congrArg swHoldVCs hcore :)
  have hvc : s.switchHoldVC = r'.switchHoldVC := (congrArg switchHoldVC hcore :)
  unfold HoldsNothing
  rwa [hhold, hvc]

theorem begun_holdsNothing {routeSet : OutputSet} (h : HoldsNothing r) :
    HoldsNothing (r.begun cfg i v routeSet) := by
  unfold begun
  split
  · exact h
  · exact h

theorem Sent.holdsNothing {x : ℤ} {f : Flit} {rest : List Flit}
    {dest : BufferState} (hsent : Sent cfg r i v x done stay f rest dest r') (h : HoldsNothing r)
    (hdone : ∀ r, HoldsNothing r → HoldsNothing (done r))
    (hstay : ∀ r, HoldsNothing r → HoldsNothing (stay r)) : HoldsNothing r' := by
  obtain ⟨b, routeSet, -, hcore⟩ := hsent.core_eq
  have hs : HoldsNothing (r.sent cfg i v x f b dest) := h
  refine HoldsNothing.of_core hcore ?_
  unfold concluded
  split_ifs
  · exact hdone _ hs
  · exact begun_holdsNothing (hdone _ hs)
  · exact hdone _ hs
  · exact hstay _ hs

theorem holdsNothing_kept (hhold : cfg.holdSwitchForPacket = false) :
    Kept cfg env HoldsNothing where
  enter _ _ henter _ h := by
    obtain ⟨hvc, b, -, -, hcore⟩ := enterFlit_core henter
    refine HoldsNothing.of_core hcore ?_
    unfold entered
    dsimp only
    split
    · exact begun_holdsNothing h
    · split_ifs with hempty hheld
      · exact h
      · rw [h.2] at hheld
        exact absurd hvc.1 (by rw [← hheld]; decide)
      · exact h
    · exact h
  credit _ hitem _ h := by
    obtain ⟨-, dest, -, rfl⟩ := creditItem_eq_ok hitem
    exact h
  evaluate heval _ h := by
    have hev := evaluateStages_ends.of_eq_ok heval
    refine ⟨?_, ?_⟩
    · have hplaces := hev.swHold
      rw [h.1, map_nil] at hplaces
      exact map_eq_nil_iff.mp hplaces
    · rw [hev.same]
      exact h.2
  route _ _ hitem _ h := by
    obtain ⟨-, -, -, routeSet, rfl⟩ := routeItem_eq_ok hitem
    exact h
  vcAlloc _ _ hitem _ h := by
    obtain ⟨-, -, -, ⟨-, rfl⟩ | ⟨-, o, w, dest, -, -, rfl⟩⟩ := vcAllocItem_eq_ok hitem
    · exact h
    · rwa [allocated_eq]
  swHold hq _ _ _ h := by
    rw [h.1] at hq
    exact absurd hq (cons_ne_nil _ _).symm
  swAlloc _ _ hitem _ h := by
    obtain ⟨-, -, -, hcases⟩ := swAllocItem_core hitem
    rcases hcases with ⟨-, rfl⟩ | ⟨-, -, -, -, -, r₁, hequipped, -, -, f, rest, dest, hsent⟩
    · exact h
    · refine hsent.holdsNothing ?_ (fun _ => id) fun s hs => ?_
      · cases hequipped with
        | already h₁ =>
          rwa [h₁]
        | piggyback _ _ _ hcore => exact HoldsNothing.of_core hcore h
      · rwa [stays, if_neg (by rw [hhold]; decide)]
  switch _ _ hitem _ h := by
    obtain ⟨-, -, rfl⟩ := switchItem_eq_ok hitem
    exact h
  flush hflush _ h := by
    obtain rfl := outputQueuing_eq_ok hflush
    exact h
  active _ h := h

theorem holdsNothing_reached (hhold : cfg.holdSwitchForPacket = false)
    (h : Reached cfg bufCfg C now r) : HoldsNothing r :=
  Kept.reached h (fun _ => holdsNothing_kept hhold) (fun _ _ _ => ⟨rfl, fun _ => rfl⟩) id id

/-! ## A router that is not active -/

/-- There is nothing to do. -/
structure Done (r : Router) : Prop where
  procCredits : r.procCredits = []
  route : r.routeVCs = []
  vcAlloc : r.vcAllocVCs = []
  swHold : r.swHoldVCs = []
  swAlloc : r.swAllocVCs = []
  crossbar : r.crossbarFlits = []

/-- A flit has been sent in this step and waits before the crossbar. -/
def HasSent (r : Router) : Prop := ∃ c ∈ r.crossbarFlits, c.isStarted = false

theorem Sent.hasSent {x : ℤ} {f : Flit} {rest : List Flit}
    {dest : BufferState} (hsent : Sent cfg r i v x done stay f rest dest r')
    (hdone : ∀ r, (done r).backdrop = r.backdrop) (hstay : ∀ r, (stay r).backdrop = r.backdrop) :
    HasSent r' := by
  have hcrossbar : r'.crossbarFlits = _ :=
    congrArg Backdrop.crossbarFlits (hsent.backdrop_eq hdone hstay)
  unfold HasSent
  rw [hcrossbar]
  exact ⟨_, mem_append_right _ (mem_singleton_self _), rfl⟩

theorem updateStage_idle {β : Type} {queue : Router → List β}
    {stage : Router → Except Fault Router} {s s' : Bool × Router}
    (h : updateStage queue stage s = .ok s') (hidle : s'.1 = false) :
    s.1 = false ∧ queue s'.2 = [] := by
  rcases ite_ok.mp h with ⟨hempty, h⟩ | ⟨-, h⟩
  · cases h
    exact ⟨hidle, List.isEmpty_iff.mp hempty⟩
  · obtain ⟨r, -, rfl⟩ := bind_return_ok.mp h
    simp only [Bool.or_eq_false_iff, Bool.not_eq_false', List.isEmpty_iff] at hidle
    exact hidle

theorem procCredits_keptByUpdates (cs : List (ℤ × Credit × ℤ)) :
    KeptByUpdates cfg env (fun r => r.procCredits = cs) where
  route _ _ hitem _ h := by
    obtain ⟨-, -, -, routeSet, rfl⟩ := routeItem_eq_ok hitem
    exact h
  vcAlloc _ _ hitem _ h := by
    obtain ⟨-, -, -, ⟨-, rfl⟩ | ⟨-, o, w, dest, -, -, rfl⟩⟩ := vcAllocItem_eq_ok hitem
    · exact h
    · rwa [allocated_eq]
  swHold _ _ hitem _ h := by
    obtain ⟨-, -, -, -, ⟨-, -, -, -, -, -, f, rest, dest, hsent⟩ | ⟨-, rfl⟩⟩ :=
      swHoldItem_core hitem
    · exact (congrArg Backdrop.procCredits
        (hsent.backdrop_eq (fun _ => rfl) (fun _ => rfl))).trans h
    · exact h
  swAlloc _ _ hitem _ h := by
    obtain ⟨-, -, -, ⟨-, rfl⟩ | ⟨-, -, -, -, -, r₁, hequipped, -, -, f, rest, dest, hsent⟩⟩ :=
      swAllocItem_core hitem
    · exact h
    · have hr₁ : r₁.procCredits = cs := by
        cases hequipped with
        | already h₁ =>
          rwa [h₁]
        | piggyback _ _ _ hcore => exact (congrArg procCredits hcore :).trans h
      exact (congrArg Backdrop.procCredits
        (hsent.backdrop_eq (fun _ => rfl) (backdrop_stays _ _ _))).trans hr₁
  switch _ _ hitem _ h := by
    obtain ⟨-, -, rfl⟩ := switchItem_eq_ok hitem
    exact h

theorem vcAllocUpdate_routeVCs (h : vcAllocUpdate cfg env r = .ok r') (hr : r.routeVCs = []) :
    r'.routeVCs = [] := by
  refine inv_of_drain (I := fun r => r.routeVCs = []) (fun _ _ hitem hr => ?_)
    vcAllocItem_queue (require_ok.mp h).2 hr
  obtain ⟨-, -, -, ⟨-, rfl⟩ | ⟨-, o, w, dest, -, -, rfl⟩⟩ := vcAllocItem_eq_ok hitem
  · exact hr
  · rwa [allocated_eq]

/-- The stages before the switch have nothing to do, unless a flit has just been sent. -/
def SettledVCs (r : Router) : Prop := HasSent r ∨ r.routeVCs = [] ∧ r.vcAllocVCs = []

theorem swHoldUpdate_settled (h : swHoldUpdate cfg env r = .ok r') (hr : SettledVCs r) :
    SettledVCs r' := by
  refine inv_of_drain (I := SettledVCs) (fun _ _ hitem hr => ?_) swHoldItem_queue h hr
  obtain ⟨-, -, -, -, ⟨-, -, -, -, -, -, f, rest, dest, hsent⟩ | ⟨-, rfl⟩⟩ :=
    swHoldItem_core hitem
  · exact .inl (hsent.hasSent (fun _ => rfl) (fun _ => rfl))
  · exact hr

/-- … nor has the hold stage. -/
def Settled (cfg : RouterConfig) (r : Router) : Prop :=
  HasSent r ∨
    (r.routeVCs = [] ∧ r.vcAllocVCs = []) ∧ (cfg.holdSwitchForPacket = true → r.swHoldVCs = [])

theorem swAllocUpdate_settled (h : swAllocUpdate cfg env r = .ok r') (hr : Settled cfg r) :
    Settled cfg r' := by
  refine inv_of_drain (I := Settled cfg) (fun _ _ hitem hr => ?_) swAllocItem_queue h hr
  obtain ⟨-, -, -, ⟨-, rfl⟩ | ⟨-, -, -, -, -, r₁, -, -, -, f, rest, dest, hsent⟩⟩ :=
    swAllocItem_core hitem
  · exact hr
  · exact .inl (hsent.hasSent (fun _ => rfl) (backdrop_stays _ _ _))

/-- A flit that has just been sent is still before the crossbar after `_SwitchUpdate`. -/
theorem switchUpdate_hasSent (h : switchUpdate cfg env r = .ok r') (hr : HasSent r) :
    HasSent r' := by
  refine inv_of_drain (I := HasSent) (fun hq hdue hitem hr => ?_) switchItem_queue h hr
  obtain ⟨-, -, rfl⟩ := switchItem_eq_ok hitem
  obtain ⟨c, hc, hstarted⟩ := hr
  rw [hq] at hc
  refine ⟨c, ?_, hstarted⟩
  cases hc with
  | head => simp [Crossing.isDue, Crossing.isStarted] at hdue hstarted; omega
  | tail _ hc => rwa [hq]

theorem switchUpdate_queues (h : switchUpdate cfg env r = .ok r') :
    r'.routeVCs = r.routeVCs ∧ r'.vcAllocVCs = r.vcAllocVCs ∧ r'.swHoldVCs = r.swHoldVCs ∧
      r'.swAllocVCs = r.swAllocVCs := by
  refine inv_of_drain (I := fun s => s.routeVCs = r.routeVCs ∧ s.vcAllocVCs = r.vcAllocVCs ∧
    s.swHoldVCs = r.swHoldVCs ∧ s.swAllocVCs = r.swAllocVCs) (fun _ _ hitem hr => ?_)
    switchItem_queue h ⟨rfl, rfl, rfl, rfl⟩
  obtain ⟨-, -, rfl⟩ := switchItem_eq_ok hitem
  exact hr

theorem updateStages_done {s s' : Bool × Router} (h : updateStages cfg env s = .ok s')
    (hcredits : s.1 = !s.2.procCredits.isEmpty)
    (hhold : cfg.holdSwitchForPacket = false → s'.2.swHoldVCs = []) (hidle : s'.1 = false) :
    Done s'.2 := by
  have hproc := (procCredits_keptByUpdates s.2.procCredits).updateStages h rfl
  obtain ⟨s₁, h₁, h⟩ := bind_ok.mp h
  obtain ⟨s₂, h₂, h⟩ := bind_ok.mp h
  obtain ⟨s₃, h₃, h⟩ := bind_ok.mp h
  obtain ⟨s₄, h₄, h₅⟩ := bind_ok.mp h
  -- the flag is false throughout, so each stage leaves its own queue empty
  obtain ⟨hidle₄, hcrossbar⟩ := updateStage_idle h₅ hidle
  obtain ⟨hidle₃, halloc⟩ := updateStage_idle h₄ hidle₄
  have hhold₃ : s₂.1 = false ∧ (cfg.holdSwitchForPacket = true → s₃.2.swHoldVCs = []) := by
    rcases ite_ok.mp h₃ with ⟨-, h₃⟩ | ⟨hno, h₃⟩
    · obtain ⟨hidle₂, hempty⟩ := updateStage_idle h₃ hidle₃
      exact ⟨hidle₂, fun _ => hempty⟩
    · cases h₃
      exact ⟨hidle₃, fun hyes => absurd hyes hno⟩
  obtain ⟨hidle₁, hvc⟩ := updateStage_idle h₂ hhold₃.1
  obtain ⟨hidle₀, hroute⟩ := updateStage_idle h₁ hidle₁
  have hroute₂ : s₂.2.routeVCs = [] :=
    KeptByUpdates.updateStage (I := fun r => r.routeVCs = []) vcAllocUpdate_routeVCs h₂ hroute
  have hsettled₃ : SettledVCs s₃.2 := by
    rcases ite_ok.mp h₃ with ⟨-, h₃⟩ | ⟨-, h₃⟩
    · exact KeptByUpdates.updateStage swHoldUpdate_settled h₃ (.inr ⟨hroute₂, hvc⟩)
    · cases h₃
      exact .inr ⟨hroute₂, hvc⟩
  have hsettled₄ : Settled cfg s₄.2 :=
    KeptByUpdates.updateStage swAllocUpdate_settled h₄ (hsettled₃.imp_right (⟨·, hhold₃.2⟩))
  -- no flit has been sent, as it would still be before the crossbar
  have hsame := KeptByUpdates.updateStage
    (I := fun r => HasSent s₄.2 → HasSent r) (fun h hr hs => switchUpdate_hasSent h (hr hs)) h₅ id
  obtain ⟨hempty₄, hheld₄⟩ := hsettled₄.resolve_left fun hsent => by
    obtain ⟨c, hc, -⟩ := hsame hsent
    rw [hcrossbar] at hc
    exact absurd hc not_mem_nil
  have hqueues := KeptByUpdates.updateStage (I := fun r => r.routeVCs = s₄.2.routeVCs ∧
    r.vcAllocVCs = s₄.2.vcAllocVCs ∧ r.swHoldVCs = s₄.2.swHoldVCs ∧
    r.swAllocVCs = s₄.2.swAllocVCs) (fun h hr => by
      obtain ⟨h₁, h₂, h₃, h₄⟩ := switchUpdate_queues h
      exact ⟨h₁.trans hr.1, h₂.trans hr.2.1, h₃.trans hr.2.2.1, h₄.trans hr.2.2.2⟩) h₅
    ⟨rfl, rfl, rfl, rfl⟩
  have hheld : s'.2.swHoldVCs = [] := by
    cases hcfg : cfg.holdSwitchForPacket with
    | false => exact hhold hcfg
    | true => exact hqueues.2.2.1.trans (hheld₄ hcfg)
  rw [hcredits, Bool.not_eq_false', List.isEmpty_iff] at hidle₀
  exact ⟨hproc.trans hidle₀, hqueues.1.trans hempty₄.1, hqueues.2.1.trans hempty₄.2, hheld,
    hqueues.2.2.2.trans halloc, hcrossbar⟩

theorem internalStep_done (h : internalStep cfg env r = .ok r')
    (hhold : cfg.holdSwitchForPacket = false → HoldsNothing r')
    (hr : r.active = false → Done r) (hactive : r'.active = false) : Done r' := by
  rcases ite_ok.mp h with ⟨-, h⟩ | ⟨hno, h⟩
  · obtain ⟨r₁, -, h⟩ := bind_ok.mp h
    obtain ⟨r₂, h₂, h⟩ := bind_ok.mp h
    obtain ⟨s, h₃, h⟩ := bind_ok.mp h
    obtain rfl := outputQueuing_eq_ok h
    have hev := evaluateStages_ends.of_eq_ok h₂
    have hcredits : r₂.procCredits = r₁.procCredits := by rw [hev.same]
    have hdone : Done s.2 := updateStages_done h₃ (by rw [hcredits])
      (fun hcfg => (hhold hcfg).1) hactive
    exact ⟨hdone.procCredits, hdone.route, hdone.vcAlloc, hdone.swHold, hdone.swAlloc,
      hdone.crossbar⟩
  · cases h
    exact hr hactive

theorem done_reached (h : Reached cfg bufCfg C now r) : r.active = false → Done r := by
  induction h with
  | new _ _ _ => exact fun _ => ⟨rfl, rfl, rfl, rfl, rfl, rfl⟩
  | receive flits credits _ ih =>
    intro hactive
    simp only [readInputs, Bool.or_eq_false_iff, Bool.not_eq_false', List.isEmpty_iff] at hactive
    obtain ⟨⟨hactive, -⟩, hnone⟩ := hactive
    obtain ⟨hproc, hroute, hvc, hhold, halloc, hcrossbar⟩ := ih hactive
    refine ⟨?_, hroute, hvc, hhold, halloc, hcrossbar⟩
    simp only [readInputs, hproc, hnone, append_nil]
  | step hnow hC h hstep ih =>
    exact internalStep_done hstep (fun hcfg => holdsNothing_reached hcfg (h.step hnow hC hstep)) ih
  | write _ ih =>
    intro hactive
    obtain ⟨hproc, hroute, hvc, hhold, halloc, hcrossbar⟩ := ih hactive
    exact ⟨hproc, hroute, hvc, hhold, halloc, hcrossbar⟩
  | wait _ _ ih => exact ih

theorem buffer_eq_nil_of_done (hcfg : cfg.Accepted) (h : Done r)
    (hplace : (r.filing i v).InPlace cfg) : (r.vcAt i v).buffer = [] := by
  have hnone : ∀ {q : List Entry}, q = [] → queued q i v = 0 := by
    rintro _ rfl
    rfl
  have hroute : (r.filing i v).route = 0 := hnone h.route
  have hvcAlloc : (r.filing i v).vcAlloc = 0 := hnone h.vcAlloc
  have hswAlloc : (r.filing i v).swAlloc = 0 := hnone h.swAlloc
  have hswHold : (r.filing i v).swHold = 0 := hnone h.swHold
  cases hs : (r.filing i v).vc.state with
  | idle => exact (hplace.idle hs).1
  | routing => exact absurd ((hplace.routing hs).2.1.symm.trans hroute) Nat.one_ne_zero
  | vc_alloc =>
    -- it waits for a VC allocator, or without one competes for the switch
    obtain ⟨-, -, hvc, hsw, -⟩ := hplace.vc_alloc hs
    cases hallocator : cfg.hasVCAllocator with
    | true =>
      rw [hvcAlloc, if_pos hallocator] at hvc
      cases hvc
    | false =>
      rw [hswAlloc, if_pos (hcfg.piggyback hallocator)] at hsw
      cases hsw
  | active =>
    obtain ⟨-, -, hbids⟩ := hplace.active hs
    by_contra hne
    rw [hswAlloc, hswHold, if_neg (show (r.filing i v).vc.buffer ≠ [] from hne)] at hbids
    cases hbids

/-- A router that is not active has nothing in its queues, and every VC is in the queues its
state asks for; so all VCs of a router that is not active are empty. -/
theorem idle_of_inactive (h : Reached cfg bufCfg C now r) :
    (r.active = false → Done r) ∧ (∀ i v, (r.filing i v).InPlace cfg) ∧
      (r.active = false → ∀ i v, (r.vcAt i v).buffer = []) := by
  have hplace : ∀ i v, (r.filing i v).InPlace cfg := fun i v => (tidy_reached h i v).1
  exact ⟨done_reached h, hplace, fun hactive i v =>
    buffer_eq_nil_of_done h.accepted (done_reached h hactive) (hplace i v)⟩

/-- … as in this run, in which a packet has arrived and waits for an output VC. -/
theorem idle_of_inactive_arrival :
    let cfg : RouterConfig := { inputs := 1, outputs := 1, vcs := 1, classes := 1 }
    let f : Flit := { id := 0, pid := 0, cl := 0, src := 0, dest := 0, vc := 0, head := true }
    ∃ s, play cfg { numVCs := 1 }
      [{ flits := fun _ => some f, env := .greedy cfg fun _ _ => .clear }]
        = .ok s ∧ (s.2.vcAt 0 0).state = .vc_alloc ∧ (s.2.filing 0 0).InPlace cfg := by
  intro cfg f
  obtain ⟨s, hs, hstate, hreached⟩ := @exists_reached cfg { numVCs := 1 } (fun _ _ => True)
    (.greedy cfg fun _ _ => .clear)
      [{ flits := fun _ => some f, env := .greedy cfg fun _ _ => .clear }]
    (fun s => (s.2.vcAt 0 0).state = .vc_alloc) (by decide) rfl (by simp) (fun _ _ => trivial)
    (by decide +kernel)
  exact ⟨s, hs, of_decide_eq_true hstate, (idle_of_inactive hreached).2.1 0 0⟩

end Router

end BookSim
