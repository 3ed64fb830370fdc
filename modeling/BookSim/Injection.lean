/-
# Injection — is a VC ever taken that is in use?

When it is the turn of a class, a head flit at the front of its queue is given a VC that is
free and not full; the VC is noted in the flit.  If a flit of higher priority is found
afterwards, the head stays where it is and keeps its VC, without holding it: when its time
comes the VC is not looked for again, and another class may have taken it.

    Pick q vc            the head at the front of `q` has been given `vc`
    Settled … subnet n   nobody's pick is offered to another class, and heads that are
                         offered a common VC have the same priority

`Settled` is a condition on the queues before an injection.  In a run that meets it no VC is
taken while in use (`step_ne_bufferTaken`): the picks at a node are free and different
(`PicksOK`), whatever the priorities, credits and arrivals are.
-/
import BookSim.TrafficManager
import Mathlib.Data.List.Chain

namespace BookSim

open List

namespace TrafficManager

open Function (update update_eq_self update_of_ne update_self)

/-! ## Injection queues -/

/-- What waits in an injection queue of class `c`: the rest of a packet and then whole
packets.  Only the first flit can have a VC. -/
structure InjectionQueue (c : ℕ) (q : List Flit) : Prop where
  cl : ∀ f ∈ q, f.cl = c
  fresh : ∀ f ∈ q.tail, f.vc = -1
  chain : q.IsChain fun f g => g.head = f.tail
  closed : ∀ f ∈ q.getLast?, f.tail = true

namespace InjectionQueue

variable {c : ℕ} {f : Flit} {q : List Flit}

theorem nil (c : ℕ) : InjectionQueue c [] :=
  ⟨fun _ h => (nomatch h), fun _ h => (nomatch h), .nil, fun _ h => (nomatch h)⟩

theorem setVC (h : InjectionQueue c (f :: q)) (vc : ℤ) :
    InjectionQueue c ({ f with vc := vc } :: q) := by
  refine ⟨?_, h.fresh, ?_, ?_⟩
  · intro g hg
    rcases mem_cons.mp hg with rfl | hg
    · exact h.cl f mem_cons_self
    · exact h.cl g (mem_cons_of_mem f hg)
  · cases q with
    | nil => exact .singleton _
    | cons g q =>
      obtain ⟨hfg, hq⟩ := isChain_cons_cons.mp h.chain
      exact isChain_cons_cons.mpr ⟨hfg, hq⟩
  · cases q with
    | nil =>
      intro g hg
      obtain rfl := Option.mem_some.mp hg
      exact h.closed f (Option.mem_some.mpr rfl)
    | cons g q => exact h.closed

theorem tail (h : InjectionQueue c (f :: q)) : InjectionQueue c q := by
  refine ⟨fun g hg => h.cl g (mem_cons_of_mem f hg), ?_, h.chain.tail, ?_⟩
  · exact fun g hg => h.fresh g (mem_of_mem_tail hg)
  · intro g hg
    cases q with
    | nil => exact nomatch hg
    | cons g' q => exact h.closed g hg

theorem next_of_not_tail (h : InjectionQueue c (f :: q)) (hf : f.tail = false) :
    ∃ g rest, q = g :: rest ∧ g.head = false := by
  cases q with
  | nil => exact absurd (h.closed f (Option.mem_some.mpr rfl)) (by rw [hf]; decide)
  | cons g rest => exact ⟨g, rest, rfl, (isChain_cons_cons.mp h.chain).1.trans hf⟩

theorem passBack (h : InjectionQueue c (f :: q)) : InjectionQueue c (passBack f q) := by
  cases q with
  | nil => exact nil c
  | cons g rest =>
    by_cases hf : f.tail = true
    · rw [TrafficManager.passBack, if_pos hf]
      exact h.tail
    · rw [TrafficManager.passBack, if_neg hf]
      exact h.tail.setVC f.vc

theorem append {p : List Flit} (hq : InjectionQueue c q) (hp : InjectionQueue c p)
    (hvc : ∀ f ∈ p, f.vc = -1) (hhead : ∀ f ∈ p.head?, f.head = true) :
    InjectionQueue c (q ++ p) := by
  refine ⟨?_, ?_, ?_, ?_⟩
  · intro f hf
    rcases mem_append.mp hf with hf | hf
    · exact hq.cl f hf
    · exact hp.cl f hf
  · intro f hf
    cases q with
    | nil => exact hvc f (mem_of_mem_tail hf)
    | cons g q =>
      rcases mem_append.mp hf with hf | hf
      · exact hq.fresh f hf
      · exact hvc f hf
  · refine isChain_append.mpr ⟨hq.chain, hp.chain, fun f hf g hg => ?_⟩
    rw [hhead g hg, hq.closed f hf]
  · intro f hf
    cases p with
    | nil => exact hq.closed f (by rwa [append_nil] at hf)
    | cons g p => exact hp.closed f (by rwa [List.getLast?_append_cons] at hf)

end InjectionQueue

theorem injectionQueue_packetFlits (id pid source dest size cl : ℕ) (time pri : ℤ) :
    InjectionQueue cl (packetFlits id pid source dest size cl time pri) := by
  refine ⟨?_, ?_, ?_, ?_⟩
  · intro f hf
    obtain ⟨i, -, rfl⟩ := mem_map.mp hf
    rfl
  · intro f hf
    obtain ⟨i, -, rfl⟩ := mem_map.mp (mem_of_mem_tail hf)
    rfl
  · cases size with
    | zero => exact .nil
    | succ size =>
      refine (isChain_map _).mpr ((isChain_range_succ _ _).mpr fun i hi => ?_)
      simp [Nat.ne_of_lt hi]
  · intro f hf
    cases size with
    | zero => exact nomatch hf
    | succ size =>
      rw [packetFlits, range_succ, map_append, map_singleton, List.getLast?_concat] at hf
      obtain rfl := Option.mem_some.mp hf
      exact decide_eq_true rfl

theorem head_packetFlits (id pid source dest size cl : ℕ) (time pri : ℤ) :
    ∀ f ∈ (packetFlits id pid source dest size cl time pri).head?, f.head = true := by
  intro f hf
  cases size with
  | zero => exact nomatch hf
  | succ size =>
    rw [packetFlits, range_succ_eq_map, map_cons, List.head?_cons] at hf
    obtain rfl := Option.mem_some.mp hf
    rfl

theorem vc_packetFlits (id pid source dest size cl : ℕ) (time pri : ℤ) :
    ∀ f ∈ packetFlits id pid source dest size cl time pri, f.vc = -1 := by
  intro f hf
  obtain ⟨i, -, rfl⟩ := mem_map.mp hf
  rfl

/-! ## Picks -/

/-- The head at the front of `q` has been given `vc` and has not gone yet. -/
def Pick (q : List Flit) (vc : ℤ) : Prop :=
  ∃ f rest, q = f :: rest ∧ f.head = true ∧ f.vc = vc ∧ vc ≠ -1

/-- The front flit of `q` looks for a VC. -/
def Seeks (q : List Flit) (f : Flit) : Prop := ∃ rest, q = f :: rest ∧ Seeking f

/-- `vc` lies in a range that the routing function offers `f`. -/
def Offers (cfg : TrafficConfig) (net : NetworkSide) (subnet n : ℕ) (f : Flit) (vc : ℤ) : Prop :=
  ∃ range, offeredRange cfg net subnet n f = .ok range ∧ range.1 ≤ vc ∧ vc ≤ range.2

/-- Before an injection: no pick is offered to another class of the subnet that looks for a
VC, and two classes that look for a VC and are offered a common one have the same
priority. -/
structure Settled (cfg : TrafficConfig) (net : NetworkSide) (subnet n : ℕ)
    (queues : ℕ → List Flit) : Prop where
  picks : ∀ c c' vc f, c ≠ c' → cfg.subnet c = subnet → cfg.subnet c' = subnet →
    Pick (queues c) vc → Seeks (queues c') f → ¬ Offers cfg net subnet n f vc
  pri : ∀ c c' vc f f', c ≠ c' → cfg.subnet c = subnet → cfg.subnet c' = subnet →
    Seeks (queues c) f → Seeks (queues c') f' → Offers cfg net subnet n f vc →
    Offers cfg net subnet n f' vc → f.pri = f'.pri

/-- The picks at one node: nobody holds them, and no two classes of a subnet have the same. -/
structure PicksOK (cfg : TrafficConfig) (bufs : ℕ → BufferState) (queues : ℕ → List Flit) :
    Prop where
  queue : ∀ c, InjectionQueue c (queues c)
  free : ∀ c vc, Pick (queues c) vc → (bufs (cfg.subnet c)).inUseBy vc < 0
  apart : ∀ c c' vc, c ≠ c' → cfg.subnet c = cfg.subnet c' → Pick (queues c) vc →
    ¬ Pick (queues c') vc

theorem pick_cons {f : Flit} {rest : List Flit} {vc : ℤ} :
    Pick (f :: rest) vc ↔ f.head = true ∧ f.vc = vc ∧ vc ≠ -1 := by
  constructor
  · rintro ⟨g, rest', heq, h⟩
    cases heq
    exact h
  · exact fun h => ⟨f, rest, rfl, h⟩

theorem not_pick_nil {vc : ℤ} : ¬ Pick [] vc := fun ⟨_, _, h, _⟩ => nomatch h

theorem InjectionQueue.not_pick_passBack {c : ℕ} {f : Flit} {q : List Flit}
    (h : InjectionQueue c (f :: q)) {vc : ℤ} : ¬ Pick (TrafficManager.passBack f q) vc := by
  cases q with
  | nil => exact not_pick_nil
  | cons g rest =>
    by_cases hf : f.tail = true
    · rw [TrafficManager.passBack, if_pos hf, pick_cons, h.fresh g mem_cons_self]
      exact fun hpick => hpick.2.2 hpick.2.1.symm
    · obtain ⟨g', rest', heq, hhead⟩ := h.next_of_not_tail (Bool.eq_false_iff.mpr hf)
      cases heq
      rw [TrafficManager.passBack, if_neg hf, pick_cons]
      exact fun hpick => absurd hpick.1 (by rw [hhead]; decide)

/-! ## The loop over the classes -/

section Selection

variable {cfg : TrafficConfig} {net : NetworkSide} {tm : TrafficManager} {subnet n : ℕ}
  {queues : ℕ → List Flit} {best : Option Flit}

/-- The loop over the classes, after some of them. -/
structure Selecting (cfg : TrafficConfig) (net : NetworkSide) (tm : TrafficManager)
    (subnet n : ℕ) (queues : ℕ → List Flit) (best : Option Flit) : Prop where
  picks : PicksOK cfg (tm.bufStates n) queues
  /-- The best flit is the front of its queue, and a head has a VC of this subnet. -/
  front : ∀ f ∈ best, (∃ rest, queues f.cl = f :: rest) ∧
    (f.head = true → cfg.subnet f.cl = subnet ∧ f.vc ≠ -1)
  /-- A queue is as it was, or its front flit has got a VC of those it was offered; then the
  best flit has no lower priority. -/
  given : ∀ c, queues c = tm.partialPackets n c ∨ ∃ f rest vc, cfg.subnet c = subnet ∧
    tm.partialPackets n c = f :: rest ∧ Seeking f ∧ queues c = { f with vc := vc } :: rest ∧
    vc ≠ -1 ∧ Offers cfg net subnet n f vc ∧ ∃ b ∈ best, f.pri ≤ b.pri

/-- A flit that is looked at and does not look for a VC itself changes the best flit only. -/
theorem Selecting.keep (h : Selecting cfg net tm subnet n queues best)
    {c : ℕ} {cf : Flit} {rest : List Flit} (hsubnet : cfg.subnet c = subnet)
    (hqueue : queues c = cf :: rest) (hcl : cf.cl = c) (hpri : ∀ f ∈ best, f.pri < cf.pri)
    (hvc : cf.vc ≠ -1) : Selecting cfg net tm subnet n queues (some cf) := by
  refine ⟨h.picks, ?_, fun c' => ?_⟩
  · intro f hf
    obtain rfl := Option.mem_some.mp hf
    exact ⟨⟨rest, by rw [hcl, hqueue]⟩, fun _ => ⟨by rw [hcl, hsubnet], hvc⟩⟩
  · rcases h.given c' with hsame | ⟨f, rest', vc, hs, hq, hseek, hgiven, hne, hoffer, b, hb, hle⟩
    · exact .inl hsame
    · exact .inr ⟨f, rest', vc, hs, hq, hseek, hgiven, hne, hoffer, cf, rfl,
        hle.trans (hpri b hb).le⟩

theorem Selecting.pick_ne (h : Selecting cfg net tm subnet n queues best)
    (hsettled : Settled cfg net subnet n (tm.partialPackets n)) {c c' : ℕ} {cf : Flit} {vc : ℤ}
    (hne : c' ≠ c) (hsubnet : cfg.subnet c = subnet) (hsubnet' : cfg.subnet c' = subnet)
    (hseeks : Seeks (tm.partialPackets n c) cf) (hpri : ∀ f ∈ best, f.pri < cf.pri)
    (hoffer : Offers cfg net subnet n cf vc) : ¬ Pick (queues c') vc := by
  intro hpick
  rcases h.given c' with hsame | ⟨f, rest, vc', -, hq, hseek, hgiven, -, hoffer', b, hb, hle⟩
  · rw [hsame] at hpick
    exact hsettled.picks c' c vc cf hne hsubnet' hsubnet hpick hseeks hoffer
  · rw [hgiven, pick_cons] at hpick
    obtain ⟨-, hvc, -⟩ := hpick
    subst hvc
    have heq := hsettled.pri c' c _ f cf hne hsubnet' hsubnet ⟨rest, hq, hseek⟩ hseeks hoffer'
      hoffer
    have hlt := hpri b hb
    omega

theorem Selecting.give (h : Selecting cfg net tm subnet n queues best)
    (hsettled : Settled cfg net subnet n (tm.partialPackets n)) {c : ℕ} {cf : Flit}
    {rest : List Flit} {vc : ℤ} (hsubnet : cfg.subnet c = subnet) (hqueue : queues c = cf :: rest)
    (hcl : cf.cl = c) (hpri : ∀ f ∈ best, f.pri < cf.pri) (hseek : Seeking cf)
    (hoffer : Offers cfg net subnet n cf vc) (hfree : (tm.bufStates n subnet).inUseBy vc < 0)
    (hvc : vc ≠ -1) :
    Selecting cfg net tm subnet n (update queues c ({ cf with vc := vc } :: rest))
      (some { cf with vc := vc }) := by
  have hstart : tm.partialPackets n c = cf :: rest := by
    rcases h.given c with hsame | ⟨f, rest', vc', -, -, -, hgiven, hne, -⟩
    · rw [← hsame, hqueue]
    · rw [hqueue] at hgiven
      cases hgiven
      exact absurd hseek.2 hne
  have hother := fun (c' : ℕ) (hne : c' ≠ c) (hs : cfg.subnet c' = subnet) =>
    h.pick_ne hsettled hne hsubnet hs ⟨rest, hstart, hseek⟩ hpri hoffer
  refine ⟨⟨fun c' => ?_, fun c' vc' hpick => ?_, fun c₁ c₂ vc' hne hs hpick₁ hpick₂ => ?_⟩, ?_, ?_⟩
  · by_cases hc : c' = c
    · subst hc
      rw [update_self]
      exact (hqueue ▸ h.picks.queue c').setVC vc
    · rw [update_of_ne hc]
      exact h.picks.queue c'
  · by_cases hc : c' = c
    · subst hc
      rw [update_self, pick_cons] at hpick
      rwa [hsubnet, ← hpick.2.1]
    · rw [update_of_ne hc] at hpick
      exact h.picks.free c' vc' hpick
  · -- Two picks: one of them is the new one, or both were there before.
    by_cases h₁ : c₁ = c
    · subst h₁
      rw [update_self, pick_cons] at hpick₁
      rw [update_of_ne hne.symm] at hpick₂
      obtain rfl : vc = vc' := hpick₁.2.1
      exact hother c₂ hne.symm (hs ▸ hsubnet) hpick₂
    · by_cases h₂ : c₂ = c
      · subst h₂
        rw [update_self, pick_cons] at hpick₂
        rw [update_of_ne hne] at hpick₁
        obtain rfl : vc = vc' := hpick₂.2.1
        exact hother c₁ hne (hs ▸ hsubnet) hpick₁
      · rw [update_of_ne h₁] at hpick₁
        rw [update_of_ne h₂] at hpick₂
        exact h.picks.apart c₁ c₂ vc' hne hs hpick₁ hpick₂
  · simp_all
  · intro c'
    by_cases hc : c' = c
    · subst hc
      exact .inr ⟨cf, rest, vc, hsubnet, hstart, hseek, update_self .., hvc, hoffer,
        _, rfl, le_refl _⟩
    · rcases h.given c' with hsame | ⟨f, rest', vc', hs, hq, hsk, hgiven, hne, hof, b, hb, hle⟩
      · exact .inl (by rw [← hsame]; exact update_of_ne hc ..)
      · exact .inr ⟨f, rest', vc', hs, hq, hsk, by rw [← hgiven]; exact update_of_ne hc ..,
          hne, hof, _, rfl, hle.trans (hpri b hb).le⟩

theorem Selecting.consider {s s' : (ℕ → List Flit) × Option Flit}
    (h : Selecting cfg net tm subnet n s.1 s.2)
    (hsettled : Settled cfg net subnet n (tm.partialPackets n)) {c : ℕ}
    (hs : considerClass cfg net tm subnet n s c = .ok s') :
      Selecting cfg net tm subnet n s'.1 s'.2 := by
  rcases considerClass_eq_ok hs with rfl |
    ⟨cf, rest, cf', hsubnet, hqueue, hcl, hpri, hpick, hq, hb⟩
  · exact h
  obtain ⟨queues, best⟩ := s'
  simp only at hq hb
  subst hq
  rcases pickVC_eq_ok hpick with ⟨-, rfl⟩ | ⟨hseek, range, vc, hrange, rfl, hvc⟩
  · -- The front flit has its VC already, or is no head: the queues stay as they are.
    rw [← hqueue, update_eq_self]
    rcases hb with ⟨rfl, -⟩ | ⟨rfl, hvc⟩
    · exact h
    · exact h.keep hsubnet hqueue hcl hpri hvc
  · rcases hvc with rfl | ⟨hlo, hhi, hfree, hroom⟩
    · have hsame : ({ cf with vc := -1 } : Flit) = cf := by rw [← hseek.2]
      rcases hb with ⟨rfl, -⟩ | ⟨-, hne⟩
      · rwa [hsame, ← hqueue, update_eq_self]
      · exact absurd rfl hne
    · by_cases hvc : vc = -1
      · have hsame : ({ cf with vc := vc } : Flit) = cf := by rw [hvc, ← hseek.2]
        rcases hb with ⟨rfl, -⟩ | ⟨-, hne⟩
        · rwa [hsame, ← hqueue, update_eq_self]
        · exact absurd hvc hne
      · rcases hb with ⟨-, hfull | hfull⟩ | ⟨rfl, -⟩
        · exact absurd hfull hvc
        · exact absurd hfull (by simp only [hroom]; decide)
        · exact h.give hsettled hsubnet hqueue hcl hpri hseek ⟨range, hrange, hlo, hhi⟩ hfree hvc

end Selection

/-! ## Faults -/

/-- Any fault but the one of a VC taken while in use. -/
def NotTaken (e : Fault) : Prop := ∀ vc, e ≠ .bufferTaken vc

theorem notTaken_assertion (text : String) : NotTaken (.assertion text) := nofun

theorem notTaken_ofPolicy {e : Fault} (h : e.OfPolicy) : NotTaken e := by
  rintro vc rfl
  exact h

theorem noqRange_notTaken (numOutputs : ℕ) (port vcStart vcEnd : ℤ) :
    Ends (fun _ => True) NotTaken (noqRange numOutputs port vcStart vcEnd) := by
  refine .require (fun _ => .require (fun _ => .require (fun _ => .returns _) ?_) ?_) ?_
  all_goals exact fun _ => notTaken_assertion _

section Faults

variable {cfg : TrafficConfig} {net : NetworkSide} {tm : TrafficManager} {subnet n : ℕ}

theorem offeredRange_notTaken (cf : Flit) :
    Ends (fun _ => True) NotTaken (offeredRange cfg net subnet n cf) := by
  unfold offeredRange
  split
  · refine .require (fun _ => .ite (fun _ => ?_) fun _ => .returns _) fun _ => notTaken_assertion _
    split
    · exact noqRange_notTaken _ _ _ _
    · exact .error (notTaken_assertion _)
  · exact .error (notTaken_assertion _)

theorem considerClass_notTaken (s : (ℕ → List Flit) × Option Flit) (c : ℕ) :
    Ends (fun _ => True) NotTaken (considerClass cfg net tm subnet n s c) := by
  refine .ite (fun _ => .returns _) fun _ => ?_
  cases s.1 c with
  | nil => exact .returns _
  | cons cf rest =>
    refine .ite (fun _ => .error (notTaken_assertion _)) fun _ => .ite (fun _ => .returns _)
      fun _ => ?_
    refine Ends.bind (P := fun _ => True) ?_ fun cf' _ =>
      .ite (fun _ => .returns _) fun _ => .returns _
    exact .ite (fun _ => (offeredRange_notTaken cf).map _) fun _ => .returns _

theorem heldFlit_notTaken : Ends (fun _ => True) NotTaken (heldFlit cfg tm subnet n) := by
  unfold heldFlit
  cases tm.partialPackets n (tm.lastClass n subnet) with
  | nil => exact .returns _
  | cons f rest =>
    refine .ite (fun _ => ?_) fun _ => .returns _
    exact .require (fun _ => .returns _) fun _ => notTaken_assertion _

theorem selectFlit_ends (hpicks : PicksOK cfg (tm.bufStates n) (tm.partialPackets n))
    (hsettled : Settled cfg net subnet n (tm.partialPackets n)) :
    Ends (fun s => Selecting cfg net tm subnet n s.1 s.2) NotTaken
      (selectFlit cfg net tm subnet n) := by
  refine heldFlit_notTaken.eq_ok.bind fun held hheld => Ends.foldlM (fun s c _ hs => ?_) ?_
  · exact (considerClass_notTaken s c).eq_ok.mono_ok fun _ => hs.consider hsettled
  · refine ⟨hpicks, fun f hf => ?_, fun c => .inl rfl⟩
    obtain ⟨-, hhead, -, rest, hqueue⟩ := heldFlit_eq_ok hheld f hf
    have hcl : f.cl = tm.lastClass n subnet :=
      (hpicks.queue _).cl f (by rw [hqueue]; exact mem_cons_self)
    exact ⟨⟨rest, hcl ▸ hqueue⟩, fun h => absurd h (by rw [hhead]; decide)⟩

theorem takeBuffer_notTaken {b : BufferState} {vc tag : ℤ} (h : b.inUseBy vc < 0) :
    Ends (fun _ => True) NotTaken (b.takeBuffer vc tag) := by
  refine .require (fun _ => .require (fun _ => ?_) fun hin => absurd h hin)
    fun _ => notTaken_assertion _
  exact (b.policy.takeBuffer_raises.mono (fun _ => id) fun _ => notTaken_ofPolicy).map _

theorem sendingFlit_notTaken (now : ℤ) (b : BufferState) (f : Flit) :
    Ends (fun _ => True) NotTaken (b.sendingFlit now f) := by
  refine .require (fun _ => .require (fun _ => ?_) fun _ => nofun) fun _ => notTaken_assertion _
  exact ((Policy.sendingFlit_raises now f _ b.policy).mono (fun _ => id)
    fun _ => notTaken_ofPolicy).map _

theorem processCredit_notTaken (now : ℤ) (b : BufferState) (c : Credit) :
    Ends (fun _ => True) NotTaken (b.processCredit now c) := by
  refine Ends.foldlM (fun b vc _ _ => ?_) trivial
  refine .require (fun _ =>
    .require (fun _ => .require (fun _ => .require (fun _ => ?_) ?_) ?_) ?_) ?_
  · exact ((Policy.freeSlotFor_raises now vc _ _ b.policy).mono (fun _ => id)
      fun _ => notTaken_ofPolicy).map _
  all_goals exact fun _ => nofun

theorem sendFlit_notTaken {f : Flit}
    (h : f.head = true → (tm.bufStates n subnet).inUseBy f.vc < 0) :
    Ends (fun _ => True) NotTaken (sendFlit cfg tm subnet n f) := by
  refine Ends.bind (P := fun _ => True) (.ite (fun hf => takeBuffer_notTaken (h hf))
    fun _ => .returns _) fun taken _ => ?_
  refine (sendingFlit_notTaken _ taken f).bind fun sent _ => ?_
  refine Ends.bind (P := fun _ => True) ?_ fun pri _ => .returns _
  exact .require (fun _ => .returns _) fun _ => notTaken_assertion _

theorem retireFlit_notTaken (actualNode : ℕ → ℕ) (f : Flit) (lane : ℕ) :
    Ends (fun _ => True) NotTaken (tm.retireFlit actualNode f lane) := by
  have hretire : ∀ (tm : TrafficManager) (head tail : Flit),
      Ends (fun _ => True) NotTaken (tm.retirePacketFlits head tail) := fun tm head tail =>
    .require (fun _ => .require (fun _ => .returns _) fun _ => notTaken_assertion _)
      fun _ => notTaken_assertion _
  refine .require (fun _ => .require (fun _ => ?_) fun _ => nofun) fun _ => notTaken_assertion _
  refine .ite (fun _ => .ite (fun _ => hretire _ _ _) fun _ => ?_) fun _ =>
    .ite (fun _ => .returns _) fun _ => .returns _
  split
  · exact .error (notTaken_assertion _)
  · exact .require (fun _ => hretire _ _ _) fun _ => notTaken_assertion _

end Faults

/-! ## Runs -/

section Runs

variable {cfg : TrafficConfig} {net : NetworkSide} {tm tm' : TrafficManager}

/-- The picks at every node. -/
def AllPicksOK (cfg : TrafficConfig) (tm : TrafficManager) : Prop :=
  ∀ n, PicksOK cfg (tm.bufStates n) (tm.partialPackets n)

theorem PicksOK.of_freeStays {bufs bufs' : ℕ → BufferState} {queues : ℕ → List Flit}
    (h : PicksOK cfg bufs queues) (hbufs : ∀ s, BufferState.FreeStays (bufs s) (bufs' s)) :
    PicksOK cfg bufs' queues :=
  ⟨h.queue, fun c vc hpick => hbufs _ vc (h.free c vc hpick), h.apart⟩

/-- The picks after the front flit `f` of its queue has gone: its VC is no other's. -/
theorem PicksOK.send {bufs : ℕ → BufferState} {queues : ℕ → List Flit}
    (h : PicksOK cfg bufs queues) {subnet : ℕ} {f : Flit} {rest : List Flit} {now : ℤ}
    {taken sent : BufferState} (hqueue : queues f.cl = f :: rest)
    (hhead : f.head = true → cfg.subnet f.cl = subnet ∧ f.vc ≠ -1)
    (htaken : (if f.head then (bufs subnet).takeBuffer f.vc f.pid else .ok (bufs subnet)) =
      .ok taken)
    (hsent : taken.sendingFlit now f = .ok sent) :
    PicksOK cfg (update bufs subnet sent) (update queues f.cl (passBack f rest)) := by
  have hq : InjectionQueue f.cl (f :: rest) := hqueue ▸ h.queue f.cl
  have hold : ∀ c vc, Pick (update queues f.cl (passBack f rest) c) vc →
      c ≠ f.cl ∧ Pick (queues c) vc := by
    intro c vc hpick
    by_cases hc : c = f.cl
    · rw [hc, update_self] at hpick
      exact absurd hpick hq.not_pick_passBack
    · rw [update_of_ne hc] at hpick
      exact ⟨hc, hpick⟩
  refine ⟨fun c => ?_, fun c vc hpick => ?_, fun c c' vc hne hs hpick hpick' => ?_⟩
  · by_cases hc : c = f.cl
    · rw [hc, update_self]
      exact hq.passBack
    · rw [update_of_ne hc]
      exact h.queue c
  · obtain ⟨hc, hpick⟩ := hold c vc hpick
    have hfree := h.free c vc hpick
    by_cases hsubnet : cfg.subnet c = subnet
    · rw [hsubnet] at hfree ⊢
      rw [update_self]
      refine BufferState.freeStays_sendingFlit hsent vc ?_
      by_cases hf : f.head = true
      · -- The flit takes its own pick, and that is not the pick of class `c`.
        rw [if_pos hf] at htaken
        obtain ⟨-, -, policy, -, rfl⟩ := BufferState.takeBuffer_eq_ok htaken
        have hne : vc ≠ f.vc := by
          rintro rfl
          exact h.apart c f.cl f.vc hc (hsubnet.trans (hhead hf).1.symm) hpick
            ⟨f, rest, hqueue, hf, rfl, (hhead hf).2⟩
        simpa only [update_of_ne hne] using hfree
      · rw [if_neg hf] at htaken
        cases htaken
        exact hfree
    · rwa [update_of_ne hsubnet]
  · exact h.apart c c' vc hne hs (hold c vc hpick).2 (hold c' vc hpick').2

theorem injectAt_ends {s : TrafficManager × List (ℕ × ℕ × Flit)} {place : ℕ × ℕ}
    (h : AllPicksOK cfg s.1)
    (hsettled : Settled cfg net place.1 place.2 (s.1.partialPackets place.2)) :
    Ends (fun s' => AllPicksOK cfg s'.1) NotTaken (injectAt cfg net s place) := by
  obtain ⟨subnet, n⟩ := place
  refine (selectFlit_ends (h n) hsettled).bind fun selected hsel => ?_
  obtain ⟨queues, best⟩ := selected
  have hothers : ∀ m, m ≠ n → PicksOK cfg (s.1.bufStates m)
      (update s.1.partialPackets n queues m) := fun m hm => by
    rw [update_of_ne hm]
    exact h m
  cases best with
  | none =>
    refine .ok fun m => ?_
    by_cases hm : m = n
    · subst hm
      simpa only [update_self] using hsel.picks
    · exact hothers m hm
  | some f =>
    obtain ⟨⟨rest, hqueue⟩, hhead⟩ := hsel.front f rfl
    simp only at hqueue hhead
    have hfree : f.head = true → (s.1.bufStates n subnet).inUseBy f.vc < 0 := by
      intro hf
      have hpick := hsel.picks.free f.cl f.vc ⟨f, rest, hqueue, hf, rfl, (hhead hf).2⟩
      rwa [(hhead hf).1] at hpick
    refine Ends.bind (Ends.eq_ok (sendFlit_notTaken ?_)) fun sent hsent => .ok ?_
    · exact hfree
    intro m
    obtain ⟨taken, sent', pri, htaken, hsent', heq, -⟩ := sendFlit_eq_ok hsent
    rw [heq]
    by_cases hm : m = n
    · subst hm
      simp only [update_self, update₂_row, hqueue, tail_cons] at htaken hsent' ⊢
      exact hsel.picks.send hqueue hhead htaken hsent'
    · simp only [update₂_row_ne hm]
      exact hothers m hm

/-- Every injection of a cycle finds the queues of its node settled. -/
def SettledAlong (cfg : TrafficConfig) (net : NetworkSide) :
    List (ℕ × ℕ) → TrafficManager × List (ℕ × ℕ × Flit) → Prop
  | [], _ => True
  | place :: rest, s => Settled cfg net place.1 place.2 (s.1.partialPackets place.2) ∧
      ∀ s', injectAt cfg net s place = .ok s' → SettledAlong cfg net rest s'

/-- The condition on a cycle: the state before each of its injections is settled. -/
def Settles (cfg : TrafficConfig) (net : NetworkSide) (tm : TrafficManager) : Prop :=
  ∀ received, receiveCredits cfg net tm = .ok received →
    SettledAlong cfg net (places cfg) (received, [])

theorem inject_ends : ∀ {along : List (ℕ × ℕ)} {s : TrafficManager × List (ℕ × ℕ × Flit)},
    AllPicksOK cfg s.1 → SettledAlong cfg net along s →
      Ends (fun s' => AllPicksOK cfg s'.1) NotTaken (along.foldlM (injectAt cfg net) s)
  | [], _, h, _ => .ok h
  | place :: rest, s, h, hsettled => by
    rw [foldlM_cons]
    have hplace := injectAt_ends h hsettled.1
    cases hs : injectAt cfg net s place with
    | error e => exact .error (hplace.of_eq_error hs)
    | ok s' => exact inject_ends (hplace.of_eq_ok hs) (hsettled.2 s' hs)

theorem receiveCredits_ends (h : AllPicksOK cfg tm) :
    Ends (AllPicksOK cfg) NotTaken (receiveCredits cfg net tm) := by
  refine Ends.foldlM (fun tm place _ h => ?_) h
  obtain ⟨subnet, n⟩ := place
  unfold receiveCredit
  cases net.credits subnet n with
  | none => exact .ok h
  | some c =>
    refine (processCredit_notTaken _ _ c).eq_ok.bind fun buf hbuf => .ok fun m => ?_
    refine (h m).of_freeStays fun s => ?_
    simp only [update₂_apply]
    split_ifs with hplace
    · obtain ⟨rfl, rfl⟩ := hplace
      exact BufferState.freeStays_processCredit hbuf
    · exact .refl _

variable {actualNode : ℕ → ℕ}

theorem retireFlit_frame {f : Flit} {lane : ℕ} (h : tm.retireFlit actualNode f lane = .ok tm') :
    tm' = { tm with
      totalInFlightFlits := tm'.totalInFlightFlits
      retiredPackets := tm'.retiredPackets
      ejectionQueue := tm'.ejectionQueue } := by
  have hretire : ∀ {tm₁ tm₂ : TrafficManager} {head tail : Flit},
      tm₁.retirePacketFlits head tail = .ok tm₂ →
        tm₂ = { tm₁ with ejectionQueue := tm₂.ejectionQueue } := by
    intro tm₁ tm₂ head tail h
    obtain ⟨-, h⟩ := require_ok.mp h
    obtain ⟨-, h⟩ := require_ok.mp h
    cases h
    rfl
  obtain ⟨-, h⟩ := require_ok.mp h
  obtain ⟨-, h⟩ := require_ok.mp h
  dsimp only at h
  split_ifs at h
  · rw [hretire h]
  · split at h
    · cases h
    · obtain ⟨-, h⟩ := require_ok.mp h
      rw [hretire h]
  · cases h
    rfl
  · cases h
    rfl

theorem retire_ends (h : AllPicksOK cfg tm) :
    Ends (AllPicksOK cfg) NotTaken (retire cfg actualNode net tm) := by
  refine Ends.foldlM (fun tm arrival _ h => ?_) h
  refine (retireFlit_notTaken actualNode _ arrival.1).eq_ok.mono_ok fun tm' htm' => ?_
  intro n
  rw [retireFlit_frame htm']
  exact h n

theorem step_ends (h : AllPicksOK cfg tm) (hsettles : Settles cfg net tm) :
    Ends (fun s => AllPicksOK cfg s.1) NotTaken (step cfg actualNode net tm) := by
  have hreceived : Ends (AllPicksOK cfg) NotTaken (receiveCredits cfg net tm) :=
    receiveCredits_ends h
  unfold step
  cases hr : receiveCredits cfg net tm with
  | error e => exact .error (hreceived.of_eq_error hr)
  | ok received =>
    refine (inject_ends (hreceived.of_eq_ok hr) (hsettles received hr)).bind fun injected hi => ?_
    exact (retire_ends hi).bind fun retired hretired => .ok hretired

theorem AllPicksOK.generatePacket {source size cl : ℕ} {dest time : ℤ} {pid : Option ℕ}
    (h : AllPicksOK cfg tm)
    (hgen : generatePacket cfg tm source dest size cl time = .ok (tm', pid)) :
    AllPicksOK cfg tm' := by
  rcases generatePacket_eq_ok hgen with ⟨-, rfl⟩ | ⟨-, pri, rfl⟩
  · exact h
  intro n
  by_cases hn : n = source
  · subst hn
    have hnew : ∀ c vc, Pick (update (tm.partialPackets n) cl (tm.partialPackets n cl ++
        packetFlits tm.curId tm.curPid n dest.toNat size cl time pri) c) vc →
        Pick (tm.partialPackets n c) vc := by
      intro c vc hpick
      by_cases hc : c = cl
      · subst hc
        rw [update_self] at hpick
        cases hq : tm.partialPackets n c with
        | nil =>
          -- The new front flit has no VC yet.
          obtain ⟨f, rest, heq, -, rfl, hvc⟩ := hpick
          rw [hq, nil_append] at heq
          exact absurd (vc_packetFlits _ _ _ _ _ _ _ _ f (heq ▸ mem_cons_self)) hvc
        | cons f rest =>
          rw [hq, cons_append, pick_cons] at hpick
          exact pick_cons.mpr hpick
      · rwa [update_of_ne hc] at hpick
    simp only [update₂_row]
    refine ⟨fun c => ?_, fun c vc hpick => (h n).free c vc (hnew c vc hpick),
      fun c c' vc hne hs hpick hpick' =>
        (h n).apart c c' vc hne hs (hnew c vc hpick) (hnew c' vc hpick')⟩
    by_cases hc : c = cl
    · subst hc
      rw [update_self]
      exact ((h n).queue c).append (injectionQueue_packetFlits ..)
        (vc_packetFlits _ _ _ _ _ _ _ _) (head_packetFlits _ _ _ _ _ _ _ _)
    · rw [update_of_ne hc]
      exact (h n).queue c
  · simp only [update₂_row_ne hn]
    exact h n

theorem retirePacket_frame (actualNode : ℕ → ℕ) : (retirePacket cfg actualNode tm).1 =
      { tm with ejectionQueue := (retirePacket cfg actualNode tm).1.ejectionQueue } := by
  unfold retirePacket
  split
  · rfl
  · split
    · rfl
    · rfl

/-! ## What a cycle does to the queues -/

/-- A flit, whatever its VC. -/
def withoutVC (f : Flit) : Flit := { f with vc := -1 }

theorem map_withoutVC_passBack (f : Flit) (q : List Flit) :
    (passBack f q).map withoutVC = q.map withoutVC := by
  cases q with
  | nil => rfl
  | cons nf rest =>
    rw [passBack]
    split_ifs
    · rfl
    · rfl

theorem withoutVC_pickVC {subnet n c : ℕ} {cf cf' : Flit}
    (h : pickVC cfg net tm subnet n c cf = .ok cf') : withoutVC cf' = withoutVC cf := by
  rcases pickVC_eq_ok h with ⟨-, rfl⟩ | ⟨-, -, vc, -, rfl, -⟩
  · rfl
  · rfl

theorem withoutVC_considerClass {subnet n c : ℕ} {s s' : (ℕ → List Flit) × Option Flit}
    (h : considerClass cfg net tm subnet n s c = .ok s') (d : ℕ) :
    (s'.1 d).map withoutVC = (s.1 d).map withoutVC := by
  rcases considerClass_eq_ok h with rfl | ⟨cf, rest, cf', -, hq, -, -, hpick, hq', -⟩
  · rfl
  rw [hq']
  by_cases hd : d = c
  · rw [hd, update_self, hq, map_cons, map_cons, withoutVC_pickVC hpick]
  · rw [update_of_ne hd]

/-- At one node and subnet VCs are noted, and at most the front flit of a queue goes. -/
theorem injectAt_suffix {s s' : TrafficManager × List (ℕ × ℕ × Flit)} {place : ℕ × ℕ}
    (h : injectAt cfg net s place = .ok s') (m c : ℕ) :
    (s'.1.partialPackets m c).map withoutVC <:+ (s.1.partialPackets m c).map withoutVC := by
  obtain ⟨⟨queues, best⟩, hsel, h⟩ := bind_ok.mp h
  obtain ⟨held, -, hsel⟩ := bind_ok.mp hsel
  have hqueues : ∀ c, (queues c).map withoutVC = (s.1.partialPackets place.2 c).map withoutVC := by
    exact inv_of_foldlM_eq_ok (I := fun t : (ℕ → List Flit) × Option Flit =>
      ∀ c, (t.1 c).map withoutVC = (s.1.partialPackets place.2 c).map withoutVC) hsel
      (fun t t' a _ ht ih c => (withoutVC_considerClass ht c).trans (ih c)) fun _ => rfl
  have hnode : (update s.1.partialPackets place.2 queues m c).map withoutVC =
      (s.1.partialPackets m c).map withoutVC := by
    by_cases hm : m = place.2
    · rw [hm, update_self, hqueues]
    · rw [update_of_ne hm]
  cases best with
  | none =>
    obtain rfl := return_ok.mp h
    exact hnode ▸ suffix_rfl
  | some f =>
    obtain ⟨⟨tm', g⟩, hsend, h⟩ := bind_ok.mp h
    obtain rfl := return_ok.mp h
    obtain ⟨-, -, -, -, -, rfl, -⟩ := sendFlit_eq_ok hsend
    rw [← hnode]
    simp only [update₂_apply]
    split_ifs with hplace
    · obtain ⟨rfl, rfl⟩ := hplace
      rw [map_withoutVC_passBack, map_tail]
      exact tail_suffix _
    · exact suffix_rfl

theorem receiveCredits_frame (h : receiveCredits cfg net tm = .ok tm') :
    tm' = { tm with bufStates := tm'.bufStates } := by
  refine rel_of_foldlM_eq_ok (R := fun t u => u = { t with bufStates := u.bufStates })
    (fun _ => rfl) (fun htu huv => ?_) (fun t u place _ hstep => ?_) h
  · rw [huv, htu]
  · unfold receiveCredit at hstep
    cases hcredit : net.credits place.1 place.2 with
    | none =>
      rw [hcredit] at hstep
      cases hstep
      rfl
    | some c =>
      rw [hcredit] at hstep
      obtain ⟨buf, -, hbuf⟩ := bind_ok.mp hstep
      cases hbuf
      rfl

theorem step_suffix {sent : List (ℕ × ℕ × Flit)} (h : step cfg actualNode net tm = .ok (tm', sent))
    (m c : ℕ) :
    (tm'.partialPackets m c).map withoutVC <:+ (tm.partialPackets m c).map withoutVC := by
  obtain ⟨received, hreceive, h⟩ := bind_ok.mp h
  obtain ⟨injected, hinject, h⟩ := bind_ok.mp h
  obtain ⟨retired, hretire, h⟩ := bind_ok.mp h
  cases return_ok.mp h
  have hreceived : received.partialPackets = tm.partialPackets := by
    rw [receiveCredits_frame hreceive]
  have hretired : retired.partialPackets = injected.1.partialPackets :=
    inv_of_foldlM_eq_ok (I := fun tm => tm.partialPackets = injected.1.partialPackets) hretire
      (fun _ _ _ _ hu hsame => (congrArg partialPackets (retireFlit_frame hu)).trans hsame) rfl
  rw [← hreceived]
  change (retired.partialPackets m c).map withoutVC <:+ _
  rw [hretired]
  exact rel_of_foldlM_eq_ok (R := fun s t : TrafficManager × List (ℕ × ℕ × Flit) =>
    (t.1.partialPackets m c).map withoutVC <:+ (s.1.partialPackets m c).map withoutVC)
    (fun _ => suffix_rfl) (fun hst htu => htu.trans hst)
    (fun _ _ _ _ hst => injectAt_suffix hst m c) hinject

theorem exists_of_suffix {q q' : List Flit} (h : q'.map withoutVC <:+ q.map withoutVC) {f : Flit}
    (hf : f ∈ q') : ∃ g ∈ q, withoutVC g = withoutVC f :=
  mem_map.mp (h.subset (mem_map_of_mem hf))

/-! ## Runs that settle -/

/-- The runs whose cycles all settle, with packet numbers that fit an `int`: any packets, credits,
arrivals and routes. -/
inductive Run (cfg : TrafficConfig) (actualNode : ℕ → ℕ) : TrafficManager → Prop
  | new (bufs : ℕ → ℕ → BufferState) (gEndVCs : ℕ → ℤ) : Run cfg actualNode (new bufs gEndVCs)
  | generate {tm tm' : TrafficManager} {source size cl : ℕ} {dest time : ℤ} {pid : Option ℕ} :
      Run cfg actualNode tm → tm.curPid < 2 ^ 31 →
      generatePacket cfg tm source dest size cl time = .ok (tm', pid) → Run cfg actualNode tm'
  | retire {tm : TrafficManager} : Run cfg actualNode tm →
      Run cfg actualNode (retirePacket cfg actualNode tm).1
  | step {tm tm' : TrafficManager} {net : NetworkSide} {sent : List (ℕ × ℕ × Flit)} :
      Run cfg actualNode tm → Settles cfg net tm → step cfg actualNode net tm = .ok (tm', sent) →
      Run cfg actualNode tm'

theorem Run.allPicksOK (h : Run cfg actualNode tm) : AllPicksOK cfg tm := by
  induction h with
  | new bufs gEndVCs =>
    exact fun _ => ⟨fun c => .nil c, fun _ _ hpick => absurd hpick not_pick_nil,
      fun _ _ _ _ _ hpick => absurd hpick not_pick_nil⟩
  | generate _ _ hgen ih => exact ih.generatePacket hgen
  | retire _ ih =>
    intro n
    rw [retirePacket_frame]
    exact ih n
  | step _ hsettles hstep ih => exact (step_ends ih hsettles).of_eq_ok hstep

theorem Run.pid_lt (h : Run cfg actualNode tm) : ∀ n c, ∀ f ∈ tm.partialPackets n c,
    f.pid < 2 ^ 31 := by
  induction h with
  | new bufs gEndVCs => exact fun _ _ _ hf => absurd hf not_mem_nil
  | generate _ hpid hgen ih =>
    rcases generatePacket_eq_ok hgen with ⟨-, rfl⟩ | ⟨-, pri, rfl⟩
    · exact ih
    intro n c f hf
    simp only [update₂_apply] at hf
    split_ifs at hf
    · rcases mem_append.mp hf with hf | hf
      · exact ih _ _ f hf
      · obtain ⟨i, -, rfl⟩ := mem_map.mp hf
        exact hpid
    · exact ih n c f hf
  | retire _ ih =>
    rwa [retirePacket_frame]
  | step _ _ hstep ih =>
    intro n c f hf
    obtain ⟨g, hg, hgf⟩ := exists_of_suffix (step_suffix hstep n c) hf
    have hpid : (withoutVC g).pid = (withoutVC f).pid := congrArg Flit.pid hgf
    exact hpid ▸ ih n c g hg

/-- **No VC is taken while in use**: in a run whose cycles all settle, `_Step` never calls
`TakeBuffer` for a VC that has an owner.  The owner that it notes is the number of the packet, so
that a VC in use counts as such. -/
theorem step_ne_bufferTaken {actualNode : ℕ → ℕ} (h : Run cfg actualNode tm)
    (hsettles : Settles cfg net tm) :
    (∀ vc, step cfg actualNode net tm ≠ .error (.bufferTaken vc)) ∧
      ∀ n c, ∀ f ∈ tm.partialPackets n c, toInt f.pid = f.pid := by
  refine ⟨fun vc herror => ?_, fun n c f hf => ?_⟩
  · exact (step_ends h.allPicksOK hsettles).of_eq_error herror vc rfl
  · have hpid := h.pid_lt n c f hf
    exact toInt_eq (by omega) (by omega)

/-- Where no head has a VC yet and all have the same priority, the queues are settled. -/
theorem settled_of_fresh {subnet n : ℕ} {queues : ℕ → List Flit} (pri : ℤ)
    (h : ∀ c, ∀ f ∈ queues c, f.vc = -1 ∧ f.pri = pri) : Settled cfg net subnet n queues where
  picks c _ vc _ _ _ _ hpick := by
    obtain ⟨f, rest, hq, -, rfl, hvc⟩ := hpick
    exact absurd (h c f (hq ▸ mem_cons_self)).1 hvc
  pri c c' _ f f' _ _ _ hf hf' _ _ := by
    obtain ⟨rest, hq, -⟩ := hf
    obtain ⟨rest', hq', -⟩ := hf'
    rw [(h c f (hq ▸ mem_cons_self)).2, (h c' f' (hq' ▸ mem_cons_self)).2]

/-- One node and one VC, which two classes share; packets of class 0 go first. -/
def sharedVC : TrafficConfig where
  nodes := 1
  classes := 2
  subnets := 1
  subnet := fun _ => 0
  injSize := 8
  holdSwitchForPacket := false
  noq := false
  priType := .class_based
  classPriority := fun c => if c = 0 then 1 else 0

/-- A silent network: every class may be injected on VC 0. -/
def vcZero : NetworkSide where
  ejected := fun _ _ => none
  credits := fun _ _ => none
  injectRoute := fun _ _ _ => some (OutputSet.clear.addRange (-1) 0 0 0)
  firstRoute := fun _ _ _ => none
  numOutputs := fun _ _ => 1

/-- A VC with four slots, given back with the credit of the tail. -/
def fourSlots : BufferState where
  vcs := 1
  size := 4
  waitForTailCredit := true
  policy := .private_ 4

/-- The same, with packets of one priority. -/
def evenVC : TrafficConfig := { sharedVC with priType := .none }

/-- Two heads of the same priority that are offered the same VC. -/
theorem step_ne_bufferTaken_two : ∃ first tm,
    generatePacket evenVC (new (fun _ _ => fourSlots) fun _ => 0) 0 0 2 0 0 = .ok (first, some 0) ∧
    generatePacket evenVC first 0 0 2 1 0 = .ok (tm, some 1) ∧
    ∀ vc, step evenVC id vcZero tm ≠ .error (.bufferTaken vc) := by
  obtain ⟨first, hfirst, hfree⟩ : ∃ first, generatePacket evenVC (new (fun _ _ => fourSlots)
    fun _ => 0) 0 0 2 0 0 = .ok (first, some 0) ∧ first.curPid = 1 := ⟨_, rfl, rfl⟩
  obtain ⟨tm, hgen, h0, h1, hothers⟩ : ∃ tm, generatePacket evenVC first 0 0 2 1 0 =
      .ok (tm, some 1) ∧ tm.partialPackets 0 0 = packetFlits 0 0 0 0 2 0 0 0 ∧
      tm.partialPackets 0 1 = packetFlits 2 1 0 0 2 1 0 0 ∧
      ∀ c, tm.partialPackets 0 (c + 2) = [] := by
    cases hfirst
    exact ⟨_, rfl, rfl, rfl, fun _ => rfl⟩
  refine ⟨first, tm, hfirst, hgen, (step_ne_bufferTaken (.generate (.generate (.new _ _) (by decide)
    hfirst) (by rw [hfree]; decide) hgen) fun received hreceived => ?_).1⟩
  refine (⟨settled_of_fresh 0 fun c f hf => ?_, fun _ _ => trivial⟩ :
    SettledAlong evenVC vcZero [(0, 0)] (received, []))
  rw [receiveCredits_frame hreceived] at hf
  match c with
  | 0 =>
    obtain ⟨i, -, rfl⟩ := mem_map.mp (h0 ▸ hf)
    exact ⟨rfl, rfl⟩
  | 1 =>
    obtain ⟨i, -, rfl⟩ := mem_map.mp (h1 ▸ hf)
    exact ⟨rfl, rfl⟩
  | c + 2 => exact absurd (hothers c ▸ hf) not_mem_nil

/-- A packet of each class, and one cycle: both heads pick VC 0, and that of class 0 takes
it. -/
def bothPick : Except Fault TrafficManager := do
  let first ← generatePacket sharedVC (new (fun _ _ => fourSlots) fun _ => 0) 0 0 1 0 0
  let second ← generatePacket sharedVC first.1 0 0 1 1 0
  let sent ← step sharedVC id vcZero second.1
  return sent.1

/-- In the next cycle the head of class 1 takes the VC as well. -/
theorem bothPick_bufferTaken :
    ∃ tm, bothPick = .ok tm ∧ step sharedVC id vcZero tm = .error (.bufferTaken 0) :=
  ⟨_, rfl, rfl⟩

end Runs

end TrafficManager

end BookSim
