/-
# Run — the runs of a router

A router is built, and then it is made to

    receive    what its channels deliver
    step       `_InternalStep`, any number of times in a cycle
    write      what its output and credit buffers hold, one item each
    wait       until a later time

`Reached` are the states it can be in, whatever arrives and whatever the routing function and
the allocators answer, as long as all steps meet a condition; a cycle of the network is `receive`,
`step` some times, `write` and `wait`.  For what holds in all of them, `Kept` lists what a proof has
to show: one case for each kind of round, from which the step follows (`Kept.internalStep`).
-/
import BookSim.Routers.Allocation
import BookSim.Routers.Rounds

namespace BookSim

open List
open Function (update)

/-- What the constructor insists on, and that the code divides by the speedups. -/
structure RouterConfig.Accepted (cfg : RouterConfig) : Prop where
  vcAllocDelay : cfg.vcAllocDelay ≠ 0
  swAllocDelay : cfg.swAllocDelay ≠ 0
  /-- "Piggyback VC allocation requires speculative switch allocation to be enabled." -/
  piggyback : cfg.hasVCAllocator = false → cfg.speculative = true
  specSWAllocator : cfg.hasSpecSWAllocator = true → cfg.speculative = true
  noq : cfg.noq = true → cfg.routingDelay = 0 ∧ cfg.outputs ≤ cfg.vcs
  inputSpeedup : 0 < cfg.inputSpeedup
  outputSpeedup : 0 < cfg.outputSpeedup

instance (cfg : RouterConfig) : Decidable cfg.Accepted :=
  decidable_of_iff (_ ∧ _ ∧ _ ∧ _ ∧ _ ∧ _ ∧ _)
    ⟨fun ⟨h₁, h₂, h₃, h₄, h₅, h₆, h₇⟩ => ⟨h₁, h₂, h₃, h₄, h₅, h₆, h₇⟩,
      fun ⟨h₁, h₂, h₃, h₄, h₅, h₆, h₇⟩ => ⟨h₁, h₂, h₃, h₄, h₅, h₆, h₇⟩⟩

namespace Router

/-- A new router; `next` are the buffer states of its outputs. -/
def new (cfg : RouterConfig) (bufCfg : BufferConfig) (next : ℤ → BufferState) : Router where
  buf := fun _ => { size := bufCfg.size }
  nextBuf := next
  swRROffset := fun x => x % cfg.inputSpeedup

/-- The states of a router, with the time, in runs whose steps all meet `C`. -/
inductive Reached (cfg : RouterConfig) (bufCfg : BufferConfig) (C : RouterEnv → Router → Prop) :
    ℤ → Router → Prop
  | new {next : ℤ → BufferState} (hcfg : cfg.Accepted) (hvcs : bufCfg.numVCs = cfg.vcs)
      (hnext : ∀ o, ∃ minLatency, BufferState.new bufCfg minLatency = .ok (next o)) :
      Reached cfg bufCfg C 0 (.new cfg bufCfg next)
  | receive {now : ℤ} {r : Router} (flits : ℤ → Option Flit) (credits : ℤ → Option Credit)
      (h : Reached cfg bufCfg C now r) :
      Reached cfg bufCfg C now (r.readInputs cfg now flits credits)
  | step {now : ℤ} {r r' : Router} {env : RouterEnv} (hnow : env.now = now) (hC : C env r)
      (h : Reached cfg bufCfg C now r) (hstep : internalStep cfg env r = .ok r') :
      Reached cfg bufCfg C now r'
  | write {now : ℤ} {r : Router} (h : Reached cfg bufCfg C now r) :
      Reached cfg bufCfg C now r.writeOutputs
  | wait {now later : ℤ} {r : Router} (hlater : now ≤ later) (h : Reached cfg bufCfg C now r) :
      Reached cfg bufCfg C later r

variable {cfg : RouterConfig} {bufCfg : BufferConfig} {C : RouterEnv → Router → Prop}
  {env : RouterEnv} {r r' : Router}

theorem Reached.accepted {now : ℤ} (h : Reached cfg bufCfg C now r) : cfg.Accepted := by
  induction h with
  | new hcfg _ _ => exact hcfg
  | receive _ _ _ ih | step _ _ _ _ ih | write _ ih | wait _ _ ih => exact ih

theorem Reached.now_nonneg {now : ℤ} (h : Reached cfg bufCfg C now r) : 0 ≤ now := by
  induction h with
  | new _ _ _ => exact le_rfl
  | receive _ _ _ ih | step _ _ _ _ ih | write _ ih => exact ih
  | wait hlater _ ih => exact ih.trans hlater

/-! ## What every round keeps -/

/-- The rounds of the Update loops keep `I`, where `A` holds. -/
structure KeptByUpdates (cfg : RouterConfig) (env : RouterEnv) (I : Router → Prop)
    (A : Router → Prop := fun _ => True) : Prop where
  route : ∀ {r r' : Router} {e : Entry} {q : List Entry}, r.routeVCs = e :: q →
    e.isDue env.now = true → routeItem cfg env r e = .ok r' → A r → I r → I r'
  vcAlloc : ∀ {r r' : Router} {e : Entry} {q : List Entry}, r.vcAllocVCs = e :: q →
    e.isDue env.now = true → vcAllocItem cfg env r e = .ok r' → A r → I r → I r'
  swHold : ∀ {r r' : Router} {e : Entry} {q : List Entry}, r.swHoldVCs = e :: q →
    e.isStarted = true → swHoldItem cfg env r e = .ok r' → A r → I r → I r'
  swAlloc : ∀ {r r' : Router} {e : Entry} {q : List Entry}, r.swAllocVCs = e :: q →
    e.isDue env.now = true → swAllocItem cfg env r e = .ok r' → A r → I r → I r'
  switch : ∀ {r r' : Router} {c : Crossing} {q : List Crossing}, r.crossbarFlits = c :: q →
    c.isDue env.now = true → switchItem cfg env r c = .ok r' → A r → I r → I r'

/-- The rounds of all loops of a step keep `I`, where `A` holds. -/
structure Kept (cfg : RouterConfig) (env : RouterEnv) (I : Router → Prop)
    (A : Router → Prop := fun _ => True) : Prop extends KeptByUpdates cfg env I A where
  enter : ∀ {r r' : Router} {i : ℤ} {f : Flit}, cfg.IsInput i → r.inQueueFlits i = some f →
    enterFlit cfg env r i f = .ok r' → A r → I r → I r'
  credit : ∀ {r r' : Router} {c : ℤ × Credit × ℤ} {q : List (ℤ × Credit × ℤ)},
    r.procCredits = c :: q → creditItem cfg env r c = .ok r' → A r → I r → I r'
  evaluate : ∀ {r r' : Router}, evaluateStages cfg env r = .ok r' → A r → I r → I r'
  flush : ∀ {r r' : Router}, outputQueuing cfg r = .ok r' → A r → I r → I r'
  active : ∀ {r : Router} {b : Bool}, A r → I r → I { r with active := b }

variable {I : Router → Prop} {e : Entry} {q : List Entry} {s : Bool × Router}

/-- A loop over a queue of which each round takes the first entry and may add new ones. -/
theorem inv_of_drain {β : Type} {queue : Router → List β} {p : β → Bool}
    {f : Router → β → Except Fault Router}
    (hstep : ∀ {r r' : Router} {c : β} {q : List β}, queue r = c :: q → p c = true →
      f r c = .ok r' → I r → I r')
    (hqueue : ∀ {r r' : Router} {c : β} {q : List β}, queue r = c :: q → f r c = .ok r' →
      ∃ new, queue r' = q ++ new)
    (h : ((queue r).takeWhile p).foldlM f r = .ok r') (hr : I r) : I r' := by
  refine (Ends.drain (F := fun _ => True) (fun r c q hq hc hr => ?_)
    (fun r c q r' hq hr' => hqueue hq hr') hr).of_eq_ok h
  cases hf : f r c with
  | error e => exact .error trivial
  | ok r' => exact .ok (hstep hq hc hf hr)

theorem routeItem_queue (hq : r.routeVCs = e :: q)
    (h : routeItem cfg env r e = .ok r') : ∃ new, r'.routeVCs = q ++ new :=
  (routeItem_roundOf h).route.exists_append hq

theorem vcAllocItem_queue (hq : r.vcAllocVCs = e :: q)
    (h : vcAllocItem cfg env r e = .ok r') : ∃ new, r'.vcAllocVCs = q ++ new :=
  (vcAllocItem_roundOf h).vcAlloc.exists_append hq

theorem swHoldItem_queue (hq : r.swHoldVCs = e :: q)
    (h : swHoldItem cfg env r e = .ok r') : ∃ new, r'.swHoldVCs = q ++ new :=
  (swHoldItem_roundOf h).swHold.exists_append hq

theorem swAllocItem_queue (hq : r.swAllocVCs = e :: q)
    (h : swAllocItem cfg env r e = .ok r') : ∃ new, r'.swAllocVCs = q ++ new :=
  (swAllocItem_roundOf h).swAlloc.exists_append hq

theorem switchItem_queue {c : Crossing} {q : List Crossing} (hq : r.crossbarFlits = c :: q)
    (h : switchItem cfg env r c = .ok r') : ∃ new, r'.crossbarFlits = q ++ new := by
  obtain ⟨-, -, rfl⟩ := switchItem_eq_ok h
  exact ⟨[], by rw [hq, tail_cons, append_nil]⟩

theorem creditItem_queue {c : ℤ × Credit × ℤ} {q : List (ℤ × Credit × ℤ)}
    (hq : r.procCredits = c :: q) (h : creditItem cfg env r c = .ok r') :
    ∃ new, r'.procCredits = q ++ new := by
  obtain ⟨-, dest, -, rfl⟩ := creditItem_eq_ok h
  exact ⟨[], by rw [hq, tail_cons, append_nil]⟩

theorem isInput_of_mem {i : ℤ} (h : i ∈ cfg.inputList) : cfg.IsInput i := by
  obtain ⟨k, hk, rfl⟩ := mem_map.mp h
  exact ⟨Int.natCast_nonneg k, Int.ofNat_lt.mpr (mem_range.mp hk)⟩

theorem inv_inputQueuing
    (henter : ∀ {r r' : Router} {i : ℤ} {f : Flit}, cfg.IsInput i → r.inQueueFlits i = some f →
      enterFlit cfg env r i f = .ok r' → I r → I r')
    (hcredit : ∀ {r r' : Router} {c : ℤ × Credit × ℤ} {q : List (ℤ × Credit × ℤ)},
      r.procCredits = c :: q → creditItem cfg env r c = .ok r' → I r → I r')
    (h : inputQueuing cfg env r = .ok r') (hr : I r) : I r' := by
  obtain ⟨r₁, hr₁, h⟩ := bind_ok.mp h
  refine inv_of_drain (fun hq _ hf => hcredit hq hf) creditItem_queue h ?_
  refine inv_of_foldlM_eq_ok hr₁ (fun r r' i hi hr' hr => ?_) hr
  unfold enterItem at hr'
  cases hf : r.inQueueFlits i with
  | none =>
    rw [hf] at hr'
    cases hr'
    exact hr
  | some f =>
    rw [hf] at hr'
    exact henter (isInput_of_mem hi) hf hr' hr

namespace KeptByUpdates

variable {I I' : Router → Prop}

theorem given {A : Router → Prop} (hI : KeptByUpdates cfg env I) : KeptByUpdates cfg env I A where
  route hq hdue h _ := hI.route hq hdue h trivial
  vcAlloc hq hdue h _ := hI.vcAlloc hq hdue h trivial
  swHold hq hdue h _ := hI.swHold hq hdue h trivial
  swAlloc hq hdue h _ := hI.swAlloc hq hdue h trivial
  switch hq hdue h _ := hI.switch hq hdue h trivial

theorem and (hI : KeptByUpdates cfg env I) (hI' : KeptByUpdates cfg env I' I) :
    KeptByUpdates cfg env (fun r => I r ∧ I' r) where
  route hq hdue h _ hr := ⟨hI.route hq hdue h trivial hr.1, hI'.route hq hdue h hr.1 hr.2⟩
  vcAlloc hq hdue h _ hr := ⟨hI.vcAlloc hq hdue h trivial hr.1, hI'.vcAlloc hq hdue h hr.1 hr.2⟩
  swHold hq hdue h _ hr := ⟨hI.swHold hq hdue h trivial hr.1, hI'.swHold hq hdue h hr.1 hr.2⟩
  swAlloc hq hdue h _ hr := ⟨hI.swAlloc hq hdue h trivial hr.1, hI'.swAlloc hq hdue h hr.1 hr.2⟩
  switch hq hdue h _ hr := ⟨hI.switch hq hdue h trivial hr.1, hI'.switch hq hdue h hr.1 hr.2⟩

theorem updateStage {β : Type} {queue : Router → List β} {stage : Router → Except Fault Router}
    {s s' : Bool × Router} (hstage : ∀ {r r' : Router}, stage r = .ok r' → I r → I r')
    (h : updateStage queue stage s = .ok s') (hs : I s.2) : I s'.2 := by
  rcases ite_ok.mp h with ⟨-, h⟩ | ⟨-, h⟩
  · cases h
    exact hs
  · obtain ⟨r, hr, rfl⟩ := bind_return_ok.mp h
    exact hstage hr hs

theorem routeUpdate (hI : KeptByUpdates cfg env I) (h : routeUpdate cfg env r = .ok r') (hr : I r) :
    I r' :=
  inv_of_drain (fun hq hc hf => hI.route hq hc hf trivial) routeItem_queue (require_ok.mp h).2 hr

theorem vcAllocUpdate (hI : KeptByUpdates cfg env I) (h : vcAllocUpdate cfg env r = .ok r')
    (hr : I r) : I r' :=
  inv_of_drain (fun hq hc hf => hI.vcAlloc hq hc hf trivial) vcAllocItem_queue
    (require_ok.mp h).2 hr

theorem swHoldUpdate (hI : KeptByUpdates cfg env I) (h : swHoldUpdate cfg env r = .ok r')
    (hr : I r) : I r' :=
  inv_of_drain (fun hq hc hf => hI.swHold hq hc hf trivial) swHoldItem_queue h hr

theorem swAllocUpdate (hI : KeptByUpdates cfg env I) (h : swAllocUpdate cfg env r = .ok r')
    (hr : I r) : I r' :=
  inv_of_drain (fun hq hc hf => hI.swAlloc hq hc hf trivial) swAllocItem_queue h hr

theorem switchUpdate (hI : KeptByUpdates cfg env I) (h : switchUpdate cfg env r = .ok r')
    (hr : I r) : I r' :=
  inv_of_drain (fun hq hc hf => hI.switch hq hc hf trivial) switchItem_queue h hr

theorem updateStages (hI : KeptByUpdates cfg env I) {s s' : Bool × Router}
    (h : updateStages cfg env s = .ok s') (hs : I s.2) : I s'.2 := by
  obtain ⟨s₁, h₁, h⟩ := bind_ok.mp h
  obtain ⟨s₂, h₂, h⟩ := bind_ok.mp h
  obtain ⟨s₃, h₃, h⟩ := bind_ok.mp h
  obtain ⟨s₄, h₄, h⟩ := bind_ok.mp h
  have hs₂ : I s₂.2 := updateStage hI.vcAllocUpdate h₂ (updateStage hI.routeUpdate h₁ hs)
  have hs₃ : I s₃.2 := by
    rcases ite_ok.mp h₃ with ⟨-, h₃⟩ | ⟨-, h₃⟩
    · exact updateStage hI.swHoldUpdate h₃ hs₂
    · cases h₃
      exact hs₂
  exact updateStage hI.switchUpdate h (updateStage hI.swAllocUpdate h₄ hs₃)

end KeptByUpdates

namespace Kept

variable {A I : Router → Prop}

theorem given (hI : Kept cfg env I) : Kept cfg env I A where
  toKeptByUpdates := hI.toKeptByUpdates.given
  enter hi hf h _ := hI.enter hi hf h trivial
  credit hq h _ := hI.credit hq h trivial
  evaluate h _ := hI.evaluate h trivial
  flush h _ := hI.flush h trivial
  active _ := hI.active trivial

theorem and (hA : Kept cfg env A) (hI : Kept cfg env I A) : Kept cfg env (fun r => A r ∧ I r) where
  toKeptByUpdates := hA.toKeptByUpdates.and hI.toKeptByUpdates
  enter hi hf h _ hr := ⟨hA.enter hi hf h trivial hr.1, hI.enter hi hf h hr.1 hr.2⟩
  credit hq h _ hr := ⟨hA.credit hq h trivial hr.1, hI.credit hq h hr.1 hr.2⟩
  evaluate h _ hr := ⟨hA.evaluate h trivial hr.1, hI.evaluate h hr.1 hr.2⟩
  flush h _ hr := ⟨hA.flush h trivial hr.1, hI.flush h hr.1 hr.2⟩
  active _ hr := ⟨hA.active trivial hr.1, hI.active hr.1 hr.2⟩

theorem inputQueuing (hI : Kept cfg env I) (h : inputQueuing cfg env r = .ok r') (hr : I r) :
    I r' :=
  inv_inputQueuing (fun hi hf h => hI.enter hi hf h trivial)
  (fun hq h => hI.credit hq h trivial) h hr

theorem internalStep (hI : Kept cfg env I) (h : internalStep cfg env r = .ok r') (hr : I r) :
    I r' := by
  rcases ite_ok.mp h with ⟨-, h⟩ | ⟨-, h⟩
  · obtain ⟨r₁, h₁, h⟩ := bind_ok.mp h
    obtain ⟨r₂, h₂, h⟩ := bind_ok.mp h
    obtain ⟨s, h₃, h⟩ := bind_ok.mp h
    refine hI.flush h trivial (hI.active trivial ?_)
    exact hI.updateStages h₃ (hI.evaluate h₂ trivial (hI.inputQueuing h₁ hr))
  · cases h
    exact hr

/-- What every round keeps, and the rest of a cycle leaves alone, holds in every state reached. -/
theorem reached {now : ℤ} (h : Reached cfg bufCfg C now r)
    (hI : ∀ {env r}, C env r → Kept cfg env I)
    (hnew : ∀ next, bufCfg.numVCs = cfg.vcs →
      (∀ o, ∃ minLatency, BufferState.new bufCfg minLatency = .ok (next o)) →
      I (.new cfg bufCfg next))
    (hreceive : ∀ {r now flits credits}, I r → I (r.readInputs cfg now flits credits))
    (hwrite : ∀ {r}, I r → I r.writeOutputs) : I r := by
  induction h with
  | new _ hvcs hnext => exact hnew _ hvcs hnext
  | receive _ _ _ ih => exact hreceive ih
  | step _ hC _ hstep ih => exact (hI hC).internalStep hstep ih
  | write _ ih => exact hwrite ih
  | wait _ _ ih => exact ih

end Kept

/-! ## The rounds of a step

For what holds whenever a loop of a step deals with an entry. -/

/-- The loop over the front of `queue` has come to `c`; the router is `r'` then. -/
def AtRound {β : Type} (queue : Router → List β) (p : β → Bool)
    (f : Router → β → Except Fault Router) (r r' : Router) (c : β) : Prop :=
  ∃ before after, (queue r).takeWhile p = before ++ c :: after ∧ before.foldlM f r = .ok r'

theorem inv_atRound {β : Type} {queue : Router → List β} {p : β → Bool}
    {f : Router → β → Except Fault Router} {c : β}
    (hstep : ∀ {r r' : Router} {c : β} {q : List β}, queue r = c :: q → p c = true →
      f r c = .ok r' → I r → I r')
    (hqueue : ∀ {r r' : Router} {c : β} {q : List β}, queue r = c :: q → f r c = .ok r' →
      ∃ new, queue r' = q ++ new)
    (h : AtRound queue p f r r' c) (hr : I r) :
    I r' ∧ p c = true ∧ ∃ q, queue r' = c :: q := by
  obtain ⟨before, after, hsplit, hbefore⟩ := h
  have hall : ∀ a ∈ before ++ c :: after, p a = true := fun a ha =>
    mem_takeWhile_imp (hsplit ▸ ha)
  have hfront : ∃ q, queue r = (before ++ c :: after) ++ q :=
    ⟨_, hsplit ▸ takeWhile_append_dropWhile.symm⟩
  clear hsplit
  induction before generalizing r with
  | nil =>
    cases hbefore
    obtain ⟨q, hq⟩ := hfront
    exact ⟨hr, hall c mem_cons_self, _, hq⟩
  | cons a before ih =>
    rw [foldlM_cons] at hbefore
    obtain ⟨r₁, hr₁, hbefore⟩ := bind_ok.mp hbefore
    obtain ⟨q, hq⟩ := hfront
    obtain ⟨new, hnew⟩ := hqueue hq hr₁
    refine ih (hstep hq (hall a mem_cons_self) hr₁ hr) hbefore
      (fun b hb => hall b (mem_cons_of_mem a hb)) ⟨q ++ new, ?_⟩
    exact hnew.trans (append_assoc _ _ _)

/-- The parts of `_InternalStep`, up to the Update half of each stage. -/
def toRouteUpdate (cfg : RouterConfig) (env : RouterEnv) (r : Router) :
    Except Fault (Bool × Router) := do
  let r ← inputQueuing cfg env r
  let evaluated ← evaluateStages cfg env r
  return (!r.procCredits.isEmpty, evaluated)

def toVCAllocUpdate (cfg : RouterConfig) (env : RouterEnv) (r : Router) :
    Except Fault (Bool × Router) := do
  updateStage routeVCs (routeUpdate cfg env) (← toRouteUpdate cfg env r)

def toSWHoldUpdate (cfg : RouterConfig) (env : RouterEnv) (r : Router) :
    Except Fault (Bool × Router) := do
  updateStage vcAllocVCs (vcAllocUpdate cfg env) (← toVCAllocUpdate cfg env r)

def toSWAllocUpdate (cfg : RouterConfig) (env : RouterEnv) (r : Router) :
    Except Fault (Bool × Router) := do
  let s ← toSWHoldUpdate cfg env r
  if cfg.holdSwitchForPacket then updateStage swHoldVCs (swHoldUpdate cfg env) s else .ok s

def toSwitchUpdate (cfg : RouterConfig) (env : RouterEnv) (r : Router) :
    Except Fault (Bool × Router) := do
  updateStage swAllocVCs (swAllocUpdate cfg env) (← toSWAllocUpdate cfg env r)

theorem Kept.toRouteUpdate (hI : Kept cfg env I)
    (h : toRouteUpdate cfg env r = .ok s) (hr : I r) : I s.2 := by
  obtain ⟨r₁, h₁, h⟩ := bind_ok.mp h
  obtain ⟨r₂, h₂, rfl⟩ := bind_return_ok.mp h
  exact hI.evaluate h₂ trivial (hI.inputQueuing h₁ hr)

theorem Kept.toVCAllocUpdate (hI : Kept cfg env I)
    (h : toVCAllocUpdate cfg env r = .ok s) (hr : I r) : I s.2 := by
  obtain ⟨s₀, h₀, h⟩ := bind_ok.mp h
  exact KeptByUpdates.updateStage hI.routeUpdate h (hI.toRouteUpdate h₀ hr)

theorem Kept.toSWHoldUpdate (hI : Kept cfg env I)
    (h : toSWHoldUpdate cfg env r = .ok s) (hr : I r) : I s.2 := by
  obtain ⟨s₀, h₀, h⟩ := bind_ok.mp h
  exact KeptByUpdates.updateStage hI.vcAllocUpdate h (hI.toVCAllocUpdate h₀ hr)

theorem Kept.toSWAllocUpdate (hI : Kept cfg env I)
    (h : toSWAllocUpdate cfg env r = .ok s) (hr : I r) : I s.2 := by
  obtain ⟨s₀, h₀, h⟩ := bind_ok.mp h
  rcases ite_ok.mp h with ⟨-, h⟩ | ⟨-, h⟩
  · exact KeptByUpdates.updateStage hI.swHoldUpdate h (hI.toSWHoldUpdate h₀ hr)
  · cases h
    exact hI.toSWHoldUpdate h₀ hr

theorem Kept.toSwitchUpdate (hI : Kept cfg env I)
    (h : toSwitchUpdate cfg env r = .ok s) (hr : I r) : I s.2 := by
  obtain ⟨s₀, h₀, h⟩ := bind_ok.mp h
  exact KeptByUpdates.updateStage hI.swAllocUpdate h (hI.toSWAllocUpdate h₀ hr)

theorem KeptByUpdates.toSwitchUpdate (hI : KeptByUpdates cfg env I)
    (h : toSwitchUpdate cfg env r = .ok s) :
    ∃ r₁ r₂, inputQueuing cfg env r = .ok r₁ ∧ evaluateStages cfg env r₁ = .ok r₂ ∧
      (I r₂ → I s.2) := by
  obtain ⟨s₄, h, h₅⟩ := bind_ok.mp h
  obtain ⟨s₃, h, h₄⟩ := bind_ok.mp h
  obtain ⟨s₂, h, h₃⟩ := bind_ok.mp h
  obtain ⟨s₁, h, h₂⟩ := bind_ok.mp h
  obtain ⟨r₁, h₁, h⟩ := bind_ok.mp h
  obtain ⟨r₂, hr₂, rfl⟩ := bind_return_ok.mp h
  refine ⟨r₁, r₂, h₁, hr₂, fun hstart => ?_⟩
  have hs₃ : I s₃.2 := updateStage hI.vcAllocUpdate h₃ (updateStage hI.routeUpdate h₂ hstart)
  refine updateStage hI.swAllocUpdate h₅ ?_
  rcases ite_ok.mp h₄ with ⟨-, h₄⟩ | ⟨-, h₄⟩
  · exact updateStage hI.swHoldUpdate h₄ hs₃
  · cases h₄
    exact hs₃

/-- The router when a loop of a step comes to an entry. -/
def RouteRound (cfg : RouterConfig) (env : RouterEnv) (r r' : Router) (e : Entry) : Prop :=
  ∃ s, toRouteUpdate cfg env r = .ok s ∧
    AtRound routeVCs (Entry.isDue env.now) (routeItem cfg env) s.2 r' e

def VCAllocRound (cfg : RouterConfig) (env : RouterEnv) (r r' : Router) (e : Entry) : Prop :=
  ∃ s, toVCAllocUpdate cfg env r = .ok s ∧
    AtRound vcAllocVCs (Entry.isDue env.now) (vcAllocItem cfg env) s.2 r' e

def SWHoldRound (cfg : RouterConfig) (env : RouterEnv) (r r' : Router) (e : Entry) : Prop :=
  ∃ s, toSWHoldUpdate cfg env r = .ok s ∧
    AtRound swHoldVCs Entry.isStarted (swHoldItem cfg env) s.2 r' e

def SWAllocRound (cfg : RouterConfig) (env : RouterEnv) (r r' : Router) (e : Entry) : Prop :=
  ∃ s, toSWAllocUpdate cfg env r = .ok s ∧
    AtRound swAllocVCs (Entry.isDue env.now) (swAllocItem cfg env) s.2 r' e

def SwitchRound (cfg : RouterConfig) (env : RouterEnv) (r r' : Router) (c : Crossing) : Prop :=
  ∃ s, toSwitchUpdate cfg env r = .ok s ∧
    AtRound crossbarFlits (Crossing.isDue env.now) (switchItem cfg env) s.2 r' c

theorem Kept.routeRound (hI : Kept cfg env I) (h : RouteRound cfg env r r' e) (hr : I r) :
    I r' ∧ e.isDue env.now = true ∧ ∃ q, r'.routeVCs = e :: q := by
  obtain ⟨s, hs, h⟩ := h
  exact inv_atRound (fun hq hc hf => hI.route hq hc hf trivial) routeItem_queue h
    (hI.toRouteUpdate hs hr)

theorem Kept.vcAllocRound (hI : Kept cfg env I) (h : VCAllocRound cfg env r r' e) (hr : I r) :
    I r' ∧ e.isDue env.now = true ∧ ∃ q, r'.vcAllocVCs = e :: q := by
  obtain ⟨s, hs, h⟩ := h
  exact inv_atRound (fun hq hc hf => hI.vcAlloc hq hc hf trivial) vcAllocItem_queue h
    (hI.toVCAllocUpdate hs hr)

theorem Kept.swHoldRound (hI : Kept cfg env I) (h : SWHoldRound cfg env r r' e) (hr : I r) :
    I r' ∧ e.isStarted = true ∧ ∃ q, r'.swHoldVCs = e :: q := by
  obtain ⟨s, hs, h⟩ := h
  exact inv_atRound (fun hq hc hf => hI.swHold hq hc hf trivial) swHoldItem_queue h
    (hI.toSWHoldUpdate hs hr)

theorem Kept.swAllocRound (hI : Kept cfg env I) (h : SWAllocRound cfg env r r' e) (hr : I r) :
    I r' ∧ e.isDue env.now = true ∧ ∃ q, r'.swAllocVCs = e :: q := by
  obtain ⟨s, hs, h⟩ := h
  exact inv_atRound (fun hq hc hf => hI.swAlloc hq hc hf trivial) swAllocItem_queue h
    (hI.toSWAllocUpdate hs hr)

theorem Kept.switchRound {c : Crossing} (hI : Kept cfg env I)
    (h : SwitchRound cfg env r r' c) (hr : I r) :
    I r' ∧ c.isDue env.now = true ∧ ∃ q, r'.crossbarFlits = c :: q := by
  obtain ⟨s, hs, h⟩ := h
  exact inv_atRound (fun hq hc hf => hI.switch hq hc hf trivial) switchItem_queue h
    (hI.toSwitchUpdate hs hr)

theorem internalStep_eq : internalStep cfg env r =
    if r.active then do
      let s ← toSwitchUpdate cfg env r
      let s ← updateStage crossbarFlits (switchUpdate cfg env) s
      outputQueuing cfg { s.2 with active := s.1 }
    else .ok r := by
  simp only [internalStep, updateStages, toSwitchUpdate, toSWAllocUpdate, toSWHoldUpdate,
    toVCAllocUpdate, toRouteUpdate, bind_assoc, pure_bind]

/-! ## Cycles

What the network makes of a router without internal speedup, cycle by cycle. -/

/-- What a router is told in a cycle; the time of `env` is that of the cycle. -/
structure Cycle where
  flits : ℤ → Option Flit := fun _ => none
  credits : ℤ → Option Credit := fun _ => none
  env : RouterEnv

def Cycle.envAt (c : Cycle) (now : ℤ) : RouterEnv := { c.env with now := now }

def cycle (cfg : RouterConfig) (s : ℤ × Router) (c : Cycle) : Except Fault (ℤ × Router) := do
  let r ← internalStep cfg (c.envAt s.1) (s.2.readInputs cfg s.1 c.flits c.credits)
  return (s.1 + 1, r.writeOutputs)

theorem cycle_reached {now : ℤ} {s : ℤ × Router} {c : Cycle} (h : Reached cfg bufCfg C now r)
    (hC : C (c.envAt now) (r.readInputs cfg now c.flits c.credits))
    (hcycle : cycle cfg (now, r) c = .ok s) : Reached cfg bufCfg C s.1 s.2 := by
  obtain ⟨r', hr', rfl⟩ := bind_return_ok.mp hcycle
  exact .wait (Int.le_add_one le_rfl) (.write (.step rfl hC (.receive _ _ h) hr'))

/-- The states of a router that is run cycle after cycle. -/
inductive Cycled (cfg : RouterConfig) (bufCfg : BufferConfig) : ℤ × Router → Prop
  | new {next : ℤ → BufferState} (hcfg : cfg.Accepted) (hvcs : bufCfg.numVCs = cfg.vcs)
      (hnext : ∀ o, ∃ minLatency, BufferState.new bufCfg minLatency = .ok (next o)) :
      Cycled cfg bufCfg (0, .new cfg bufCfg next)
  | cycle {s s' : ℤ × Router} (c : Cycle) (h : Cycled cfg bufCfg s)
      (hcycle : cycle cfg s c = .ok s') : Cycled cfg bufCfg s'

theorem Cycled.reached {s : ℤ × Router} (h : Cycled cfg bufCfg s) :
    Reached cfg bufCfg (fun _ _ => True) s.1 s.2 := by
  induction h with
  | new hcfg hvcs hnext => exact .new hcfg hvcs hnext
  | cycle c _ hcycle ih => exact cycle_reached ih trivial hcycle

theorem Cycled.now_nonneg {s : ℤ × Router} (h : Cycled cfg bufCfg s) : 0 ≤ s.1 :=
  h.reached.now_nonneg

/-- The run through a list of cycles, from a new router. -/
def play (cfg : RouterConfig) (bufCfg : BufferConfig) (cycles : List Cycle) :
    Except Fault (ℤ × Router) := do
  let next ← BufferState.new bufCfg 1
  cycles.foldlM (cycle cfg) (0, .new cfg bufCfg fun _ => next)

theorem exists_reached {cycles : List Cycle} {p : ℤ × Router → Bool} (hcfg : cfg.Accepted)
    (hvcs : bufCfg.numVCs = cfg.vcs) (henv : ∀ c ∈ cycles, c.env = env)
    (hC : ∀ now r, C { env with now := now } r) (h : returns p (play cfg bufCfg cycles) = true) :
    ∃ s, play cfg bufCfg cycles = .ok s ∧ p s = true ∧ Reached cfg bufCfg C s.1 s.2 := by
  obtain ⟨s, hs, hp⟩ := exists_of_returns h
  obtain ⟨next, hnext, hcycles⟩ := bind_ok.mp hs
  refine ⟨s, hs, hp, inv_of_foldlM_eq_ok (I := fun s => Reached cfg bufCfg C s.1 s.2) hcycles
    (fun _ _ c hc hcycle hs => cycle_reached hs ?_ hcycle) (.new hcfg hvcs fun _ => ⟨1, hnext⟩)⟩
  rw [Cycle.envAt, henv c hc]
  exact hC _ _

theorem cycled_of_play {cycles : List Cycle} {s : ℤ × Router} (hcfg : cfg.Accepted)
    (hvcs : bufCfg.numVCs = cfg.vcs) (h : play cfg bufCfg cycles = .ok s) :
      Cycled cfg bufCfg s := by
  obtain ⟨next, hnext, h⟩ := bind_ok.mp h
  exact inv_of_foldlM_eq_ok h (fun _ _ c _ hcycle hs => .cycle c hs hcycle)
    (.new hcfg hvcs fun _ => ⟨1, hnext⟩)

end Router

end BookSim
