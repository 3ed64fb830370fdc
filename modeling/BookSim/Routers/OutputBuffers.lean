/-
# OutputBuffers — how full an output buffer can get

A VC asks whether there is room in an output buffer before it competes for the switch, and one
that holds the switch before it sends.  What is on its way by then comes on top:

    granted, held    a passage through the switch has been granted, to a VC that competes or to
                     one that holds it; the flit is still in its VC
    crossbar         the flit has been sent; it is `waiting` until the crossbar has started it
    buffer           it has arrived

All that these numbers do in a step is written down once (`Load.Moves`), for one output; the
bound that `_SwitchUpdate` asserts follows if there are never more than `crossbar_delay` times
`output_speedup` flits for an output in the crossbar, and if all grants go back to a request for
which the room has been asked for.  The code does not see to either.
-/
import BookSim.Routers.Delays
import BookSim.Routers.SwitchHold

namespace BookSim

open List
open Function (update)

/-! ## One output -/

/-- The flits on their way to an output. -/
structure Load where
  buffer : ℕ
  crossbar : ℕ
  waiting : ℕ
  granted : ℕ
  held : ℕ

namespace Load

/-- What a round of an Update loop does; `size` is that of the output buffer. -/
inductive Moves (size : ℤ) : Load → Load → Prop
  | drop {l : Load} {granted held : ℕ} (hgranted : granted ≤ l.granted) (hheld : held ≤ l.held) :
      Moves size l { l with granted := granted, held := held }
  | sendGranted {l : Load} {granted : ℕ} (hgranted : l.granted = granted + 1) :
      Moves size l { l with
        granted := granted, crossbar := l.crossbar + 1, waiting := l.waiting + 1 }
  | sendHeld {l : Load} {held : ℕ} (hroom : l.buffer < size) (hheld : l.held = held + 1) :
      Moves size l { l with held := held, crossbar := l.crossbar + 1, waiting := l.waiting + 1 }
  | deliver {l : Load} {crossbar : ℕ} (hcrossbar : l.crossbar = crossbar + 1) :
      Moves size l { l with crossbar := crossbar, buffer := l.buffer + 1 }

variable {size limit : ℤ} {l l' : Load}

/-- At most `limit` flits can be sent or granted when there is room in the buffer. -/
structure Capped (size limit : ℤ) (l : Load) : Prop where
  total : l.buffer + l.crossbar + l.granted ≤ size - 1 + limit
  passing : l.crossbar + l.granted + l.held ≤ limit

theorem Moves.capped (h : Moves size l l') (hl : Capped size limit l) : Capped size limit l' := by
  obtain ⟨htotal, hpassing⟩ := hl
  cases h with
  | drop hgranted hheld | sendGranted hgranted => constructor <;> dsimp only <;> omega
  | sendHeld hroom hheld | deliver hcrossbar => constructor <;> dsimp only <;> omega

/-- Within a step at most `limit` flits are sent. -/
def Spread (limit : ℤ) (l : Load) : Prop := l.waiting + l.granted + l.held ≤ limit

theorem Moves.spread (h : Moves size l l') (hl : Spread limit l) : Spread limit l' := by
  unfold Spread at hl ⊢
  cases h with
  | drop hgranted hheld | sendGranted hgranted | sendHeld hroom hheld => dsimp only; omega
  | deliver hcrossbar => exact hl

/-- What the Evaluate halves do: the passages granted after them are `most` at most, and no new
ones are granted when there is no room. -/
structure Evaluates (size most : ℤ) (l l' : Load) : Prop where
  buffer : l'.buffer = l.buffer
  crossbar : l'.crossbar = l.crossbar
  passages : l'.granted + l'.held ≤ most
  room : l'.granted ≤ l.granted ∨ l.buffer < size

theorem Evaluates.capped {most : ℤ} (h : Evaluates size most l l')
    (hcrossbar : l.crossbar ≤ limit - most) (hl : Capped size limit l) : Capped size limit l' := by
  obtain ⟨hbuffer, hsame, hpassages, hroom⟩ := h
  obtain ⟨htotal, -⟩ := hl
  rw [← hsame] at hcrossbar
  refine ⟨?_, by omega⟩
  rcases hroom with hfewer | hroom
  · omega
  · omega

end Load

/-! ## The load of an output of the router -/

def SWGrant.leadsTo (cfg : RouterConfig) (o : ℤ) (g : SWGrant) : Bool :=
  g.expandedOutput / cfg.outputSpeedup = o

def Crossing.leadsTo (cfg : RouterConfig) (o : ℤ) (c : Crossing) : Bool :=
  c.expandedOutput / cfg.outputSpeedup = o

theorem GrowsFresh.filter_isStarted {q q' : List Entry} (h : GrowsFresh q q') :
    q'.filter Entry.isStarted = q.filter Entry.isStarted := by
  obtain ⟨new, rfl, hfresh⟩ := h
  have hnone : new.filter Entry.isStarted = [] := filter_eq_nil_iff.mpr fun e he => by
    rw [Entry.isStarted, (hfresh e he).1]
    decide
  rw [filter_append, hnone, append_nil]

namespace Router

variable {cfg : RouterConfig} {env : RouterEnv} {r r' : Router} {e : Entry} {q : List Entry}

def load (cfg : RouterConfig) (r : Router) (o : ℤ) : Load where
  buffer := (r.outputBuffer o).length
  crossbar := r.crossbarFlits.countP (Crossing.leadsTo cfg o)
  waiting := (r.crossbarFlits.filter (!·.isStarted)).countP (Crossing.leadsTo cfg o)
  granted := (swGrants r.swAllocVCs).countP (SWGrant.leadsTo cfg o)
  held := (swGrants (r.swHoldVCs.filter Entry.isStarted)).countP (SWGrant.leadsTo cfg o)

theorem RoundOf.load_eq {i v : ℤ} (h : RoundOf i v r r')
    (hbuffer : r'.outputBuffer = r.outputBuffer) (hcrossbar : r'.crossbarFlits = r.crossbarFlits) :
    r'.load cfg = r.load cfg := by
  funext o
  unfold load
  rw [hbuffer, hcrossbar, h.swAlloc.swGrants_eq, h.swHold.filter_isStarted]

/-! ## Rounds -/

theorem Sent.load {i v x : ℤ} {done stay : Router → Router} {f : Flit} {rest : List Flit}
    {dest : BufferState} (h : Sent cfg r i v x done stay f rest dest r')
    (hdone : ∀ s, RoundOf i v s (done s) ∧ (done s).backdrop = s.backdrop)
    (hstay : ∀ s, RoundOf i v s (stay s) ∧ (stay s).backdrop = s.backdrop) (o : ℤ) :
    r'.load cfg o = { r.load cfg o with
      crossbar := (r.load cfg o).crossbar + if x / cfg.outputSpeedup = o then 1 else 0
      waiting := (r.load cfg o).waiting + if x / cfg.outputSpeedup = o then 1 else 0 } := by
  have hround := h.roundOf (fun s => (hdone s).1) fun s => (hstay s).1
  have hbackdrop := h.backdrop_eq (fun s => (hdone s).2) fun s => (hstay s).2
  have hbuffer : r'.outputBuffer = r.outputBuffer := congrArg Backdrop.outputBuffer hbackdrop
  have hcrossbar : r'.crossbarFlits = _ := congrArg Backdrop.crossbarFlits hbackdrop
  unfold Router.load
  rw [hbuffer, hcrossbar, hround.swAlloc.swGrants_eq, hround.swHold.filter_isStarted]
  simp [Crossing.leadsTo, Crossing.isStarted, countP_append, filter_append]

theorem countP_swGrants_cons (o : ℤ) : (swGrants (e :: q)).countP (SWGrant.leadsTo cfg o) =
    (swGrants q).countP (SWGrant.leadsTo cfg o) +
      if 0 ≤ e.result ∧ e.result / cfg.outputSpeedup = o then 1 else 0 := by
  unfold swGrants
  rw [filterMap_cons]
  unfold Entry.swGrant?
  by_cases hresult : 0 ≤ e.result
  · rw [if_pos hresult]
    simp only [countP_cons, SWGrant.leadsTo, hresult, true_and, decide_eq_true_eq]
  · rw [if_neg hresult]
    simp [hresult]

theorem load_tail_swHold (hq : r.swHoldVCs = e :: q) (hstarted : e.isStarted = true) (o : ℤ) :
    ∃ held, load cfg { r with swHoldVCs := r.swHoldVCs.tail } o =
      { r.load cfg o with held := held } ∧ (r.load cfg o).held =
        held + if 0 ≤ e.result ∧ e.result / cfg.outputSpeedup = o then 1 else 0 := by
  refine ⟨_, rfl, ?_⟩
  dsimp only [load]
  rw [hq, filter_cons_of_pos hstarted, countP_swGrants_cons, tail_cons]

theorem load_tail_swAlloc (hq : r.swAllocVCs = e :: q) (o : ℤ) : ∃ granted,
      load cfg { r with swAllocVCs := r.swAllocVCs.tail } o =
        { r.load cfg o with granted := granted } ∧
      (r.load cfg o).granted =
        granted + if 0 ≤ e.result ∧ e.result / cfg.outputSpeedup = o then 1 else 0 := by
  refine ⟨_, rfl, ?_⟩
  dsimp only [load]
  rw [hq, countP_swGrants_cons, tail_cons]

theorem hasRoom_iff {o : ℤ} (hsize : 0 ≤ cfg.outputBufferSize) :
    r.hasRoom cfg o = true ↔ (r.load cfg o).buffer < cfg.outputBufferSize := by
  simp [hasRoom, load, not_lt.mpr hsize]

theorem swHoldItem_moves (hsize : 0 ≤ cfg.outputBufferSize) (hq : r.swHoldVCs = e :: q)
    (hstarted : e.isStarted = true) (hitem : swHoldItem cfg env r e = .ok r') (o : ℤ) :
    Load.Moves cfg.outputBufferSize (r.load cfg o) (r'.load cfg o) := by
  obtain ⟨held, hload, hheld⟩ := @load_tail_swHold cfg r e q hq hstarted o
  obtain ⟨-, -, -, -, ⟨hresult, hroom, -, -, -, -, f, rest, dest, hsent⟩ | ⟨-, rfl⟩⟩ :=
    swHoldItem_core hitem
  · rw [hsent.load (fun _ => ⟨.releaseSwitch _ _, rfl⟩) (fun _ => ⟨.pushSWHold, rfl⟩), hload]
    by_cases ho : e.result / cfg.outputSpeedup = o
    · rw [if_pos ⟨hresult, ho⟩] at hheld
      rw [if_pos ho]
      rw [ho] at hroom
      exact .sendHeld ((hasRoom_iff hsize).mp hroom) hheld
    · rw [if_neg ho]
      exact .drop le_rfl (hheld ▸ Nat.le_add_right _ _)
  · have hsame : load cfg (pushSWAlloc (releaseSwitch (cfg.expandedInput e.input e.vc)
        (r.switchHoldIn (cfg.expandedInput e.input e.vc))
        { r with swHoldVCs := r.swHoldVCs.tail }) e.input e.vc) =
        load cfg { r with swHoldVCs := r.swHoldVCs.tail } :=
      (RoundOf.trans (.releaseSwitch _ _) .pushSWAlloc).load_eq rfl rfl
    rw [hsame, hload]
    exact .drop le_rfl (hheld ▸ Nat.le_add_right _ _)

theorem swAllocItem_moves (hq : r.swAllocVCs = e :: q) (hitem : swAllocItem cfg env r e = .ok r')
    (o : ℤ) : Load.Moves cfg.outputBufferSize (r.load cfg o) (r'.load cfg o) := by
  obtain ⟨granted, hload, hgranted⟩ := @load_tail_swAlloc cfg r e q hq o
  obtain ⟨-, -, -, ⟨-, rfl⟩ | ⟨hresult, -, -, -, -, r₁, hequipped, -, -, f, rest, dest, hsent⟩⟩ :=
    swAllocItem_core hitem
  · have hsame : load cfg (pushSWAlloc { r with swAllocVCs := r.swAllocVCs.tail } e.input e.vc) =
        load cfg { r with swAllocVCs := r.swAllocVCs.tail } :=
      RoundOf.pushSWAlloc.load_eq rfl rfl
    rw [hsame, hload]
    exact .drop (hgranted ▸ Nat.le_add_right _ _) le_rfl
  · have hr₁ : r₁.load cfg = load cfg { r with swAllocVCs := r.swAllocVCs.tail } := by
      cases hequipped with
      | already h₁ => rw [h₁]
      | piggyback _ _ _ hcore =>
        exact (RoundOf.of_core hcore (.taken _ _ _)).load_eq (congrArg outputBuffer hcore :)
          (congrArg crossbarFlits hcore :)
    rw [hsent.load (fun s => ⟨.refl s, rfl⟩) (fun s => ⟨.stays _, backdrop_stays _ _ _ s⟩), hr₁,
      hload]
    by_cases ho : e.result / cfg.outputSpeedup = o
    · rw [if_pos ⟨hresult, ho⟩] at hgranted
      rw [if_pos ho]
      exact .sendGranted hgranted
    · rw [if_neg ho]
      exact .drop (hgranted ▸ Nat.le_add_right _ _) le_rfl

theorem switchItem_moves {c : Crossing} {cs : List Crossing} (hq : r.crossbarFlits = c :: cs)
    (hdue : c.isDue env.now = true) (hitem : switchItem cfg env r c = .ok r') (o : ℤ) :
    Load.Moves cfg.outputBufferSize (r.load cfg o) (r'.load cfg o) := by
  obtain ⟨-, -, rfl⟩ := switchItem_eq_ok hitem
  have hstarted : c.isStarted = true := (Bool.and_eq_true_iff.mp hdue).1
  have hcrossbar : (r.load cfg o).crossbar = cs.countP (Crossing.leadsTo cfg o) +
      if c.expandedOutput / cfg.outputSpeedup = o then 1 else 0 := by
    dsimp only [load]
    rw [hq, countP_cons]
    simp only [Crossing.leadsTo, decide_eq_true_eq]
  have hwaiting : (r.load cfg o).waiting =
      (cs.filter (!·.isStarted)).countP (Crossing.leadsTo cfg o) := by
    dsimp only [load]
    rw [hq, filter_cons_of_neg (by simpa using hstarted)]
  by_cases ho : c.expandedOutput / cfg.outputSpeedup = o
  · rw [if_pos ho] at hcrossbar
    have hdeliver := @Load.Moves.deliver cfg.outputBufferSize _ _ hcrossbar
    refine (congrArg (Load.Moves _ _) ?_).mp hdeliver
    rw [hwaiting]
    simp only [load, hq, tail_cons, ho, Function.update_self, length_append, length_singleton]
  · rw [if_neg ho, Nat.add_zero] at hcrossbar
    have hdrop := @Load.Moves.drop cfg.outputBufferSize (r.load cfg o) _ _ le_rfl le_rfl
    refine (congrArg (Load.Moves _ _) ?_).mp hdrop
    rw [hwaiting, hcrossbar]
    simp only [load, hq, tail_cons, Function.update_of_ne (Ne.symm ho)]

theorem load_keptByUpdates {P : Load → Prop} (hsize : 0 ≤ cfg.outputBufferSize)
    (hP : ∀ {l l' : Load}, Load.Moves cfg.outputBufferSize l l' → P l → P l') :
    KeptByUpdates cfg env (fun r => ∀ o, P (r.load cfg o)) where
  route {r _ e _} _ _ hitem _ h := by
    have hround := routeItem_roundOf hitem
    obtain ⟨-, -, -, routeSet, rfl⟩ := routeItem_eq_ok hitem
    have hsame : (r.routed cfg e.input e.vc routeSet).load cfg = r.load cfg :=
        hround.load_eq rfl rfl
    rwa [hsame]
  vcAlloc {r _ e _} _ _ hitem _ h := by
    obtain ⟨-, -, -, ⟨-, rfl⟩ | ⟨-, o, w, dest, -, -, rfl⟩⟩ := vcAllocItem_eq_ok hitem
    · exact h
    · have hsame : (r.allocated cfg e.input e.vc o w dest).load cfg = r.load cfg := by
        refine (allocated_roundOf _ _ _ _ _).load_eq ?_ ?_
        · rw [allocated_eq]
          rfl
        · rw [allocated_eq]
          rfl
      rwa [hsame]
  swHold hq hstarted hitem _ h o := hP (swHoldItem_moves hsize hq hstarted hitem o) (h o)
  swAlloc hq _ hitem _ h o := hP (swAllocItem_moves hq hitem o) (h o)
  switch hq hdue hitem _ h o := hP (switchItem_moves hq hdue hitem o) (h o)

theorem crossbarFlits_entered (i : ℤ) (f : Flit) (b : Buffer) (routeSet : OutputSet) :
    (r.entered cfg i f b routeSet).crossbarFlits = r.crossbarFlits ∧
      (r.entered cfg i f b routeSet).outputBuffer = r.outputBuffer := by
  unfold entered
  split
  · have hbegun := fun s : Router => @backdrop_begun cfg s i f.vc routeSet
    exact ⟨congrArg Backdrop.crossbarFlits (hbegun _), congrArg Backdrop.outputBuffer (hbegun _)⟩
  · split_ifs
    · exact ⟨rfl, rfl⟩
    · exact ⟨rfl, rfl⟩
    · exact ⟨rfl, rfl⟩
  · exact ⟨rfl, rfl⟩

theorem inputQueuing_load (h : inputQueuing cfg env r = .ok r') : r'.load cfg = r.load cfg := by
  refine inv_inputQueuing (I := fun s => s.load cfg = r.load cfg)
    (fun {s s' i f} _ _ hitem hs => ?_) (fun _ hitem hs => ?_) h rfl
  · obtain ⟨-, b, -, -, hcore⟩ := enterFlit_core hitem
    obtain ⟨hcrossbar, hbuffer⟩ := @crossbarFlits_entered cfg s i f b (env.route i f)
    refine Eq.trans ?_ hs
    exact (enterFlit_roundOf hitem).load_eq ((congrArg outputBuffer hcore :).trans hbuffer)
      ((congrArg crossbarFlits hcore :).trans hcrossbar)
  · obtain ⟨-, dest, -, rfl⟩ := creditItem_eq_ok hitem
    exact hs

/-! ## Evaluate -/

/-- Distinct outputs of the switch that lead to one output are as many as its speedup at most. -/
theorem countP_leadsTo_le (hcfg : cfg.Accepted) {gs : List SWGrant} (o : ℤ)
    (h : (gs.map SWGrant.expandedOutput).Nodup) :
    gs.countP (SWGrant.leadsTo cfg o) ≤ cfg.outputSpeedup := by
  have hsub : ((gs.filter (SWGrant.leadsTo cfg o)).map SWGrant.expandedOutput).Nodup :=
    h.sublist (filter_sublist.map _)
  have hle := @List.Nodup.length_le_of_subset _ _
    ((List.range cfg.outputSpeedup.toNat).map fun k : ℕ => o * cfg.outputSpeedup + k) hsub
    fun y hy => by
      obtain ⟨g, hg, rfl⟩ := mem_map.mp hy
      have hleads : g.expandedOutput / cfg.outputSpeedup = o :=
        of_decide_eq_true (mem_filter.mp hg).2
      have hmod := Int.emod_nonneg g.expandedOutput hcfg.outputSpeedup.ne'
      have hlt := Int.emod_lt_of_pos g.expandedOutput hcfg.outputSpeedup
      refine mem_map.mpr ⟨(g.expandedOutput % cfg.outputSpeedup).toNat, ?_, ?_⟩
      · exact mem_range.mpr (by omega)
      · rw [Int.toNat_of_nonneg hmod, ← hleads, Int.mul_comm]
        exact Int.mul_ediv_add_emod _ _
  rw [length_map, length_map, length_range, ← countP_eq_length_filter] at hle
  have hpos := hcfg.outputSpeedup
  omega

/-- The passages granted to VCs that compete for the switch and to VCs that hold it are all to
different outputs of the switch. -/
theorem passages_nodup (hcfg : cfg.Accepted) (hholds : HoldInvariant cfg r)
    (hbooked : SwitchBooked cfg r) :
    ((swGrants r.swAllocVCs ++ swGrants (r.swHoldVCs.filter Entry.isStarted)).map
      SWGrant.expandedOutput).Nodup := by
  have hheld : ∀ e ∈ r.swHoldVCs.filter Entry.isStarted, 0 ≤ e.result →
      r.switchHoldOut e.result = cfg.expandedInput e.input e.vc ∧ Holding cfg r e := by
    intro e he hresult
    obtain ⟨hmem, hstarted⟩ := mem_filter.mp he
    exact ⟨((hholds.asserted hcfg hmem hstarted).result hresult).2.1, hholds.2.entries e hmem⟩
  rw [nodup_iff_pairwise_ne, pairwise_map, pairwise_append]
  refine ⟨hbooked.2.apart.imp And.right, ?_, fun g hg g' hg' hsame => ?_⟩
  · have hplaces := hholds.1.1.nodup_swHold
    rw [nodup_iff_pairwise_ne, pairwise_map] at hplaces
    refine pairwise_filterMap.mpr ((hplaces.sublist filter_sublist).imp_of_mem ?_)
    intro e e' he he' hne g hg g' hg' hsame
    obtain ⟨hresult, rfl⟩ := Entry.swGrant?_eq_some.mp hg
    obtain ⟨hresult', rfl⟩ := Entry.swGrant?_eq_some.mp hg'
    obtain ⟨hout, hholding⟩ := hheld e he hresult
    obtain ⟨hout', hholding'⟩ := hheld e' he' hresult'
    change e.result = e'.result at hsame
    rw [hsame] at hout
    exact hne (hholding.place_eq hcfg hholding' (hout.symm.trans hout'))
  · obtain ⟨e, he, hresult, rfl⟩ := mem_swGrants.mp hg'
    obtain ⟨hout, hholding⟩ := hheld e he hresult
    have hfree := (hbooked.2.free g hg).2
    rw [hsame] at hfree
    change r.switchHoldOut e.result < 0 at hfree
    rw [hout] at hfree
    exact absurd (expandedInput_range hcfg hholding.input).1 (not_le.mpr hfree)

end Router

/-- No VC competes for a passage to an output before its buffer has been looked at. -/
def RouterConfig.ChecksRoom (cfg : RouterConfig) : Prop :=
  cfg.speculative = true → cfg.specCheckElig = true ∨ cfg.specCheckCred = true

instance (cfg : RouterConfig) : Decidable cfg.ChecksRoom :=
  inferInstanceAs (Decidable (_ → _))

namespace Router

theorem Asks.hasRoom {o : ℤ} (hchecks : cfg.ChecksRoom)
    (hspec : (r.vcAt e.input e.vc).state = .active ∨
      cfg.speculative = true ∧ (r.vcAt e.input e.vc).state = .vc_alloc)
    (h : Asks cfg env r e o) : r.hasRoom cfg o = true := by
  cases h with
  | active _ _ hroom => exact hroom
  | speculative hstate _ _ hpass =>
    have hspeculative : cfg.speculative = true := by
      rcases hspec with hactive | hspec
      · exact absurd (hactive.symm.trans hstate) (by decide)
      · exact hspec.1
    unfold Passes at hpass
    split_ifs at hpass with helig
    · obtain ⟨-, -, hroom, -⟩ := hpass
      exact hroom
    · rcases hchecks hspeculative with helig' | hcred
      · exact absurd helig' helig
      · rw [hcred] at hpass
        exact absurd hpass (by decide)

/-- The grants after `_SWAllocEvaluate` were there before, or there is room for all of them. -/
theorem evaluateStages_room (hcfg : cfg.Accepted) (hmatch : env.Matches) (hchecks : cfg.ChecksRoom)
    (hbatch : Batched r.swAllocVCs) (hstages : evaluateStages cfg env r = .ok r') :
    (swGrants r'.swAllocVCs).Sublist (swGrants r.swAllocVCs) ∨
      ∀ g ∈ swGrants r'.swAllocVCs, r.hasRoom cfg (g.expandedOutput / cfg.outputSpeedup) =
        true := by
  obtain ⟨q₁, q₂, q₃, q₄, vcGrants, offset, -, -, -, hswitch, rfl⟩ := evaluateStages_eq_ok hstages
  rcases ite_ok.mp hswitch with ⟨-, hswitch⟩ | ⟨-, hswitch⟩
  · cases hswitch
    exact .inl (.refl _)
  · obtain ⟨requests, p, p₁, p₂, rest, hev⟩ := swAllocEvaluate_eq_ok hswitch
    have hlooked := swGrants_lookedAt hev.lookedAt
    rcases hev.cases_batch hbatch with hsame | ⟨-, rfl⟩
    · rw [hsame] at hlooked
      exact .inl hlooked
    · refine .inr fun g hg => ?_
      rw [append_nil] at hlooked
      obtain ⟨e₂, he₂, hresult, rfl⟩ := mem_swGrants.mp (hlooked.subset hg)
      obtain ⟨e, he, -, o, hasks, houtput⟩ :=
        hev.toSWPassed.asks hcfg ⟨hmatch.answers.swAllocate _, hmatch.answers.specSWAllocate _⟩ he₂ hresult
      obtain ⟨_, -, t, t', hreq⟩ :=
        exists_of_mem_related (List.Forall₂.flip (R := flip _) hev.requested) he
      have hroom := hasks.hasRoom hchecks hreq.state
      change r.hasRoom cfg (e₂.result / cfg.outputSpeedup) = true
      rwa [houtput, expandedOutput_div hcfg]

theorem evaluateStages_evaluates (hcfg : cfg.Accepted) (hsize : 0 ≤ cfg.outputBufferSize)
    (hmatch : env.Matches) (hchecks : cfg.ChecksRoom) (hstages : evaluateStages cfg env r = .ok r')
    (hbatch : Batched r.swAllocVCs) (hholds : HoldInvariant cfg r') (hbooked : SwitchBooked cfg r')
    (o : ℤ) :
    Load.Evaluates cfg.outputBufferSize cfg.outputSpeedup (r.load cfg o) (r'.load cfg o) := by
  have hev := evaluateStages_ends.of_eq_ok hstages
  have hcount : ∀ cs : List Crossing, cs.countP (Crossing.leadsTo cfg o) =
      (cs.map Crossing.passage).countP fun p => p.2.2 / cfg.outputSpeedup = o := fun cs => by
    rw [countP_map]
    rfl
  refine ⟨?_, ?_, ?_, ?_⟩
  · unfold load
    rw [hev.same]
  · dsimp only [load]
    rw [hcount, hcount, hev.crossbar]
  · have hle := countP_leadsTo_le hcfg o (passages_nodup hcfg hholds hbooked)
    rw [countP_append] at hle
    exact_mod_cast hle
  · rcases evaluateStages_room hcfg hmatch hchecks hbatch hstages with hsub | hroom
    · exact .inl hsub.countP_le
    · by_cases hnone : (r'.load cfg o).granted = 0
      · exact .inl (hnone ▸ Nat.zero_le _)
      · obtain ⟨g, hg, hleads⟩ := countP_pos_iff.mp (Nat.pos_of_ne_zero hnone)
        have ho : g.expandedOutput / cfg.outputSpeedup = o := of_decide_eq_true hleads
        exact .inr ((hasRoom_iff hsize).mp (ho ▸ hroom g hg))

/-! ## Steps -/

theorem waiting_eq_zero {r : Router} (o : ℤ) (h : ∀ t ∈ r.times .crossbar, 0 ≤ t) :
    (r.load cfg o).waiting = 0 := by
  have hnone : r.crossbarFlits.filter (!·.isStarted) = [] :=
    filter_eq_nil_iff.mpr fun c hc => by
      simp [Crossing.isStarted, h c.time (mem_map_of_mem hc)]
  dsimp only [load]
  rw [hnone, countP_nil]

theorem Unstarted.waiting_eq {r : Router} (o : ℤ) (h : Unstarted .crossbar r) :
    (r.load cfg o).waiting = (r.load cfg o).crossbar := by
  have hall : r.crossbarFlits.filter (!·.isStarted) = r.crossbarFlits :=
    filter_eq_self.mpr fun c hc => by
      simp [Crossing.isStarted, h c.time (mem_map_of_mem hc)]
  dsimp only [load]
  rw [hall]

end Router

namespace RouterConfig

variable (cfg : RouterConfig)

/-- What can be on its way to an output when there is room in its buffer. -/
def mostPassing : ℤ := cfg.crossbarDelay * cfg.outputSpeedup + cfg.outputSpeedup

/-- The bound that `_SwitchUpdate` asserts. -/
def mostBuffered : ℤ :=
  cfg.outputBufferSize + cfg.crossbarDelay * cfg.outputSpeedup + (cfg.outputSpeedup - 1)

end RouterConfig

namespace Router

/-- What is asked of a step: the allocators answer with matchings, the room has been asked for
with every request, and a crossbar with a delay of more than one step does not have more flits for
an output than its delay allows for. -/
structure Moderate (cfg : RouterConfig) (env : RouterEnv) (r : Router) : Prop where
  answers : env.Matches
  checks : cfg.ChecksRoom
  crossbar : cfg.crossbarDelay = 1 ∨
    ∀ o, (r.load cfg o).crossbar ≤ cfg.crossbarDelay * cfg.outputSpeedup

/-- The invariant, between steps; with a delay of one step the crossbar holds what was sent in
the last one. -/
structure Uncrowded (cfg : RouterConfig) (r : Router) : Prop where
  capped : ∀ o, (r.load cfg o).Capped cfg.outputBufferSize cfg.mostPassing
  prompt : cfg.crossbarDelay = 1 → ∀ o, (r.load cfg o).crossbar ≤ cfg.outputSpeedup

/-- … and within a step. -/
def UncrowdedWithin (cfg : RouterConfig) (r : Router) : Prop :=
  (∀ o, (r.load cfg o).Capped cfg.outputBufferSize cfg.mostPassing) ∧
    ∀ o, cfg.crossbarDelay = 1 → (r.load cfg o).Spread cfg.outputSpeedup

theorem uncrowdedWithin_kept (hsize : 0 ≤ cfg.outputBufferSize) :
    KeptByUpdates cfg env (UncrowdedWithin cfg) :=
  (load_keptByUpdates hsize fun h => h.capped).and
    (load_keptByUpdates (P := fun l => cfg.crossbarDelay = 1 → l.Spread cfg.outputSpeedup) hsize
      fun h hl hdelay => h.spread (hl hdelay)).given

variable {bufCfg : BufferConfig} {now : ℤ}

theorem toSwitchUpdate_uncrowded (hsize : 0 ≤ cfg.outputBufferSize)
    (hreached : Reached cfg bufCfg (Moderate cfg) now r) (hnow : env.now = now)
    (hmoderate : Moderate cfg env r) {s : Bool × Router}
    (hs : toSwitchUpdate cfg env r = .ok s) (h : Uncrowded cfg r) : UncrowdedWithin cfg s.2 := by
  obtain ⟨r₁, r₂, h₁, h₂, hupdates⟩ := (uncrowdedWithin_kept hsize).toSwitchUpdate hs
  have hcfg := hreached.accepted
  have hholds : Kept cfg env (HoldInvariant cfg) := holdInvariant_kept hcfg
  have hbooked := tidy_kept.and (switchBooked_kept hcfg hmoderate.answers.answers)
  have hr₁ := hbooked.inputQueuing h₁ (switchBooked_reached (fun hC => hC.answers.answers) hreached)
  have hev := evaluateStages_evaluates hcfg hsize hmoderate.answers hmoderate.checks h₂ hr₁.2.1
    (hholds.evaluate h₂ trivial (hholds.inputQueuing h₁ (holdInvariant_reached hreached)))
    (hbooked.evaluate h₂ trivial hr₁).2
  rw [inputQueuing_load h₁] at hev
  have hcrossbar : ∀ o, (r.load cfg o).crossbar ≤ cfg.crossbarDelay * cfg.outputSpeedup := by
    rcases hmoderate.crossbar with hdelay | hcrossbar
    · rw [hdelay, one_mul]
      exact h.prompt hdelay
    · exact hcrossbar
  refine hupdates ⟨fun o => (hev o).capped ?_ (h.capped o), fun o hdelay => ?_⟩
  · rw [RouterConfig.mostPassing, add_sub_cancel_right]
    exact hcrossbar o
  · have hstarted := evaluateStages_started .crossbar hdelay hr₁.1 h₂
      ((unstarted_reached .crossbar hdelay hreached).grow (inputQueuing_times h₁))
    have hwaiting := @waiting_eq_zero cfg r₂ o fun t ht => by
      rw [hstarted] at ht
      rw [eq_of_mem_replicate ht, hnow]
      exact hreached.now_nonneg
    have hpassages := (hev o).passages
    unfold Load.Spread
    omega

theorem internalStep_uncrowded (hsize : 0 ≤ cfg.outputBufferSize)
    (hreached : Reached cfg bufCfg (Moderate cfg) now r) (hnow : env.now = now)
    (hmoderate : Moderate cfg env r) (hstep : internalStep cfg env r = .ok r')
    (h : Uncrowded cfg r) : Uncrowded cfg r' := by
  have hreached' := hreached.step hnow hmoderate hstep
  rw [internalStep_eq] at hstep
  rcases ite_ok.mp hstep with ⟨-, hstep⟩ | ⟨-, hstep⟩
  · obtain ⟨s, hs, hstep⟩ := bind_ok.mp hstep
    obtain ⟨s', hs', hstep⟩ := bind_ok.mp hstep
    obtain rfl := outputQueuing_eq_ok hstep
    have hend := KeptByUpdates.updateStage (uncrowdedWithin_kept hsize).switchUpdate hs'
      (toSwitchUpdate_uncrowded hsize hreached hnow hmoderate hs h)
    refine ⟨hend.1, fun hdelay o => ?_⟩
    have hspread : Load.Spread cfg.outputSpeedup (s'.2.load cfg o) := hend.2 o hdelay
    have hwaiting : (s'.2.load cfg o).waiting = (s'.2.load cfg o).crossbar :=
      (unstarted_reached .crossbar hdelay hreached').waiting_eq o
    change ((s'.2.load cfg o).crossbar : ℤ) ≤ _
    unfold Load.Spread at hspread
    omega
  · cases hstep
    exact h

theorem uncrowded_reached (hsize : 0 ≤ cfg.outputBufferSize) (hdelay : 1 ≤ cfg.crossbarDelay)
    (h : Reached cfg bufCfg (Moderate cfg) now r) : Uncrowded cfg r := by
  induction h with
  | @new next hcfg _ _ =>
    have hpos := hcfg.outputSpeedup
    have hprod := Int.mul_pos hdelay hpos
    have hload : ∀ o, (Router.new cfg bufCfg next).load cfg o = ⟨0, 0, 0, 0, 0⟩ := fun _ => rfl
    refine ⟨fun o => ?_, fun _ o => ?_⟩
    · rw [hload]
      constructor
      · dsimp only [RouterConfig.mostPassing]
        omega
      · dsimp only [RouterConfig.mostPassing]
        omega
    · rw [hload]
      exact hpos.le
  | receive _ _ _ ih => exact ⟨ih.capped, ih.prompt⟩
  | step hnow hC h hstep ih => exact internalStep_uncrowded hsize h hnow hC hstep ih
  | @write now r _ ih =>
    have hload : ∀ o, r.writeOutputs.load cfg o =
      { r.load cfg o with buffer := ((r.outputBuffer o).tail).length } := fun _ => rfl
    refine ⟨fun o => ?_, fun hdelay o => ?_⟩
    · obtain ⟨htotal, hpassing⟩ := ih.capped o
      rw [hload, length_tail]
      refine ⟨le_trans ?_ htotal, hpassing⟩
      dsimp only [load]
      omega
    · rw [hload]
      exact ih.prompt hdelay o
  | wait _ _ ih => exact ih

/-- Output buffers do not overflow: in a run whose steps all meet the condition, an output buffer
never has more flits than `_SwitchUpdate` asserts, between steps and when a flit is put there. -/
theorem outputBuffers_bounded (hsize : 0 ≤ cfg.outputBufferSize) (hdelay : 1 ≤ cfg.crossbarDelay)
    (h : Reached cfg bufCfg (Moderate cfg) now r) :
    (∀ o, (r.outputBuffer o).length ≤ cfg.mostBuffered) ∧
      ∀ env r' c, env.now = now → Moderate cfg env r → SwitchRound cfg env r r' c →
        (r'.outputBuffer (c.expandedOutput / cfg.outputSpeedup) ++ [c.flit]).length ≤
          cfg.mostBuffered := by
  have hinv := uncrowded_reached hsize hdelay h
  refine ⟨fun o => ?_, fun env r' c hnow hmoderate hround => ?_⟩
  · have htotal := (hinv.capped o).total
    unfold RouterConfig.mostPassing at htotal
    unfold RouterConfig.mostBuffered
    dsimp only [load] at htotal
    omega
  · obtain ⟨s, hs, hround⟩ := hround
    obtain ⟨hr', -, q, hq⟩ := inv_atRound
      (fun hq hdue hitem => (uncrowdedWithin_kept hsize).switch hq hdue hitem trivial)
      switchItem_queue hround (toSwitchUpdate_uncrowded hsize h hnow hmoderate hs hinv)
    have htotal := (hr'.1 (c.expandedOutput / cfg.outputSpeedup)).total
    have hcrossbar : 0 < (r'.load cfg (c.expandedOutput / cfg.outputSpeedup)).crossbar :=
      countP_pos_iff.mpr ⟨c, hq ▸ mem_cons_self, decide_eq_true rfl⟩
    rw [length_append, length_singleton]
    unfold RouterConfig.mostPassing at htotal
    unfold RouterConfig.mostBuffered
    dsimp only [load] at htotal hcrossbar
    omega

/-- … as here, where two flits come to a buffer with room for one in the same step. -/
theorem outputBuffers_bounded_pair :
    let cfg : RouterConfig := { inputs := 2, outputs := 1, vcs := 2, classes := 1
                                outputSpeedup := 2, outputBufferSize := 1, routingDelay := 0
                                speculative := true }
    let env := RouterEnv.greedy cfg fun i _ => OutputSet.clear.addRange 0 i.toNat i.toNat 0
    let f : Flit := { id := 0, pid := 0, cl := 0, src := 0, dest := 0, vc := 0, head := true }
    ∃ s, play cfg { numVCs := 2 } [{ flits := fun _ => some f, env }, { env }] = .ok s ∧
      (s.2.outputBuffer 0).length = 1 ∧ ∀ o, (s.2.outputBuffer o).length ≤ cfg.mostBuffered := by
  intro cfg env f
  obtain ⟨s, hs, hlength, hreached⟩ := @exists_reached cfg { numVCs := 2 } (Moderate cfg) env
    [{ flits := fun _ => some f, env }, { env }] (fun s => (s.2.outputBuffer 0).length = 1)
    (by decide) rfl (by simp)
    (fun now _ => ⟨(RouterEnv.matches_greedy _ _).at now, by decide, .inl rfl⟩) (by decide +kernel)
  exact ⟨s, hs, of_decide_eq_true hlength,
    (outputBuffers_bounded (by decide) (by decide) hreached).1⟩

/-- Without the two things the bound is exceeded: with both checks of speculative requests turned
off, one-flit packets come to a buffer without any room, two in a step; and a crossbar that takes
two steps is not started for the flits behind those in progress, so that they come to the buffer
all at once. -/
theorem outputBuffer_overflows :
    let overflow : Fault :=
      .assertion "_output_buffer[output].size() <= _output_buffer_size + in flight"
    (let cfg : RouterConfig := { inputs := 2, outputs := 1, vcs := 4, classes := 1
                                 outputSpeedup := 2, outputBufferSize := 0, routingDelay := 0
                                 speculative := true, specCheckElig := false, specCheckCred :=
                                   false }
      let env := RouterEnv.greedy cfg fun _ _ => OutputSet.clear.addRange 0 0 3 0
      let f : ℤ → Flit := fun v =>
        { id := 0, pid := 0, cl := 0, src := 0, dest := 0, vc := v, head := true, tail := true }
      play cfg { numVCs := 4 } ((List.range 4).map fun k => { flits := fun _ => some (f k), env }) =
        .error overflow) ∧
    (let cfg : RouterConfig := { inputs := 4, outputs := 1, vcs := 4, classes := 1
                                 outputSpeedup := 4, outputBufferSize := 4, routingDelay := 0
                                 crossbarDelay := 2 }
      let env := RouterEnv.greedy cfg fun i _ => OutputSet.clear.addRange 0 i.toNat i.toNat 0
      let f : ℕ → Flit := fun k =>
        { id := k, pid := 0, cl := 0, src := 0, dest := 0, vc := 0, head := k = 0 }
      play cfg { numVCs := 4 } ((List.range 8).map fun k => { flits := fun _ => some (f k), env }) =
        .error overflow) := by
  exact ⟨eq_error_of_stops (by decide +kernel), eq_error_of_stops (by decide +kernel)⟩

end Router

end BookSim
