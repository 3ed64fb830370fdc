/-
# SwitchHold — the bookkeeping of held connections

With `hold_switch_for_packet` a VC that has won the switch keeps it while it has flits of the
same packet to send.  Three arrays say who holds what:

    `_switch_hold_in`     the expanded output an expanded input is connected to
    `_switch_hold_out`    the expanded input an expanded output is connected to
    `_switch_hold_vc`     the VC of the expanded input that holds the connection

A connection is made in `_SWAllocUpdate`, and given up in `_SWHoldUpdate` at the tail, when the
VC runs empty, or for want of space.  All the while its VC is in `_sw_hold_vcs`, and this is the
invariant (`HoldSound`): the entries of that queue and the connections are the same thing.
-/
import BookSim.Routers.SwitchGrants

namespace BookSim

open List
open Function (update update_apply update_of_ne update_self)

namespace Router

variable {cfg : RouterConfig} {env : RouterEnv} {r r' : Router} {e e' : Entry}

/-! ## Grants are aligned -/

/-- A property of grants that `_SWAllocEvaluate` sees to holds of them until they are used. -/
theorem grants_kept {P : SWGrant → Prop}
    (hevaluate : ∀ {r r' : Router}, evaluateStages cfg env r = .ok r' →
      (∀ g ∈ swGrants r.swAllocVCs, P g) → ∀ g ∈ swGrants r'.swAllocVCs, P g) :
    Kept cfg env (fun r => ∀ g ∈ swGrants r.swAllocVCs, P g) where
  enter _ _ hitem _ h := by
    rwa [(enterFlit_roundOf hitem).swAlloc.swGrants_eq]
  credit _ hitem _ h := by
    obtain ⟨-, dest, -, rfl⟩ := creditItem_eq_ok hitem
    exact h
  evaluate hstages _ h := hevaluate hstages h
  route _ _ hitem _ h := by
    rwa [(routeItem_roundOf hitem).swAlloc.swGrants_eq]
  vcAlloc _ _ hitem _ h := by
    rwa [(vcAllocItem_roundOf hitem).swAlloc.swGrants_eq]
  swHold _ _ hitem _ h := by
    rwa [(swHoldItem_roundOf hitem).swAlloc.swGrants_eq]
  swAlloc _ _ hitem _ h := by
    rw [(swAllocItem_roundOf hitem).swAlloc.swGrants_eq]
    exact fun g hg => h g ((swGrants_tail _).subset hg)
  switch _ _ hitem _ h := by
    obtain ⟨-, -, rfl⟩ := switchItem_eq_ok hitem
    exact h
  flush hflush _ h := by
    obtain rfl := outputQueuing_eq_ok hflush
    exact h
  active _ h := h

/-- Inputs go to their own part of an output with speedup. -/
def Aligned (cfg : RouterConfig) (g : SWGrant) : Prop :=
  g.expandedOutput % cfg.outputSpeedup = g.input % cfg.outputSpeedup

theorem evaluateStages_aligned (hstages : evaluateStages cfg env r = .ok r')
    (h : ∀ g ∈ swGrants r.swAllocVCs, Aligned cfg g) :
    ∀ g ∈ swGrants r'.swAllocVCs, Aligned cfg g := by
  obtain ⟨q₁, q₂, q₃, q₄, vcGrants, offset, -, -, -, hswitch, rfl⟩ := evaluateStages_eq_ok hstages
  rcases ite_ok.mp hswitch with ⟨-, hswitch⟩ | ⟨-, hswitch⟩
  · cases hswitch
    exact h
  · obtain ⟨requests, p, p₁, p₂, rest, hevaluated⟩ := swAllocEvaluate_eq_ok hswitch
    intro g hg
    have hg' := (swGrants_lookedAt hevaluated.lookedAt).subset hg
    rw [swGrants_append] at hg'
    rcases mem_append.mp hg' with hg' | hg'
    · obtain ⟨e₂, he₂, hresult, rfl⟩ := mem_swGrants.mp hg'
      obtain ⟨e₁, -, hgrant⟩ := exists_of_mem_related hevaluated.granted he₂
      exact (hgrant.grantedBy hresult).1
    · refine h g ?_
      have hqueue : r.swAllocVCs = p ++ rest := hevaluated.queue
      rw [hqueue, swGrants_append]
      exact mem_append_right _ hg'

/-! ## The invariant -/

/-- The entry `e` of `_sw_hold_vcs` stands for a held connection. -/
structure Holding (cfg : RouterConfig) (r : Router) (e : Entry) : Prop where
  input : cfg.IsInput e.input
  vc : cfg.IsVC e.vc
  output : cfg.IsOutput (r.vcAt e.input e.vc).outPort
  holdVC : r.switchHoldVC (cfg.expandedInput e.input e.vc) = e.vc
  holdIn : r.switchHoldIn (cfg.expandedInput e.input e.vc) =
    cfg.expandedOutput (r.vcAt e.input e.vc).outPort e.input
  result : e.isStarted = true → e.result = STALL_BUFFER_FULL ∨ e.result = STALL_BUFFER_RESERVED ∨
    e.result = cfg.expandedOutput (r.vcAt e.input e.vc).outPort e.input

structure HoldSound (cfg : RouterConfig) (r : Router) : Prop where
  inverse : MutuallyInverse r.switchHoldIn r.switchHoldOut
  vc_iff : ∀ x, 0 ≤ r.switchHoldVC x ↔ 0 ≤ r.switchHoldIn x
  entries : ∀ e ∈ r.swHoldVCs, Holding cfg r e
  held : ∀ x, 0 ≤ r.switchHoldIn x → ∃ e ∈ r.swHoldVCs, x = cfg.expandedInput e.input e.vc

theorem expandedOutput_div (hcfg : cfg.Accepted) (o i : ℤ) :
    cfg.expandedOutput o i / cfg.outputSpeedup = o := by
  unfold RouterConfig.expandedOutput
  rw [Int.add_comm, Int.add_mul_ediv_right _ _ hcfg.outputSpeedup.ne',
    Int.ediv_eq_zero_of_lt (Int.emod_nonneg _ hcfg.outputSpeedup.ne')
      (Int.emod_lt_of_pos _ hcfg.outputSpeedup), Int.zero_add]

theorem expandedOutput_nonneg (hcfg : cfg.Accepted) {o : ℤ} (ho : cfg.IsOutput o) (i : ℤ) :
    0 ≤ cfg.expandedOutput o i :=
  Int.add_nonneg (Int.mul_nonneg ho.1 hcfg.outputSpeedup.le)
    (Int.emod_nonneg _ hcfg.outputSpeedup.ne')

theorem eq_expandedOutput {y i : ℤ} (h : y % cfg.outputSpeedup = i % cfg.outputSpeedup) :
    y = cfg.expandedOutput (y / cfg.outputSpeedup) i := by
  unfold RouterConfig.expandedOutput
  rw [← h, Int.mul_comm]
  exact (Int.mul_ediv_add_emod y cfg.outputSpeedup).symm

theorem Holding.of_same (h : Holding cfg r e) (hplace : e'.place = e.place)
    (hsame : e'.isStarted = true → e' = e)
    (hvc : r'.switchHoldVC (cfg.expandedInput e.input e.vc) =
      r.switchHoldVC (cfg.expandedInput e.input e.vc))
    (hin : r'.switchHoldIn (cfg.expandedInput e.input e.vc) =
      r.switchHoldIn (cfg.expandedInput e.input e.vc))
    (hport : (r'.vcAt e.input e.vc).outPort = (r.vcAt e.input e.vc).outPort) :
    Holding cfg r' e' := by
  obtain ⟨time', input', vc', result'⟩ := e'
  obtain ⟨rfl, rfl⟩ : input' = e.input ∧ vc' = e.vc := Prod.mk.inj hplace
  obtain ⟨hi, hv, ho, hholdVC, hholdIn, hresult⟩ := h
  rw [← hport] at ho hholdIn hresult
  refine ⟨hi, hv, ho, hvc.trans hholdVC, hin.trans hholdIn, fun hstarted => ?_⟩
  have heq := hsame hstarted
  rw [heq] at hstarted ⊢
  exact hresult hstarted

theorem HoldSound.frame (h : HoldSound cfg r) (hholds : r'.holds = r.holds)
    (hentries : ∀ e' ∈ r'.swHoldVCs, ∃ e ∈ r.swHoldVCs, e'.place = e.place ∧
      (e'.isStarted = true → e' = e))
    (hqueued : ∀ e ∈ r.swHoldVCs, ∃ e' ∈ r'.swHoldVCs, e'.place = e.place)
    (hport : ∀ e ∈ r.swHoldVCs, (r'.vcAt e.input e.vc).outPort = (r.vcAt e.input e.vc).outPort) :
    HoldSound cfg r' := by
  have hin : r'.switchHoldIn = r.switchHoldIn := congrArg Holds.switchHoldIn hholds
  have hout : r'.switchHoldOut = r.switchHoldOut := congrArg Holds.switchHoldOut hholds
  have hvc : r'.switchHoldVC = r.switchHoldVC := congrArg Holds.switchHoldVC hholds
  refine ⟨?_, ?_, fun e' he' => ?_, fun x hx => ?_⟩
  · rw [hin, hout]
    exact h.inverse
  · rw [hin, hvc]
    exact h.vc_iff
  · obtain ⟨e, he, hplace, hsame⟩ := hentries e' he'
    exact (h.entries e he).of_same hplace hsame (congrFun hvc _) (congrFun hin _) (hport e he)
  · rw [hin] at hx
    obtain ⟨e, he, rfl⟩ := h.held x hx
    obtain ⟨e', he', hplace⟩ := hqueued e he
    refine ⟨e', he', ?_⟩
    rw [show e'.input = e.input from congrArg Prod.fst hplace,
      show e'.vc = e.vc from congrArg Prod.snd hplace]

theorem HoldSound.frame_of_queue (h : HoldSound cfg r) (hholds : r'.holds = r.holds)
    (hqueue : r'.swHoldVCs = r.swHoldVCs)
    (hport : ∀ e ∈ r.swHoldVCs, (r'.vcAt e.input e.vc).outPort = (r.vcAt e.input e.vc).outPort) :
    HoldSound cfg r' :=
  h.frame hholds (fun e he => ⟨e, hqueue ▸ he, rfl, fun _ => rfl⟩)
    (fun e he => ⟨e, hqueue.symm ▸ he, rfl⟩) hport

theorem Holding.place_eq (hcfg : cfg.Accepted) (h : Holding cfg r e) (h' : Holding cfg r e')
    (hx : cfg.expandedInput e.input e.vc = cfg.expandedInput e'.input e'.vc) :
    e.place = e'.place := by
  have hvc : e.vc = e'.vc := by rw [← h.holdVC, ← h'.holdVC, hx]
  rw [hvc] at hx
  exact Prod.ext (expandedInput_inj hcfg hx) hvc

/-- `holdSwitch`, of the held connections alone. -/
def Holds.hold (h : Holds) (x y v : ℤ) : Holds where
  switchHoldIn := update h.switchHoldIn x y
  switchHoldOut := update h.switchHoldOut y x
  switchHoldVC := update h.switchHoldVC x v

theorem HoldSound.release (hcfg : cfg.Accepted) (h : HoldSound cfg r) (he : e ∈ r.swHoldVCs)
    (hholds : r'.holds = (releaseSwitch (cfg.expandedInput e.input e.vc)
      (r.switchHoldIn (cfg.expandedInput e.input e.vc)) r).holds)
    (hqueue : ∀ e', e' ∈ r'.swHoldVCs ↔ e' ∈ r.swHoldVCs ∧ e'.place ≠ e.place)
    (hport : ∀ e' ∈ r.swHoldVCs, e'.place ≠ e.place →
      (r'.vcAt e'.input e'.vc).outPort = (r.vcAt e'.input e'.vc).outPort) :
    HoldSound cfg r' := by
  have hheld := h.entries e he
  have hin : r'.switchHoldIn = _ := congrArg Holds.switchHoldIn hholds
  have hout : r'.switchHoldOut = _ := congrArg Holds.switchHoldOut hholds
  have hvc : r'.switchHoldVC = _ := congrArg Holds.switchHoldVC hholds
  dsimp only [holds, releaseSwitch] at hin hout hvc
  have hx := (expandedInput_range hcfg hheld.input (v := e.vc)).1
  refine ⟨?_, fun x => ?_, fun e' he' => ?_, fun x hx' => ?_⟩
  · rw [hin, hout]
    refine h.inverse.part hx ?_ rfl
    rw [hheld.holdIn]
    exact expandedOutput_nonneg hcfg hheld.output _
  · rw [hin, hvc, update_apply, update_apply]
    split_ifs
    · exact Iff.rfl
    · exact h.vc_iff x
  · obtain ⟨hmem, hplace⟩ := (hqueue e').mp he'
    have hheld' := h.entries e' hmem
    have hne : cfg.expandedInput e'.input e'.vc ≠ cfg.expandedInput e.input e.vc := fun hx =>
      hplace (hheld'.place_eq hcfg hheld hx)
    refine hheld'.of_same rfl (fun _ => rfl) ?_ ?_ (hport e' hmem hplace)
    · rw [hvc, update_of_ne hne]
    · rw [hin, update_of_ne hne]
  · rw [hin, update_apply] at hx'
    split_ifs at hx' with hsame
    · exact absurd hx' (by decide)
    · obtain ⟨e', he', rfl⟩ := h.held x hx'
      refine ⟨e', (hqueue e').mpr ⟨he', fun hplace => hsame ?_⟩, rfl⟩
      rw [show e'.input = e.input from congrArg Prod.fst hplace,
        show e'.vc = e.vc from congrArg Prod.snd hplace]

theorem HoldSound.hold {y : ℤ} (hcfg : cfg.Accepted) (h : HoldSound cfg r)
    (hfree : r.switchHoldIn (cfg.expandedInput e.input e.vc) < 0 ∧ r.switchHoldOut y < 0)
    (hholds : r'.holds = r.holds.hold (cfg.expandedInput e.input e.vc) y e.vc)
    (hqueue : r'.swHoldVCs = r.swHoldVCs ++ [e]) (hheld : Holding cfg r' e)
    (hport : ∀ e' ∈ r.swHoldVCs, (r'.vcAt e'.input e'.vc).outPort =
    (r.vcAt e'.input e'.vc).outPort) : HoldSound cfg r' := by
  have hin : r'.switchHoldIn = _ := congrArg Holds.switchHoldIn hholds
  have hout : r'.switchHoldOut = _ := congrArg Holds.switchHoldOut hholds
  have hvc : r'.switchHoldVC = _ := congrArg Holds.switchHoldVC hholds
  dsimp only [holds, Holds.hold] at hin hout hvc
  have hy : y = cfg.expandedOutput (r'.vcAt e.input e.vc).outPort e.input := by
    rw [← hheld.holdIn, hin, update_self]
  have hnonneg : 0 ≤ y := hy ▸ expandedOutput_nonneg hcfg hheld.output _
  refine ⟨?_, fun x => ?_, fun e' he' => ?_, fun x hx' => ?_⟩
  · rw [hin, hout]
    exact h.inverse.join hfree.1 hfree.2
  · rw [hin, hvc, update_apply, update_apply]
    split_ifs
    · exact iff_of_true hheld.vc.1 hnonneg
    · exact h.vc_iff x
  · rw [hqueue] at he'
    rcases mem_append.mp he' with he' | he'
    · have hheld' := h.entries e' he'
      have hne : cfg.expandedInput e'.input e'.vc ≠ cfg.expandedInput e.input e.vc := fun hx => by
        have hset := (h.vc_iff _).mp (hheld'.holdVC.symm ▸ hheld'.vc.1)
        rw [hx] at hset
        exact absurd hfree.1 (not_lt.mpr hset)
      refine hheld'.of_same rfl (fun _ => rfl) ?_ ?_ (hport e' he')
      · rw [hvc, update_of_ne hne]
      · rw [hin, update_of_ne hne]
    · rwa [mem_singleton.mp he']
  · rw [hqueue]
    rw [hin, update_apply] at hx'
    split_ifs at hx' with hsame
    · exact ⟨e, mem_append_right _ (mem_singleton_self e), hsame⟩
    · obtain ⟨e', he', rfl⟩ := h.held x hx'
      exact ⟨e', mem_append_left _ he', rfl⟩

/-! ## The rounds -/

theorem vcAt_begun_ne {i v i' v' : ℤ} (routeSet : OutputSet) (hne : ¬ (i' = i ∧ v' = v)) :
    (r.begun cfg i v routeSet).vcAt i' v' = r.vcAt i' v' := by
  unfold begun
  split
  · exact vcAt_setVC_ne (r := r) _ hne
  · exact vcAt_setVC_ne (r := r) _ hne

theorem swHoldVCs_begun (i v : ℤ) (routeSet : OutputSet) :
    (r.begun cfg i v routeSet).swHoldVCs = r.swHoldVCs := by
  unfold begun
  split
  · rfl
  · rfl

theorem Sent.split {i v x : ℤ} {done stay : Router → Router} {f : Flit} {rest : List Flit}
    {dest : BufferState} (h : Sent cfg r i v x done stay f rest dest r')
    (hdone : ∀ s, (done s).buf = s.buf) :
    ∃ b, (∀ i' v', ¬ (i' = i ∧ v' = v) → (r.sent cfg i v x f b dest).vcAt i' v' = r.vcAt i' v') ∧
        ((r.sent cfg i v x f b dest).vcAt i v).outPort = (r.vcAt i v).outPort ∧
      (f.tail = false ∧ rest ≠ [] ∧ r'.core = (stay (r.sent cfg i v x f b dest)).core ∨
        (f.tail = true ∨ rest = []) ∧ r'.swHoldVCs = (done (r.sent cfg i v x f b dest)).swHoldVCs ∧
          r'.holds = (done (r.sent cfg i v x f b dest)).holds ∧
          ∀ i' v', ¬ (i' = i ∧ v' = v) → r'.vcAt i' v' = r.vcAt i' v') := by
  obtain ⟨b, routeSet, hremoved, hcore⟩ := h.core_eq
  obtain ⟨rest', pri, -, hb⟩ := Buffer.removeFlit_eq_ok hremoved
  have hsent : ∀ i' v', (r.sent cfg i v x f b dest).vcAt i' v' = if i' = i ∧ v' = v
      then { r.vcAt i v with buffer := rest', pri } else r.vcAt i' v' := fun i' v' =>
    vcAt_of_buf rfl (by rw [hb]; rfl)
  have hother : ∀ i' v', ¬ (i' = i ∧ v' = v) →
      (r.sent cfg i v x f b dest).vcAt i' v' = r.vcAt i' v' := fun i' v' hne =>
    (hsent i' v').trans (if_neg hne)
  refine ⟨b, hother, by rw [hsent, if_pos ⟨rfl, rfl⟩], ?_⟩
  have hdoneOther : ∀ i' v', ¬ (i' = i ∧ v' = v) →
      (done (r.sent cfg i v x f b dest)).vcAt i' v' = r.vcAt i' v' := fun i' v' hne => by
    unfold vcAt
    rw [hdone]
    exact hother i' v' hne
  have hqueue : r'.swHoldVCs =
      ((r.sent cfg i v x f b dest).concluded cfg i v f rest routeSet done stay).swHoldVCs :=
    (congrArg swHoldVCs hcore :)
  have hholds : r'.holds =
      ((r.sent cfg i v x f b dest).concluded cfg i v f rest routeSet done stay).holds :=
    (congrArg holds hcore :)
  have hvc : r'.vcAt =
      ((r.sent cfg i v x f b dest).concluded cfg i v f rest routeSet done stay).vcAt :=
    (congrArg vcAt hcore :)
  rw [hqueue, hholds, hvc]
  unfold concluded at hcore ⊢
  split_ifs at hcore ⊢ with htail hrest hrest
  · refine .inr ⟨.inl htail, rfl, rfl, fun i' v' hne => ?_⟩
    rw [setState, vcAt_setVC_ne _ hne]
    exact hdoneOther i' v' hne
  · refine .inr ⟨.inl htail, swHoldVCs_begun _ _ _, holds_begun _ _ _, fun i' v' hne => ?_⟩
    rw [vcAt_begun_ne _ hne]
    exact hdoneOther i' v' hne
  · exact .inr ⟨.inr hrest, rfl, rfl, hdoneOther⟩
  · exact .inl ⟨by simpa using htail, hrest, hcore⟩

/-- A VC that holds the switch is active, with flits to send, and does not compete for it. -/
theorem Tidy.of_mem_swHold (h : Tidy cfg r) (he : e ∈ r.swHoldVCs) :
    (r.vcAt e.input e.vc).state = .active ∧ (r.vcAt e.input e.vc).buffer ≠ [] ∧
      queued r.swHoldVCs e.input e.vc = 1 ∧ queued r.swAllocVCs e.input e.vc = 0 :=
  (h e.input e.vc).1.of_swHold (queued_pos_iff.mpr ⟨e, he, rfl⟩)

theorem place_ne_of_state {s : VCState} {i v : ℤ} (htidy : Tidy cfg r) (hs : s ≠ .active)
    (hstate : (r.vcAt i v).state = s) (he : e ∈ r.swHoldVCs) : ¬ (e.input = i ∧ e.vc = v) := by
  rintro ⟨rfl, rfl⟩
  exact hs (hstate.symm.trans (htidy.of_mem_swHold he).1)

theorem swHoldItem_holdSound {q : List Entry} (hcfg : cfg.Accepted) (htidy : Tidy cfg r)
    (hq : r.swHoldVCs = e :: q) (hitem : swHoldItem cfg env r e = .ok r') (h : HoldSound cfg r) :
    HoldSound cfg r' := by
  have hmem : e ∈ r.swHoldVCs := hq ▸ mem_cons_self
  -- no other entry is for this VC
  have hrest : ∀ e', e' ∈ q ↔ e' ∈ r.swHoldVCs ∧ e'.place ≠ e.place := by
    have hnodup := htidy.nodup_swHold
    rw [hq, map_cons, nodup_cons] at hnodup
    intro e'
    rw [hq, mem_cons]
    constructor
    · exact fun he' => ⟨.inr he', fun hplace => hnodup.1 (hplace ▸ mem_map_of_mem he')⟩
    · rintro ⟨rfl | he', hplace⟩
      · exact absurd rfl hplace
      · exact he'
  have hne : ∀ e' : Entry, e'.place ≠ e.place → ¬ (e'.input = e.input ∧ e'.vc = e.vc) :=
    fun e' hplace ⟨hi, hv⟩ => hplace (Prod.ext hi hv)
  obtain ⟨-, -, -, -, hcases⟩ := swHoldItem_core hitem
  rcases hcases with ⟨-, -, hin, -, -, -, f, rest, dest, hsent⟩ | ⟨-, rfl⟩
  · obtain ⟨b, hother, hport, ⟨-, -, hcore⟩ | ⟨-, hqueue, hholds, hothers⟩⟩ :=
      hsent.split fun _ => rfl
    · have hqueue : r'.swHoldVCs = r.swHoldVCs.tail ++ [{ input := e.input, vc := e.vc }] :=
        (congrArg swHoldVCs hcore :)
      have hvc : r'.vcAt = (sent cfg _ e.input e.vc e.result f b dest).vcAt :=
        (congrArg vcAt hcore :)
      rw [hq, tail_cons] at hqueue
      refine h.frame (congrArg holds hcore :) (fun e' he' => ?_) (fun e' he' => ?_) fun e' he' => ?_
      · rw [hqueue] at he'
        rcases mem_append.mp he' with he' | he'
        · exact ⟨e', ((hrest e').mp he').1, rfl, fun _ => rfl⟩
        · rw [mem_singleton.mp he']
          exact ⟨e, hmem, rfl, fun hstarted => absurd hstarted Bool.false_ne_true⟩
      · rw [hqueue]
        by_cases hplace : e'.place = e.place
        · exact ⟨_, mem_append_right _ (mem_singleton_self _), hplace.symm⟩
        · exact ⟨e', mem_append_left _ ((hrest e').mpr ⟨he', hplace⟩), rfl⟩
      · rw [hvc]
        by_cases hplace : e'.input = e.input ∧ e'.vc = e.vc
        · rwa [hplace.1, hplace.2]
        · rw [hother _ _ hplace]
          rfl
    · refine h.release hcfg hmem ?_ (fun e' => ?_) fun e' _ hplace => ?_
      · rw [hholds, hin]
        rfl
      · rw [hqueue]
        change e' ∈ r.swHoldVCs.tail ↔ _
        rw [hq, tail_cons, ← hq]
        exact hrest e'
      · rw [hothers _ _ (hne e' hplace)]
        rfl
  · refine h.release hcfg hmem rfl (fun e' => ?_) fun e' _ _ => rfl
    change e' ∈ r.swHoldVCs.tail ↔ _
    rw [hq, tail_cons, ← hq]
    exact hrest e'

theorem swAllocItem_holdSound {q : List Entry} (hcfg : cfg.Accepted) (htidy : Tidy cfg r)
    (haligned : ∀ g ∈ swGrants r.swAllocVCs, Aligned cfg g) (hq : r.swAllocVCs = e :: q)
    (hitem : swAllocItem cfg env r e = .ok r') (h : HoldSound cfg r) : HoldSound cfg r' := by
  -- a VC that competes for the switch does not hold it
  have hne : ∀ e' ∈ r.swHoldVCs, ¬ (e'.input = e.input ∧ e'.vc = e.vc) := by
    rintro e' he' ⟨hi, hv⟩
    have hnone := (htidy.of_mem_swHold he').2.2.2
    rw [hi, hv] at hnone
    exact absurd hnone (queued_pos hq).ne'
  obtain ⟨-, ⟨_, _, hfront⟩, -, hcases⟩ := swAllocItem_core hitem
  rcases hcases with
    ⟨-, rfl⟩ | ⟨hresult, houtput, -, hin, hout, r₁, hequipped, hport, -, f, rest, dest, hsent⟩
  · exact h.frame_of_queue rfl rfl fun _ _ => rfl
  · have hr₁ := hequipped.same
    have hothers₁ : ∀ e' ∈ r.swHoldVCs, r₁.vcAt e'.input e'.vc = r.vcAt e'.input e'.vc :=
      fun e' he' => hr₁.vcAt _ _ (hne e' he')
    have hholds₁ : r₁.holds = r.holds := hr₁.holds
    obtain ⟨b, hother, hport₁, ⟨-, -, hcore⟩ | ⟨-, hqueue, hholds, hothers⟩⟩ :=
      hsent.split fun _ => rfl
    · by_cases hhold : cfg.holdSwitchForPacket = true
      · rw [stays, if_pos hhold] at hcore
        have hvc : r'.vcAt = (r₁.sent cfg e.input e.vc e.result f b dest).vcAt :=
          (congrArg vcAt hcore :)
        have hholds : r'.holds = r₁.holds.hold (cfg.expandedInput e.input e.vc) e.result e.vc :=
          (congrArg holds hcore :)
        have hport' : (r'.vcAt e.input e.vc).outPort = e.result / cfg.outputSpeedup := by
          rw [hvc, hport₁, hport]
        have hgrant : Aligned cfg ⟨e.input, e.vc, e.result⟩ :=
          haligned _ (mem_swGrants.mpr ⟨e, hq ▸ mem_cons_self, hresult, rfl⟩)
        refine HoldSound.hold (r := r) (e := { input := e.input, vc := e.vc }) (y := e.result)
          hcfg h ⟨hin, hout⟩ (hholds₁ ▸ hholds) ?_
          ⟨hfront.input, hfront.vc, hport'.symm ▸ houtput, ?_, ?_, fun h =>
            absurd h Bool.false_ne_true⟩ fun e' he' => ?_
        · exact ((congrArg swHoldVCs hcore :).trans (congrArg (· ++ _) hr₁.swHold) :)
        · exact (congrFun (congrArg Holds.switchHoldVC hholds) _).trans (update_self ..)
        · rw [hport', ← eq_expandedOutput hgrant]
          exact (congrFun (congrArg Holds.switchHoldIn hholds) _).trans (update_self ..)
        · rw [hvc, hother _ _ (hne e' he'), hothers₁ e' he']
      · rw [stays, if_neg hhold] at hcore
        have hvc : r'.vcAt = (r₁.sent cfg e.input e.vc e.result f b dest).vcAt :=
          (congrArg vcAt hcore :)
        refine h.frame_of_queue ((congrArg holds hcore :).trans hholds₁)
          ((congrArg swHoldVCs hcore :).trans hr₁.swHold) fun e' he' => ?_
        rw [hvc, hother _ _ (hne e' he'), hothers₁ e' he']
    · refine h.frame_of_queue (hholds.trans hholds₁) (hqueue.trans hr₁.swHold) fun e' he' => ?_
      rw [hothers _ _ (hne e' he'), hothers₁ e' he']

theorem enterFlit_holdSound {i : ℤ} {f : Flit} (hcfg : cfg.Accepted) (htidy : Tidy cfg r)
    (hitem : enterFlit cfg env r i f = .ok r') (h : HoldSound cfg r) : HoldSound cfg r' := by
  obtain ⟨hv, b, hb, -, hcore⟩ := enterFlit_core hitem
  obtain ⟨-, w, hw, hbvc⟩ := Buffer.addFlit_eq_ok hb
  obtain ⟨-, fpri, pri, rfl⟩ := VC.addFlit_eq_ok hw
  -- the flit is behind the others of its VC, which has its output as before
  have hports : ∀ {s : Router}, s.buf = update r.buf i b → ∀ i' v',
      (s.vcAt i' v').outPort = (r.vcAt i' v').outPort := fun {s} hs i' v' => by
    rw [vcAt_of_buf (v := f.vc) hs (by rw [hbvc]; rfl)]
    split_ifs with hplace
    · rw [hplace.1, hplace.2]
      rfl
    · rfl
  have hvc : r'.vcAt = (r.entered cfg i f b (env.route i f)).vcAt := (congrArg vcAt hcore :)
  have hqueue : r'.swHoldVCs = (r.entered cfg i f b (env.route i f)).swHoldVCs :=
    (congrArg swHoldVCs hcore :)
  have hholds : r'.holds = r.holds := (congrArg holds hcore :).trans (holds_entered _ _ _ _)
  refine h.frame_of_queue hholds (hqueue.trans ?_) fun e he => ?_
  · unfold entered
    split
    · exact swHoldVCs_begun _ _ _
    · split_ifs with hempty hheld
      · rfl
      · -- a VC that holds the switch is not empty
        exfalso
        have hset : 0 ≤ r.switchHoldIn (cfg.expandedInput i f.vc) :=
          (h.vc_iff _).mp (hheld.symm ▸ hv.1)
        obtain ⟨e, he, hx⟩ := h.held _ hset
        have hevc : e.vc = f.vc := by rw [← (h.entries e he).holdVC, ← hx, hheld]
        rw [hevc] at hx
        have hi : e.input = i := (expandedInput_inj hcfg hx).symm
        have hbuffer := (htidy.of_mem_swHold he).2.1
        rw [hi, hevc] at hbuffer
        exact hempty hbuffer
      · rfl
    · rfl
  · rw [hvc]
    unfold entered
    split
    · rename_i hidle
      rw [vcAt_begun_ne _ (place_ne_of_state htidy (by decide) hidle he)]
      exact hports rfl _ _
    · split_ifs
      · exact hports rfl _ _
      · exact hports rfl _ _
      · exact hports rfl _ _
    · exact hports rfl _ _

/-- What `_SWHoldEvaluate` makes of an entry. -/
structure SWHeld (cfg : RouterConfig) (env : RouterEnv) (r : Router) (e e' : Entry) : Prop where
  place : e'.place = e.place
  time : e'.time = env.now
  result : e'.result = STALL_BUFFER_FULL ∨ e'.result = STALL_BUFFER_RESERVED ∨
    e'.result = cfg.expandedOutput (r.vcAt e.input e.vc).outPort e.input ∧
      (r.nextBuf (r.vcAt e.input e.vc).outPort).isFullFor env.now
        (r.vcAt e.input e.vc).outVC = false

theorem swHoldEntry_eq_ok {t : Unit × Entry} (h : r.swHoldEntry cfg env () e = .ok t) :
    SWHeld cfg env r e t.2 := by
  obtain ⟨-, h⟩ := require_ok.mp h
  obtain ⟨f, -, h⟩ := bind_ok.mp h
  obtain ⟨-, h⟩ := require_ok.mp h
  obtain ⟨-, h⟩ := require_ok.mp h
  obtain ⟨-, h⟩ := require_ok.mp h
  obtain ⟨-, h⟩ := require_ok.mp h
  obtain ⟨-, rfl⟩ := require_return_ok.mp h
  refine ⟨rfl, rfl, ?_⟩
  dsimp only
  unfold fullStall
  split_ifs with hfull hall
  · exact .inl rfl
  · exact .inr (.inl rfl)
  · exact .inr (.inr ⟨rfl, by simpa using hfull⟩)

theorem evaluateStages_swHold (hstages : evaluateStages cfg env r = .ok r') :
    List.Forall₂ (fun e e' => e' = e ∨ SWHeld cfg env r e e') r.swHoldVCs r'.swHoldVCs := by
  obtain ⟨q₁, q₂, q₃, q₄, vcGrants, offset, -, -, hhold, -, rfl⟩ := evaluateStages_eq_ok hstages
  change List.Forall₂ _ _ q₃
  have hrefl : ∀ q : List Entry, List.Forall₂ (fun e e' => e' = e ∨ SWHeld cfg env r e e') q q :=
    fun q => forall₂_same.mpr fun _ _ => .inl rfl
  rcases ite_ok.mp hhold with ⟨-, hhold⟩ | ⟨-, hhold⟩
  · rcases ite_ok.mp hhold with ⟨-, hhold⟩ | ⟨-, hhold⟩
    · obtain rfl : r.swHoldVCs = q₃ := congrArg swHoldVCs (Except.ok.inj hhold)
      exact hrefl _
    · obtain ⟨-, hhold⟩ := require_ok.mp hhold
      obtain ⟨walked, hwalked, hhold⟩ := bind_ok.mp hhold
      have hq₃ : walked.2 = q₃ := congrArg swHoldVCs (return_ok.mp hhold)
      obtain ⟨p, hp, hsplit⟩ := walk_eq_ok hwalked
      have hround := (hp.rel (I := fun _ => True) (R := fun e e' => e' = e ∨ SWHeld cfg env r e e')
        (fun _ _ hround => ⟨trivial, .inr (@swHoldEntry_eq_ok cfg env r _ _ hround)⟩) trivial).2
      have hall := rel_append hround (hrefl (r.swHoldVCs.dropWhile (!Entry.isStarted ·)))
      beta_reduce at hall
      rw [takeWhile_append_dropWhile] at hall
      rwa [← hq₃, hsplit]
  · obtain rfl : r.swHoldVCs = q₃ := congrArg swHoldVCs (Except.ok.inj hhold)
    exact hrefl _

theorem evaluateStages_holdSound (hstages : evaluateStages cfg env r = .ok r')
    (h : HoldSound cfg r) : HoldSound cfg r' := by
  have hev := evaluateStages_ends.of_eq_ok hstages
  have hrel := evaluateStages_swHold hstages
  have hvc : r'.vcAt = r.vcAt := by rw [hev.same]; rfl
  have hholds : r'.holds = r.holds := by rw [hev.same]; rfl
  have hin : r'.switchHoldIn = r.switchHoldIn := congrArg Holds.switchHoldIn hholds
  have hout : r'.switchHoldOut = r.switchHoldOut := congrArg Holds.switchHoldOut hholds
  have hholdVC : r'.switchHoldVC = r.switchHoldVC := congrArg Holds.switchHoldVC hholds
  refine ⟨?_, ?_, fun e' he' => ?_, fun x hx => ?_⟩
  · rw [hin, hout]
    exact h.inverse
  · rw [hin, hholdVC]
    exact h.vc_iff
  · obtain ⟨e, he, rfl | hheld⟩ := exists_of_mem_related hrel he'
    · exact (h.entries _ he).of_same rfl (fun _ => rfl) (congrFun hholdVC _) (congrFun hin _)
        (by rw [hvc])
    · obtain ⟨hi, hv, ho, hset, hheldIn, -⟩ := h.entries e he
      obtain ⟨time', input', vc', result'⟩ := e'
      obtain ⟨rfl, rfl⟩ : input' = e.input ∧ vc' = e.vc := Prod.mk.inj hheld.place
      refine ⟨hi, hv, ?_, ?_, ?_, fun _ => ?_⟩
      · rwa [hvc]
      · rwa [hholdVC]
      · rwa [hin, hvc]
      · rw [hvc]
        exact hheld.result.imp_right (Or.imp_right And.left)
  · rw [hin] at hx
    obtain ⟨e, he, rfl⟩ := h.held x hx
    obtain ⟨e', he', hsame⟩ := exists_of_mem_related (List.Forall₂.flip (R := flip _) hrel) he
    have hplace : e'.place = e.place := hsame.elim (congrArg Entry.place) SWHeld.place
    refine ⟨e', he', ?_⟩
    rw [show e'.input = e.input from congrArg Prod.fst hplace,
      show e'.vc = e.vc from congrArg Prod.snd hplace]

theorem holdSound_kept (hcfg : cfg.Accepted) : Kept cfg env (HoldSound cfg)
    (fun r => Tidy cfg r ∧ ∀ g ∈ swGrants r.swAllocVCs, Aligned cfg g) where
  enter _ _ hitem hA h := enterFlit_holdSound hcfg hA.1 hitem h
  credit _ hitem _ h := by
    obtain ⟨-, dest, -, rfl⟩ := creditItem_eq_ok hitem
    exact h.frame_of_queue rfl rfl fun _ _ => rfl
  evaluate hstages _ h := evaluateStages_holdSound hstages h
  route _ _ hitem hA h := by
    obtain ⟨-, -, hstate, routeSet, rfl⟩ := routeItem_eq_ok hitem
    refine h.frame_of_queue rfl rfl fun e' he' => ?_
    exact congrArg VC.outPort (vcAt_setVC_ne _ (place_ne_of_state hA.1 (by decide) hstate he'))
  vcAlloc _ _ hitem hA h := by
    obtain ⟨-, -, hstate, ⟨-, rfl⟩ | ⟨-, o, w, dest, -, -, rfl⟩⟩ := vcAllocItem_eq_ok hitem
    · exact h.frame_of_queue rfl rfl fun _ _ => rfl
    · refine h.frame_of_queue ?_ ?_ fun e' he' => ?_
      · rw [allocated_eq]
        rfl
      · rw [allocated_eq]
        rfl
      · have hother := place_ne_of_state hA.1 (by decide) hstate he'
        rw [allocated_eq]
        exact congrArg VC.outPort (vcAt_setVC_ne _ hother)
  swHold hq _ hitem hA h := swHoldItem_holdSound hcfg hA.1 hq hitem h
  swAlloc hq _ hitem hA h := swAllocItem_holdSound hcfg hA.1 hA.2 hq hitem h
  switch _ _ hitem _ h := by
    obtain ⟨-, -, rfl⟩ := switchItem_eq_ok hitem
    exact h.frame_of_queue rfl rfl fun _ _ => rfl
  flush hflush _ h := by
    obtain rfl := outputQueuing_eq_ok hflush
    exact h.frame_of_queue rfl rfl fun _ _ => rfl
  active _ h := h.frame_of_queue rfl rfl fun _ _ => rfl

/-- All that the connections are supposed to be. -/
def HoldInvariant (cfg : RouterConfig) (r : Router) : Prop :=
  (Tidy cfg r ∧ ∀ g ∈ swGrants r.swAllocVCs, Aligned cfg g) ∧ HoldSound cfg r

theorem holdInvariant_kept (hcfg : cfg.Accepted) : Kept cfg env (HoldInvariant cfg) :=
  (tidy_kept.and (grants_kept evaluateStages_aligned).given).and (holdSound_kept hcfg)

variable {bufCfg : BufferConfig} {C : RouterEnv → Router → Prop} {now : ℤ}

theorem holdSound_new (next : ℤ → BufferState) : HoldSound cfg (.new cfg bufCfg next) := by
  refine ⟨fun x y hx hy => ?_, fun _ => Iff.rfl, nofun, fun x hx => ?_⟩
  · change -1 = y ↔ -1 = x
    omega
  · exact absurd (show (0 : ℤ) ≤ -1 from hx) (by decide)

theorem holdInvariant_reached (h : Reached cfg bufCfg C now r) : HoldInvariant cfg r := by
  refine Kept.reached h (fun _ => holdInvariant_kept h.accepted)
    (fun next _ _ => ⟨⟨tidy_new next, nofun⟩, holdSound_new next⟩) ?_ ?_
  · exact fun ⟨⟨htidy, haligned⟩, hsound⟩ =>
      ⟨⟨tidy_of_filing rfl htidy, haligned⟩, hsound.frame_of_queue rfl rfl fun _ _ => rfl⟩
  · exact fun ⟨⟨htidy, haligned⟩, hsound⟩ =>
      ⟨⟨tidy_of_filing rfl htidy, haligned⟩, hsound.frame_of_queue rfl rfl fun _ _ => rfl⟩

/-! ## The bookkeeping is consistent -/

/-- The held connections of a router, between two steps. -/
structure HoldConsistent (cfg : RouterConfig) (r : Router) : Prop where
  inverse : MutuallyInverse r.switchHoldIn r.switchHoldOut
  vc_iff : ∀ x, 0 ≤ r.switchHoldVC x ↔ 0 ≤ r.switchHoldIn x
  held : ∀ x, 0 ≤ r.switchHoldIn x → ∃ i v, cfg.IsInput i ∧ cfg.IsVC v ∧
    r.switchHoldVC x = v ∧ x = cfg.expandedInput i v ∧ (r.vcAt i v).state = .active ∧
    r.switchHoldIn x = cfg.expandedOutput (r.vcAt i v).outPort i ∧ (r.vcAt i v).buffer ≠ [] ∧
    queued r.swHoldVCs i v = 1 ∧ queued r.swAllocVCs i v = 0
  queue : ∀ e ∈ r.swHoldVCs, r.switchHoldVC (cfg.expandedInput e.input e.vc) = e.vc

/-- What `_SWHoldUpdate` asserts about the connection of an entry. -/
structure HoldAsserted (cfg : RouterConfig) (r : Router) (e : Entry) : Prop where
  vc : r.switchHoldVC (cfg.expandedInput e.input e.vc) = e.vc
  result : 0 ≤ e.result → r.switchHoldIn (cfg.expandedInput e.input e.vc) = e.result ∧
    r.switchHoldOut e.result = cfg.expandedInput e.input e.vc ∧
    (r.vcAt e.input e.vc).outPort = e.result / cfg.outputSpeedup
  stall : e.result < 0 → e.result = STALL_BUFFER_FULL ∨ e.result = STALL_BUFFER_RESERVED
  held : 0 ≤ r.switchHoldIn (cfg.expandedInput e.input e.vc)

theorem HoldInvariant.consistent (h : HoldInvariant cfg r) : HoldConsistent cfg r := by
  refine ⟨h.2.inverse, h.2.vc_iff, fun x hx => ?_, fun e he => (h.2.entries e he).holdVC⟩
  obtain ⟨e, he, rfl⟩ := h.2.held x hx
  obtain ⟨hi, hv, -, hvc, hin, -⟩ := h.2.entries e he
  obtain ⟨hactive, hbuffer, honce, hnone⟩ := h.1.1.of_mem_swHold he
  exact ⟨e.input, e.vc, hi, hv, hvc, rfl, hactive, hin, hbuffer, honce, hnone⟩

theorem HoldInvariant.asserted (hcfg : cfg.Accepted) (h : HoldInvariant cfg r)
    (he : e ∈ r.swHoldVCs) (hstarted : e.isStarted = true) : HoldAsserted cfg r e := by
  obtain ⟨hi, hv, ho, hvc, hin, hresult⟩ := h.2.entries e he
  have hnonneg := expandedOutput_nonneg hcfg ho e.input
  have hheld : 0 ≤ r.switchHoldIn (cfg.expandedInput e.input e.vc) := hin ▸ hnonneg
  refine ⟨hvc, fun hgrant => ?_, fun hstall => ?_, hheld⟩
  · have heq : e.result = cfg.expandedOutput (r.vcAt e.input e.vc).outPort e.input := by
      rcases hresult hstarted with hfull | hreserved | heq
      · exact absurd hgrant (hfull ▸ by decide)
      · exact absurd hgrant (hreserved ▸ by decide)
      · exact heq
    refine ⟨hin.trans heq.symm, ?_, heq.symm ▸ (expandedOutput_div hcfg _ _).symm⟩
    exact (h.2.inverse _ _ (expandedInput_range hcfg hi).1 hgrant).mp (hin.trans heq.symm)
  · rcases hresult hstarted with hfull | hreserved | heq
    · exact .inl hfull
    · exact .inr hreserved
    · exact absurd hnonneg (heq ▸ not_le.mpr hstall)

/-- The bookkeeping of held connections is consistent in every state, and so the assertions about
them hold whenever `_SWHoldUpdate` and `_SWAllocUpdate` deal with an entry. -/
theorem switchHold_consistent (h : Reached cfg bufCfg C now r) : HoldConsistent cfg r ∧
    (∀ env r' e, SWHoldRound cfg env r r' e → HoldAsserted cfg r' e) ∧
    ((∀ env r, C env r → env.Answers) → ∀ env r' e, env.Answers → SWAllocRound cfg env r r' e →
      0 ≤ e.result → r'.switchHoldVC (cfg.expandedInput e.input e.vc) < 0 ∧
        r'.switchHoldIn (cfg.expandedInput e.input e.vc) < 0 ∧ r'.switchHoldOut e.result < 0) := by
  have hinv := holdInvariant_reached h
  refine ⟨hinv.consistent, fun env r' e hround => ?_, fun hC env r' e hanswers hround hgrant => ?_⟩
  · obtain ⟨hr', hstarted, q, hq⟩ := (holdInvariant_kept h.accepted).swHoldRound hround hinv
    exact hr'.asserted h.accepted (hq ▸ mem_cons_self) hstarted
  · have hkept := tidy_kept.and (switchBooked_kept h.accepted hanswers)
    obtain ⟨hsound, -, -⟩ := (holdInvariant_kept h.accepted).swAllocRound hround hinv
    obtain ⟨⟨-, hbooked⟩, -, q, hq⟩ :=
      hkept.swAllocRound hround (switchBooked_reached (hC _ _) h)
    have hfree := hbooked.2.free _ (mem_swGrants.mpr ⟨e, hq ▸ mem_cons_self, hgrant, rfl⟩)
    exact ⟨not_le.mp fun hvc => absurd ((hsound.2.vc_iff _).mp hvc) (not_le.mpr hfree.1), hfree⟩

/-- … as here, where a packet holds the switch for the flits behind its head. -/
theorem switchHold_consistent_packet :
    let cfg : RouterConfig :=
      { inputs := 1, outputs := 1, vcs := 1, classes := 1, holdSwitchForPacket := true }
    let env := RouterEnv.greedy cfg fun _ _ => OutputSet.clear.addRange 0 0 0 0
    let f : Flit := { id := 0, pid := 0, cl := 0, src := 0, dest := 0, vc := 0, head := true }
    let g : Flit := { id := 1, pid := 0, cl := 0, src := 0, dest := 0, vc := 0 }
    ∃ s, play cfg { numVCs := 1 } [{ flits := fun _ => some f, env },
        { flits := fun _ => some g, env }, { flits := fun _ => some g, env }] = .ok s ∧
      s.2.switchHoldIn 0 = 0 ∧ HoldConsistent cfg s.2 := by
  intro cfg env f g
  obtain ⟨s, hs, hheld, hreached⟩ := @exists_reached cfg { numVCs := 1 } (fun _ _ => True) env
    [{ flits := fun _ => some f, env }, { flits := fun _ => some g, env },
      { flits := fun _ => some g, env }] (fun s => s.2.switchHoldIn 0 = 0) (by decide) rfl (by simp)
    (fun _ _ => trivial) (by decide +kernel)
  exact ⟨s, hs, of_decide_eq_true hheld, (switchHold_consistent hreached).1⟩

end Router

end BookSim
