/-
# Do the traffic classes stay inside their own VCs?

Every routing function is given the VC range of the flit's class and should put no VC
outside it in the route set (`InClass`).  Fifteen of the registered functions only ever
narrow that range down.  The other six name VCs of their own:

    min_adapt_mesh        the escape range is [0, vcBegin] instead of [vcBegin, vcBegin]
    min_adapt_torus       VC vcBegin + 3 off the escape VCs, vcBegin + 1 in the second ring
    chaos_mesh, _torus    VC 0
    min_dragonflynew      any VC at injection, then the number of the phase
    ugal_dragonflynew     likewise

`Confined` says for each of them which calls stay inside; `route_inClass_iff` proves it
exact for every registered function, and `classes_confined` carries it along a packet's way.
-/
import BookSim.Routing

namespace BookSim.Routing

/-! ## The property -/

/-- All VCs in the route set belong to the class. -/
def InClass (g : Globals) (cl : ℕ) (outputs : OutputSet) : Prop :=
  ∀ e ∈ outputs.getSet, ∀ v ∈ e.vcs, g.vcs.gBeginVCs cl ≤ v ∧ v ≤ g.vcs.gEndVCs cl

instance (g : Globals) (cl : ℕ) (outputs : OutputSet) : Decidable (InClass g cl outputs) :=
  inferInstanceAs (Decidable (∀ e ∈ outputs.getSet, ∀ v ∈ e.vcs, _ ∧ _))

/-- Every VC of `r` is one of `s`. -/
def VCRange.Within (r s : VCRange) : Prop :=
  ∀ v, r.vcBegin ≤ v → v ≤ r.vcEnd → s.vcBegin ≤ v ∧ v ≤ s.vcEnd

/-- The call is about routers and nodes of the network the function is for. -/
def Fits (g : Globals) (c : Call) : RoutingFunction → Prop
  | .min_dragonflynew | .ugal_dragonflynew => True
  | _ => g.gNodes = g.gK ^ g.gN ∧ c.flit.dest < g.gNodes ∧
      (c.inject = false → c.router.id < g.gNodes)

/-- The VC the call names is one of the class. -/
def Names (g : Globals) (c : Call) (vc : ℤ) : Prop :=
  g.vcs.gBeginVCs c.flit.cl ≤ vc ∧ vc ≤ g.vcs.gEndVCs c.flit.cl

instance (g : Globals) (c : Call) (vc : ℤ) : Decidable (Names g c vc) :=
  inferInstanceAs (Decidable (_ ∧ _))

/-- On the escape VCs of a torus the packet goes on in the second ring partition: it turns into a
ring where it is above its goal, or goes straight on and has come in that partition. -/
def SecondRing (g : Globals) (c : Call) : Prop :=
  let (dimLeft, cur, dest) := skipAgreeing g.gK g.gN 0 c.router.id c.flit.dest
  if dimLeft < g.gN ∧ c.inChannel / 2 ≠ dimLeft then dest % g.gK < cur % g.gK else c.flit.ph ≠ 0

/-- The way to the node leaves the group by an optical link of this router. -/
def LeavesGroup (g : Globals) (c : Call) (node : ℕ) : Prop :=
  dragonflyPort g c.router.id node ≥ g.gP + (g.gA - 1)

instance (g : Globals) (c : Call) (node : ℕ) : Decidable (LeavesGroup g c node) :=
  inferInstanceAs (Decidable (_ ≥ _))

/-- The destination is in the group of the router. -/
def InGroup (g : Globals) (c : Call) : Prop := c.flit.dest / (g.gA * g.gP) = c.router.id / g.gA

instance (g : Globals) (c : Call) : Decidable (InGroup g c) := inferInstanceAs (Decidable (_ = _))

/-- The node that `ugal_dragonflynew` draws for a detour. -/
def drawnNode (g : Globals) (c : Call) : ℕ := c.randomInt 0 (g.gA * g.gP * g.gG - 1)

/-- The detour is not worth while: the node drawn is in the group, or the queue of the minimal way
is short enough. -/
def NoDetour (g : Globals) (c : Call) : Prop :=
  c.router.id / g.gA = drawnNode g c / (g.gA * g.gP) ∨
    max (c.router.usedCredit (dragonflyPort g c.router.id c.flit.dest)) 0 ≤
      2 * max (c.router.usedCredit (dragonflyPort g c.router.id (drawnNode g c))) 0 + 30

instance (g : Globals) (c : Call) : Decidable (NoDetour g c) :=
  inferInstanceAs (Decidable (_ ∨ _))

/-- The phase with which a packet comes to be routed by `ugal_dragonflynew`: the one it has, or from
a node the one it starts in. -/
def phaseBefore (g : Globals) (c : Call) : ℤ :=
  if c.inChannel < g.gP then if InGroup g c then 2 else if NoDetour g c then 1 else 0 else c.flit.ph

/-- The router is that of the intermediate node. -/
def AtDetour (g : Globals) (c : Call) : Prop :=
  c.router.id = (if c.inChannel < g.gP ∧ ¬ InGroup g c then drawnNode g c
    else c.flit.intm.toNat) / g.gP

instance (g : Globals) (c : Call) : Decidable (AtDetour g c) := inferInstanceAs (Decidable (_ = _))

/-- The calls that stay inside the class's range. -/
def Confined (g : Globals) (c : Call) : RoutingFunction → Prop
  | .min_adapt_mesh =>
    c.inject = true ∨ c.router.id = c.flit.dest ∨ g.vcs.gBeginVCs c.flit.cl ≤ 0
  | .min_adapt_torus =>
    c.inject = true ∨ c.router.id = c.flit.dest ∨
      if inVC g c (classRange g c) > (classRange g c).vcBegin + 1 then
        Names g c ((classRange g c).vcBegin + 3)
      else SecondRing g c → Names g c ((classRange g c).vcBegin + 1)
  | .chaos_mesh | .chaos_torus => Names g c 0
  | .min_dragonflynew =>
    if c.inject then Names g c (c.randomInt 0 (g.vcs.gNumVCs - 1))
    else if LeavesGroup g c c.flit.dest then Names g c 1
    else if c.inChannel < g.gP then Names g c 0 else Names g c c.flit.ph
  | .ugal_dragonflynew =>
    if c.inject then Names g c (c.randomInt 0 (g.vcs.gNumVCs - 1))
    else if phaseBefore g c = 0 ∧ ¬ AtDetour g c then Names g c 0
    else if phaseBefore g c = 0 ∨ phaseBefore g c = 1 then
      if LeavesGroup g c c.flit.dest then Names g c 2 else Names g c 1
    else Names g c 2
  | _ => True

/-! ## Ranges -/

theorem VCRange.Within.refl (r : VCRange) : r.Within r := fun _ hlo hhi => ⟨hlo, hhi⟩

theorem VCRange.Within.trans {r s t : VCRange} (hrs : r.Within s) (hst : s.Within t) :
    r.Within t := fun v hlo hhi => hst v (hrs v hlo hhi).1 (hrs v hlo hhi).2

variable {r s : VCRange}

theorem VCRange.within_of_le (hlo : s.vcBegin ≤ r.vcBegin) (hhi : r.vcEnd ≤ s.vcEnd) : r.Within s :=
  fun _ h h' => ⟨hlo.trans h, h'.trans hhi⟩

theorem VCRange.half_within {upper : Bool} (h : r.half upper = some s) : s.Within r := by
  simp only [half, Option.ite_none_right_eq_some, Option.some.injEq] at h
  obtain ⟨hpos, rfl⟩ := h
  cases upper with
  | false => exact within_of_le le_rfl (by simp; omega)
  | true => exact within_of_le (by simp; omega) le_rfl

theorem VCRange.phaseHalf_within {ph : ℤ} (h : r.phaseHalf ph = some s) : s.Within r := by
  unfold phaseHalf at h
  split_ifs at h with h0 h1
  · exact half_within h
  · exact half_within h

theorem VCRange.slice_within {parts i : ℕ} (hi : i < parts)
    (h : r.slice parts i = some s) : s.Within r := by
  simp only [slice, Option.ite_none_right_eq_some, Option.some.injEq] at h
  obtain ⟨hpos, rfl⟩ := h
  generalize hper : (r.vcEnd - r.vcBegin + 1) / (parts : ℤ) = per at hpos ⊢
  have hle : per * parts ≤ r.vcEnd - r.vcBegin + 1 := by
    rw [← hper]
    exact Int.ediv_mul_le _ (by omega)
  have hnext : ((i : ℤ) + 1) * per ≤ parts * per :=
    Int.mul_le_mul_of_nonneg_right (by omega) (by omega)
  have hstart : 0 ≤ (i : ℤ) * per := Int.mul_nonneg (by omega) (by omega)
  rw [Int.add_mul, Int.one_mul] at hnext
  rw [Int.mul_comm] at hle
  exact within_of_le (by simp; omega) (by simp; omega)

theorem VCRange.ringPhase_within {ringPart phase : ℤ}
    (h : r.ringPhase ringPart phase = some s) : s.Within r := by
  simp only [ringPhase, Option.ite_none_right_eq_some, Option.some.injEq] at h
  obtain ⟨⟨hring, hph, -, -⟩, rfl⟩ := h
  refine within_of_le ?_ ?_ <;> split_ifs <;> simp <;> omega

/-- `available_vcs`. -/
def VCRange.available (r : VCRange) : ℤ := (r.vcEnd - r.vcBegin + 1) / 2

/-- The half a phase or an order is given. -/
def VCRange.part (r : VCRange) : Bool → VCRange
  | false => ⟨r.vcBegin, r.vcEnd - r.available⟩
  | true => ⟨r.vcBegin + r.available, r.vcEnd⟩

theorem VCRange.half_of_lt {r : VCRange} (h : r.vcBegin < r.vcEnd) (upper : Bool) :
    r.half upper = some (r.part upper) := by
  have hpos : (r.vcEnd - r.vcBegin + 1) / 2 > 0 := by omega
  cases upper <;> exact if_pos hpos

theorem VCRange.part_nonempty {r : VCRange} (h : r.vcBegin < r.vcEnd) (upper : Bool) :
    (r.part upper).vcBegin ≤ (r.part upper).vcEnd := by
  cases upper <;> simp only [part, available] <;> omega

theorem VCRange.part_within {r : VCRange} (h : r.vcBegin < r.vcEnd) (upper : Bool) {v : ℤ}
    (hlo : (r.part upper).vcBegin ≤ v) (hhi : v ≤ (r.part upper).vcEnd) :
    r.vcBegin ≤ v ∧ v ≤ r.vcEnd := by
  cases upper <;> simp only [part, available] at hlo hhi <;> omega

/-! ## Route sets -/

section RouteSets

variable {g : Globals} {c : Call}

theorem inClass_single {port : ℤ} {r : VCRange} :
    InClass g c.flit.cl (single port r) ↔ r.Within (classRange g c) := by
  simp only [InClass, single, OutputSet.getSet_addRange_clear, List.mem_singleton,
    forall_eq, OutputSet.mem_vcs, VCRange.Within, classRange, and_imp]

theorem inClass_single_vc {port vc : ℤ} :
    InClass g c.flit.cl (single port ⟨vc, vc⟩) ↔ Names g c vc := by
  rw [inClass_single]
  constructor
  · intro h
    exact h vc le_rfl le_rfl
  · intro h v hlo hhi
    obtain rfl : v = vc := le_antisymm hhi hlo
    exact h

theorem inClass_clear {cl : ℕ} : InClass g cl OutputSet.clear :=
  fun _ he => absurd he List.not_mem_nil

theorem InClass.addRange {outputs : OutputSet} (h : InClass g c.flit.cl outputs) {r : VCRange}
    (hr : r.Within (classRange g c)) (port pri : ℤ) :
    InClass g c.flit.cl (outputs.addRange port r.vcBegin r.vcEnd pri) := by
  intro e he v hv
  rcases OutputSet.mem_getSet_addRange.mp he with hold | ⟨rfl, -⟩
  · exact h e hold v hv
  · obtain ⟨hlo, hhi⟩ := OutputSet.mem_vcs.mp hv
    exact hr v hlo hhi

variable {body : ℕ → ℕ → ℕ → OutputSet → OutputSet}

/-- What holds of the set before a loop over the dimensions and is kept by its body holds of
the set after it. -/
theorem forDiffering_induction {gK : ℕ}
    {P : OutputSet → Prop} (hbody : ∀ n cur dest outputs, P outputs → P (body n cur dest outputs)) :
    ∀ (left n cur dest : ℕ) (outputs : OutputSet), P outputs →
      P (forDiffering gK body left n cur dest outputs)
  | 0, _, _, _, _, h => h
  | left + 1, n, cur, dest, outputs, h => by
    refine forDiffering_induction hbody left (n + 1) _ _ _ ?_
    split
    · exact hbody n _ _ outputs h
    · exact h

/-- Two different numbers differ in a digit, so the body runs at least once: what it
establishes, and needs no more than `Q` to establish again, holds after the loop. -/
theorem forDiffering_of_ne {gK : ℕ}
    {P Q : OutputSet → Prop} (hbody : ∀ n cur dest outputs, Q outputs → P (body n cur dest outputs))
    (hkeep : ∀ outputs, P outputs → Q outputs) :
    ∀ (left n cur dest : ℕ) (outputs : OutputSet), Q outputs → cur < gK ^ left →
      dest < gK ^ left → cur ≠ dest → P (forDiffering gK body left n cur dest outputs)
  | 0, _, cur, dest, _, _, hcur, hdest, hne => by
    simp only [pow_zero, Nat.lt_one_iff] at hcur hdest
    exact absurd (hcur.trans hdest.symm) hne
  | left + 1, n, cur, dest, outputs, hQ, hcur, hdest, hne => by
    rw [forDiffering]
    by_cases hdigit : cur % gK = dest % gK
    · rw [if_neg (not_not.mpr hdigit)]
      rw [pow_succ'] at hcur hdest
      refine forDiffering_of_ne hbody hkeep left (n + 1) _ _ _ hQ (Nat.div_lt_of_lt_mul hcur)
        (Nat.div_lt_of_lt_mul hdest) fun hdiv => hne ?_
      rw [← Nat.div_add_mod cur gK, ← Nat.div_add_mod dest gK, hdiv, hdigit]
    · rw [if_pos hdigit]
      exact forDiffering_induction
        (fun n cur dest outputs h => hbody n cur dest outputs (hkeep outputs h))
        left (n + 1) _ _ _ (hbody n _ _ outputs hQ)

theorem forDiffering_self {gK : ℕ} : ∀ (left n cur : ℕ) (outputs : OutputSet),
      forDiffering gK body left n cur cur outputs = outputs
  | 0, _, _, _ => rfl
  | left + 1, n, cur, outputs => by
    rw [forDiffering, if_neg (not_not.mpr rfl), forDiffering_self left]

end RouteSets

/-! ## Functions that narrow the range down -/

section Narrowing

variable {g : Globals} {c : Call}

/-- Whatever the computation returns, its route set is in the class and its flit is still of
that class. -/
def Narrows (g : Globals) (c : Call) (x : Option Routed) : Prop :=
  ∀ res, x = some res → InClass g c.flit.cl res.outputs ∧ res.flit.cl = c.flit.cl

variable {r : VCRange}

theorem Narrows.single (hr : r.Within (classRange g c)) {f : Flit}
    (hf : f.cl = c.flit.cl) (port : ℤ) : Narrows g c (some ⟨Routing.single port r, f⟩) := by
  rintro res ⟨⟩
  exact ⟨inClass_single.mpr hr, hf⟩

theorem Narrows.bind {x : Option VCRange} {next : VCRange → Option Routed}
    (hx : ∀ r, x = some r → r.Within (classRange g c))
    (hnext : ∀ r, r.Within (classRange g c) → Narrows g c (next r)) :
    Narrows g c (x >>= next) := by
  intro res h
  obtain ⟨r, hr, hres⟩ := Option.bind_eq_some_iff.mp h
  exact hnext r (hx r hr) res hres

theorem Narrows.ite {p : Prop} [Decidable p] {x y : Option Routed} (hx : p → Narrows g c x)
    (hy : ¬p → Narrows g c y) : Narrows g c (if p then x else y) := by
  split
  · exact hx ‹_›
  · exact hy ‹_›

theorem admitted_of_holds (h : g.vcs.Holds c.flit) : admitted g c = some (classRange g c) :=
  if_pos (.inl h)

theorem eq_of_admitted (h : admitted g c = some r) : r = classRange g c := by
  simp only [admitted, Option.ite_none_right_eq_some, Option.some.injEq] at h
  exact h.2.symm

theorem admitted_within (h : admitted g c = some r) : r.Within (classRange g c) :=
  eq_of_admitted h ▸ .refl _

theorem within_of_ite {p : Prop} [Decidable p] {x : Option VCRange} {r s t : VCRange}
    (hr : r.Within t) (hx : ∀ s, x = some s → s.Within r)
    (h : (if p then x else some r) = some s) : s.Within t := by
  split at h
  · exact (hx s h).trans hr
  · obtain rfl := Option.some.inj h
    exact hr

theorem dimOrderMesh_narrows : Narrows g c (dimOrderMesh g c) :=
  .bind (fun _ => admitted_within) fun _ hr => .single hr rfl _

theorem sliceByDest_within (hdest : c.flit.dest < g.gNodes) {r s : VCRange}
    (hr : r.Within (classRange g c)) (h : sliceByDest g c r = some s) :
    s.Within (classRange g c) :=
  within_of_ite hr (fun _ => VCRange.slice_within hdest) h

theorem dimOrderNiMesh_narrows (hdest : c.flit.dest < g.gNodes) :
    Narrows g c (dimOrderNiMesh g c) :=
  .bind (fun _ => admitted_within) fun _ hr =>
    .bind (fun _ => sliceByDest_within hdest hr) fun _ hs => .single hs rfl _

theorem dimOrderPniMesh_narrows : Narrows g c (dimOrderPniMesh g c) := by
  refine .bind (fun _ => admitted_within) fun r hr => .bind (fun s hs => ?_) fun _ hs =>
    .single hs rfl _
  refine within_of_ite hr (fun s hs => ?_) hs
  obtain ⟨hcoord, hslice⟩ := Option.ite_none_right_eq_some.mp hs
  exact VCRange.slice_within hcoord hslice

theorem xyYx_narrows (fresh : Bool) : Narrows g c (xyYx g c fresh) := by
  refine .bind (fun _ => admitted_within) fun r hr => ?_
  refine .ite (fun _ => .single hr rfl _) fun _ => .ite (fun _ => .single hr rfl _) fun _ => ?_
  exact .bind (fun s hs => (VCRange.half_within hs).trans hr) fun _ hs => .single hs rfl _

theorem meshPhase_cl (fresh : ℕ) : (meshPhase g c fresh).cl = c.flit.cl := by
  simp only [meshPhase]
  split_ifs <;> rfl

theorem twoPhaseMesh_narrows (fresh : ℕ) : Narrows g c (twoPhaseMesh g c fresh) := by
  refine .bind (fun _ => admitted_within) fun r hr => .ite (fun _ => .single hr rfl _) fun _ => ?_
  exact .bind (fun s hs => within_of_ite hr (fun _ => VCRange.phaseHalf_within) hs)
    fun _ hs => .single hs (meshPhase_cl fresh) _

theorem rommNiMesh_narrows (hdest : c.flit.dest < g.gNodes) : Narrows g c (rommNiMesh g c) := by
  refine .bind (fun _ => admitted_within) fun r hr =>
    .bind (fun _ => sliceByDest_within hdest hr) ?_
  exact fun s hs => .ite (fun _ => .single hs rfl _) fun _ => .single hs (meshPhase_cl _) _

theorem torusStep_cl (cur dest inPort : ℕ) (balance : Bool) :
    (torusStep g c cur dest inPort balance).2.cl = c.flit.cl := rfl

theorem dimOrderTorus_narrows : Narrows g c (dimOrderTorus g c) := by
  refine .bind (fun _ => admitted_within) fun r hr => .ite (fun _ => .single hr rfl _) fun _ => ?_
  exact .bind (fun s hs => within_of_ite hr (fun _ => VCRange.half_within) hs)
    fun _ hs => .single hs (torusStep_cl _ _ _ _) _

theorem dimOrderNiTorus_narrows (hdest : c.flit.dest < g.gNodes) :
    Narrows g c (dimOrderNiTorus g c) := by
  refine .bind (fun _ => admitted_within) fun r hr => .ite (fun _ => .single hr rfl _) fun _ => ?_
  exact .bind (fun s hs => within_of_ite hr (fun _ => VCRange.slice_within hdest) hs)
    fun _ hs => .single hs rfl _

theorem dimOrderBalTorus_narrows : Narrows g c (dimOrderBalTorus g c) := by
  refine .bind (fun _ => admitted_within) fun r hr => .ite (fun _ => .single hr rfl _) fun _ => ?_
  exact .bind (fun s hs => within_of_ite hr (fun _ => VCRange.phaseHalf_within) hs)
    fun _ hs => .single hs (torusStep_cl _ _ _ _) _

theorem valiantStep_narrows (ni : Bool) (hr : r.Within (classRange g c)) :
    Narrows g c (valiantStep g c ni r) := by
  refine .ite (fun _ => ?_) fun _ => .single hr (by rfl) _
  intro res h
  obtain ⟨s, hs, rfl⟩ := Option.map_eq_some_iff.mp h
  exact ⟨inClass_single.mpr ((VCRange.ringPhase_within hs).trans hr), rfl⟩

theorem valiantTorus_narrows : Narrows g c (valiantTorus g c) :=
  .bind (fun _ => admitted_within) fun _ hr =>
    .ite (fun _ => .single hr rfl _) fun _ => valiantStep_narrows false hr

theorem valiantNiTorus_narrows (hdest : c.flit.dest < g.gNodes) :
    Narrows g c (valiantNiTorus g c) :=
  .bind (fun _ => admitted_within) fun _ hr =>
    .bind (fun _ => sliceByDest_within hdest hr) fun _ hs =>
      .ite (fun _ => .single hs rfl _) fun _ => valiantStep_narrows true hs

theorem planarSecond_inClass {n cur dest : ℕ} {fault : Bool} {outputs res : OutputSet}
    (hr : r.Within (classRange g c)) (h : InClass g c.flit.cl outputs)
    (hres : planarSecond g c n cur dest fault r outputs = some res) : InClass g c.flit.cl res := by
  simp only [planarSecond] at hres
  split at hres
  · split_ifs at hres with _ hfault
    · exact Option.some.inj hres ▸ h.addRange hr _ _
    · exact Option.some.inj hres ▸ h
  · split_ifs at hres with _ hport hother
    · exact Option.some.inj hres ▸ h.addRange hr _ _
    · exact Option.some.inj hres ▸ h.addRange hr _ _
    · exact Option.some.inj hres ▸ h

theorem planarRoute_narrows (hle : r.vcBegin ≤ r.vcEnd)
    (hr : r.Within (classRange g c)) (n cur dest : ℕ) :
    Narrows g c (planarRoute g c r n cur dest) := by
  have hupper : VCRange.Within ⟨r.vcBegin + 2 * ((r.vcEnd - r.vcBegin + 1) / 3), r.vcEnd⟩ r :=
    VCRange.within_of_le (by simp only; omega) le_rfl
  have hfirst : ∀ port : ℕ, InClass g c.flit.cl (if c.router.isFaultyOutput port then
      OutputSet.clear else OutputSet.clear.addRange port
        (r.vcBegin + 2 * ((r.vcEnd - r.vcBegin + 1) / 3)) r.vcEnd 0) := by
    intro port
    split
    · exact inClass_clear
    · exact inClass_clear.addRange (hupper.trans hr) _ _
  intro res h
  obtain ⟨outputs, hsecond, rfl⟩ := Option.map_eq_some_iff.mp h
  refine ⟨planarSecond_inClass (.trans (VCRange.within_of_le ?_ ?_) hr) (hfirst _) hsecond, rfl⟩
  · simp only
    split <;> omega
  · simp only
    split <;> omega

theorem planarAdaptMesh_narrows : Narrows g c (planarAdaptMesh g c) := by
  intro res h
  obtain ⟨r, hadmitted, h⟩ := Option.bind_eq_some_iff.mp h
  obtain rfl := eq_of_admitted hadmitted
  refine Narrows.ite (fun _ => .single (.refl _) rfl _) (fun _ => .ite (fun _ => ?_)
    fun _ => .single (.refl _) rfl _) res h
  refine .ite (fun _ => planarRoute_narrows (g.vcs.begin_le_end _) (.refl _) _ _ _) fun _ => ?_
  exact fun _ hnone => absurd hnone (by simp)

end Narrowing

/-! ## Functions that name VCs of their own -/

section Naming

variable {g : Globals} {c : Call}

/-- `t` is `s` after one or more calls `AddRange(port, vc, vc, pri)`. -/
inductive AddsVC (vc pri : ℤ) (s : OutputSet) : OutputSet → Prop
  | one (port : ℤ) : AddsVC vc pri s (s.addRange port vc vc pri)
  | more {t : OutputSet} (port : ℤ) :
      AddsVC vc pri s t → AddsVC vc pri s (t.addRange port vc vc pri)

/-- The ranges of priority `pri` are `[vc, vc]`. -/
def OnlyVC (vc pri : ℤ) (s : OutputSet) : Prop :=
  ∀ e ∈ s.getSet, e.pri = pri → e.vcStart = vc ∧ e.vcEnd = vc

theorem onlyVC_clear (vc pri : ℤ) : OnlyVC vc pri OutputSet.clear :=
  fun _ he => absurd he List.not_mem_nil

theorem onlyVC_addRange {vc pri : ℤ} {s : OutputSet} (h : OnlyVC vc pri s) (port : ℤ) :
    OnlyVC vc pri (s.addRange port vc vc pri) ∧
      ∃ e ∈ (s.addRange port vc vc pri).getSet, e.vcStart = vc ∧ e.vcEnd = vc := by
  constructor
  · intro e he hpri
    rcases OutputSet.mem_getSet_addRange.mp he with hold | ⟨rfl, -⟩
    · exact h e hold hpri
    · exact ⟨rfl, rfl⟩
  · by_cases hfresh : ∀ y ∈ s.getSet, y.pri ≠ pri
    · exact ⟨_, OutputSet.mem_getSet_addRange.mpr (.inr ⟨rfl, hfresh⟩), rfl, rfl⟩
    · obtain ⟨y, hy, hpri⟩ : ∃ y ∈ s.getSet, y.pri = pri := by simpa using hfresh
      exact ⟨y, OutputSet.mem_getSet_addRange.mpr (.inl hy), h y hy hpri⟩

theorem AddsVC.onlyVC {vc pri : ℤ} {s t : OutputSet} (h : AddsVC vc pri s t)
    (hs : OnlyVC vc pri s) :
    OnlyVC vc pri t ∧ ∃ e ∈ t.getSet, e.vcStart = vc ∧ e.vcEnd = vc := by
  induction h with
  | one port => exact onlyVC_addRange hs port
  | more port _ ih => exact onlyVC_addRange ih.1 port

theorem AddsVC.inClass {vc pri : ℤ} {s t : OutputSet} (h : AddsVC vc pri s t)
    (hvc : Names g c vc) (hs : InClass g c.flit.cl s) : InClass g c.flit.cl t := by
  have hwithin : VCRange.Within ⟨vc, vc⟩ (classRange g c) := fun v hlo hhi => by
    obtain rfl : v = vc := le_antisymm hhi hlo
    exact hvc
  induction h with
  | one port => exact hs.addRange hwithin port pri
  | more port _ ih => exact ih.addRange hwithin port pri

/-- A loop that adds `[vc, vc]` wherever the digits differ, between different routers. -/
theorem inClass_forDiffering_iff {body : ℕ → ℕ → ℕ → OutputSet → OutputSet} {vc pri : ℤ}
    (hbody : ∀ n cur dest outputs, AddsVC vc pri outputs (body n cur dest outputs))
    {cur dest : ℕ} (hcur : cur < g.gK ^ g.gN) (hdest : dest < g.gK ^ g.gN) (hne : cur ≠ dest) :
    InClass g c.flit.cl (forDiffering g.gK body g.gN 0 cur dest OutputSet.clear) ↔
      Names g c vc := by
  constructor
  · intro hall
    obtain ⟨-, e, he, rfl, hend⟩ := forDiffering_of_ne (Q := OnlyVC vc pri)
      (P := fun t => OnlyVC vc pri t ∧ ∃ e ∈ t.getSet, e.vcStart = vc ∧ e.vcEnd = vc)
      (fun n cur dest outputs h => (hbody n cur dest outputs).onlyVC h) (fun _ h => h.1)
      g.gN 0 cur dest OutputSet.clear (onlyVC_clear vc pri) hcur hdest hne
    exact hall e he e.vcStart (OutputSet.mem_vcs.mpr ⟨le_rfl, hend.ge⟩)
  · intro hvc
    exact forDiffering_induction (P := InClass g c.flit.cl)
      (fun n cur dest outputs => (hbody n cur dest outputs).inClass hvc)
      g.gN 0 cur dest OutputSet.clear inClass_clear

theorem names_begin : Names g c (g.vcs.gBeginVCs c.flit.cl) :=
  ⟨le_rfl, g.vcs.begin_le_end _⟩

variable {res : Routed}

theorem chaosMesh_inClass_iff (hfits : Fits g c .chaos_mesh) (h : chaosMesh g c = some res) :
    (InClass g c.flit.cl res.outputs ↔ Confined g c .chaos_mesh) ∧ res.flit.cl = c.flit.cl := by
  obtain ⟨hnodes, hdest, hid⟩ := hfits
  simp only [chaosMesh] at h
  split_ifs at h with hinject hne
  · obtain rfl := Option.some.inj h
    exact ⟨inClass_single_vc, rfl⟩
  · obtain rfl := Option.some.inj h
    refine ⟨inClass_forDiffering_iff (fun n cur dest outputs => AddsVC.one _) ?_ ?_ hne, rfl⟩
    · exact hnodes ▸ hid (by simpa using hinject)
    · exact hnodes ▸ hdest
  · obtain rfl := Option.some.inj h
    exact ⟨inClass_single_vc, rfl⟩

theorem chaosTorus_inClass_iff (hfits : Fits g c .chaos_torus) (h : chaosTorus g c = some res) :
    (InClass g c.flit.cl res.outputs ↔ Confined g c .chaos_torus) ∧ res.flit.cl = c.flit.cl := by
  obtain ⟨hnodes, hdest, hid⟩ := hfits
  simp only [chaosTorus] at h
  split_ifs at h with hinject hne
  · obtain rfl := Option.some.inj h
    exact ⟨inClass_single_vc, rfl⟩
  · obtain rfl := Option.some.inj h
    refine ⟨inClass_forDiffering_iff (fun n cur dest outputs => (?_ : AddsVC 0 0 _ _)) ?_ ?_ hne,
      rfl⟩
    · -- At least one of the two directions is no longer than the other.
      by_cases hright : dist2 g.gK cur dest ≥ 0
      · by_cases hleft : dist2 g.gK cur dest ≤ 0
        · simp only [hright, hleft, if_true]
          exact .more _ (.one _)
        · simp only [hright, hleft, if_true, if_false]
          exact .one _
      · have hleft : dist2 g.gK cur dest ≤ 0 := by omega
        simp only [hright, hleft, if_true, if_false]
        exact .one _
    · exact hnodes ▸ hid (by simpa using hinject)
    · exact hnodes ▸ hdest
  · obtain rfl := Option.some.inj h
    exact ⟨inClass_single_vc, rfl⟩

theorem minAdaptMesh_inClass_iff (h : minAdaptMesh g c = some res) :
    (InClass g c.flit.cl res.outputs ↔ Confined g c .min_adapt_mesh) ∧ res.flit.cl = c.flit.cl := by
  obtain ⟨r, hadmitted, h⟩ := Option.bind_eq_some_iff.mp h
  obtain rfl := eq_of_admitted hadmitted
  have hescape : ∀ port : ℤ, InClass g c.flit.cl (OutputSet.clear.addRange port 0
      (classRange g c).vcBegin (classRange g c).vcBegin) ↔ g.vcs.gBeginVCs c.flit.cl ≤ 0 := by
    intro port
    have hle := g.vcs.begin_le_end c.flit.cl
    simp only [InClass, OutputSet.getSet_addRange_clear, List.mem_singleton, forall_eq,
      OutputSet.mem_vcs, classRange]
    constructor
    · intro hall
      by_contra hpos
      exact hpos (hall 0 ⟨le_rfl, by omega⟩).1
    · intro hzero v hv
      omega
  split_ifs at h with hinject hdest hadapt
  · obtain rfl := Option.some.inj h
    exact ⟨⟨fun _ => .inl hinject, fun _ => inClass_single.mpr (.refl _)⟩, rfl⟩
  · obtain rfl := Option.some.inj h
    exact ⟨⟨fun _ => .inr (.inl hdest), fun _ => inClass_single.mpr (.refl _)⟩, rfl⟩
  · obtain rfl := Option.some.inj h
    refine ⟨⟨fun hall => .inr (.inr ((hescape (dorNextMesh g c.router.id c.flit.dest false)).mp
      fun e he => ?_)), fun hconf => ?_⟩, rfl⟩
    · -- The loop keeps the escape range that was there before.
      refine hall e (forDiffering_induction (P := fun outputs => e ∈ outputs.getSet)
        (fun n cur dest outputs h => OutputSet.mem_getSet_addRange.mpr (.inl h)) _ _ _ _ _ he)
    · have hzero : g.vcs.gBeginVCs c.flit.cl ≤ 0 := by
        rcases hconf with h | h | h
        · exact absurd h hinject
        · exact absurd h hdest
        · exact h
      have hupper : VCRange.Within ⟨(classRange g c).vcBegin + 1, (classRange g c).vcEnd⟩
          (classRange g c) := VCRange.within_of_le (by simp) le_rfl
      exact forDiffering_induction (P := InClass g c.flit.cl)
        (fun n cur dest outputs h => h.addRange hupper _ _) _ _ _ _ _ ((hescape _).mpr hzero)
  · obtain rfl := Option.some.inj h
    refine ⟨(hescape _).trans ⟨fun h => .inr (.inr h), fun hconf => ?_⟩, rfl⟩
    rcases hconf with h | h | h
    · exact absurd h hinject
    · exact absurd h hdest
    · exact h

theorem ph_minAdaptStep_ne_zero
    (hescape : ¬ inVC g c (classRange g c) > (classRange g c).vcBegin + 1) :
    (minAdaptStep g c (classRange g c)).2.ph ≠ 0 ↔ SecondRing g c := by
  rw [minAdaptStep, if_neg hescape, torusStep, SecondRing, dorNextTorus]
  generalize skipAgreeing g.gK g.gN 0 c.router.id c.flit.dest = left
  obtain ⟨dimLeft, cur, dest⟩ := left
  dsimp only
  by_cases hdim : dimLeft < g.gN
  · grind
  · simp [hdim]

theorem minAdaptTorus_inClass_iff (hfits : Fits g c .min_adapt_torus)
    (h : minAdaptTorus g c = some res) :
    (InClass g c.flit.cl res.outputs ↔ Confined g c .min_adapt_torus) ∧
      res.flit.cl = c.flit.cl := by
  obtain ⟨hnodes, hdest, hid⟩ := hfits
  obtain ⟨r, hadmitted, h⟩ := Option.bind_eq_some_iff.mp h
  obtain rfl := eq_of_admitted hadmitted
  split at h
  case isTrue hinject =>
    obtain rfl := Option.some.inj h
    exact ⟨⟨fun _ => .inl hinject, fun _ => inClass_single.mpr (.refl _)⟩, rfl⟩
  case isFalse hinject =>
    obtain rfl := Option.some.inj h
    refine ⟨?_, rfl⟩
    by_cases hat : c.router.id = c.flit.dest
    · -- The escape range has the priority of the ejection range, so it is not added.
      refine ⟨fun _ => .inr (.inl hat), fun _ e he => ?_⟩
      simp only [hat, if_true, forDiffering_self, ite_self] at he
      rcases OutputSet.mem_getSet_addRange.mp he with hold | ⟨-, hfresh⟩
      · exact inClass_single.mpr (.refl _) e hold
      · exact absurd rfl (hfresh ⟨_, _, 0, _⟩ (List.mem_singleton_self _))
    · have hconf : Confined g c .min_adapt_torus ↔
          if inVC g c (classRange g c) > (classRange g c).vcBegin + 1 then
            Names g c ((classRange g c).vcBegin + 3)
          else SecondRing g c → Names g c ((classRange g c).vcBegin + 1) := by
        simp [Confined, hinject, hat]
      rw [hconf]
      by_cases hadapt : inVC g c (classRange g c) > (classRange g c).vcBegin + 1
      · simp only [if_neg hat, if_pos hadapt]
        have hloop := inClass_forDiffering_iff (g := g) (c := c)
          (fun n cur dest outputs => (AddsVC.one
            (if dist2 g.gK cur dest > 0 then 2 * (n : ℤ) else 2 * n + 1) :
              AddsVC ((classRange g c).vcBegin + 3) 1 outputs _))
          (hnodes ▸ hid (by simpa using hinject)) (hnodes ▸ hdest) hat
        refine ⟨fun hall => hloop.mp fun e he => hall e ?_, fun hnames => ?_⟩
        · exact OutputSet.mem_getSet_addRange.mpr (.inl he)
        · refine AddsVC.inClass (.one _) ?_ (hloop.mpr hnames)
          have hend : (classRange g c).vcBegin + 3 ≤ (classRange g c).vcEnd := hnames.2
          by_cases hph : (minAdaptStep g c (classRange g c)).2.ph = 0
          · rw [if_pos hph]
            exact names_begin
          · rw [if_neg hph]
            exact ⟨by simp [classRange], by simp only [classRange] at hend ⊢; omega⟩
      · rw [if_neg hadapt, ← ph_minAdaptStep_ne_zero hadapt]
        by_cases hph : (minAdaptStep g c (classRange g c)).2.ph = 0
        · simp only [if_neg hat, if_neg hadapt, if_pos hph]
          exact inClass_single_vc.trans ⟨fun _ h => absurd hph h, fun _ => names_begin⟩
        · simp only [if_neg hat, if_neg hadapt, if_neg hph]
          exact inClass_single_vc.trans ⟨fun h _ => h, fun h => h hph⟩

theorem minDragonflynew_inClass_iff (h : minDragonflynew g c = some res) :
    (InClass g c.flit.cl res.outputs ↔ Confined g c .min_dragonflynew) ∧
      res.flit.cl = c.flit.cl := by
  simp only [minDragonflynew] at h
  split_ifs at h with hinject
  · obtain rfl := Option.some.inj h
    refine ⟨inClass_single_vc.trans ?_, rfl⟩
    simp [Confined, hinject, injectVC]
  · obtain rfl := Option.some.inj h
    refine ⟨inClass_single_vc.trans ?_, ?_⟩
    · simp only [Confined, hinject, minDragonflyFlit, LeavesGroup, Bool.false_eq_true, if_false]
      split_ifs <;> rfl
    · simp only [minDragonflyFlit]
      split_ifs <;> rfl

theorem ugalFlit_cl {route : ℕ × Flit} (h : ugalFlit g c = some route) :
    route.2.cl = c.flit.cl := by
  have hsource : (ugalSource g c).cl = c.flit.cl := by
    simp only [ugalSource]
    split_ifs <;> rfl
  simp only [ugalFlit] at h
  split_ifs at h <;> obtain rfl := Option.some.inj h <;> first | exact hsource | rfl

theorem ugalSource_spec (hsource : c.inChannel < g.gP) :
    (ugalSource g c).ph = phaseBefore g c ∧ (ugalSource g c).dest = c.flit.dest ∧
      (c.router.id = (ugalSource g c).intm.toNat / g.gP ↔ AtDetour g c) := by
  unfold ugalSource phaseBefore AtDetour
  by_cases hgroup : InGroup g c
  · simp [hsource, hgroup, show c.flit.dest / (g.gA * g.gP) = c.router.id / g.gA from hgroup]
  · have hne : ¬ c.flit.dest / (g.gA * g.gP) = c.router.id / g.gA := hgroup
    have hdrawn : c.randomInt 0 (g.gA * g.gP * g.gG - 1) = drawnNode g c := rfl
    simp only [hsource, hgroup, hne, hdrawn, if_true, if_false, not_false_eq_true, and_self]
    by_cases hsame : c.router.id / g.gA = drawnNode g c / (g.gA * g.gP)
    · rw [if_pos hsame, if_pos (show NoDetour g c from .inl hsame)]
      exact ⟨rfl, rfl, Iff.rfl⟩
    · rw [if_neg hsame]
      by_cases hqueue : max (c.router.usedCredit (dragonflyPort g c.router.id c.flit.dest)) 0 ≤
          2 * max (c.router.usedCredit (dragonflyPort g c.router.id (drawnNode g c))) 0 + 30
      · rw [if_pos hqueue, if_pos (show NoDetour g c from .inr hqueue)]
        exact ⟨rfl, rfl, Iff.rfl⟩
      · rw [if_neg hqueue, if_neg (show ¬ NoDetour g c from not_or.mpr ⟨hsame, hqueue⟩)]
        exact ⟨rfl, rfl, Iff.rfl⟩

theorem ph_ugalFlit {route : ℕ × Flit} (h : ugalFlit g c = some route) :
    (phaseBefore g c = 0 ∧ ¬ AtDetour g c → route.2.ph = 0) ∧
      (phaseBefore g c = 0 ∧ AtDetour g c ∨ phaseBefore g c = 1 →
        route.2.ph = if LeavesGroup g c c.flit.dest then 2 else 1) ∧
      (phaseBefore g c ≠ 0 → phaseBefore g c ≠ 1 → route.2.ph = 2) := by
  obtain ⟨f, hf, hph, hdest, hat⟩ : ∃ f,
    (if c.inChannel < g.gP then ugalSource g c else c.flit) = f ∧
      f.ph = phaseBefore g c ∧ f.dest = c.flit.dest ∧
      (c.router.id = f.intm.toNat / g.gP ↔ AtDetour g c) := by
    by_cases hsource : c.inChannel < g.gP
    · exact ⟨_, rfl, by simpa only [if_pos hsource] using ugalSource_spec hsource⟩
    · exact ⟨_, rfl, by simp [phaseBefore, AtDetour, hsource]⟩
  simp only [ugalFlit, hf, hph, hat] at h
  by_cases hzero : phaseBefore g c = 0 ∧ AtDetour g c
  · simp only [hzero, and_self, if_true, Int.one_ne_zero, if_false, true_or, true_and, hdest,
      Option.some.injEq] at h
    subst h
    refine ⟨fun h => absurd hzero.2 h.2, fun _ => ?_, fun h => absurd hzero.1 h⟩
    by_cases hleave : LeavesGroup g c c.flit.dest
    · rw [if_pos hleave]
      exact congrArg Flit.ph (if_pos hleave)
    · rw [if_neg hleave]
      exact congrArg Flit.ph (if_neg hleave)
  · simp only [if_neg hzero, hph, hdest] at h
    split_ifs at h with h0 h12 hleave
    · cases h
      exact ⟨fun _ => hph.trans h0, fun h => by grind, fun h => absurd h0 h⟩
    · cases h
      refine ⟨fun h => absurd h.1 h0, fun _ => (if_pos hleave.2).symm, fun _ h => absurd hleave.1 h⟩
    · cases h
      refine ⟨fun h => absurd h.1 h0, fun h => ?_, fun _ h => hph.trans (h12.resolve_left h)⟩
      have hone := h.resolve_left hzero
      have hstays : ¬ LeavesGroup g c c.flit.dest := fun hl => hleave ⟨hone, hl⟩
      rw [if_neg hstays, hph, hone]

theorem ugalDragonflynew_inClass_iff (h : ugalDragonflynew g c = some res) :
    (InClass g c.flit.cl res.outputs ↔ Confined g c .ugal_dragonflynew) ∧
      res.flit.cl = c.flit.cl := by
  simp only [ugalDragonflynew] at h
  split_ifs at h with hvcs hinject
  · obtain rfl := Option.some.inj h
    refine ⟨inClass_single_vc.trans ?_, rfl⟩
    simp [Confined, hinject, injectVC]
  · obtain ⟨route, hroute, rfl⟩ := Option.map_eq_some_iff.mp h
    refine ⟨inClass_single_vc.trans ?_, ugalFlit_cl hroute⟩
    obtain ⟨hdetour, hminimal, hlast⟩ := ph_ugalFlit hroute
    simp only [Confined, hinject, Bool.false_eq_true, if_false]
    split_ifs with hzero hone hleave
    · rw [hdetour hzero]
    · rw [hminimal (by tauto), if_pos hleave]
    · rw [hminimal (by tauto), if_neg hleave]
    · rw [hlast (fun h => hone (.inl h)) fun h => hone (.inr h)]

end Naming

/-! ## All registered functions -/

theorem Narrows.inClass_iff {g : Globals} {c : Call} {x : Option Routed} (h : Narrows g c x)
    {res : Routed} (hx : x = some res) :
    (InClass g c.flit.cl res.outputs ↔ True) ∧ res.flit.cl = c.flit.cl :=
  ⟨iff_true_intro (h res hx).1, (h res hx).2⟩

theorem route_inClass_iff {g : Globals} {c : Call} {fn : RoutingFunction} (hfits : Fits g c fn)
    {res : Routed} (h : gRoutingFunctionMap fn g c = some res) :
    (InClass g c.flit.cl res.outputs ↔ Confined g c fn) ∧ res.flit.cl = c.flit.cl := by
  cases fn with
  | dor_mesh => exact dimOrderMesh_narrows.inClass_iff h
  | xy_yx_mesh | adaptive_xy_yx_mesh => exact (xyYx_narrows _).inClass_iff h
  | dim_order_mesh => exact dimOrderMesh_narrows.inClass_iff h
  | dim_order_ni_mesh => exact (dimOrderNiMesh_narrows hfits.2.1).inClass_iff h
  | dim_order_pni_mesh => exact dimOrderPniMesh_narrows.inClass_iff h
  | romm_mesh => exact (twoPhaseMesh_narrows _).inClass_iff h
  | romm_ni_mesh => exact (rommNiMesh_narrows hfits.2.1).inClass_iff h
  | min_adapt_mesh => exact minAdaptMesh_inClass_iff h
  | planar_adapt_mesh => exact planarAdaptMesh_narrows.inClass_iff h
  | valiant_mesh => exact (twoPhaseMesh_narrows _).inClass_iff h
  | chaos_mesh => exact chaosMesh_inClass_iff hfits h
  | dim_order_torus => exact dimOrderTorus_narrows.inClass_iff h
  | dim_order_ni_torus => exact (dimOrderNiTorus_narrows hfits.2.1).inClass_iff h
  | dim_order_bal_torus => exact dimOrderBalTorus_narrows.inClass_iff h
  | min_adapt_torus => exact minAdaptTorus_inClass_iff hfits h
  | valiant_torus => exact valiantTorus_narrows.inClass_iff h
  | valiant_ni_torus => exact (valiantNiTorus_narrows hfits.2.1).inClass_iff h
  | chaos_torus => exact chaosTorus_inClass_iff hfits h
  | min_dragonflynew => exact minDragonflynew_inClass_iff h
  | ugal_dragonflynew => exact ugalDragonflynew_inClass_iff h

/-- One routing decision, and the flit on the VC it then takes: any of those offered. -/
def Takes (g : Globals) (fn : RoutingFunction) (c : Call) (f : Flit) : Prop :=
  ∃ res, gRoutingFunctionMap fn g c = some res ∧
    ∃ e ∈ res.outputs.getSet, ∃ v ∈ e.vcs, f = { res.flit with vc := v }

/-- A packet's way: it is injected, and at each router routed again, coming in on the VC it
took last. -/
inductive Path (g : Globals) (fn : RoutingFunction) : List Call → Flit → Prop
  | inject {c : Call} {f : Flit} : c.inject = true → Takes g fn c f → Path g fn [c] f
  | hop {calls : List Call} {f f' : Flit} {c : Call} : Path g fn calls f → c.inject = false →
      c.flit.cl = f.cl → c.flit.vc = f.vc → Takes g fn c f' → Path g fn (c :: calls) f'

theorem Takes.holds {g : Globals} {fn : RoutingFunction} {c : Call} {f : Flit}
    (h : Takes g fn c f) (hfits : Fits g c fn) (hconf : Confined g c fn) : g.vcs.Holds f := by
  obtain ⟨res, hres, e, he, v, hv, rfl⟩ := h
  obtain ⟨hiff, hcl⟩ := route_inClass_iff hfits hres
  have hin := hiff.mpr hconf e he v hv
  rwa [← hcl] at hin

/-- **Which routing decisions keep a class inside its VCs.**  For every registered function
the route set is inside the class's range exactly for the calls `Confined` describes; and a
packet all of whose routing decisions are such only ever holds VCs of its class. -/
theorem classes_confined (g : Globals) (fn : RoutingFunction) :
    (∀ c res, Fits g c fn → gRoutingFunctionMap fn g c = some res →
      (InClass g c.flit.cl res.outputs ↔ Confined g c fn)) ∧
    (∀ calls f, Path g fn calls f → (∀ c ∈ calls, Fits g c fn ∧ Confined g c fn) →
      g.vcs.Holds f) := by
  constructor
  · intro c res hfits h
    exact (route_inClass_iff hfits h).1
  · intro calls f hpath hcalls
    cases hpath with
    | inject _ htakes | hop _ _ _ _ htakes =>
      obtain ⟨hfits, hconf⟩ := hcalls _ List.mem_cons_self
      exact htakes.holds hfits hconf

/-- A line of two routers and two classes: class 0 has VCs 0 and 1, the others 2 and 3. -/
def twoClasses : Globals where
  gK := 2
  gN := 1
  gNodes := 2
  gP := 0
  gA := 0
  gG := 0
  vcs :=
    { gBeginVCs := fun cl => if cl = 0 then 0 else 2
      gEndVCs := fun cl => if cl = 0 then 1 else 3
      gNumVCs := 4
      begin_le_end := fun cl => by split <;> decide }

/-- A flit of class `cl` on its way from router 0 to node 1. -/
def towardsOne (cl : ℕ) (vc : ℤ) : Call where
  router := ⟨0, fun _ => 0, fun _ => false⟩
  flit := { id := 0, pid := 0, cl := cl, src := 0, dest := 1, vc := vc }
  inChannel := 2
  inject := false
  rnd := fun _ => 0
  uninit := 0

/-- A dragonfly of three groups of two routers, and two VCs for every class. -/
def threeGroups : Globals where
  gK := 0
  gN := 0
  gNodes := 6
  gP := 1
  gA := 2
  gG := 3
  vcs := ⟨fun _ => 0, fun _ => 1, 2, fun _ => Int.zero_le_ofNat 1⟩

/-- A flit from node 1 to node 2, at router `id`. -/
def toNextGroup (id inChannel : ℕ) (inject : Bool) (vc ph : ℤ) : Call where
  router := ⟨id, fun _ => 0, fun _ => false⟩
  flit := { id := 0, pid := 0, cl := 0, src := 1, dest := 2, vc := vc, ph := ph }
  inChannel := inChannel
  inject := inject
  rnd := fun _ => 0
  uninit := 0

/-- From node 1 by router 0 and its optical link to router 2, and out. -/
def nextGroupCalls : List Call :=
  [toNextGroup 2 2 false 1 1, toNextGroup 0 1 false 0 0, toNextGroup 1 0 false 0 (-1),
    toNextGroup 1 0 true (-1) (-1)]

theorem path_nextGroup : Path threeGroups .min_dragonflynew nextGroupCalls
    (toNextGroup 2 2 false 1 1).flit := by
  refine .hop (f := (toNextGroup 2 2 false 1 1).flit) (.hop (f := (toNextGroup 0 1 false 0 0).flit)
    (.hop (f := (toNextGroup 1 0 false 0 (-1)).flit) (.inject rfl ?_) rfl rfl rfl ?_)
    rfl rfl rfl ?_) rfl rfl rfl ?_
  all_goals exact ⟨_, rfl, _, List.mem_cons_self, _, List.mem_cons_self, rfl⟩

/-- One call of an adaptive function, and a whole path of four. -/
theorem classes_confined_twoClasses :
    InClass twoClasses 0 (OutputSet.clear.addRange 0 0 0 0 |>.addRange 0 1 1 1) ∧
      threeGroups.vcs.Holds (toNextGroup 2 2 false 1 1).flit := by
  refine ⟨((classes_confined twoClasses .min_adapt_mesh).1 (towardsOne 0 0)
    ⟨OutputSet.clear.addRange 0 0 0 0 |>.addRange 0 1 1 1, (towardsOne 0 0).flit⟩
    ⟨rfl, by decide, fun _ => by decide⟩ (by rfl)).mpr (.inr (.inr (by decide))),
    (classes_confined threeGroups .min_dragonflynew).2 _ _ path_nextGroup fun c hc => ⟨trivial, ?_⟩⟩
  simp only [nextGroupCalls, List.mem_cons, List.not_mem_nil, or_false] at hc
  rcases hc with rfl | rfl | rfl | rfl
  · exact (by decide : Names threeGroups (toNextGroup 2 2 false 1 1) 1)
  · exact (by decide : Names threeGroups (toNextGroup 0 1 false 0 0) 1)
  · exact (by decide : Names threeGroups (toNextGroup 1 0 false 0 (-1)) 0)
  · exact (by decide : Names threeGroups (toNextGroup 1 0 true (-1) (-1)) 0)

/-- On VC 2, a flit of class 1 is offered VCs 0 and 1 by `min_adapt_mesh`. -/
theorem min_adapt_mesh_leaves_class :
    ∃ res, gRoutingFunctionMap .min_adapt_mesh twoClasses (towardsOne 1 2) = some res ∧
      Fits twoClasses (towardsOne 1 2) .min_adapt_mesh ∧
      twoClasses.vcs.Holds (towardsOne 1 2).flit ∧ ¬ InClass twoClasses 1 res.outputs :=
  ⟨_, rfl, ⟨rfl, by decide, fun _ => by decide⟩, by decide, by decide⟩

end BookSim.Routing
