/-
# Are the VCs of the two phases disjoint?

`romm_mesh` and `valiant_mesh` send a packet to an intermediate node first, and
`dim_order_torus` cuts each ring at a dateline.  All three avoid deadlock by halving the
class's VCs: phase (or ring partition) 0 is to use one half and 1 the other.  With `h`
half the number of VCs, rounded down, a hop to a neighbouring router is offered

    phase 0, away from the destination       [vcBegin, vcEnd - h]
    phase 0, at the destination's router     [vcBegin, vcEnd]
    phase 1                                  [vcBegin + h, vcEnd]

The first and the last range share the middle VC when the number is odd.  The second comes
about on a valiant route that passes its destination on the way to the intermediate node;
the source takes "at the destination" to mean that the packet is about to leave.
-/
import BookSim.Networks.KNTorus
import BookSim.Networks.MeshOrder

namespace BookSim.Routing

/-- The functions that keep two phases, or two ring partitions, apart. -/
inductive PhaseFunction where
  | romm_mesh | valiant_mesh | dim_order_torus
  deriving DecidableEq, Repr

/-- Under its registered name. -/
def PhaseFunction.fn : PhaseFunction → RoutingFunction
  | .romm_mesh => .romm_mesh
  | .valiant_mesh => .valiant_mesh
  | .dim_order_torus => .dim_order_torus

/-- The call offers `vc` for a hop to a neighbouring router, in phase `ph`. -/
def OffersHop (f : PhaseFunction) (g : Globals) (c : Call) (ph vc : ℤ) : Prop :=
  c.inject = false ∧ ∃ res, gRoutingFunctionMap f.fn g c = some res ∧ res.flit.ph = ph ∧
    ∃ e ∈ res.outputs.getSet, e.outputPort < 2 * g.gN ∧ vc ∈ e.vcs

/-- The range a hop in a phase is offered. -/
def phaseRange (g : Globals) (c : Call) (ph : ℤ) : VCRange :=
  if c.router.id = c.flit.dest then classRange g c else (classRange g c).part (ph ≠ 0)

section Offers

variable {g : Globals} {c : Call} {ph vc : ℤ}

/-- What a call that offers a hop offers altogether. -/
structure HopOffer (f : PhaseFunction) (g : Globals) (c : Call) (ph : ℤ) : Prop where
  offers_iff : ∀ vc, OffersHop f g c ph vc ↔
    (phaseRange g c ph).vcBegin ≤ vc ∧ vc ≤ (phaseRange g c ph).vcEnd
  two : c.router.id ≠ c.flit.dest → (classRange g c).vcBegin < (classRange g c).vcEnd
  away : ph = 1 → c.router.id ≠ c.flit.dest

theorem VCRange.lt_of_half {r s : VCRange} {upper : Bool} (h : r.half upper = some s) :
    r.vcBegin < r.vcEnd ∧ s = r.part upper := by
  simp only [half, Option.ite_none_right_eq_some, Option.some.injEq] at h
  obtain ⟨hpos, rfl⟩ := h
  refine ⟨by omega, ?_⟩
  cases upper <;> rfl

theorem VCRange.half_of_phaseHalf {r s : VCRange} (h : r.phaseHalf ph = some s) :
    r.half (ph ≠ 0) = some s := by
  unfold phaseHalf at h
  split_ifs at h with h0 h1
  · simpa [h0] using h
  · simpa [h0] using h

theorem hopOffer_of_single {f : PhaseFunction} {port : ℕ} {r : VCRange} {f' : Flit}
    (hroute : gRoutingFunctionMap f.fn g c = some ⟨single port r, f'⟩)
    (hr : (if c.router.id ≠ c.flit.dest then (classRange g c).half (f'.ph ≠ 0)
      else some (classRange g c)) = some r)
    (haway : f'.ph = 1 → port < 2 * g.gN → c.router.id ≠ c.flit.dest)
    (h : OffersHop f g c ph vc) : HopOffer f g c ph := by
  obtain ⟨hinj, res, hres, rfl, e, he, hport, hvc⟩ := h
  rw [hroute] at hres
  cases hres
  obtain rfl := mem_getSet_single.mp he
  have hport' : port < 2 * g.gN := by
    have hcast : (port : ℤ) < 2 * g.gN := hport
    omega
  have hrange : r = phaseRange g c f'.ph := by
    by_cases heq : c.router.id = c.flit.dest
    · rw [if_neg (not_not.mpr heq), Option.some.injEq] at hr
      rw [phaseRange, if_pos heq, hr]
    · rw [if_pos heq] at hr
      rw [phaseRange, if_neg heq, (VCRange.lt_of_half hr).2]
  refine ⟨fun vc' => ?_, fun hne => ?_, fun hph => haway hph hport'⟩
  · constructor
    · rintro ⟨-, res, hres, -, e, he, -, hvc⟩
      rw [hroute] at hres
      cases hres
      obtain rfl := mem_getSet_single.mp he
      exact hrange ▸ OutputSet.mem_vcs.mp hvc
    · intro hvc
      refine ⟨hinj, _, hroute, rfl, _, mem_getSet_single.mpr rfl, hport, ?_⟩
      rw [← hrange] at hvc
      exact OutputSet.mem_vcs.mpr hvc
  · rw [if_pos hne] at hr
    exact (VCRange.lt_of_half hr).1

/-! ## The three functions -/

theorem meshPhase_dest (fresh : ℕ) : (meshPhase g c fresh).dest = c.flit.dest := by
  simp only [meshPhase]
  split_ifs <;> rfl

theorem phasePort_of_phase_one {f : Flit} (hdest : f.dest = c.flit.dest) (hph : f.ph = 1)
    (heq : c.router.id = c.flit.dest) : phasePort g c f = 2 * g.gN := by
  rw [phasePort, if_neg (by omega), hdest, heq]
  exact if_pos rfl

theorem twoPhaseMesh_hopOffer {f : PhaseFunction} {fresh : ℕ}
    (hfn : gRoutingFunctionMap f.fn g c = twoPhaseMesh g c fresh) (h : OffersHop f g c ph vc) :
    HopOffer f g c ph := by
  obtain ⟨hinj, res, hres, -⟩ := id h
  rw [hfn, twoPhaseMesh] at hres
  obtain ⟨r, hadmitted, hres⟩ := Option.bind_eq_some_iff.mp hres
  obtain rfl := eq_of_admitted hadmitted
  simp only [hinj, Bool.false_eq_true, if_false] at hres
  obtain ⟨r, hr, hres⟩ := Option.bind_eq_some_iff.mp hres
  have hroute : gRoutingFunctionMap f.fn g c = some ⟨single (phasePort g c (meshPhase g c fresh)) r,
      meshPhase g c fresh⟩ := by
    rw [hfn, twoPhaseMesh, hadmitted]
    simp only [Option.bind_eq_bind, Option.bind_some, hinj, Bool.false_eq_true, if_false, hr]
  refine hopOffer_of_single hroute ?_ ?_ h
  · by_cases heq : c.router.id = c.flit.dest
    · rwa [if_neg (not_not.mpr heq)] at hr ⊢
    · rw [if_pos heq] at hr ⊢
      exact VCRange.half_of_phaseHalf hr
  · intro hph hlt heq
    rw [phasePort_of_phase_one (meshPhase_dest fresh) hph heq] at hlt
    omega

theorem dimOrderTorus_hopOffer (h : OffersHop .dim_order_torus g c ph vc) :
    HopOffer .dim_order_torus g c ph := by
  obtain ⟨hinj, res, hres, -⟩ := id h
  have hfn : gRoutingFunctionMap PhaseFunction.dim_order_torus.fn g c = dimOrderTorus g c := rfl
  rw [hfn, dimOrderTorus] at hres
  obtain ⟨r, hadmitted, hres⟩ := Option.bind_eq_some_iff.mp hres
  obtain rfl := eq_of_admitted hadmitted
  simp only [hinj, Bool.false_eq_true, if_false] at hres
  obtain ⟨r, hr, hres⟩ := Option.bind_eq_some_iff.mp hres
  have hroute : gRoutingFunctionMap PhaseFunction.dim_order_torus.fn g c =
      some ⟨single (torusStep g c c.router.id c.flit.dest c.inChannel false).1 r,
        (torusStep g c c.router.id c.flit.dest c.inChannel false).2⟩ := by
    rw [hfn, dimOrderTorus, hadmitted]
    simp only [Option.bind_eq_bind, Option.bind_some, hinj, Bool.false_eq_true, if_false, hr]
  refine hopOffer_of_single hroute hr ?_ h
  · intro _ hlt heq
    rw [torusStep, heq, KNCube.dorNextTorus_self] at hlt
    exact absurd hlt (Nat.lt_irrefl _)

theorem hopOffer_of_offersHop {f : PhaseFunction} (h : OffersHop f g c ph vc) :
    HopOffer f g c ph := by
  cases f with
  | romm_mesh | valiant_mesh => exact twoPhaseMesh_hopOffer rfl h
  | dim_order_torus => exact dimOrderTorus_hopOffer h

end Offers

/-- **When the phases are kept apart.**  Take a hop in phase 0 and a hop in phase 1 of the same
class, wherever they are made: no VC is offered for both exactly if the class has an even
number of VCs and the first hop does not start at the router of the packet's destination. -/
theorem phases_disjoint_iff (f : PhaseFunction) (g : Globals) (c₀ c₁ : Call)
    (hcl : c₀.flit.cl = c₁.flit.cl) (h₀ : ∃ vc, OffersHop f g c₀ 0 vc)
    (h₁ : ∃ vc, OffersHop f g c₁ 1 vc) :
    (∀ vc, OffersHop f g c₀ 0 vc → ¬ OffersHop f g c₁ 1 vc) ↔
      Even (g.vcs.gEndVCs c₀.flit.cl - g.vcs.gBeginVCs c₀.flit.cl + 1) ∧
        c₀.router.id ≠ c₀.flit.dest := by
  obtain ⟨vc₀, hvc₀⟩ := h₀
  obtain ⟨vc₁, hvc₁⟩ := h₁
  have hoffer₀ := hopOffer_of_offersHop hvc₀
  have hoffer₁ := hopOffer_of_offersHop hvc₁
  have haway := hoffer₁.away rfl
  have htwo := hoffer₁.two haway
  have hclass : classRange g c₁ = classRange g c₀ := by simp only [classRange, hcl]
  have hrange₁ : phaseRange g c₁ 1 = (classRange g c₀).part true := by
    rw [phaseRange, if_neg haway, hclass]
    rfl
  rw [hclass] at htwo
  simp only [hoffer₀.offers_iff, hoffer₁.offers_iff, hrange₁]
  by_cases heq : c₀.router.id = c₀.flit.dest
  · have hrange₀ : phaseRange g c₀ 0 = classRange g c₀ := if_pos heq
    rw [hrange₀]
    refine iff_of_false (fun hdisjoint => ?_) fun hwhen => hwhen.2 heq
    have hmem := VCRange.part_nonempty htwo true
    exact hdisjoint _ (VCRange.part_within htwo true le_rfl hmem) ⟨le_rfl, hmem⟩
  · have hrange₀ : phaseRange g c₀ 0 = (classRange g c₀).part false := if_neg heq
    rw [hrange₀]
    simp only [VCRange.part, VCRange.available, classRange] at htwo ⊢
    constructor
    · intro hdisjoint
      refine ⟨?_, heq⟩
      by_contra hodd
      rw [Int.not_even_iff] at hodd
      refine hdisjoint (g.vcs.gBeginVCs c₀.flit.cl +
        (g.vcs.gEndVCs c₀.flit.cl - g.vcs.gBeginVCs c₀.flit.cl + 1) / 2) ?_ ?_ <;> omega
    · rintro ⟨⟨m, hm⟩, -⟩ vc hlow hhigh
      omega

/-- A ring of four routers. -/
def ring4 : KNCube := ⟨4, 1, Nat.succ_pos 3⟩

/-- A packet at its first router, the source, where the generator returns `draw`. -/
def firstCall (src dest draw : ℕ) : Call where
  router := ⟨src, fun _ => 0, fun _ => false⟩
  flit := { id := 0, pid := 0, cl := 0, src := src, dest := dest, vc := 0 }
  inChannel := 2
  inject := false
  rnd := fun _ => draw
  uninit := 0

/-- With four VCs on the ring, a packet that stays on its side of the dateline and one that
crosses it are offered different VCs. -/
theorem phases_disjoint_ring4 :
    OffersHop .dim_order_torus (ring4.globals CKNCube.fourVCs) (firstCall 0 1 0) 0 0 ∧
    OffersHop .dim_order_torus (ring4.globals CKNCube.fourVCs) (firstCall 3 0 0) 1 2 ∧ ∀ vc,
      OffersHop .dim_order_torus (ring4.globals CKNCube.fourVCs) (firstCall 0 1 0) 0 vc →
        ¬ OffersHop .dim_order_torus (ring4.globals CKNCube.fourVCs) (firstCall 3 0 0) 1 vc := by
  have h₀ : OffersHop .dim_order_torus (ring4.globals CKNCube.fourVCs) (firstCall 0 1 0) 0 0 :=
    ⟨rfl, _, rfl, rfl, ⟨0, 1, 0, 0⟩, List.mem_cons_self, by decide, by decide⟩
  have h₁ : OffersHop .dim_order_torus (ring4.globals CKNCube.fourVCs) (firstCall 3 0 0) 1 2 :=
    ⟨rfl, _, rfl, rfl, ⟨2, 3, 0, 0⟩, List.mem_cons_self, by decide, by decide⟩
  exact ⟨h₀, h₁, (phases_disjoint_iff .dim_order_torus (ring4.globals CKNCube.fourVCs)
    (firstCall 0 1 0) (firstCall 3 0 0) rfl ⟨0, h₀⟩ ⟨2, h₁⟩).mpr ⟨by decide, by decide⟩⟩

/-- A packet from node 0 to node 1 by way of node 2, at the router of node 1. -/
def passing : Flight where
  router := 1
  inPort := 1
  flit := { id := 0, pid := 0, cl := 0, src := 0, dest := 1, vc := 0, intm := 2, ph := 0 }

def passingCall : Call where
  router := ⟨1, fun _ => 0, fun _ => false⟩
  flit := passing.flit
  inChannel := 1
  inject := false
  rnd := fun _ => 0
  uninit := 0

theorem passing_onRoute : (KNCube.row3.flights CKNCube.fourVCs .valiant_mesh).OnRoute passing := by
  have hstart : (KNCube.row3.flights CKNCube.fourVCs .valiant_mesh).start
      ⟨0, 2, (firstCall 0 1 2).flit⟩ :=
    ⟨⟨{ firstCall 0 1 2 with flit := { (firstCall 0 1 2).flit with vc := -1 }, inject := true },
      _, rfl, by decide, rfl, ⟨0, 3, 0, -1⟩, List.mem_cons_self, 0, by decide, rfl⟩, by decide,
      KNCube.sink_inject (by decide)⟩
  exact (RouteSystem.OnRoute.of_start hstart).hop
    (@KNCube.hop_of_single KNCube.row3 CKNCube.fourVCs .valiant_mesh _ (firstCall 0 1 2) 0 ⟨0, 1⟩
      passing.flit 0 ⟨rfl, rfl, rfl, rfl⟩ rfl (by decide) (by decide) (by decide))

/-- On a ring with three VCs both partitions are offered VC 1; and with four VCs a valiant
packet that passes its destination in phase 0 is offered VC 2, as one in phase 1 is. -/
theorem phases_share_vcs :
    (OffersHop .dim_order_torus (ring4.globals KNCube.threeVCs) (firstCall 0 1 0) 0 1 ∧
      OffersHop .dim_order_torus (ring4.globals KNCube.threeVCs) (firstCall 3 0 0) 1 1) ∧
    (KNCube.row3.flights CKNCube.fourVCs .valiant_mesh).OnRoute passing ∧
    passing.Calls passingCall ∧
    OffersHop .valiant_mesh (KNCube.row3.globals CKNCube.fourVCs) passingCall 0 2 ∧
    OffersHop .valiant_mesh (KNCube.row3.globals CKNCube.fourVCs) (firstCall 0 1 0) 1 2 :=
  ⟨⟨⟨rfl, _, rfl, rfl, ⟨0, 1, 0, 0⟩, List.mem_cons_self, by decide, by decide⟩,
    ⟨rfl, _, rfl, rfl, ⟨1, 2, 0, 0⟩, List.mem_cons_self, by decide, by decide⟩⟩,
    passing_onRoute, ⟨rfl, rfl, rfl, rfl⟩,
    ⟨rfl, _, rfl, rfl, ⟨0, 3, 0, 0⟩, List.mem_cons_self, by decide, by decide⟩,
    ⟨rfl, _, rfl, rfl, ⟨2, 3, 0, 0⟩, List.mem_cons_self, by decide, by decide⟩⟩

end BookSim.Routing
