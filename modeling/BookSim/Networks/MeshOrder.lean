/-
# XY or YX — is the order chosen at injection kept?

`xy_yx_mesh` and `adaptive_xy_yx_mesh` choose at the first router whether a packet goes by
ascending or by descending dimensions, and give it the lower or the upper half of its
class's VCs.  The choice is not stored: each later router reads it off the VC the packet
came in on.  With `r` the range of the class and `h` half its size, rounded down,

    XY is given        [vcBegin, vcEnd - h]
    YX is given        [vcBegin + h, vcEnd]
    read as XY         vc < vcBegin + h

so a packet on the middle VC of an odd range is taken for a YX packet, whatever it was.
`keepsOrder_iff` shows that the order is kept exactly when the range is even, or when no
packet comes to a second router that is not its last.
-/
import Mathlib.Algebra.Group.Int.Even
import BookSim.Networks.KNMesh
import BookSim.RoutingVCs

namespace BookSim.Routing

/-! ## The decision -/

/-- The two functions, by whether the choice is adaptive. -/
def xyYxFunction : Bool → RoutingFunction
  | false => .xy_yx_mesh
  | true => .adaptive_xy_yx_mesh

/-- The order a packet is given at its first router. -/
def freshOrder (g : Globals) (c : Call) : Bool → Bool
  | false => c.randomInt 0 1 > 0
  | true =>
    let creditXy := c.router.usedCredit (dorNextMesh g c.router.id c.flit.dest false)
    let creditYx := c.router.usedCredit (dorNextMesh g c.router.id c.flit.dest true)
    if creditXy > creditYx then false
    else if creditXy < creditYx then true else c.randomInt 0 1 > 0

/-- `x_then_y`, as the functions compute it. -/
def xThenY (g : Globals) (adaptive : Bool) (c : Call) : Bool :=
  if c.inChannel < 2 * g.gN then
    decide (c.flit.vc < (classRange g c).vcBegin + (classRange g c).available)
  else freshOrder g c adaptive

section Decision

variable {g : Globals} {c : Call} (adaptive : Bool)

theorem gRoutingFunctionMap_xyYxFunction :
    gRoutingFunctionMap (xyYxFunction adaptive) g c = xyYx g c (freshOrder g c adaptive) := by
  cases adaptive <;> rfl

theorem xyYx_of_eq (hholds : g.vcs.Holds c.flit) (hinj : c.inject = false)
    (heq : c.router.id = c.flit.dest) :
    gRoutingFunctionMap (xyYxFunction adaptive) g c =
      some ⟨single (2 * g.gN) (classRange g c), c.flit⟩ := by
  rw [gRoutingFunctionMap_xyYxFunction, xyYx, admitted_of_holds hholds]
  simp [hinj, heq]

/-- Elsewhere it goes on in its order, on the half of the VCs that belongs to the order. -/
theorem xyYx_of_ne (hholds : g.vcs.Holds c.flit) (hinj : c.inject = false)
    (hne : c.router.id ≠ c.flit.dest)
    (h2 : (classRange g c).vcBegin < (classRange g c).vcEnd) :
    gRoutingFunctionMap (xyYxFunction adaptive) g c =
      some ⟨single (dorNextMesh g c.router.id c.flit.dest (!xThenY g adaptive c))
        ((classRange g c).part (!xThenY g adaptive c)), c.flit⟩ := by
  rw [gRoutingFunctionMap_xyYxFunction, xyYx, admitted_of_holds hholds]
  simp only [Option.bind_eq_bind, Option.bind_some, hinj, Bool.false_eq_true, if_false, if_neg hne,
    VCRange.half_of_lt h2]
  rfl

theorem xyYx_of_inject (hinj : c.inject = true) (hvc : c.flit.vc < 0) :
    gRoutingFunctionMap (xyYxFunction adaptive) g c =
      some ⟨single (-1) (classRange g c), c.flit⟩ := by
  rw [gRoutingFunctionMap_xyYxFunction, xyYx, admitted, if_pos (.inr ⟨hinj, hvc⟩)]
  simp [hinj]

end Decision

end BookSim.Routing

namespace BookSim.KNCube

open List CKNCube Routing

variable {net : KNCube} {vcs : ClassVCs} {adaptive : Bool} {cl dest : ℕ} {s t : Flight}

theorem injectsClass_xyYx (adaptive : Bool) : InjectsClass (net.globals vcs)
    (gRoutingFunctionMap (xyYxFunction adaptive) (net.globals vcs)) := by
  intro c hinj
  rw [gRoutingFunctionMap_xyYxFunction, xyYx]
  simp only [hinj, if_true]
  exact (Option.map_eq_bind ..).symm

/-- The order in which a hop was decided. -/
def order (net : KNCube) (vcs : ClassVCs) (adaptive : Bool) (a : Sent) : Bool :=
  xThenY (net.globals vcs) adaptive a.call

/-- A hop from `s` to `t`, in the order that was decided for it. -/
structure OrderedHop (net : KNCube) (vcs : ClassVCs) (adaptive : Bool) (dest : ℕ) (s : Flight)
    (a : Sent) (t : Flight) : Prop where
  calls : s.Calls a.call
  port_eq : a.port = dorNextMesh (net.globals vcs) s.router dest (!net.order vcs adaptive a)
  mesh : net.MeshHop s.router dest a.port.toNat (!net.order vcs adaptive a)
  next : t.router = net.neighbour s.router a.port.toNat
  inPort_lt : t.inPort < 2 * net.n
  flit : ∃ v, t.flit = { s.flit with vc := v } ∧
    ((classRange (net.globals vcs) a.call).part (!net.order vcs adaptive a)).vcBegin ≤ v ∧
    v ≤ ((classRange (net.globals vcs) a.call).part (!net.order vcs adaptive a)).vcEnd

/-- **One step**: the packet leaves at its destination, and elsewhere makes a hop. -/
theorem xyYx_outcome (hs : net.Underway vcs cl dest s)
    (h2 : vcs.gBeginVCs cl < vcs.gEndVCs cl) {o : Outcome Flight Sent ℕ}
    (ho : (net.flights vcs (xyYxFunction adaptive)).outcome s o) :
    s.router = dest ∧ o = .leave dest ∨
      ∃ a t, s.router ≠ dest ∧ o = .hop a t ∧ net.OrderedHop vcs adaptive dest s a t := by
  obtain ⟨c, hc, hdecided⟩ := ho
  have hholds : vcs.Holds c.flit := hc.flit ▸ hs.holds
  have hdest : c.flit.dest = dest := by rw [hc.flit, hs.dest_eq]
  have hrange : (classRange (net.globals vcs) c).vcBegin <
      (classRange (net.globals vcs) c).vcEnd := by
    simpa [classRange, globals, hc.flit, hs.cl_eq] using h2
  by_cases heq : s.router = dest
  · left
    rw [xyYx_of_eq adaptive hholds hc.inject (by rw [hc.router, heq, hdest]),
      decided_single hrange.le] at hdecided
    obtain ⟨v, -, -, rfl⟩ := hdecided
    refine ⟨heq, sentTo_eject ?_⟩
    rw [hc.router, ← heq]
    exact channelAt_eject hs.router_lt
  · right
    rw [xyYx_of_ne adaptive hholds hc.inject (by rwa [hc.router, hdest]) hrange,
      decided_single (VCRange.part_nonempty hrange _)] at hdecided
    obtain ⟨v, hlo, hhi, rfl⟩ := hdecided
    obtain ⟨port, hport, hhop⟩ := @exists_meshHop net vcs s.router dest hs.router_lt hs.dest_lt heq
      (!xThenY (net.globals vcs) adaptive c)
    have hp : dorNextMesh (net.globals vcs) c.router.id c.flit.dest
        (!xThenY (net.globals vcs) adaptive c) = port := by rw [hc.router, hdest, hport]
    rw [hp, hc.flit]
    refine ⟨⟨c, port, 2 * net.n * s.router + port, { s.flit with vc := v }⟩,
      ⟨net.neighbour s.router port, port ^^^ 1, { s.flit with vc := v }⟩, heq, ?_, hc, ?_,
      hhop, rfl, xor_one_lt hhop.port_lt, v, rfl, hlo, hhi⟩
    · refine sentTo_chan ?_ (sink_port hs.router_lt hhop.port_lt)
      rw [hc.router]
      exact channelAt_port hs.router_lt hhop.port_lt
    · exact congrArg _ hport.symm

theorem OrderedHop.underway {a : Sent} (h : net.OrderedHop vcs adaptive dest s a t)
    (hs : net.Underway vcs cl dest s) (h2 : vcs.gBeginVCs cl < vcs.gEndVCs cl) :
    net.Underway vcs cl dest t := by
  obtain ⟨v, hflit, hlo, hhi⟩ := h.flit
  have hcl : a.call.flit.cl = cl := by rw [h.calls.flit, hs.cl_eq]
  have hrange : (classRange (net.globals vcs) a.call).vcBegin <
      (classRange (net.globals vcs) a.call).vcEnd := by
    simpa [classRange, globals, hcl] using h2
  have hin := VCRange.part_within hrange _ hlo hhi
  refine ⟨h.next ▸ h.mesh.next_lt, hs.dest_lt, by rw [hflit, hs.dest_eq],
    by rw [hflit, hs.cl_eq], ?_⟩
  rw [hflit]
  simpa [ClassVCs.Holds, classRange, globals, hcl, hs.cl_eq] using hin

/-! ## The order along a route -/

variable (h2 : vcs.gBeginVCs cl < vcs.gEndVCs cl)

include h2

/-- However the VCs are granted, the packet gets to its destination by the shortest way. -/
theorem xyYx_deliversIn (hs : net.Underway vcs cl dest s) :
    (net.flights vcs (xyYxFunction adaptive)).DeliversIn dest
      (manhattan (net.position s.router) (net.position dest)) s := by
  refine RouteSystem.deliversIn_of_distance (net.Underway vcs cl dest)
    (fun s => manhattan (net.position s.router) (net.position dest))
    (fun s _ => flights_moves _ _ _ s) (fun s o hs ho => ?_) hs rfl
  rcases xyYx_outcome hs h2 ho with ⟨heq, rfl⟩ | ⟨a, t, -, rfl, hhop⟩
  · exact .inl ⟨by rw [heq, manhattan_self], rfl⟩
  · refine .inr ⟨a, t, rfl, hhop.underway hs h2, ?_⟩
    rw [hhop.next, hhop.mesh.closer]

/-- The hops of a route that is ordered throughout: no dimension comes after one that it
should lead. -/
theorem pairwise_dims {hops : List Sent} (descending : Bool)
    (hroute : (net.flights vcs (xyYxFunction adaptive)).Route s hops t)
    (hs : net.Underway vcs cl dest s)
    (horder : ∀ a ∈ hops, net.order vcs adaptive a = !descending) (low : ℕ)
    (hlow : ∀ i < net.n, Leads descending i low → coord net.k s.router i = coord net.k dest i) :
    (hops.map fun a => a.port.toNat / 2).Pairwise (fun i j => ¬ Leads descending j i) ∧
      ∀ a ∈ hops, ¬ Leads descending (a.port.toNat / 2) low := by
  induction hroute generalizing low with
  | nil => exact ⟨.nil, fun a ha => absurd ha not_mem_nil⟩
  | @cons s u t a hops ha _ ih =>
    rcases xyYx_outcome hs h2 ha with ⟨-, hleave⟩ | ⟨a', u', -, hhop, hstep⟩
    · cases hleave
    · cases hhop
      have hdesc : (!net.order vcs adaptive a) = descending := by
        rw [horder a mem_cons_self, Bool.not_not]
      have hmesh := hdesc ▸ hstep.mesh
      have hdim : a.port.toNat / 2 < net.n := by
        have := hmesh.port_lt
        omega
      have hagrees : ∀ i < net.n, Leads descending i (a.port.toNat / 2) →
          coord net.k u.router i = coord net.k dest i := by
        rw [hstep.next]
        exact hmesh.agrees
      have hfirst : ¬ Leads descending (a.port.toNat / 2) low := fun hlead =>
        hmesh.differs (hlow _ hdim hlead)
      obtain ⟨hpair, hrest⟩ := ih (hstep.underway hs h2)
        (fun b hb => horder b (mem_cons_of_mem a hb)) _ hagrees
      refine ⟨?_, fun b hb => ?_⟩
      · simp_all
      · rcases mem_cons.mp hb with rfl | hb
        · exact hfirst
        · have hlater := hrest b hb
          simp only [Leads] at *
          cases descending <;> simp at * <;> omega

omit h2 in

theorem order_of_even (heven : Even (vcs.gEndVCs cl - vcs.gBeginVCs cl + 1)) {a : Sent}
    (hhop : net.OrderedHop vcs adaptive dest s a t) (hs : net.Underway vcs cl dest s) {c : Call}
    (hc : t.Calls c) : xThenY (net.globals vcs) adaptive c = net.order vcs adaptive a := by
  obtain ⟨v, hflit, hlo, hhi⟩ := hhop.flit
  obtain ⟨m, hm⟩ := heven
  have hport : c.inChannel < 2 * (net.globals vcs).gN := hc.inChannel ▸ hhop.inPort_lt
  have hvc : c.flit.vc = v := by rw [hc.flit, hflit]
  have hcl : c.flit.cl = cl := by rw [hc.flit, hflit, hs.cl_eq]
  have hcl' : a.call.flit.cl = cl := by rw [hhop.calls.flit, hs.cl_eq]
  rw [xThenY, if_pos hport, hvc]
  simp only [classRange, globals, VCRange.available, hcl, hcl'] at hlo hhi ⊢
  cases hx : net.order vcs adaptive a with
  | true =>
    rw [hx] at hhi
    simp only [VCRange.part, VCRange.available, Bool.not_true] at hhi
    exact decide_eq_true (by omega)
  | false =>
    rw [hx] at hlo
    simp only [VCRange.part, VCRange.available, Bool.not_false] at hlo
    exact decide_eq_false (by omega)

theorem order_of_mem (heven : Even (vcs.gEndVCs cl - vcs.gBeginVCs cl + 1)) {hops : List Sent}
    (hroute : (net.flights vcs (xyYxFunction adaptive)).Route s hops t)
    (hs : net.Underway vcs cl dest s) {x : Bool}
    (hx : ∀ c, s.Calls c → xThenY (net.globals vcs) adaptive c = x) :
    ∀ a ∈ hops, net.order vcs adaptive a = x := by
  induction hroute with
  | nil => exact fun a ha => absurd ha not_mem_nil
  | @cons s u t a hops ha _ ih =>
    rcases xyYx_outcome hs h2 ha with ⟨-, hleave⟩ | ⟨a', u', -, hhop, hstep⟩
    · cases hleave
    · cases hhop
      have hfirst : net.order vcs adaptive a = x := hx _ hstep.calls
      intro b hb
      rcases mem_cons.mp hb with rfl | hb
      · exact hfirst
      · refine ih (hstep.underway hs h2) (fun c hc => ?_) b hb
        rw [order_of_even heven hstep hs hc, hfirst]

theorem port_of_mem {hops : List Sent}
    (hroute : (net.flights vcs (xyYxFunction adaptive)).Route s hops t)
    (hs : net.Underway vcs cl dest s) :
    ∀ a ∈ hops, a.port = dorNextMesh (net.globals vcs) a.call.router.id dest
      (!net.order vcs adaptive a) := by
  induction hroute with
  | nil => exact fun a ha => absurd ha not_mem_nil
  | @cons s u t a hops ha _ ih =>
    rcases xyYx_outcome hs h2 ha with ⟨-, hleave⟩ | ⟨a', u', -, hhop, hstep⟩
    · cases hleave
    · cases hhop
      intro b hb
      rcases mem_cons.mp hb with rfl | hb
      · rw [hstep.port_eq, hstep.calls.router]
      · exact ih (hstep.underway hs h2) b hb

/-- What the choice at injection should settle: the packet goes all the way in one order,
and over as many channels as the routers are apart. -/
structure KeepsOrder (net : KNCube) (vcs : ClassVCs) (adaptive : Bool) (s : Flight) : Prop where
  ordered : ∀ hops t, (net.flights vcs (xyYxFunction adaptive)).Route s hops t → ∃ descending,
      (∀ a ∈ hops, net.order vcs adaptive a = !descending ∧
        a.port = dorNextMesh (net.globals vcs) a.call.router.id s.flit.dest descending) ∧
      (hops.map fun a => a.port.toNat / 2).Pairwise (fun i j => ¬ Leads descending j i)
  delivered : (net.flights vcs (xyYxFunction adaptive)).DeliversIn s.flit.dest
    (manhattan (net.position s.router) (net.position s.flit.dest)) s

theorem keepsOrder_of_orders (hs : net.Underway vcs cl s.flit.dest s)
    (horder : ∀ hops t, (net.flights vcs (xyYxFunction adaptive)).Route s hops t →
      ∃ descending, ∀ a ∈ hops, net.order vcs adaptive a = !descending) :
    net.KeepsOrder vcs adaptive s := by
  refine ⟨fun hops t hroute => ?_, xyYx_deliversIn h2 hs⟩
  obtain ⟨descending, hall⟩ := horder hops t hroute
  refine ⟨descending, fun a ha => ⟨hall a ha, ?_⟩, ?_⟩
  · rw [port_of_mem h2 hroute hs a ha, hall a ha, Bool.not_not]
  · refine (pairwise_dims h2 descending hroute hs hall (if descending then net.n else 0) ?_).1
    intro i hi hlead
    cases descending with
    | false => simp [Leads] at hlead
    | true =>
      simp only [Leads, if_true] at hlead
      omega

theorem keepsOrder_of_even (heven : Even (vcs.gEndVCs cl - vcs.gBeginVCs cl + 1))
    (hs : net.Underway vcs cl s.flit.dest s) : net.KeepsOrder vcs adaptive s := by
  refine keepsOrder_of_orders h2 hs fun hops t hroute => ?_
  cases hroute with
  | nil => exact ⟨false, fun a ha => absurd ha not_mem_nil⟩
  | @cons _ u _ a hops ha hrest =>
    rcases xyYx_outcome hs h2 ha with ⟨-, hleave⟩ | ⟨a', u', -, hhop, hstep⟩
    · cases hleave
    · cases hhop
      refine ⟨!net.order vcs adaptive a, fun b hb => ?_⟩
      rw [Bool.not_not]
      rcases mem_cons.mp hb with rfl | hb
      · rfl
      · exact order_of_mem h2 heven hrest (hstep.underway hs h2)
          (fun c hc => order_of_even heven hstep hs hc) b hb

omit h2 in

theorem manhattan_le {k : ℕ} : ∀ {as bs : List ℕ}, (∀ a ∈ as, a < k) → (∀ b ∈ bs, b < k) →
    manhattan as bs ≤ as.length * (k - 1)
  | [], _, _, _ => by simp [manhattan]
  | _ :: _, [], _, _ => by simp [manhattan]
  | a :: as, b :: bs, ha, hb => by
    have hhead : Nat.dist a b ≤ k - 1 := by
      have := ha a mem_cons_self
      have := hb b mem_cons_self
      unfold Nat.dist
      omega
    have htail := manhattan_le (fun x hx => ha x (mem_cons_of_mem a hx))
      fun x hx => hb x (mem_cons_of_mem b hx)
    rw [manhattan, length_cons, Nat.succ_mul]
    omega

omit h2 in

theorem lt_of_mem_position {d node : ℕ} (h : d ∈ net.position node) : d < net.k := by
  obtain ⟨i, hi, rfl⟩ := mem_iff_getElem.mp h
  have hin : i < net.n := by simpa using hi
  have hlt : (net.position node).getD i 0 < net.k := getD_position_lt hin
  rwa [getD_eq_getElem _ _ hi] at hlt

/-- Where no two routers are further apart than one hop there is only one decision. -/
theorem keepsOrder_of_near (hnear : net.n * (net.k - 1) ≤ 1)
    (hs : net.Underway vcs cl s.flit.dest s) : net.KeepsOrder vcs adaptive s := by
  have hle : manhattan (net.position s.router) (net.position s.flit.dest) ≤ 1 := by
    refine (manhattan_le (fun d => lt_of_mem_position) fun d => lt_of_mem_position).trans ?_
    simpa using hnear
  refine keepsOrder_of_orders h2 hs fun hops t hroute => ?_
  have hlen : hops.length ≤ 1 := ((xyYx_deliversIn h2 hs).length_le hroute).trans hle
  rcases hops with - | ⟨a, - | ⟨b, rest⟩⟩
  · exact ⟨false, fun a ha => absurd ha not_mem_nil⟩
  · refine ⟨!net.order vcs adaptive a, fun b hb => ?_⟩
    rw [mem_singleton.mp hb, Bool.not_not]
  · simp at hlen

/-! ## Losing the order -/

omit h2

theorem exists_far (net : KNCube) :
    ∃ d < net.size, manhattan (net.position 0) (net.position d) = net.n * (net.k - 1) := by
  have hfits : MixedRadix.Fits (List.replicate net.n net.k) (List.replicate net.n (net.k - 1)) := by
    rw [MixedRadix.Fits, forall₂_iff_get]
    refine ⟨by simp, fun i _ _ => ?_⟩
    have := net.k_pos
    simp
    omega
  have hzero : ∀ n, MixedRadix.digits (List.replicate n net.k) 0 = List.replicate n 0 := by
    intro n
    induction n with
    | zero => rfl
    | succ n ih =>
      rw [replicate_succ, MixedRadix.digits, Nat.zero_mod, Nat.zero_div, ih, replicate_succ]
  have hdist : ∀ n, manhattan (List.replicate n 0) (List.replicate n (net.k - 1)) =
      n * (net.k - 1) := by
    intro n
    induction n with
    | zero => simp [manhattan]
    | succ n ih =>
      rw [replicate_succ, replicate_succ, manhattan, ih, Nat.succ_mul]
      simp [Nat.dist, Nat.add_comm]
  refine ⟨_, (MixedRadix.value_lt hfits).trans_eq (prod_radices _ _), ?_⟩
  rw [position, position, MixedRadix.digits_value hfits, hzero, hdist]

/-- A flit at its source, router 0. -/
def atCorner (net : KNCube) (cl dest : ℕ) (vc : ℤ) : Flight :=
  ⟨0, 2 * net.n, { id := 0, pid := 0, cl := cl, src := 0, dest := dest, vc := vc }⟩

theorem size_pos : 0 < net.size := Nat.pow_pos net.k_pos

theorem start_atCorner (hdest : dest < net.size) : (net.flights vcs (xyYxFunction adaptive)).start
      (net.atCorner cl dest (vcs.gBeginVCs cl)) := by
  refine ⟨?_, hdest, sink_inject size_pos⟩
  refine ⟨⟨⟨0, fun _ => 0, fun _ => false⟩,
    { id := 0, pid := 0, cl := cl, src := 0, dest := dest }, 0, true, fun _ => 0, 0⟩, _, rfl,
    by simp, xyYx_of_inject adaptive rfl (by simp), _, mem_getSet_single.mpr rfl,
    vcs.gBeginVCs cl, OutputSet.mem_vcs.mpr ⟨le_rfl, vcs.begin_le_end cl⟩, rfl⟩

theorem exists_hop_granting (h2 : vcs.gBeginVCs cl < vcs.gEndVCs cl)
    (hs : net.Underway vcs cl dest s) (hne : s.router ≠ dest) {c : Call} (hc : s.Calls c) {v : ℤ}
    (hlo : ((classRange (net.globals vcs) c).part
      (!xThenY (net.globals vcs) adaptive c)).vcBegin ≤ v)
    (hhi : v ≤ ((classRange (net.globals vcs) c).part
      (!xThenY (net.globals vcs) adaptive c)).vcEnd) :
    ∃ a t, (net.flights vcs (xyYxFunction adaptive)).outcome s (.hop a t) ∧
      net.OrderedHop vcs adaptive dest s a t ∧ a.call = c ∧ t.flit.vc = v := by
  have hrange : (classRange (net.globals vcs) c).vcBegin <
      (classRange (net.globals vcs) c).vcEnd := by
    simpa [classRange, globals, hc.flit, hs.cl_eq] using h2
  have hne' : c.router.id ≠ c.flit.dest := by rwa [hc.router, hc.flit, hs.dest_eq]
  have hdecided : Decided net.wiring c
      (gRoutingFunctionMap (xyYxFunction adaptive) (net.globals vcs) c)
      (sentTo net.wiring c (dorNextMesh (net.globals vcs) c.router.id c.flit.dest
        (!xThenY (net.globals vcs) adaptive c)) { c.flit with vc := v }) := by
    have hholds : vcs.Holds c.flit := hc.flit ▸ hs.holds
    rw [xyYx_of_ne adaptive hholds hc.inject hne' hrange]
    exact (decided_single (VCRange.part_nonempty hrange _)).mpr ⟨v, hlo, hhi, rfl⟩
  rcases xyYx_outcome hs h2 ⟨c, hc, hdecided⟩ with ⟨heq, -⟩ | ⟨a, t, -, ho, hhop⟩
  · exact absurd heq hne
  · rw [ho] at hdecided
    obtain ⟨hcall, -, -, hflit⟩ := of_sentTo_hop ho
    exact ⟨a, t, ⟨c, hc, hdecided⟩, hhop, hcall, by rw [hflit]⟩

/-- An XY packet that is granted the middle VC of an odd range goes on as a YX packet. -/
theorem exists_order_lost (hodd : ¬ Even (vcs.gEndVCs cl - vcs.gBeginVCs cl + 1))
    (h2 : vcs.gBeginVCs cl < vcs.gEndVCs cl) (hfar : 2 ≤ net.n * (net.k - 1)) :
    ∃ s a t b u, (net.flights vcs (xyYxFunction adaptive)).start s ∧ s.flit.cl = cl ∧
      (net.flights vcs (xyYxFunction adaptive)).outcome s (.hop a t) ∧
      (net.flights vcs (xyYxFunction adaptive)).outcome t (.hop b u) ∧
      net.order vcs adaptive a = true ∧ net.order vcs adaptive b = false := by
  obtain ⟨d, hd, hdist⟩ := net.exists_far
  have hstart := @start_atCorner net vcs adaptive cl d hd
  obtain ⟨hs, -, -⟩ := underway_of_start (injectsClass_xyYx adaptive) hstart
  have hne : (net.atCorner cl d (vcs.gBeginVCs cl)).router ≠ d := by
    intro h
    have hzero : 0 = d := h
    rw [← hzero, manhattan_self] at hdist
    omega
  obtain ⟨c, hc, hfresh⟩ : ∃ c, (net.atCorner cl d (vcs.gBeginVCs cl)).Calls c ∧
      xThenY (net.globals vcs) adaptive c = true := by
    refine ⟨⟨⟨0, fun _ => 0, fun _ => false⟩, _, 2 * net.n, false, fun _ => 1, 0⟩,
      ⟨rfl, rfl, rfl, rfl⟩, ?_⟩
    rw [xThenY, if_neg (by simp [globals])]
    cases adaptive <;> rfl
  have hcl : c.flit.cl = cl := by rw [hc.flit]; rfl
  rw [Int.not_even_iff] at hodd
  obtain ⟨a, t, ha, hhop, rfl, hvc⟩ := @exists_hop_granting net vcs adaptive cl d _ h2 hs hne c hc
    (vcs.gBeginVCs cl + (vcs.gEndVCs cl - vcs.gBeginVCs cl + 1) / 2)
    (by rw [hfresh]; simp only [VCRange.part, Bool.not_true, classRange, globals, hcl]; omega)
    (by rw [hfresh]
        simp only [VCRange.part, VCRange.available, Bool.not_true, classRange, globals, hcl]
        omega)
  have ht : net.Underway vcs cl d t := hhop.underway hs h2
  have hne' : t.router ≠ d := by
    intro heq
    have hcloser : manhattan (net.position t.router) (net.position d) + 1 =
        manhattan (net.position 0) (net.position d) := hhop.next ▸ hhop.mesh.closer
    rw [heq, manhattan_self] at hcloser
    omega
  obtain ⟨o, ho⟩ := flights_moves net.wiring net.size
    (gRoutingFunctionMap (xyYxFunction adaptive) (net.globals vcs)) t
  rcases xyYx_outcome ht h2 ho with ⟨heq, -⟩ | ⟨b, u, -, rfl, hhop'⟩
  · exact absurd heq hne'
  · refine ⟨_, a, t, b, u, hstart, rfl, ha, ho, hfresh, ?_⟩
    have hport : b.call.inChannel < 2 * (net.globals vcs).gN :=
      hhop'.calls.inChannel ▸ hhop.inPort_lt
    rw [order, xThenY, if_pos hport, hhop'.calls.flit, hvc]
    refine decide_eq_false ?_
    simp [VCRange.available, classRange, globals, hhop'.calls.flit, ht.cl_eq]

theorem exists_not_keepsOrder (hodd : ¬ Even (vcs.gEndVCs cl - vcs.gBeginVCs cl + 1))
    (h2 : vcs.gBeginVCs cl < vcs.gEndVCs cl) (hfar : 2 ≤ net.n * (net.k - 1)) :
    ∃ s, (net.flights vcs (xyYxFunction adaptive)).start s ∧ s.flit.cl = cl ∧
      ¬ net.KeepsOrder vcs adaptive s := by
  obtain ⟨s, a, t, b, u, hstart, hcl, ha, hb, hxy, hyx⟩ :=
    @exists_order_lost net vcs adaptive cl hodd h2 hfar
  refine ⟨s, hstart, hcl, fun hkeeps => ?_⟩
  obtain ⟨descending, hall, -⟩ := hkeeps.ordered [a, b] u (.cons ha (.cons hb .nil))
  have hfirst := (hall a mem_cons_self).1
  have hsecond := (hall b (mem_cons_of_mem a mem_cons_self)).1
  rw [hxy, ← hsecond, hyx] at hfirst
  cases hfirst

/-- **When the order chosen at injection is kept.**  With two VCs or more, all packets of a
class go all the way in the order of their first hop, over the shortest way, exactly if
their number of VCs is even or the network is so small that no packet makes two hops. -/
theorem keepsOrder_iff (net : KNCube) (vcs : ClassVCs) (adaptive : Bool) (cl : ℕ)
    (h2 : vcs.gBeginVCs cl < vcs.gEndVCs cl) :
    (∀ s, (net.flights vcs (xyYxFunction adaptive)).start s → s.flit.cl = cl →
      net.KeepsOrder vcs adaptive s) ↔
    Even (vcs.gEndVCs cl - vcs.gBeginVCs cl + 1) ∨ net.n * (net.k - 1) ≤ 1 := by
  constructor
  · intro hkeeps
    by_contra hnot
    push Not at hnot
    obtain ⟨s, hstart, hcl, hlost⟩ := @exists_not_keepsOrder net vcs adaptive cl hnot.1 h2 hnot.2
    exact hlost (hkeeps s hstart hcl)
  · rintro hwhen s hstart rfl
    obtain ⟨hs, -, -⟩ := underway_of_start (injectsClass_xyYx adaptive) hstart
    rcases hwhen with heven | hnear
    · exact keepsOrder_of_even h2 heven hs
    · exact keepsOrder_of_near h2 hnear hs

/-- Three routers in a row. -/
def row3 : KNCube := ⟨3, 1, by decide⟩

/-- With four VCs every packet keeps its order. -/
theorem keepsOrder_row3 : fourVCs.gBeginVCs 0 < fourVCs.gEndVCs 0 ∧
    ∀ s, (row3.flights fourVCs (xyYxFunction true)).start s →
      s.flit.cl = 0 → row3.KeepsOrder fourVCs true s :=
  ⟨by decide, (keepsOrder_iff row3 fourVCs true 0 (by decide)).mpr (.inl (by decide))⟩

/-- One class with three VCs. -/
def threeVCs : ClassVCs := ⟨fun _ => 0, fun _ => 2, 3, fun _ => Int.zero_le_ofNat 2⟩

/-- The call for a packet from node 0 to node 2, with XY where there is a choice. -/
def row3Call (router inChannel : ℕ) (vc : ℤ) : Call where
  router := ⟨router, fun _ => 0, fun _ => false⟩
  flit := { id := 0, pid := 0, cl := 0, src := 0, dest := 2, vc := vc }
  inChannel := inChannel
  inject := false
  rnd := fun _ => 1
  uninit := 0

/-- With three VCs, router 0 offers VC 1 to an XY packet, and router 1 takes a packet on VC 1
for a YX packet. -/
theorem xy_packet_read_as_yx : xThenY (row3.globals threeVCs) false (row3Call 0 2 0) = true ∧
    (gRoutingFunctionMap .xy_yx_mesh (row3.globals threeVCs) (row3Call 0 2 0)).map
      (fun res => res.outputs.getSet) = some [⟨0, 1, 0, 0⟩] ∧
    xThenY (row3.globals threeVCs) false (row3Call 1 1 1) = false ∧
    (gRoutingFunctionMap .xy_yx_mesh (row3.globals threeVCs) (row3Call 1 1 1)).map
      (fun res => res.outputs.getSet) = some [⟨1, 2, 0, 0⟩] ∧
    ∀ adaptive, ∃ s, (row3.flights threeVCs (xyYxFunction adaptive)).start s ∧ s.flit.cl = 0 ∧
      ¬ row3.KeepsOrder threeVCs adaptive s :=
  ⟨rfl, rfl, rfl, rfl, fun _ => exists_not_keepsOrder (by decide) (by decide) (by decide)⟩

end BookSim.KNCube
