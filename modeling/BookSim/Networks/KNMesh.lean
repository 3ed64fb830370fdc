/-
# The mesh — which way `dor_next_mesh` points

`dor_next_mesh` compares the coordinates of two routers from one end on, `descending` from
the most significant one, and names the port towards the destination in the first
dimension where they differ.  `dorNextMesh_of_ne` reads this off the two loops, and
`exists_meshHop` puts it on the wires: the hop leads to a router that is one closer, and
every coordinate that was right stays so.  Followed from router to router this makes a route
as short as can be, `dorNextMesh_minimal`, which leaves the channels around the edge alone.
-/
import BookSim.Networks.KNCube

namespace BookSim.KNCube

open MixedRadix CKNCube Routing

variable {net : KNCube} {vcs : ClassVCs} {cur dest : ℕ}

/-! ## The loops -/

/-- The digit of a node number in one dimension, as the loops compute it. -/
def coord (k x dim : ℕ) : ℕ := x / k ^ dim % k

theorem coord_div (k x i : ℕ) : coord k (x / k) i = coord k x (i + 1) := by
  rw [coord, coord, Nat.div_div_eq_div_mul, pow_succ']

/-- Upwards: the loop stops at the first dimension that differs, or at the last one. -/
theorem skipAgreeing_spec (k : ℕ) : ∀ (left dim cur dest : ℕ),
    ∃ j ≤ left, skipAgreeing k left dim cur dest = (dim + j, cur / k ^ j, dest / k ^ j) ∧
      (∀ i < j, coord k cur i = coord k dest i) ∧ (j < left → coord k cur j ≠ coord k dest j)
  | 0, dim, cur, dest =>
    ⟨0, le_rfl, by simp [skipAgreeing], fun i hi => absurd hi (Nat.not_lt_zero i),
      fun h => absurd h (Nat.lt_irrefl 0)⟩
  | left + 1, dim, cur, dest => by
    by_cases h : cur % k = dest % k
    · obtain ⟨j, hj, hloop, hagree, hdiff⟩ :=
        skipAgreeing_spec k left (dim + 1) (cur / k) (dest / k)
      refine ⟨j + 1, by omega, ?_, fun i hi => ?_, fun hlt => ?_⟩
      · rw [skipAgreeing, if_neg (by simpa using h), hloop, Nat.div_div_eq_div_mul,
          Nat.div_div_eq_div_mul, ← pow_succ']
        congr 1
        omega
      · cases i with
        | zero => simpa [coord] using h
        | succ i =>
          rw [← coord_div, ← coord_div]
          exact hagree i (by omega)
      · rw [← coord_div, ← coord_div]
        exact hdiff (by omega)
    · refine ⟨0, Nat.zero_le _, ?_, fun i hi => absurd hi (Nat.not_lt_zero i), fun _ => ?_⟩
      · rw [skipAgreeing, if_pos h]
        simp
      · simpa [coord] using h

/-- What the downward loop has left of a node number when it looks at `dim`: the coordinates
up to `dim`, moved to the top. -/
def shifted (k n x dim : ℕ) : ℕ := x % k ^ (dim + 1) * k ^ (n - 1 - dim)

section Shifted

variable {k n dim : ℕ} (hk : 0 < k) (hdim : dim < n)

include hk hdim

theorem shifted_div (x : ℕ) : shifted k n x dim * k / k ^ n = coord k x dim := by
  have hpow : k ^ n = k ^ dim * (k ^ (n - 1 - dim) * k) := by
    rw [← pow_succ, ← pow_add]
    congr 1
    omega
  rw [shifted, hpow, Nat.mul_assoc,
    Nat.mul_div_mul_right _ _ (Nat.mul_pos (Nat.pow_pos hk) hk), coord, pow_succ,
    Nat.mod_mul_right_div_self]

omit hk hdim in

theorem shifted_mod (hdim : dim + 1 < n) (x : ℕ) :
    shifted k n x (dim + 1) * k % k ^ n = shifted k n x dim := by
  have hpow : k ^ n = k ^ (dim + 1) * k ^ (n - 1 - dim) := by
    rw [← pow_add]
    congr 1
    omega
  have hlast : k ^ (n - 1 - (dim + 1)) * k = k ^ (n - 1 - dim) := by
    rw [← pow_succ]
    congr 1
    omega
  rw [shifted, shifted, Nat.mul_assoc, hlast, hpow, Nat.mul_mod_mul_right,
    Nat.mod_mod_of_dvd _ (pow_dvd_pow k (Nat.le_succ _))]

/-- Downwards: the loop stops at the last dimension that differs, or at the first one. -/
theorem skipAgreeingDown_spec (cur dest : ℕ) :
    ∃ j ≤ dim, skipAgreeingDown k (k ^ n) dim (shifted k n cur dim) (shifted k n dest dim) =
        (j, shifted k n cur j, shifted k n dest j) ∧
      (∀ i, j < i → i ≤ dim → coord k cur i = coord k dest i) ∧
      (0 < j → coord k cur j ≠ coord k dest j) := by
  induction dim with
  | zero => exact ⟨0, le_rfl, rfl, fun i hi hi' => by omega, fun h => absurd h (Nat.lt_irrefl 0)⟩
  | succ dim ih =>
    rw [skipAgreeingDown, shifted_div hk hdim, shifted_div hk hdim]
    by_cases h : coord k cur (dim + 1) = coord k dest (dim + 1)
    · rw [if_neg (by simpa using h), shifted_mod hdim, shifted_mod hdim]
      obtain ⟨j, hj, hloop, hagree, hdiff⟩ := ih (by omega)
      refine ⟨j, by omega, hloop, fun i hji hi => ?_, hdiff⟩
      rcases Nat.lt_or_eq_of_le hi with hlt | rfl
      · exact hagree i hji (by omega)
      · exact h
    · exact ⟨dim + 1, le_rfl, if_pos h, fun i hi hi' => by omega, fun _ => h⟩

end Shifted

/-! ## The port -/

theorem position_getD {dim : ℕ} (hdim : dim < net.n) (x : ℕ) :
    (net.position x).getD dim 0 = coord net.k x dim := getD_position hdim

theorem exists_coord_ne (hcur : cur < net.size) (hdest : dest < net.size) (hne : cur ≠ dest) :
    ∃ dim < net.n, coord net.k cur dim ≠ coord net.k dest dim := by
  by_contra hall
  push Not at hall
  refine hne (position_inj hcur hdest (List.ext_getElem (by simp) fun i hi hi' => ?_))
  have hin : i < net.n := by simpa using hi
  have hget := hall i hin
  rw [← position_getD hin, ← position_getD hin, List.getD_eq_getElem _ _ hi,
    List.getD_eq_getElem _ _ hi'] at hget
  exact hget

/-- The dimension comes before all others in the order that is asked for. -/
def Leads (descending : Bool) (dim i : ℕ) : Prop := if descending then i < dim else dim < i

/-- `dor_next_mesh` points towards the destination, in the first dimension of the order
where the coordinates differ. -/
theorem dorNextMesh_of_ne (hcur : cur < net.size) (hdest : dest < net.size) (hne : cur ≠ dest)
    (descending : Bool) :
    ∃ dim < net.n, coord net.k cur dim ≠ coord net.k dest dim ∧
      (∀ i < net.n, Leads descending i dim → coord net.k cur i = coord net.k dest i) ∧
      dorNextMesh (net.globals vcs) cur dest descending =
        if coord net.k cur dim < coord net.k dest dim then 2 * dim else 2 * dim + 1 := by
  obtain ⟨d, hd, hdiff⟩ := exists_coord_ne hcur hdest hne
  cases descending with
  | false =>
    obtain ⟨j, hj, hloop, hagree, hstop⟩ := skipAgreeing_spec net.k (net.n - 1) 0 cur dest
    have hdj : j ≤ d := Nat.le_of_not_lt fun h => hdiff (hagree d h)
    have hj' : coord net.k cur j ≠ coord net.k dest j := by
      rcases Nat.lt_or_eq_of_le hj with h | h
      · exact hstop h
      · rwa [show j = d by omega]
    refine ⟨j, by omega, hj', fun i _ hi => hagree i (by simpa [Leads] using hi), ?_⟩
    simp only [dorNextMesh, if_neg hne, Bool.false_eq_true, if_false, globals, hloop, Nat.zero_add]
    rfl
  | true =>
    have hlast : ∀ x < net.size, shifted net.k net.n x (net.n - 1) = x := by
      intro x hx
      rw [shifted, show net.n - 1 + 1 = net.n by omega, Nat.sub_self, pow_zero, Nat.mul_one]
      exact Nat.mod_eq_of_lt hx
    have hn : net.n - 1 < net.n := by omega
    obtain ⟨j, hj, hloop, hagree, hstop⟩ := skipAgreeingDown_spec net.k_pos hn cur dest
    rw [hlast cur hcur, hlast dest hdest] at hloop
    have hjd : d ≤ j := Nat.le_of_not_lt fun h => hdiff (hagree d h (by omega))
    have hj' : coord net.k cur j ≠ coord net.k dest j := by
      rcases Nat.eq_zero_or_pos j with h | h
      · rwa [show j = d by omega]
      · exact hstop h
    refine ⟨j, by omega, hj', fun i hi hji => ?_, ?_⟩
    · exact hagree i (by simpa [Leads] using hji) (by omega)
    · simp only [dorNextMesh, if_neg hne, if_true, globals, size, hloop,
        shifted_div net.k_pos (show j < net.n by omega)]

/-! ## The hop -/

/-- What a hop of dimension-order routing does. -/
structure MeshHop (net : KNCube) (cur dest port : ℕ) (descending : Bool) : Prop where
  port_lt : port < 2 * net.n
  next_lt : net.neighbour cur port < net.size
  closer : manhattan (net.position (net.neighbour cur port)) (net.position dest) + 1 =
    manhattan (net.position cur) (net.position dest)
  differs : coord net.k cur (port / 2) ≠ coord net.k dest (port / 2)
  agrees : ∀ i < net.n, Leads descending i (port / 2) →
    coord net.k (net.neighbour cur port) i = coord net.k dest i

theorem closer_of_towards (hcur : cur < net.size) {port : ℕ} (hport : port < 2 * net.n)
    (htowards : if toRight port then coord net.k cur (port / 2) < coord net.k dest (port / 2)
      else coord net.k dest (port / 2) < coord net.k cur (port / 2)) :
    manhattan (net.position (net.neighbour cur port)) (net.position dest) + 1 =
      manhattan (net.position cur) (net.position dest) := by
  have hdim : port / 2 < net.n := by omega
  refine net.isGrid.closer hcur (by rwa [List.length_replicate]) ?_
  rwa [Towards, position_getD hdim, position_getD hdim]

theorem coord_neighbour_of_ne (hcur : cur < net.size) {port i : ℕ} (hport : port < 2 * net.n)
    (hi : i < net.n) (hne : i ≠ port / 2) :
    coord net.k (net.neighbour cur port) i = coord net.k cur i := by
  rw [← position_getD hi, net.isGrid.getD_next_of_ne hcur (by rwa [List.length_replicate]) hne,
    position_getD hi]

theorem exists_meshHop (hcur : cur < net.size) (hdest : dest < net.size) (hne : cur ≠ dest)
    (descending : Bool) :
    ∃ port, dorNextMesh (net.globals vcs) cur dest descending = port ∧
      net.MeshHop cur dest port descending := by
  obtain ⟨dim, hdim, hdiff, hagree, hport⟩ :=
    @dorNextMesh_of_ne net vcs cur dest hcur hdest hne descending
  refine ⟨_, hport, ?_⟩
  generalize hp : (if coord net.k cur dim < coord net.k dest dim then 2 * dim else 2 * dim +
  1) = port
  have hhalf : port / 2 = dim := by
    rw [← hp]
    split <;> omega
  have hlt : port < 2 * net.n := by omega
  refine ⟨hlt, (position_neighbour hcur hlt).1, closer_of_towards hcur hlt ?_, hhalf ▸ hdiff, ?_⟩
  · simp only [hhalf, toRight, decide_eq_true_eq]
    split_ifs at hp ⊢ <;> omega
  · intro i hi hlead
    rw [hhalf] at hlead
    rw [coord_neighbour_of_ne hcur hlt hi, hagree i hi hlead]
    rintro rfl
    rw [hhalf] at hlead
    simp only [Leads] at hlead
    split at hlead <;> omega

/-! ## The route -/

/-- The channel at this port is one around the edge: `_RightNode` and `_LeftNode` take the other
branch for it. -/
def WrapsAround (net : KNCube) (node port : ℕ) : Prop :=
  coord net.k node (port / 2) = if port % 2 = 0 then net.k - 1 else 0

theorem not_wrapsAround (hcur : cur < net.size) (hdest : dest < net.size) (hne : cur ≠ dest)
    (descending : Bool) :
    ¬ net.WrapsAround cur (dorNextMesh (net.globals vcs) cur dest descending) := by
  obtain ⟨dim, -, hdiff, -, hport⟩ :=
    @dorNextMesh_of_ne net vcs cur dest hcur hdest hne descending
  have hlt : coord net.k dest dim < net.k := Nat.mod_lt _ net.k_pos
  rw [hport, WrapsAround]
  split
  next hright =>
    rw [show 2 * dim / 2 = dim by omega, if_pos (by omega)]
    omega
  next hleft =>
    rw [show (2 * dim + 1) / 2 = dim by omega, if_neg (by omega)]
    omega

/-- Where an output port takes a packet.  A hop is the router and the port. -/
def follow (w : Wiring) (router port : ℕ) : Outcome ℕ (ℕ × ℕ) ℕ :=
  match w.channelAt router port with
  | some (.chan index) =>
    match w.sink (.chan index) with
    | some (next, _) => .hop (router, port) next
    | none => .stuck
  | some (.eject node) => .leave node
  | _ => .stuck

/-- Following `dor_next_mesh` from router to router. -/
def meshRoutes (net : KNCube) (vcs : ClassVCs) (dest : ℕ) (descending : Bool) :
    RouteSystem ℕ (ℕ × ℕ) ℕ where
  start router := router < net.size
  outcome router o :=
    o = follow net.wiring router (dorNextMesh (net.globals vcs) router dest descending)

variable {descending : Bool} {o : Outcome ℕ (ℕ × ℕ) ℕ}

/-- **One step**: the packet leaves at its destination, and elsewhere makes a hop. -/
theorem meshRoutes_outcome (hcur : cur < net.size) (hdest : dest < net.size)
    (ho : (net.meshRoutes vcs dest descending).outcome cur o) :
    cur = dest ∧ dorNextMesh (net.globals vcs) cur dest descending = 2 * net.n ∧ o = .leave dest ∨
      ∃ port, cur ≠ dest ∧ o = .hop (cur, port) (net.neighbour cur port) ∧
        net.MeshHop cur dest port descending ∧ ¬ net.WrapsAround cur port := by
  rw [show o = _ from ho]
  by_cases heq : cur = dest
  · have hport : dorNextMesh (net.globals vcs) cur dest descending = 2 * net.n := by
      rw [dorNextMesh, if_pos heq]
      rfl
    refine .inl ⟨heq, hport, ?_⟩
    rw [hport, follow, channelAt_eject hcur, heq]
  · obtain ⟨port, hport, hhop⟩ := @exists_meshHop net vcs cur dest hcur hdest heq descending
    refine .inr ⟨port, heq, ?_, hhop, hport ▸ not_wrapsAround hcur hdest heq descending⟩
    simp only [hport, follow, channelAt_port hcur hhop.port_lt, sink_port hcur hhop.port_lt]

/-- A shortest way, one dimension after the other. -/
structure MinimalRoute (net : KNCube) (dest : ℕ) (descending : Bool) (src : ℕ)
    (hops : List (ℕ × ℕ)) (last : ℕ) : Prop where
  noWrap : ∀ a ∈ hops, ¬ net.WrapsAround a.1 a.2
  closer : manhattan (net.position last) (net.position dest) + hops.length =
    manhattan (net.position src) (net.position dest)
  inOrder : (hops.map fun a => a.2 / 2).Pairwise fun i j => ¬ Leads descending j i

theorem minimalRoute_of_route {src last : ℕ} {hops : List (ℕ × ℕ)}
    (hroute : (net.meshRoutes vcs dest descending).Route src hops last) (hdest : dest < net.size)
    (hsrc : src < net.size) {low : ℕ}
    (hlow : ∀ i < net.n, Leads descending i low → coord net.k src i = coord net.k dest i) :
    last < net.size ∧ net.MinimalRoute dest descending src hops last ∧
      ∀ a ∈ hops, ¬ Leads descending (a.2 / 2) low := by
  induction hroute generalizing low with
  | nil => exact ⟨hsrc, ⟨by simp, rfl, .nil⟩, by simp⟩
  | @cons src next last a hops ha _ ih =>
    rcases meshRoutes_outcome hsrc hdest ha with ⟨-, -, hleave⟩ | ⟨port, -, hhop, hmesh, hedge⟩
    · cases hleave
    cases hhop
    obtain ⟨hlast, hrest, hlater⟩ := ih hmesh.next_lt hmesh.agrees
    have hdim : port / 2 < net.n := by
      have := hmesh.port_lt
      omega
    have hfirst : ¬ Leads descending (port / 2) low := fun hlead =>
      hmesh.differs (hlow _ hdim hlead)
    refine ⟨hlast, ⟨?_, ?_, ?_⟩, ?_⟩
    · exact List.forall_mem_cons.mpr ⟨hedge, hrest.noWrap⟩
    · rw [List.length_cons, ← hmesh.closer, ← hrest.closer, Nat.add_assoc]
    · rw [List.map_cons, List.pairwise_cons]
      refine ⟨fun d hd => ?_, hrest.inOrder⟩
      obtain ⟨b, hb, rfl⟩ := List.mem_map.mp hd
      exact hlater b hb
    · intro b hb
      rcases List.mem_cons.mp hb with rfl | hb
      · exact hfirst
      · have hb := hlater b hb
        simp only [Leads] at *
        cases descending <;> simp at * <;> omega

/-- Dimension-order routing is minimal: the packet leaves at its destination after as many hops
as the two routers are apart, by port `2n`, and until then it is on a shortest way that keeps the
order and off the channels around the edge. -/
theorem dorNextMesh_minimal (net : KNCube) (vcs : ClassVCs) (descending : Bool)
    (src dest : Fin net.size) :
    (net.meshRoutes vcs dest descending).DeliversIn dest
        (manhattan (net.position src) (net.position dest)) src ∧
      ∀ hops last, (net.meshRoutes vcs dest descending).Route src hops last →
        net.MinimalRoute dest descending src hops last ∧
        ∀ node, (net.meshRoutes vcs dest descending).outcome last (.leave node) →
          last = dest ∧ node = dest ∧
            dorNextMesh (net.globals vcs) last dest descending = 2 * net.n := by
  constructor
  · refine RouteSystem.deliversIn_of_distance (· < net.size)
      (fun r => manhattan (net.position r) (net.position dest)) (fun r _ => ⟨_, rfl⟩)
      (fun r o hr ho => ?_) src.isLt rfl
    rcases meshRoutes_outcome hr dest.isLt ho with ⟨rfl, -, rfl⟩ | ⟨port, -, rfl, hmesh, -⟩
    · exact .inl ⟨manhattan_self _, rfl⟩
    · exact .inr ⟨_, _, rfl, hmesh.next_lt, hmesh.closer.symm⟩
  · intro hops last hroute
    have hnone : ∀ i < net.n, Leads descending i (if descending then net.n else 0) →
        coord net.k src i = coord net.k dest i := by
      intro i hi hlead
      cases descending with
      | false => exact absurd hlead (Nat.not_lt_zero i)
      | true => exact absurd hlead (Nat.not_lt.mpr hi.le)
    obtain ⟨hlast, hminimal, -⟩ := minimalRoute_of_route hroute dest.isLt src.isLt hnone
    refine ⟨hminimal, fun node hleave => ?_⟩
    rcases meshRoutes_outcome hlast dest.isLt hleave with ⟨heq, hport, hnode⟩ | ⟨_, -, hhop, -⟩
    · cases hnode
      exact ⟨heq, rfl, hport⟩
    · cases hhop

end BookSim.KNCube
