/-
# The torus — the shortest way around each ring, cut at a dateline

`dor_next_torus` corrects one coordinate after the other.  When a packet turns into a
ring it takes the shorter way around (at random if both are as long) and is put into one of
two partitions; at the later routers of the ring it goes straight on, and the partition stays
in its field `ph`.  The partitions are chosen so that each direction of a ring has, in
each of them, one channel that no packet uses (`dateline`), with `mid = (k - 1) / 2`:

                        right, 0    right, 1    left, 0     left, 1
    dim_order_torus     k - 1       mid         mid + 1     0
    dim_order_bal       k - 1       mid         0           mid + 1

The unused channel breaks the ring, and since rings are entered in ascending dimensions
no packets wait for each other in a circle.
-/
import Mathlib.Order.Bounds.Basic
import BookSim.Lib.Ring
import BookSim.Networks.KNMesh
import BookSim.RoutingVCs

namespace BookSim.KNCube

open CKNCube Routing RingWay

variable {net : KNCube} {vcs : ClassVCs} {cur dest : ℕ}

/-! ## Turning into a ring -/

/-- The two functions, by whether the partitions are balanced. -/
def torusFunction : Bool → RoutingFunction
  | false => .dim_order_torus
  | true => .dim_order_bal_torus

/-- The last position before the edge, and the one before the middle of the ring. -/
def edge (k : ℕ) (right : Bool) : ℕ := if right then k - 1 else 0

def midline (k : ℕ) (right : Bool) : ℕ := if right then (k - 1) / 2 else (k - 1) / 2 + 1

/-- The position that packets going this way in this partition never leave. -/
def dateline (k : ℕ) (balance right : Bool) (ph : ℤ) : ℕ :=
  if (right || balance) = decide (ph = 0) then edge k right else midline k right

theorem dateline_lt {k : ℕ} (hk : 2 ≤ k) (balance right : Bool) (ph : ℤ) :
    dateline k balance right ph < k := by
  unfold dateline edge midline
  split_ifs <;> omega

theorem dist2_eq {k x y : ℕ} (hx : x < k) (hy : y < k) : dist2 k x y = k - 2 * ahead k x y := by
  unfold dist2 ahead
  split
  next h =>
    rw [Int.add_emod_right, Int.emod_eq_of_lt (by omega) (by omega)]
    omega
  next h =>
    rw [Int.emod_eq_of_lt (by omega) (by omega)]
    omega

/-- The partition a packet is put into when it turns right or left. -/
def partition (c : Call) (k : ℕ) (balance : Bool) (x y : ℕ) (right : Bool) : ℤ :=
  if balance then
    if right = true ∧ x > y ∨ ¬right = true ∧ x < y then 1
    else if right = true ∧ x ≤ (k - 1) / 2 ∧ y > (k - 1) / 2 ∨
      ¬right = true ∧ x > (k - 1) / 2 ∧ y ≤ (k - 1) / 2 then 0
    else c.randomInt 1 1
  else if right = true ∧ x > y ∨ ¬right = true ∧ y < x then 1
  else 0

/-- The direction it turns: right if that is shorter, or as long and drawn. -/
def turnsRight (c : Call) (k x y : ℕ) : Bool :=
  dist2 k x y > 0 ∨ dist2 k x y = 0 ∧ c.randomInt 0 1 ≠ 0

/-- The way straight from `x` to `y` crosses the middle of the ring. -/
def Crosses (k x y : ℕ) (right : Bool) : Prop :=
  if right then x ≤ (k - 1) / 2 ∧ y > (k - 1) / 2 else x > (k - 1) / 2 ∧ y ≤ (k - 1) / 2

section Turn

variable {c : Call} {k x y : ℕ} (hx : x < k) (hy : y < k) (hne : x ≠ y)

include hx hy hne

theorem two_mul_way_le : 2 * way k (turnsRight c k x y) x y ≤ k := by
  have hsum : way k true x y + way k false x y = k := way_add_way_not hx hy hne
  have hahead : way k true x y = ahead k x y := rfl
  cases h : turnsRight c k x y with
  | true =>
    simp only [turnsRight, dist2_eq hx hy, decide_eq_true_eq] at h
    omega
  | false =>
    simp only [turnsRight, dist2_eq hx hy, decide_eq_false_iff_not] at h
    omega

omit hx hne in

theorem way_le_edge {right : Bool} (hstraight : if right then x ≤ y else y ≤ x) :
    way k right x y ≤ way k right x (edge k right) := by
  unfold way ahead edge
  split_ifs at hstraight ⊢ <;> omega

omit hne in

theorem way_le_midline_of_around {right : Bool} (hhalf : 2 * way k right x y ≤ k)
    (haround : if right then y < x else x < y) :
    way k right x y ≤ way k right x (midline k right) := by
  unfold way ahead midline at *
  split_ifs at hhalf haround ⊢ <;> omega

omit hne in

theorem way_le_midline_of_side {right : Bool} (hstraight : if right then x ≤ y else y ≤ x)
    (hside : ¬ Crosses k x y right) :
    way k right x y ≤ way k right x (midline k right) := by
  unfold way ahead midline
  unfold Crosses at hside
  split_ifs at hstraight hside ⊢ <;> omega

/-- Whichever way it goes, the packet arrives before the dateline of its partition. -/
theorem way_le_dateline {right : Bool} (hhalf : 2 * way k right x y ≤ k) (balance : Bool) :
    way k right x y ≤ way k right x
      (dateline k balance right (partition c k balance x y right)) := by
  by_cases haround : if right then y < x else x < y
  · have hline : dateline k balance right (partition c k balance x y right) = midline k right := by
      cases right <;> cases balance <;> simp_all [dateline, partition, Nat.le_of_lt]
    rw [hline]
    exact way_le_midline_of_around hx hy hhalf haround
  · have hstraight : if right then x ≤ y else y ≤ x := by
      cases right <;> simp_all
    have hline : dateline k balance right (partition c k balance x y right) = edge k right ∨
        ¬ Crosses k x y right ∧
          dateline k balance right (partition c k balance x y right) = midline k right := by
      cases balance with
      | false =>
        left
        cases right with
        | true => simp_all [dateline, partition]
        | false =>
          have hlt : y < x := lt_of_le_of_ne hstraight hne.symm
          simp [dateline, partition, hlt]
      | true =>
        by_cases hcross : Crosses k x y right
        · left
          cases right <;> simp_all [dateline, partition, Crosses]
        · have hdraw : partition c k true x y right = c.randomInt 1 1 := by
            cases right <;> simp_all [partition, Crosses] <;>
              rw [if_neg (by omega), if_neg (by omega)]
          by_cases hzero : c.randomInt 1 1 = 0
          · exact .inl (by simp [dateline, hdraw, hzero])
          · exact .inr ⟨hcross, by simp [dateline, hdraw, hzero]⟩
    rcases hline with hline | ⟨hside, hline⟩
    · rw [hline]
      exact way_le_edge hy hstraight
    · rw [hline]
      exact way_le_midline_of_side hx hy hstraight hside

end Turn

/-! ## The port -/

theorem dorNextTorus_self (g : Globals) (c : Call) (cur inPort : ℕ) (balance : Bool) :
    dorNextTorus g c cur cur inPort balance = (2 * g.gN, none) := by
  obtain ⟨j, hj, hloop, -, hdiff⟩ := skipAgreeing_spec g.gK g.gN 0 cur cur
  obtain rfl : j = g.gN := by
    by_contra hne
    exact hdiff (by omega) rfl
  simp only [dorNextTorus, hloop, Nat.zero_add, Nat.lt_irrefl, if_false]

/-- What `dor_next_torus` decides away from the destination: in the first dimension that
differs it goes straight on, or turns into the ring. -/
theorem dorNextTorus_of_ne (c : Call) (hcur : cur < net.size) (hdest : dest < net.size)
    (hne : cur ≠ dest) (inPort : ℕ) (balance : Bool) :
    ∃ dim < net.n, coord net.k cur dim ≠ coord net.k dest dim ∧
      (∀ i < dim, coord net.k cur i = coord net.k dest i) ∧
      dorNextTorus (net.globals vcs) c cur dest inPort balance =
        if inPort / 2 = dim then (inPort ^^^ 1, none)
        else
          (if turnsRight c net.k (coord net.k cur dim) (coord net.k dest dim) then 2 * dim
            else 2 * dim + 1,
          some (partition c net.k balance (coord net.k cur dim) (coord net.k dest dim)
            (turnsRight c net.k (coord net.k cur dim) (coord net.k dest dim)))) := by
  obtain ⟨d, hd, hdiff⟩ := exists_coord_ne hcur hdest hne
  obtain ⟨j, hj, hloop, hagree, hstop⟩ := skipAgreeing_spec net.k net.n 0 cur dest
  have hjd : j ≤ d := Nat.le_of_not_lt fun h => hdiff (hagree d h)
  have hjn : j < net.n := by omega
  refine ⟨j, hjn, hstop hjn, hagree, ?_⟩
  simp only [dorNextTorus, globals, hloop, Nat.zero_add, if_pos hjn]
  by_cases hin : inPort / 2 = j
  · rw [if_neg (not_not.mpr hin), if_pos hin]
  · rw [if_pos hin, if_neg hin]
    have hright : turnsRight c net.k (coord net.k cur j) (coord net.k dest j) = true ↔
        dist2 net.k (coord net.k cur j) (coord net.k dest j) > 0 ∨
          dist2 net.k (coord net.k cur j) (coord net.k dest j) = 0 ∧ c.randomInt 0 1 ≠ 0 :=
      decide_eq_true_iff
    simp only [partition, hright]
    rfl

/-! ## In the ring -/

/-- A packet at `router` on its way over `port`: it has turned into the right ring, takes the
shorter way, and has the dateline of its partition behind its goal. -/
structure InRing (net : KNCube) (balance : Bool) (dest router port : ℕ) (ph : ℤ) : Prop where
  port_lt : port < 2 * net.n
  agrees : ∀ i < port / 2, coord net.k router i = coord net.k dest i
  phase : ph = 0 ∨ ph = 1
  short : 2 * way net.k (toRight port) (coord net.k router (port / 2))
    (coord net.k dest (port / 2)) ≤ net.k
  before : way net.k (toRight port) (coord net.k router (port / 2)) (coord net.k dest (port / 2)) ≤
    way net.k (toRight port) (coord net.k router (port / 2))
      (dateline net.k balance (toRight port) ph)

/-- The distance of two routers in the torus. -/
def torusDist (net : KNCube) (x y : ℕ) : ℕ :=
  gridDist (RingWay.dist net.k) (net.position x) (net.position y)

theorem coord_lt (net : KNCube) (x dim : ℕ) : coord net.k x dim < net.k :=
  Nat.mod_lt _ net.k_pos

theorem coord_neighbour {port : ℕ} (hcur : cur < net.size) (hport : port < 2 * net.n) :
    coord net.k (net.neighbour cur port) (port / 2) =
      move net.k (toRight port) (coord net.k cur (port / 2)) := by
  have hdim : port / 2 < net.n := by omega
  rw [← position_getD hdim, (position_neighbour hcur hport).2, position_getD hdim,
    List.getD_eq_getElem?_getD, List.getElem?_set_self (by simpa using hdim)]
  rfl

theorem gridDist_neighbour {port : ℕ} (hcur : cur < net.size) (hport : port < 2 * net.n)
    (d : ℕ → ℕ → ℕ) (dest : ℕ) :
    gridDist d (net.position (net.neighbour cur port)) (net.position dest) +
        d (coord net.k cur (port / 2)) (coord net.k dest (port / 2)) =
      gridDist d (net.position cur) (net.position dest) +
        d (move net.k (toRight port) (coord net.k cur (port / 2)))
          (coord net.k dest (port / 2)) := by
  have hdim : port / 2 < net.n := by omega
  have hdist := net.isGrid.gridDist_next hcur (by rwa [List.length_replicate]) d dest
  rwa [getD_radices hdim, position_getD hdim, position_getD hdim] at hdist

variable {balance : Bool} {port : ℕ} {ph : ℤ}

theorem two_le_of_ne {x y : ℕ} {dim : ℕ} (hne : coord net.k x dim ≠ coord net.k y dim) :
    2 ≤ net.k := by
  have := net.coord_lt x dim
  have := net.coord_lt y dim
  omega

theorem InRing.ne_dateline (h : net.InRing balance dest cur port ph)
    (hne : coord net.k cur (port / 2) ≠ coord net.k dest (port / 2)) :
    coord net.k cur (port / 2) ≠ dateline net.k balance (toRight port) ph := by
  intro heq
  have hpos := way_pos (net.coord_lt cur (port / 2)) (net.coord_lt dest (port / 2))
    (toRight port) hne
  have hbefore := h.before
  rw [← heq, way_self] at hbefore
  omega

theorem InRing.hop (h : net.InRing balance dest cur port ph) (hcur : cur < net.size)
    (hne : coord net.k cur (port / 2) ≠ coord net.k dest (port / 2)) :
    net.InRing balance dest (net.neighbour cur port) port ph := by
  have hx := net.coord_lt cur (port / 2)
  have hy := net.coord_lt dest (port / 2)
  have hline := dateline_lt (two_le_of_ne hne) balance (toRight port) ph
  have hgoal := way_move hx hy (toRight port) hne
  have hcut := way_move hx hline (toRight port) (h.ne_dateline hne)
  have hbefore := h.before
  have hshort := h.short
  refine ⟨h.port_lt, fun i hi => ?_, h.phase, ?_, ?_⟩
  · rw [coord_neighbour_of_ne hcur h.port_lt (by have := h.port_lt; omega) (by omega),
      h.agrees i hi]
  · rw [coord_neighbour hcur h.port_lt]
    omega
  · rw [coord_neighbour hcur h.port_lt]
    omega

theorem InRing.closer (h : net.InRing balance dest cur port ph) (hcur : cur < net.size)
    (hne : coord net.k cur (port / 2) ≠ coord net.k dest (port / 2)) :
    net.torusDist cur dest = net.torusDist (net.neighbour cur port) dest + 1 := by
  have hdim : port / 2 < net.n := by
    have := h.port_lt
    omega
  have hx := net.coord_lt cur (port / 2)
  have hy := net.coord_lt dest (port / 2)
  have hset := gridDist_neighbour hcur h.port_lt (RingWay.dist net.k) dest
  have hgoal := way_move hx hy (toRight port) hne
  have hshort := h.short
  have hshort' : 2 * way net.k (toRight port)
      (move net.k (toRight port) (coord net.k cur (port / 2)))
      (coord net.k dest (port / 2)) ≤ net.k := by omega
  rw [dist_of_way_le hx hy hshort, dist_of_way_le (move_lt hx _) hy hshort'] at hset
  rw [torusDist, torusDist]
  omega

/-- The packet has just been injected, or came in along a ring. -/
def Turned (net : KNCube) (balance : Bool) (dest router inPort : ℕ) (ph : ℤ) : Prop :=
  inPort = 2 * net.n ∨ ∃ port, inPort = port ^^^ 1 ∧ net.InRing balance dest router port ph

theorem partition_eq (c : Call) (k x y : ℕ) (balance right : Bool) :
    partition c k balance x y right = 0 ∨ partition c k balance x y right = 1 := by
  have hdraw : c.randomInt 1 1 = 0 ∨ c.randomInt 1 1 = 1 := by
    unfold Call.randomInt
    omega
  unfold partition
  split_ifs <;> simp [hdraw]

theorem inRing_of_turn (c : Call) {dim : ℕ} (hdim : dim < net.n)
    (hne : coord net.k cur dim ≠ coord net.k dest dim)
    (hagree : ∀ i < dim, coord net.k cur i = coord net.k dest i) :
    net.InRing balance dest cur
      (if turnsRight c net.k (coord net.k cur dim) (coord net.k dest dim) then 2 * dim
        else 2 * dim + 1)
      (partition c net.k balance (coord net.k cur dim) (coord net.k dest dim)
        (turnsRight c net.k (coord net.k cur dim) (coord net.k dest dim))) := by
  have hx := net.coord_lt cur dim
  have hy := net.coord_lt dest dim
  have hhalf := @two_mul_way_le c net.k _ _ hx hy hne
  have hbefore := @way_le_dateline c net.k _ _ hx hy hne _ hhalf balance
  generalize turnsRight c net.k (coord net.k cur dim) (coord net.k dest dim) = right at *
  generalize hport : (if right then 2 * dim else 2 * dim + 1) = port
  have hdiv : port / 2 = dim := by
    rw [← hport]
    split <;> omega
  have hright : toRight port = right := by
    rw [← hport]
    cases right <;> simp [toRight]
  refine ⟨by omega, ?_, partition_eq .., ?_, ?_⟩
  · rwa [hdiv]
  · rwa [hdiv, hright]
  · rwa [hdiv, hright]

/-- The next hop: along the ring the packet is in, or along the one it turns into. -/
structure NextRing (net : KNCube) (balance : Bool) (dest router inPort : ℕ) (ph : ℤ)
    (port : ℕ) (ph' : ℤ) : Prop where
  ring : net.InRing balance dest router port ph'
  differs : coord net.k router (port / 2) ≠ coord net.k dest (port / 2)
  straight : ∀ q, inPort = q ^^^ 1 → net.InRing balance dest router q ph →
    q / 2 ≤ port / 2 ∧ (q / 2 = port / 2 → port = q ∧ ph' = ph)

theorem exists_nextRing (c : Call) (hcur : cur < net.size) (hdest : dest < net.size)
    (hne : cur ≠ dest) {inPort : ℕ} (hturned : net.Turned balance dest cur inPort ph) :
    ∃ port ph', (dorNextTorus (net.globals vcs) c cur dest inPort balance).1 = port ∧
      (dorNextTorus (net.globals vcs) c cur dest inPort balance).2.getD ph = ph' ∧
      net.NextRing balance dest cur inPort ph port ph' := by
  obtain ⟨dim, hdim, hdiff, hagree, hnext⟩ :=
    @dorNextTorus_of_ne net vcs cur dest c hcur hdest hne inPort balance
  by_cases hin : inPort / 2 = dim
  · rw [if_pos hin] at hnext
    rcases hturned with rfl | ⟨q, rfl, hring⟩
    · omega
    · rw [xor_one_div_two] at hin
      refine ⟨q, ph, by rw [hnext, Nat.xor_xor_cancel_right], by rw [hnext]; rfl, hring,
        hin ▸ hdiff, fun q' hq' _ => ?_⟩
      obtain rfl : q = q' := Nat.xor_left_inj.mp hq'
      exact ⟨le_rfl, fun _ => ⟨rfl, rfl⟩⟩
  · rw [if_neg hin] at hnext
    have hring := @inRing_of_turn net cur dest balance c dim hdim hdiff hagree
    generalize hport : (if turnsRight c net.k (coord net.k cur dim) (coord net.k dest dim) then
      2 * dim else 2 * dim + 1) = port at hnext hring
    have hdiv : port / 2 = dim := by
      rw [← hport]
      split <;> omega
    refine ⟨port, _, by rw [hnext], by rw [hnext]; rfl, hring, hdiv ▸ hdiff, fun q hq hringq => ?_⟩
    rw [hq, xor_one_div_two] at hin
    refine ⟨?_, fun heq => absurd (heq.trans hdiv) hin⟩
    rw [hdiv]
    by_contra hlt
    exact hdiff (hringq.agrees dim (by omega))

/-! ## One step -/

section Step

variable {g : Globals} {c : Call} (balance : Bool)

/-- How the two functions cut the range; only the balanced one asserts what `ph` is. -/
def cut (balance : Bool) (r : VCRange) (ph : ℤ) : Option VCRange :=
  if balance then r.phaseHalf ph else r.half (ph ≠ 0)

theorem cut_of_lt {r : VCRange} (h2 : r.vcBegin < r.vcEnd) {ph : ℤ} (hph : ph = 0 ∨ ph = 1) :
    cut balance r ph = some (r.part (ph ≠ 0)) := by
  rw [← VCRange.half_of_lt h2]
  cases balance with
  | false => rfl
  | true => rcases hph with rfl | rfl <;> rfl

theorem gRoutingFunctionMap_torusFunction : gRoutingFunctionMap (torusFunction balance) g c = (do
      let r ← admitted g c
      if c.inject then some ⟨single (-1) r, c.flit⟩
      else
        let step := torusStep g c c.router.id c.flit.dest c.inChannel balance
        let r ← (if c.router.id ≠ c.flit.dest then cut balance r step.2.ph else some r)
        some ⟨single step.1 r, step.2⟩) := by
  cases balance <;> rfl

theorem torus_of_eq (hholds : g.vcs.Holds c.flit) (hinj : c.inject = false)
    (heq : c.router.id = c.flit.dest) :
    gRoutingFunctionMap (torusFunction balance) g c =
      some ⟨single (2 * g.gN : ℕ) (classRange g c), c.flit⟩ := by
  have hstep : torusStep g c c.router.id c.flit.dest c.inChannel balance = (2 * g.gN, c.flit) := by
    rw [torusStep, heq, dorNextTorus_self]
    rfl
  rw [gRoutingFunctionMap_torusFunction, admitted_of_holds hholds]
  simp only [Option.bind_eq_bind, Option.bind_some, hinj, Bool.false_eq_true, if_false, hstep,
    if_neg (not_not.mpr heq)]

theorem torus_of_ne (hholds : g.vcs.Holds c.flit) (hinj : c.inject = false)
    (hne : c.router.id ≠ c.flit.dest)
    (h2 : (classRange g c).vcBegin < (classRange g c).vcEnd) {port : ℕ} {f : Flit}
    (hstep : torusStep g c c.router.id c.flit.dest c.inChannel balance = (port, f))
    (hph : f.ph = 0 ∨ f.ph = 1) :
    gRoutingFunctionMap (torusFunction balance) g c =
      some ⟨single port ((classRange g c).part (f.ph ≠ 0)), f⟩ := by
  rw [gRoutingFunctionMap_torusFunction, admitted_of_holds hholds]
  simp only [Option.bind_eq_bind, Option.bind_some, hinj, Bool.false_eq_true, if_false, hstep,
    if_pos hne, cut_of_lt balance h2 hph]

theorem injectsClass_torus : InjectsClass g (gRoutingFunctionMap (torusFunction balance) g) := by
  intro c hinj
  rw [gRoutingFunctionMap_torusFunction]
  simp only [hinj, if_true]
  exact (Option.map_eq_bind ..).symm

end Step

variable {cl : ℕ} {s t : Flight}

/-- A packet of class `cl` for `dest`, between two hops. -/
structure OnTorus (net : KNCube) (vcs : ClassVCs) (balance : Bool) (cl dest : ℕ)
    (s : Flight) : Prop where
  underway : net.Underway vcs cl dest s
  turned : net.Turned balance dest s.router s.inPort s.flit.ph

/-- A hop from `s` to `t` over the ring of `port`. -/
structure TorusHop (net : KNCube) (balance : Bool) (dest : ℕ) (s : Flight) (a : Sent)
    (t : Flight) (port : ℕ) : Prop where
  port_eq : a.port = port
  channel : a.channel = 2 * net.n * s.router + port
  flit : a.flit = t.flit
  next : t.router = net.neighbour s.router port
  inPort : t.inPort = port ^^^ 1
  ring : net.NextRing balance dest s.router s.inPort s.flit.ph port t.flit.ph

/-- **One step**: the packet leaves at its destination, and elsewhere makes a hop. -/
theorem torus_outcome (hs : net.OnTorus vcs balance cl dest s)
    (h2 : vcs.gBeginVCs cl < vcs.gEndVCs cl) {o : Outcome Flight Sent ℕ}
    (ho : (net.flights vcs (torusFunction balance)).outcome s o) :
    s.router = dest ∧ o = .leave dest ∨
      ∃ a t port, o = .hop a t ∧ net.TorusHop balance dest s a t port ∧
        net.OnTorus vcs balance cl dest t := by
  obtain ⟨c, hc, hdecided⟩ := ho
  obtain ⟨hunder, hturned⟩ := hs
  have hholds : vcs.Holds c.flit := hc.flit ▸ hunder.holds
  have hdest : c.flit.dest = dest := by rw [hc.flit, hunder.dest_eq]
  have hrange : (classRange (net.globals vcs) c).vcBegin <
      (classRange (net.globals vcs) c).vcEnd := by
    simpa [classRange, globals, hc.flit, hunder.cl_eq] using h2
  by_cases heq : s.router = dest
  · left
    rw [torus_of_eq balance hholds hc.inject (by rw [hc.router, heq, hdest]),
      decided_single hrange.le] at hdecided
    obtain ⟨v, -, -, rfl⟩ := hdecided
    refine ⟨heq, sentTo_eject ?_⟩
    rw [hc.router, ← heq]
    exact channelAt_eject hunder.router_lt
  · right
    obtain ⟨port, ph', hport, hph', hring⟩ :=
      @exists_nextRing net vcs _ _ balance _ c hunder.router_lt hunder.dest_lt heq _ hturned
    have hstep : torusStep (net.globals vcs) c c.router.id c.flit.dest c.inChannel balance =
        (port, { s.flit with ph := ph' }) := by
      rw [torusStep, hc.router, hc.inChannel, hdest, hport, hc.flit, hph']
    rw [torus_of_ne balance hholds hc.inject (by rwa [hc.router, hdest]) hrange hstep
      hring.ring.phase, decided_single (VCRange.part_nonempty hrange _)] at hdecided
    obtain ⟨v, hlo, hhi, rfl⟩ := hdecided
    have hin := VCRange.part_within hrange _ hlo hhi
    have hnext := (position_neighbour hunder.router_lt hring.ring.port_lt).1
    refine ⟨_, ⟨net.neighbour s.router port, port ^^^ 1, { s.flit with ph := ph', vc := v }⟩, port,
      sentTo_chan ?_ (sink_port hunder.router_lt hring.ring.port_lt),
      ⟨rfl, rfl, rfl, rfl, rfl, hring⟩, ⟨hnext, hunder.dest_lt, hunder.dest_eq, hunder.cl_eq, ?_⟩,
      .inr ⟨port, rfl, hring.ring.hop hunder.router_lt hring.differs⟩⟩
    · rw [hc.router]
      exact channelAt_port hunder.router_lt hring.ring.port_lt
    · simpa [ClassVCs.Holds, classRange, globals, hc.flit] using hin

end BookSim.KNCube
