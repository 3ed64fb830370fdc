/-
# Routes on the flattened butterfly

The routing functions first renumber the destination, so that the nodes of a router come
one after the other (`flatfly_transformation`), and then look for a dimension in which the
router of the destination differs:

    flatfly_outport         from the lowest dimension up
    flatfly_outport_yx      from the highest dimension down

One hop puts the whole coordinate right, so the number of hops is the number of dimensions
that differ, which `find_distance` counts, in whatever order they are taken
(`Heads.delivers`).
-/
import BookSim.Lib.Ring
import BookSim.Networks.FlatFlyOnChip
import BookSim.RoutingVCs

namespace BookSim.FlatFlyOnChip

open MixedRadix Routing RingWay

variable (net : FlatFlyOnChip)

/-! ## The routing functions -/

/-- `flatfly_transformation`. -/
def flatflyTransformation (dest : ℕ) : ℕ :=
  let horizontal := dest % (net.xcount * net.xrouter) / net.xrouter
  let horizontalRem := dest % (net.xcount * net.xrouter) % net.xrouter
  let vertical := dest / (net.xcount * net.xrouter) / net.yrouter
  let verticalRem := dest / (net.xcount * net.xrouter) % net.yrouter
  (vertical * net.xcount + horizontal) * net.c + net.xrouter * verticalRem + horizontalRem

/-- The port to position `dID` of a dimension, for a router in position `sID`. -/
def dimPort (d sID dID : ℕ) : ℕ :=
  net.c + (net.k - 1) * d + (if dID > sID then dID else dID + 1) - 1

/-- The loop of `flatfly_outport`, with that many dimensions left from `d` on. -/
def outportUp : ℕ → ℕ → ℕ → ℕ → Option ℕ
  | 0, _, _, _ => none
  | left + 1, d, destRID, rID =>
    if destRID % net.k ≠ rID % net.k then some (net.dimPort d (rID % net.k) (destRID % net.k))
    else outportUp left (d + 1) (destRID / net.k) (rID / net.k)

/-- The loop of `flatfly_outport_yx`. -/
def outportDown : ℕ → ℕ → ℕ → Option ℕ
  | 0, _, _ => none
  | d + 1, destRID, rID =>
    let power := net.k ^ d
    if destRID / power ≠ rID / power then some (net.dimPort d (rID / power) (destRID / power))
    else outportDown d (destRID % power) (rID % power)

/-- `flatfly_outport`; `none` stands for the exit when no dimension differs. -/
def flatflyOutport (dest rID : ℕ) : Option ℕ :=
  if dest / net.c = rID then some (dest % net.c) else net.outportUp net.n 0 (dest / net.c) rID

/-- `flatfly_outport_yx`. -/
def flatflyOutportYx (dest rID : ℕ) : Option ℕ :=
  if dest / net.c = rID then some (dest % net.c) else net.outportDown net.n (dest / net.c) rID

/-- The loop of `find_distance`. -/
def differing : ℕ → ℕ → ℕ → ℕ
  | 0, _, _ => 0
  | left + 1, src, dest =>
    (if src % net.k ≠ dest % net.k then 1 else 0) + differing left (src / net.k) (dest / net.k)

/-- `find_distance`, between nodes in the new numbering. -/
def findDistance (src dest : ℕ) : ℕ := net.differing net.n (src / net.c) (dest / net.c)

/-- The globals the routing functions read on this network. -/
def globals (vcs : ClassVCs) : Globals where
  gK := net.k
  gN := net.n
  gNodes := net.nodes
  gP := 0
  gA := 0
  gG := 0
  vcs := vcs

section Functions

variable (vcs : ClassVCs) (c : Call)

/-- A routing function that goes where a port function says, on the VCs of the class. -/
def follow (outport : ℕ → ℕ → Option ℕ) : Option Routed := do
  let r ← admitted (net.globals vcs) c
  if c.inject then some ⟨single (-1) r, c.flit⟩
  else
    let dest := net.flatflyTransformation c.flit.dest
    let port ← (if dest / net.c = c.router.id then some (dest % net.c)
      else outport dest c.router.id)
    some ⟨single port r, c.flit⟩

def minFlatfly : Option Routed := net.follow vcs c net.flatflyOutport

/-- The choice `xyyx_flatfly` makes anew at the source, and reads off the VC afterwards. -/
def xThenY (r : VCRange) : Bool :=
  if c.inChannel < net.c then c.randomInt 0 1 > 0
  else decide (c.flit.vc < r.vcBegin + (r.vcEnd - r.vcBegin + 1) / 2)

def xyyxFlatfly : Option Routed := do
  let r ← admitted (net.globals vcs) c
  if c.inject then some ⟨single (-1) r, c.flit⟩
  else
    let dest := net.flatflyTransformation c.flit.dest
    if dest / net.c = c.router.id then some ⟨single (dest % net.c : ℕ) r, c.flit⟩
    else
      let half ← r.half (!net.xThenY c r)
      let port ← (if net.xThenY c r then net.flatflyOutport dest c.router.id
        else net.flatflyOutportYx dest c.router.id)
      some ⟨single port half, c.flit⟩

end Functions

/-- The flits a routing function sends over the network. -/
def flights (route : Call → Option Routed) : RouteSystem Flight Sent ℕ :=
  Routing.flights net.wiring net.nodes route

variable {net}

/-! ## The numbers of the nodes -/

section Nodes

variable {dest : ℕ} (hdest : dest < net.nodes)

include hdest

theorem c_pos : 0 < net.c := Nat.pos_of_ne_zero fun h => by simp [nodes, h] at hdest

theorem xrouter_pos : 0 < net.xrouter :=
  Nat.pos_of_ne_zero fun h => by simp [nodes, net.c_eq, h] at hdest

theorem yrouter_pos : 0 < net.yrouter :=
  Nat.pos_of_ne_zero fun h => by simp [nodes, net.c_eq, h] at hdest

theorem place_lt : net.xrouter * (dest / (net.xcount * net.xrouter) % net.yrouter) +
    dest % (net.xcount * net.xrouter) % net.xrouter < net.c := by
  have hx : dest % (net.xcount * net.xrouter) % net.xrouter < net.xrouter :=
    Nat.mod_lt _ (xrouter_pos hdest)
  have hy : dest / (net.xcount * net.xrouter) % net.yrouter < net.yrouter :=
    Nat.mod_lt _ (yrouter_pos hdest)
  rw [net.c_eq]
  exact mul_add_lt_mul hy hx

theorem transformation_div : net.flatflyTransformation dest / net.c =
    dest / (net.xcount * net.xrouter) / net.yrouter * net.xcount +
      dest % (net.xcount * net.xrouter) / net.xrouter := by
  rw [flatflyTransformation, Nat.add_assoc, Nat.add_comm, Nat.add_mul_div_right _ _ (c_pos hdest),
    Nat.div_eq_of_lt (place_lt hdest), Nat.zero_add]

theorem transformation_mod : net.flatflyTransformation dest % net.c =
    net.xrouter * (dest / (net.xcount * net.xrouter) % net.yrouter) +
      dest % (net.xcount * net.xrouter) % net.xrouter := by
  rw [flatflyTransformation, Nat.add_assoc, Nat.add_comm, Nat.add_mul_mod_self_right,
    Nat.mod_eq_of_lt (place_lt hdest)]

theorem nodeAt_transformation (hx : 0 < net.xcount) :
    net.nodeAt (net.flatflyTransformation dest / net.c) (net.flatflyTransformation dest % net.c) =
      dest := by
  have hwidth : 0 < net.xcount * net.xrouter := Nat.mul_pos hx (xrouter_pos hdest)
  have hcol : dest % (net.xcount * net.xrouter) / net.xrouter < net.xcount :=
    Nat.div_lt_of_lt_mul ((Nat.mod_lt dest hwidth).trans_eq (Nat.mul_comm _ _))
  have hrem : dest % (net.xcount * net.xrouter) % net.xrouter < net.xrouter :=
    Nat.mod_lt _ (xrouter_pos hdest)
  rw [transformation_div hdest, transformation_mod hdest, nodeAt, link,
    Nat.mul_add_div (xrouter_pos hdest), Nat.div_eq_of_lt hrem, Nat.mul_add_mod,
    Nat.mod_eq_of_lt hrem, Nat.add_zero]
  rw [Nat.add_comm (_ * net.xcount), Nat.add_mul_div_right _ _ hx, Nat.div_eq_of_lt hcol,
    Nat.add_mul_mod_self_right, Nat.mod_eq_of_lt hcol, Nat.zero_add, Nat.div_add_mod,
    Nat.div_add_mod, Nat.div_add_mod]

end Nodes

/-- The chip has a place for every router. -/
def Covers (net : FlatFlyOnChip) : Prop := net.xcount * net.ycount = net.k ^ net.n

section Covers

variable (hcover : net.Covers)

include hcover

theorem xcount_pos : 0 < net.xcount := by
  have hpow : 0 < net.k ^ net.n := Nat.pow_pos net.k_pos
  rw [← hcover] at hpow
  exact Nat.pos_of_mul_pos_right hpow

theorem nodes_eq : net.nodes = net.xcount * net.xrouter * (net.yrouter * net.ycount) := by
  rw [nodes, ← hcover, net.c_eq]
  ring

theorem transformation_div_lt {dest : ℕ} (hdest : dest < net.nodes) :
    net.flatflyTransformation dest / net.c < net.size := by
  have hwidth : 0 < net.xcount * net.xrouter :=
    Nat.mul_pos (xcount_pos hcover) (xrouter_pos hdest)
  have hrow : dest / (net.xcount * net.xrouter) / net.yrouter < net.ycount :=
    Nat.div_lt_of_lt_mul (Nat.div_lt_of_lt_mul (by rwa [← nodes_eq hcover]))
  have hcol : dest % (net.xcount * net.xrouter) / net.xrouter < net.xcount :=
    Nat.div_lt_of_lt_mul ((Nat.mod_lt dest hwidth).trans_eq (Nat.mul_comm _ _))
  rw [transformation_div hdest, size, ← hcover, Nat.mul_comm _ net.xcount]
  exact mul_add_lt_mul hrow hcol

theorem transformation_nodeAt {r q : ℕ} (hr : r < net.size) (hq : q < net.c) :
    net.flatflyTransformation (net.nodeAt r q) / net.c = r := by
  have hx := xcount_pos hcover
  have hxr : 0 < net.xrouter := by
    rw [net.c_eq] at hq
    exact Nat.pos_of_mul_pos_right (Nat.zero_lt_of_lt hq)
  have hrem : q % net.xrouter < net.xrouter := Nat.mod_lt _ hxr
  have hcol : net.xrouter * (r % net.xcount) + q % net.xrouter < net.xcount * net.xrouter := by
    rw [Nat.mul_comm net.xcount]
    exact mul_add_lt_mul (Nat.mod_lt _ hx) hrem
  have hrow : r / net.xcount < net.ycount := Nat.div_lt_of_lt_mul (by rwa [size, ← hcover] at hr)
  have hy : q / net.xrouter < net.yrouter := Nat.div_lt_of_lt_mul (by rwa [← net.c_eq])
  have hwidth : 0 < net.xcount * net.xrouter := Nat.mul_pos hx hxr
  have hlt : net.nodeAt r q < net.nodes := by
    rw [nodes_eq hcover]
    exact mul_add_lt_mul (mul_add_lt_mul hrow hy) hcol
  rw [transformation_div hlt, nodeAt, link, Nat.mul_add_div hwidth, Nat.div_eq_of_lt hcol,
    Nat.add_zero, Nat.mul_add_div (Nat.zero_lt_of_lt hy), Nat.div_eq_of_lt hy, Nat.add_zero,
    Nat.mul_add_mod, Nat.mod_eq_of_lt hcol, Nat.mul_add_div hxr, Nat.div_eq_of_lt hrem,
    Nat.add_zero, Nat.mul_comm]
  exact Nat.div_add_mod r net.xcount

end Covers

/-! ## The dimension that is put right -/

/-- The port goes to the position of `R` in a dimension where `r` differs from it. -/
def Leads (net : FlatFlyOnChip) (r R port : ℕ) : Prop :=
  ∃ dim < net.n, net.coordOf r dim ≠ net.coordOf R dim ∧
    port = net.dimPort dim (net.coordOf r dim) (net.coordOf R dim)

theorem outportUp_spec (r R : ℕ) : ∀ {left d : ℕ}, d + left = net.n →
    (∃ port, net.outportUp left d (R / net.k ^ d) (r / net.k ^ d) = some port ∧
      net.Leads r R port) ∨ ∀ dim, d ≤ dim → dim < net.n → net.coordOf r dim = net.coordOf R dim
  | 0, d, hd => .inr fun dim hle hlt => by omega
  | left + 1, d, hd => by
    have hdim : d < net.n := by omega
    rw [outportUp, ← coordOf_eq hdim, ← coordOf_eq hdim, Nat.div_div_eq_div_mul,
      Nat.div_div_eq_div_mul, ← pow_succ]
    by_cases heq : net.coordOf R d = net.coordOf r d
    · rw [if_neg (not_not.mpr heq)]
      rcases outportUp_spec r R (show d + 1 + left = net.n by omega) with h | h
      · exact .inl h
      · refine .inr fun dim hle hlt => ?_
        rcases Nat.eq_or_lt_of_le hle with rfl | hgt
        · exact heq.symm
        · exact h dim hgt hlt
    · rw [if_pos heq]
      exact .inl ⟨_, rfl, d, hdim, Ne.symm heq, rfl⟩

theorem outportDown_spec (r R : ℕ) : ∀ {d : ℕ}, d ≤ net.n →
    (∃ port, net.outportDown d (R % net.k ^ d) (r % net.k ^ d) = some port ∧
      net.Leads r R port) ∨ ∀ dim < d, net.coordOf r dim = net.coordOf R dim
  | 0, _ => .inr fun dim hlt => absurd hlt (Nat.not_lt_zero _)
  | d + 1, hd => by
    have hdiv : ∀ x, x % net.k ^ (d + 1) / net.k ^ d = net.coordOf x d := by
      intro x
      rw [pow_succ, Nat.mod_mul_right_div_self, coordOf_eq hd]
    have hmod : ∀ x, x % net.k ^ (d + 1) % net.k ^ d = x % net.k ^ d :=
      fun x => Nat.mod_mod_of_dvd x (Nat.pow_dvd_pow net.k (Nat.le_succ d))
    simp only [outportDown, hdiv, hmod]
    by_cases heq : net.coordOf R d = net.coordOf r d
    · rw [if_neg (not_not.mpr heq)]
      rcases outportDown_spec r R (Nat.le_of_succ_le hd) with h | h
      · exact .inl h
      · refine .inr fun dim hlt => ?_
        rcases Nat.eq_or_lt_of_le (Nat.le_of_lt_succ hlt) with rfl | hlt'
        · exact heq.symm
        · exact h dim hlt'
    · rw [if_pos heq]
      exact .inl ⟨_, rfl, d, hd, Ne.symm heq, rfl⟩

theorem eq_of_coordOf {r R : ℕ} (hr : r < net.size) (hR : R < net.size)
    (h : ∀ dim < net.n, net.coordOf r dim = net.coordOf R dim) : r = R := by
  refine @KNCube.position_inj net.cube r R hr hR (List.ext_getElem (by simp) fun i hi hi' => ?_)
  have hdim : i < net.n := by simpa [cube] using hi
  have hcoord := h i hdim
  rwa [coordOf, coordOf, List.getD_eq_getElem _ _ hi, List.getD_eq_getElem _ _ hi'] at hcoord

section Ports

variable {r R dest : ℕ} (hr : r < net.size) (hR : R < net.size) (hne : r ≠ R)
  (hdest : dest / net.c = R)

include hr hR hne hdest

theorem flatflyOutport_leads :
    ∃ port, net.flatflyOutport dest r = some port ∧ net.Leads r R port := by
  rw [flatflyOutport, hdest, if_neg hne.symm]
  have hspec := @outportUp_spec net r R net.n 0 (Nat.zero_add _)
  rw [pow_zero, Nat.div_one, Nat.div_one] at hspec
  rcases hspec with h | h
  · exact h
  · exact absurd (eq_of_coordOf hr hR fun dim hdim => h dim (Nat.zero_le _) hdim) hne

theorem flatflyOutportYx_leads :
    ∃ port, net.flatflyOutportYx dest r = some port ∧ net.Leads r R port := by
  rw [flatflyOutportYx, hdest, if_neg hne.symm]
  have hspec := @outportDown_spec net r R net.n le_rfl
  rw [← size, Nat.mod_eq_of_lt hr, Nat.mod_eq_of_lt hR] at hspec
  rcases hspec with h | h
  · exact h
  · exact absurd (eq_of_coordOf hr hR h) hne

end Ports

/-! ## Distances -/

/-- In how many dimensions two routers differ. -/
def apart (net : FlatFlyOnChip) (r R : ℕ) : ℕ :=
  gridDist (fun a b => if a ≠ b then 1 else 0) (net.cube.position r) (net.cube.position R)

theorem differing_eq : ∀ (left r R : ℕ), net.differing left r R =
    gridDist (fun a b => if a ≠ b then 1 else 0) (digits (List.replicate left net.k) r)
      (digits (List.replicate left net.k) R)
  | 0, _, _ => rfl
  | left + 1, r, R => by rw [differing, differing_eq left, List.replicate_succ, digits, digits,
  gridDist]

theorem findDistance_eq (src dest : ℕ) :
    net.findDistance src dest = net.apart (src / net.c) (dest / net.c) := differing_eq _ _ _

theorem apart_self (r : ℕ) : net.apart r r = 0 :=
  gridDist_self (fun _ => if_neg (not_not.mpr rfl)) _

theorem apart_other {r R dim : ℕ} (hr : r < net.size) (hdim : dim < net.n)
    (hne : net.coordOf r dim ≠ net.coordOf R dim) :
    net.apart r R = net.apart (net.other r dim (net.coordOf R dim)) R + 1 := by
  have hset := @gridDist_set (fun a b => if a ≠ b then 1 else 0) (net.cube.position r)
    (net.cube.position R) dim (net.coordOf R dim) (by simp)
    (by rw [KNCube.length_position]; exact hdim)
  rw [← (position_other hr hdim (coordOf_lt hdim)).2, ← coordOf, ← coordOf, if_pos hne,
    if_neg (not_not.mpr rfl)] at hset
  exact hset.symm

/-! ## Delivery -/

theorem sentTo_leads {c : Call} {R port : ℕ} (f : Flit) (hr : c.router.id < net.size)
    (h : net.Leads c.router.id R port) :
    ∃ a t, sentTo net.wiring c port f = .hop a t ∧ t.router < net.size ∧ t.flit = f ∧
      net.apart c.router.id R = net.apart t.router R + 1 := by
  obtain ⟨dim, hdim, hne, rfl⟩ := h
  obtain ⟨j, hj, hskip⟩ := exists_skip (coordOf_lt hdim : net.coordOf R dim < net.k)
    (coordOf_lt hdim : net.coordOf c.router.id dim < net.k) hne.symm
  have hport : net.dimPort dim (net.coordOf c.router.id dim) (net.coordOf R dim) =
      net.c + ((net.k - 1) * dim + j) := by
    rw [hskip, dimPort]
    unfold skip
    split_ifs <;> omega
  obtain ⟨inPort, hsink⟩ := sink_hop hr hdim hj
  rw [← hskip] at hsink
  rw [hport]
  exact ⟨_, _, sentTo_chan (channelAt_hop hr hdim hj) hsink,
    (position_other hr hdim (coordOf_lt hdim)).1, rfl, apart_other hr hdim hne⟩

/-- A routing function that takes every flit to its node, on VCs of its class: to the node's port
at its router, and to a closer router elsewhere. -/
def Heads (net : FlatFlyOnChip) (vcs : ClassVCs) (route : Call → Option Routed) : Prop :=
  ∀ c : Call, c.inject = false → c.router.id < net.size → c.flit.dest < net.nodes →
    vcs.Holds c.flit → ∃ (port : ℕ) (r : VCRange), route c = some ⟨single port r, c.flit⟩ ∧
      r.vcBegin ≤ r.vcEnd ∧ r.Within (classRange (net.globals vcs) c) ∧
      if net.flatflyTransformation c.flit.dest / net.c = c.router.id then
        port = net.flatflyTransformation c.flit.dest % net.c
      else net.Leads c.router.id (net.flatflyTransformation c.flit.dest / net.c) port

/-- A flit for node `dest`, at a router and on a VC of its class. -/
structure Underway (net : FlatFlyOnChip) (vcs : ClassVCs) (dest : ℕ) (s : Flight) : Prop where
  router_lt : s.router < net.size
  dest_lt : dest < net.nodes
  dest_eq : s.flit.dest = dest
  holds : vcs.Holds s.flit

section Delivery

variable {vcs : ClassVCs} {route : Call → Option Routed} {dest : ℕ} {s : Flight}

theorem channelAt_transformation (hcover : net.Covers) (hdest : dest < net.nodes) :
    net.wiring.channelAt (net.flatflyTransformation dest / net.c)
      (net.flatflyTransformation dest % net.c : ℕ) = some (.eject dest) := by
  rw [channelAt_node (transformation_div_lt hcover hdest) (Nat.mod_lt _ (c_pos hdest)),
    nodeAt_transformation hdest (xcount_pos hcover)]

theorem heads_outcome (hroute : net.Heads vcs route) (hcover : net.Covers)
    (hs : net.Underway vcs dest s) {o : Outcome Flight Sent ℕ}
    (ho : (net.flights route).outcome s o) :
    net.flatflyTransformation dest / net.c = s.router ∧ o = .leave dest ∨
      ∃ a t, o = .hop a t ∧ net.Underway vcs dest t ∧
        net.apart s.router (net.flatflyTransformation dest / net.c) =
          net.apart t.router (net.flatflyTransformation dest / net.c) + 1 := by
  obtain ⟨c, hc, hdecided⟩ := ho
  have hdest : c.flit.dest = dest := by rw [hc.flit, hs.dest_eq]
  have hr : c.router.id < net.size := hc.router ▸ hs.router_lt
  obtain ⟨port, r, hres, hle, hwithin, hport⟩ := hroute c hc.inject hr
    (hdest ▸ hs.dest_lt) (hc.flit ▸ hs.holds)
  rw [hres, decided_single hle] at hdecided
  obtain ⟨v, hlo, hhi, rfl⟩ := hdecided
  rw [← hc.router]
  rw [hdest] at hport
  by_cases heq : net.flatflyTransformation dest / net.c = c.router.id
  · rw [if_pos heq] at hport
    have hchan := channelAt_transformation hcover hs.dest_lt
    rw [heq, ← hport] at hchan
    exact .inl ⟨heq, sentTo_eject hchan⟩
  · rw [if_neg heq] at hport
    obtain ⟨a, t, hsent, ht, hflit, hdist⟩ := sentTo_leads { c.flit with vc := v } hr hport
    refine .inr ⟨a, t, hsent, ⟨ht, hs.dest_lt, by rw [hflit, ← hdest], ?_⟩, hdist⟩
    rw [hflit]
    exact hwithin v hlo hhi

theorem Heads.deliversIn (hroute : net.Heads vcs route) (hcover : net.Covers)
    (hs : net.Underway vcs dest s) :
    (net.flights route).DeliversIn dest
      (net.apart s.router (net.flatflyTransformation dest / net.c)) s := by
  refine RouteSystem.deliversIn_of_distance (net.Underway vcs dest)
    (fun s => net.apart s.router (net.flatflyTransformation dest / net.c))
    (fun s _ => flights_moves _ _ _ s) (fun s o hs ho => ?_) hs rfl
  rcases heads_outcome hroute hcover hs ho with ⟨heq, rfl⟩ | ⟨a, t, rfl, ht, hdist⟩
  · exact .inl ⟨heq ▸ apart_self _, rfl⟩
  · exact .inr ⟨a, t, rfl, ht, hdist⟩

theorem underway_of_start (hoffers : InjectsClass (net.globals vcs) route) (hcover : net.Covers)
    (h : (net.flights route).start s) :
    net.Underway vcs s.flit.dest s ∧ net.flatflyTransformation s.flit.src / net.c = s.router := by
  obtain ⟨hinjected, hdest, hsink⟩ := h
  obtain ⟨hr, q, hq, hsrc⟩ := of_sink_inject hsink
  exact ⟨⟨hr, hdest, rfl, hoffers.holds hinjected⟩,
    by rw [hsrc, transformation_nodeAt hcover hr hq]⟩

/-- What a routing function should do on the flattened butterfly: deliver every flit, from whatever
router, after as many hops as `find_distance` says. -/
structure Delivers (net : FlatFlyOnChip) (vcs : ClassVCs) (route : Call → Option Routed) :
    Prop where
  of_router : ∀ s : Flight, s.router < net.size → s.flit.dest < net.nodes → vcs.Holds s.flit →
    (net.flights route).DeliversIn s.flit.dest
      (net.findDistance (net.c * s.router) (net.flatflyTransformation s.flit.dest)) s
  of_start : ∀ s, (net.flights route).start s → (net.flights route).DeliversIn s.flit.dest
      (net.findDistance (net.flatflyTransformation s.flit.src)
        (net.flatflyTransformation s.flit.dest)) s

theorem Heads.delivers (hroute : net.Heads vcs route)
    (hoffers : InjectsClass (net.globals vcs) route) (hcover : net.Covers) :
      net.Delivers vcs route where
  of_router s hr hdest hholds := by
    rw [findDistance_eq, Nat.mul_div_cancel_left _ (c_pos hdest)]
    exact hroute.deliversIn hcover ⟨hr, hdest, rfl, hholds⟩
  of_start s hstart := by
    obtain ⟨hs, hsrc⟩ := underway_of_start hoffers hcover hstart
    rw [findDistance_eq, hsrc]
    exact hroute.deliversIn hcover hs

/-! ## The functions -/

/-- The port function finds a dimension to put right. -/
def FindsDimension (net : FlatFlyOnChip) (outport : ℕ → ℕ → Option ℕ) : Prop :=
  ∀ {r R dest : ℕ}, r < net.size → R < net.size → r ≠ R → dest / net.c = R →
    ∃ port, outport dest r = some port ∧ net.Leads r R port

variable {outport : ℕ → ℕ → Option ℕ}

theorem heads_follow (hout : net.FindsDimension outport) (hcover : net.Covers) :
    net.Heads vcs fun c => net.follow vcs c outport := by
  intro c hinject hr hdest hholds
  have hadmitted : admitted (net.globals vcs) c = some (classRange (net.globals vcs) c) :=
    admitted_of_holds hholds
  simp only [follow, hadmitted, hinject, Option.bind_eq_bind, Option.bind_some, Bool.false_eq_true,
    if_false]
  by_cases heq : net.flatflyTransformation c.flit.dest / net.c = c.router.id
  · rw [if_pos heq]
    exact ⟨_, _, rfl, vcs.begin_le_end _, .refl _, if_pos heq ▸ rfl⟩
  · obtain ⟨port, hport, hleads⟩ := hout hr (transformation_div_lt hcover hdest) (Ne.symm heq) rfl
    rw [if_neg heq, hport]
    exact ⟨port, _, rfl, vcs.begin_le_end _, .refl _, if_neg heq ▸ hleads⟩

theorem injectsClass_follow : InjectsClass (net.globals vcs) fun c => net.follow vcs c outport := by
  intro c hinj
  simp only [follow, hinj, if_true]
  exact (Option.map_eq_bind ..).symm

theorem heads_xyyx (hcover : net.Covers) (h2 : ∀ cl, vcs.gBeginVCs cl < vcs.gEndVCs cl) :
    net.Heads vcs (net.xyyxFlatfly vcs) := by
  intro c hinject hr hdest hholds
  have hadmitted : admitted (net.globals vcs) c = some (classRange (net.globals vcs) c) :=
    admitted_of_holds hholds
  have hlt : (classRange (net.globals vcs) c).vcBegin < (classRange (net.globals vcs) c).vcEnd :=
    h2 _
  simp only [xyyxFlatfly, hadmitted, hinject, Option.bind_eq_bind, Option.bind_some,
    Bool.false_eq_true, if_false, VCRange.half_of_lt hlt]
  by_cases heq : net.flatflyTransformation c.flit.dest / net.c = c.router.id
  · rw [if_pos heq]
    exact ⟨_, _, rfl, vcs.begin_le_end _, .refl _, if_pos heq ▸ rfl⟩
  · have hR := transformation_div_lt hcover hdest
    obtain ⟨port, hport, hleads⟩ : ∃ port, (if net.xThenY c (classRange (net.globals vcs) c) then
          net.flatflyOutport (net.flatflyTransformation c.flit.dest) c.router.id
        else net.flatflyOutportYx (net.flatflyTransformation c.flit.dest) c.router.id) = some port ∧
        net.Leads c.router.id (net.flatflyTransformation c.flit.dest / net.c) port := by
      split
      · exact flatflyOutport_leads hr hR (Ne.symm heq) rfl
      · exact flatflyOutportYx_leads hr hR (Ne.symm heq) rfl
    rw [if_neg heq, hport]
    exact ⟨port, _, rfl, VCRange.part_nonempty hlt _, fun v => VCRange.part_within hlt _,
      if_neg heq ▸ hleads⟩

theorem injectsClass_xyyx : InjectsClass (net.globals vcs) (net.xyyxFlatfly vcs) := by
  intro c hinj
  simp only [xyyxFlatfly, hinj, if_true]
  exact (Option.map_eq_bind ..).symm

end Delivery

/-- `xyyx_flatfly`, which takes the dimensions in one order or the other, needs two VCs. -/
theorem xyyx_delivers (net : FlatFlyOnChip) (vcs : ClassVCs) (hcover : net.Covers)
    (h2 : ∀ cl, vcs.gBeginVCs cl < vcs.gEndVCs cl) :
    net.Delivers vcs (net.xyyxFlatfly vcs) :=
  (heads_xyyx hcover h2).delivers injectsClass_xyyx hcover

/-- **Delivery on the flattened butterfly.**  `min_flatfly` and the port function
`flatfly_outport_yx` take every flit to its node, from every router, after exactly
`find_distance` hops; and the port they end at is the one where `_BuildNet` attached the node. -/
theorem flatfly_delivers (net : FlatFlyOnChip) (vcs : ClassVCs) (hcover : net.Covers) :
    net.Delivers vcs (net.minFlatfly vcs) ∧
      net.Delivers vcs (fun c => net.follow vcs c net.flatflyOutportYx) ∧
      ∀ dest < net.nodes, net.wiring.channelAt (net.flatflyTransformation dest / net.c)
        (net.flatflyTransformation dest % net.c : ℕ) = some (.eject dest) :=
  ⟨(heads_follow flatflyOutport_leads hcover).delivers injectsClass_follow hcover,
    (heads_follow flatflyOutportYx_leads hcover).delivers injectsClass_follow hcover,
    fun _ hdest => channelAt_transformation hcover hdest⟩

/-- A chip of 4 by 4 routers with 4 nodes each. -/
def chip16 : FlatFlyOnChip := ⟨4, 2, 4, 4, 4, 2, 2, by decide, rfl, rfl, rfl, by decide⟩

theorem flatfly_delivers_chip16 :
    chip16.Delivers CKNCube.fourVCs (chip16.minFlatfly CKNCube.fourVCs) ∧
      chip16.Delivers CKNCube.fourVCs
        (fun c => chip16.follow CKNCube.fourVCs c chip16.flatflyOutportYx) ∧
      ∀ dest < chip16.nodes, chip16.wiring.channelAt (chip16.flatflyTransformation dest / chip16.c)
        (chip16.flatflyTransformation dest % chip16.c : ℕ) = some (.eject dest) :=
  flatfly_delivers chip16 CKNCube.fourVCs rfl

theorem xyyx_chip16 : chip16.Delivers CKNCube.fourVCs (chip16.xyyxFlatfly CKNCube.fourVCs) :=
  xyyx_delivers _ _ rfl fun _ => show (0 : ℤ) < 3 by decide

end BookSim.FlatFlyOnChip
