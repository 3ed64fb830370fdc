/-
# CKNMesh — dimension-order routing over the wires of a `CKNCube`

`_BuildNet` gives every router two ports per dimension and one per attached node; the
output ports of router `r` are, in this order,

    2·dim, 2·dim + 1      the channels to its right and left neighbour in `dim`
    2·n + rank            the ejection channel of the `rank`-th node of `r`

`dim_order_cknmesh` names a port without looking at the wires.  `follow` takes the flit
along: it asks the routing function for a port, looks up the channel `_BuildNet` attached
there and goes on from the router that channel leads to.  With a consistent numbering the
flit reaches its node's own ejection channel over the shortest path, one dimension after
the other (`follow_of_agree`), and in one and two dimensions every numbering is consistent.
-/
import Mathlib.Data.Nat.Bitwise
import Mathlib.Data.Nat.Dist
import BookSim.Flit
import BookSim.OutputSet
import BookSim.Lib.Ring
import BookSim.Networks.CKNCube
import BookSim.Networks.Wiring

namespace BookSim.CKNCube

open List MixedRadix
open RingWay hiding next prev

variable (net : CKNCube)

/-! ## Building the network -/

def leftChannel (router dim : ℕ) : ℕ := 2 * net.n * router + (2 * dim + 1)

def rightChannel (router dim : ℕ) : ℕ := 2 * net.n * router + 2 * dim

/-- One position down in a dimension of radix `k`, around the edge. -/
def down (k d : ℕ) : ℕ := if d = 0 then k - 1 else d - 1

/-- One position up in a dimension of radix `k`, around the edge. -/
def up (k d : ℕ) : ℕ := if d = k - 1 then 0 else d + 1

def leftRouter (router dim : ℕ) : ℕ :=
  let index := net.routerIndex router
  net.indexToRouter (index.set dim (down (net.kVect.getD dim 0) (index.getD dim 0)))

def rightRouter (router dim : ℕ) : ℕ :=
  let index := net.routerIndex router
  net.indexToRouter (index.set dim (up (net.kVect.getD dim 0) (index.getD dim 0)))

/-- The calls `_BuildNet` makes for one router, dimension by dimension. -/
def attachRouter (router : ℕ) : List Attach :=
  (List.range net.n).flatMap fun dim =>
    [.input router (.chan (net.leftChannel (net.rightRouter router dim) dim)),
     .input router (.chan (net.rightChannel (net.leftRouter router dim) dim)),
     .output router (.chan (net.rightChannel router dim)),
     .output router (.chan (net.leftChannel router dim))]

/-- The calls for one node. -/
def attachNode (node : ℕ) : List Attach :=
  [.input (net.nodeInRouter node) (.inject node), .output (net.nodeInRouter node) (.eject node)]

def buildNet : List Attach :=
  (List.range net.size).flatMap net.attachRouter ++ (List.range net.nodes).flatMap net.attachNode

def wiring : Wiring := Wiring.wire net.buildNet

/-! ## The routing function -/

/-- `dor_next_cknmesh`: the ejection port at the destination's router, and elsewhere the port
towards it in the first (or last) dimension where the positions differ. -/
def dorNextCknmesh (cur dest : ℕ) (descending : Bool) : ℕ :=
  let routerDest := net.nodeInRouter dest
  if cur = routerDest then 2 * net.n + net.concentrationOffset dest
  else
    let curIndex := net.routerIndex cur
    let destIndex := net.routerIndex routerDest
    let dims := if descending then (List.range net.n).reverse else List.range net.n
    let dimLeft := (dims.find? fun dim => curIndex.getD dim 0 ≠ destIndex.getD dim 0).getD 0
    if curIndex.getD dimLeft 0 < destIndex.getD dimLeft 0 then 2 * dimLeft else 2 * dimLeft + 1

/-- `dim_order_cknmesh`; `none` when its assertion fails. -/
def dimOrderCknmesh (vcs : ClassVCs) (router : ℕ) (f : Flit) (inject : Bool) : Option OutputSet :=
  let outPort : ℤ := if inject then -1 else net.dorNextCknmesh router f.dest false
  if vcs.Admits f inject then
    some (OutputSet.clear.addRange outPort (vcs.gBeginVCs f.cl) (vcs.gEndVCs f.cl) 0)
  else none

/-! ## Following a flit -/

/-- A router, and the output port a flit leaves it by. -/
structure Hop where
  router : ℕ
  port : ℕ
  deriving DecidableEq, Repr

/-- The dimension a hop between routers moves in. -/
def Hop.dim (hop : Hop) : ℕ := hop.port / 2

/-- The hop goes around the edge: right from the last position or left from the first. -/
def WrapAround (hop : Hop) : Prop :=
  let d := (net.routerIndex hop.router).getD hop.dim 0
  hop.port % 2 = 0 ∧ d = net.kVect.getD hop.dim 0 - 1 ∨ hop.port % 2 = 1 ∧ d = 0

instance (hop : Hop) : Decidable (net.WrapAround hop) := inferInstanceAs (Decidable (_ ∨ _))

/-- The hops between routers, and then the port at which the flit leaves for a node. -/
structure Journey where
  hops : List Hop
  last : Hop
  node : ℕ
  deriving DecidableEq, Repr

/-- Follow a flit that holds VC `vc router` at each router on its way, for at most `fuel`
routers. -/
def follow (vcs : ClassVCs) (f : Flit) (vc : ℕ → ℤ) : ℕ → ℕ → Option Journey
  | 0, _ => none
  | fuel + 1, router =>
    match net.dimOrderCknmesh vcs router { f with vc := vc router } false with
    | some outputs =>
      match outputs.getSet with
      | [elem] =>
        match net.wiring.channelAt router elem.outputPort with
        | some (.eject node) => some ⟨[], ⟨router, elem.outputPort.toNat⟩, node⟩
        | some channel =>
          match net.wiring.sink channel with
          | some (next, _) =>
            (follow vcs f vc fuel next).map fun rest =>
              { rest with hops := ⟨router, elem.outputPort.toNat⟩ :: rest.hops }
          | none => none
        | none => none
      | _ => none
    | none => none

/-- The Manhattan distance of two positions. -/
def manhattan : List ℕ → List ℕ → ℕ
  | a :: as, b :: bs => Nat.dist a b + manhattan as bs
  | _, _ => 0

/-- The distance between a router and the router of a node. -/
def distance (router node : ℕ) : ℕ :=
  manhattan (net.routerIndex router) (net.routerIndex (net.nodeInRouter node))

/-- What a flit's way from `router` to `dest` should be. -/
structure Direct (router dest : ℕ) (j : Journey) : Prop where
  length_hops : j.hops.length = net.distance router dest
  no_wrap : ∀ hop ∈ j.hops, ¬ net.WrapAround hop
  ascending : (j.hops.map Hop.dim).Pairwise (· ≤ ·)
  last_router : j.last.router = net.nodeInRouter dest
  last_port : net.wiring.channelAt j.last.router j.last.port = some (.eject dest)
  node : j.node = dest

/-! ## Grids -/

theorem getElem?_ports {α : Type} (a b : ℕ → α) (l : List α) (n p : ℕ) :
    (((List.range n).flatMap fun j => [a j, b j]) ++ l)[p]? =
      if p < 2 * n then some (if p % 2 = 0 then a (p / 2) else b (p / 2)) else l[p - 2 * n]? := by
  have hlen : ((List.range n).flatMap fun j => [a j, b j]).length = 2 * n := by
    simp [length_flatMap, Nat.mul_comm]
  by_cases hp : p < 2 * n
  · obtain ⟨ha, hb⟩ := getElem?_flatMap_pairs a b n (p / 2) (by omega)
    rw [List.getElem?_append_left (by omega), if_pos hp]
    by_cases heven : p % 2 = 0
    · rw [if_pos heven, ← ha, show 2 * (p / 2) = p by omega]
    · rw [if_neg heven, ← hb, show 2 * (p / 2) + 1 = p by omega]
  · rw [List.getElem?_append_right (by omega), hlen, if_neg hp]

/-- Output ports with even numbers go right. -/
def toRight (port : ℕ) : Bool := port % 2 = 0

theorem xor_one_eq (p : ℕ) : p ^^^ 1 = if p % 2 = 0 then p + 1 else p - 1 := by
  split
  next h => exact Nat.xor_one_of_even (Nat.even_iff.mpr h)
  next h => exact Nat.xor_one_of_odd (Nat.odd_iff.mpr (by omega))

theorem xor_one_lt {p n : ℕ} (h : p < 2 * n) : p ^^^ 1 < 2 * n := by
  rw [xor_one_eq]
  split <;> omega

theorem xor_one_div_two (p : ℕ) : (p ^^^ 1) / 2 = p / 2 := by
  rw [xor_one_eq]
  split <;> omega

theorem toRight_xor_one (p : ℕ) : toRight (p ^^^ 1) = !toRight p := by
  unfold toRight
  rw [xor_one_eq, ← decide_not, decide_eq_decide]
  split <;> omega

/-- The hop in a dimension where the positions differ is towards `bs`. -/
def Towards (as bs : List ℕ) (port : ℕ) : Prop :=
  if toRight port then as.getD (port / 2) 0 < bs.getD (port / 2) 0
  else bs.getD (port / 2) 0 < as.getD (port / 2) 0

theorem manhattan_eq : ∀ as bs : List ℕ, manhattan as bs = gridDist Nat.dist as bs
  | [], _ => rfl
  | _ :: _, [] => rfl
  | a :: as, b :: bs => by rw [manhattan, gridDist, manhattan_eq as bs]

theorem manhattan_self (as : List ℕ) : manhattan as as = 0 := by
  rw [manhattan_eq, gridDist_self Nat.dist_self]

theorem eq_of_manhattan_eq_zero : ∀ {as bs : List ℕ}, as.length = bs.length →
    manhattan as bs = 0 → as = bs
  | [], [], _, _ => rfl
  | a :: as, b :: bs, hlen, h => by
    simp only [manhattan, Nat.add_eq_zero_iff] at h
    rw [Nat.eq_of_dist_eq_zero h.1, eq_of_manhattan_eq_zero (by simpa using hlen) h.2]

/-- Routers at the positions of a grid, `next r p` being the neighbour of `r` at port `p`. -/
structure IsGrid (ks : List ℕ) (size : ℕ) (position : ℕ → List ℕ) (next : ℕ → ℕ → ℕ) : Prop where
  fits : ∀ r, Fits ks (position r)
  inj : ∀ {r r'}, r < size → r' < size → position r = position r' → r = r'
  next_lt : ∀ {r p}, r < size → p < 2 * ks.length → next r p < size
  position_next : ∀ {r p}, r < size → p < 2 * ks.length → position (next r p) =
    (position r).set (p / 2) (move (ks.getD (p / 2) 0) (toRight p) ((position r).getD (p / 2) 0))

namespace IsGrid

variable {ks : List ℕ} {size : ℕ} {position : ℕ → List ℕ} {next : ℕ → ℕ → ℕ}
  (h : IsGrid ks size position next) {r p : ℕ} (hr : r < size)

include h

theorem length_eq (r : ℕ) : (position r).length = ks.length := (h.fits r).length_eq

theorem getD_lt (r : ℕ) {dim : ℕ} (hdim : dim < ks.length) :
    (position r).getD dim 0 < ks.getD dim 0 := getD_lt_of_fits (h.fits r) hdim

include hr

theorem getD_next_of_ne (hp : p < 2 * ks.length) {i : ℕ} (hi : i ≠ p / 2) :
    (position (next r p)).getD i 0 = (position r).getD i 0 := by
  rw [h.position_next hr hp]
  simp [getD_eq_getElem?_getD, List.getElem?_set_ne hi.symm]

theorem next_xor_one (hp : p < 2 * ks.length) : next (next r p) (p ^^^ 1) = r := by
  have hnext := h.next_lt hr hp
  have hlen : p / 2 < (position r).length := by
    rw [h.length_eq]
    omega
  refine h.inj (h.next_lt hnext (xor_one_lt hp)) hr ?_
  rw [h.position_next hnext (xor_one_lt hp), h.position_next hr hp, xor_one_div_two, set_set,
    getD_eq_getElem?_getD (l := set ..), List.getElem?_set_self hlen, Option.getD_some,
    toRight_xor_one, move_not_move (h.getD_lt r (by omega)), getD_eq_getElem _ _ hlen,
    set_getElem_self]

theorem gridDist_next (hp : p < 2 * ks.length) (d : ℕ → ℕ → ℕ) (dest : ℕ) :
    gridDist d (position (next r p)) (position dest) +
        d ((position r).getD (p / 2) 0) ((position dest).getD (p / 2) 0) =
      gridDist d (position r) (position dest) +
        d (move (ks.getD (p / 2) 0) (toRight p) ((position r).getD (p / 2) 0))
          ((position dest).getD (p / 2) 0) := by
  rw [h.position_next hr hp]
  refine gridDist_set _ (by rw [h.length_eq, h.length_eq]) ?_
  rw [h.length_eq]
  omega

theorem closer (hp : p < 2 * ks.length) {dest : ℕ} (hto : Towards (position r) (position dest) p) :
    manhattan (position (next r p)) (position dest) + 1 =
      manhattan (position r) (position dest) := by
  have hdist := h.gridDist_next hr hp Nat.dist dest
  have hlt := h.getD_lt dest (show p / 2 < ks.length by omega)
  have hlt' := h.getD_lt r (show p / 2 < ks.length by omega)
  have hstep : Nat.dist (move (ks.getD (p / 2) 0) (toRight p) ((position r).getD (p / 2) 0))
      ((position dest).getD (p / 2) 0) + 1 =
      Nat.dist ((position r).getD (p / 2) 0) ((position dest).getD (p / 2) 0) := by
    unfold Towards at hto
    unfold move RingWay.next RingWay.prev Nat.dist
    split_ifs at hto ⊢ <;> omega
  rw [manhattan_eq, manhattan_eq]
  omega

theorem sink_port {calls : List Attach}
    (hcalls : ∀ {r p index}, (calls.filterMap (Wiring.inputOf r))[p]? = some (.chan index) ↔
      r < size ∧ p < 2 * ks.length ∧ index = 2 * ks.length * next r p + (p ^^^ 1))
    (hp : p < 2 * ks.length) :
    (Wiring.wire calls).sink (.chan (2 * ks.length * r + p)) = some (next r p, p ^^^ 1) := by
  refine Wiring.sink_wire_port ?_ fun r' p' hat => ?_
  · refine hcalls.mpr ⟨h.next_lt hr hp, xor_one_lt hp, ?_⟩
    rw [h.next_xor_one hr hp, Nat.xor_xor_cancel_right]
  · obtain ⟨hr', hp', heq⟩ := hcalls.mp hat
    obtain ⟨rfl, rfl⟩ := eq_of_mul_add_eq hp (xor_one_lt hp') heq
    rw [h.next_xor_one hr' hp', Nat.xor_xor_cancel_right]
    exact ⟨rfl, rfl⟩

end IsGrid

/-! ## The ports of a router -/

/-- The router on the other side of an output port. -/
def neighbour (router port : ℕ) : ℕ :=
  if port % 2 = 0 then net.rightRouter router (port / 2) else net.leftRouter router (port / 2)

theorem neighbour_eq (router port : ℕ) : net.neighbour router port =
    net.indexToRouter ((net.routerIndex router).set (port / 2)
      (move (net.kVect.getD (port / 2) 0) (toRight port)
        ((net.routerIndex router).getD (port / 2) 0))) := by
  simp only [neighbour, move, toRight, decide_eq_true_eq]
  split
  · rfl
  · rfl

variable {net}

theorem RouterPlaces.isGrid (hr : net.RouterPlaces) :
    IsGrid net.kVect net.size net.routerIndex net.neighbour := by
  have hset : ∀ {router port}, port < 2 * net.n → _ := fun {router port} hport =>
    hr.routerIndex_indexToRouter (fits_set (fits_routerIndex router)
      (move_lt (getD_lt_of_fits (fits_routerIndex router) (show port / 2 < net.n by omega))
        (toRight port)))
  refine ⟨fits_routerIndex, fun h h' heq => ?_, fun {r p} _ hp => ?_, fun {r p} _ hp => ?_⟩
  · rw [← hr.indexToRouter_routerIndex h, heq, hr.indexToRouter_routerIndex h']
  · rw [neighbour_eq]
    exact (hset hp).1
  · rw [neighbour_eq]
    exact (hset hp).2

variable (net)

theorem filterMap_buildNet (router : ℕ) {kind : Attach → Option Channel} (a b : ℕ → Channel)
    (node : ℕ → Channel)
    (hrouter : ∀ r, (net.attachRouter r).filterMap kind =
      if r = router then (List.range net.n).flatMap fun dim => [a dim, b dim] else [])
    (hnode : ∀ v, (net.attachNode v).filterMap kind =
      if net.nodeInRouter v = router then [node v] else []) :
    net.buildNet.filterMap kind =
      (if router < net.size then (List.range net.n).flatMap fun dim => [a dim, b dim] else []) ++
      ((List.range net.nodes).filter fun v => net.nodeInRouter v = router).map node := by
  have hnodes : ∀ nodes : List ℕ, (nodes.flatMap net.attachNode).filterMap kind =
      (nodes.filter fun v => net.nodeInRouter v = router).map node := by
    intro nodes
    induction nodes with
    | nil => rfl
    | cons v nodes ih =>
      rw [flatMap_cons, filterMap_append, ih, hnode]
      by_cases h : net.nodeInRouter v = router
      · simp [h]
      · simp [h]
  rw [buildNet, filterMap_append, hnodes, filterMap_flatMap]
  simp only [hrouter]
  rw [flatMap_range_ite]

theorem outputChannels_eq {router : ℕ} (h : router < net.size) : net.wiring.outputChannels router =
      ((List.range net.n).flatMap fun dim =>
        [.chan (net.rightChannel router dim), .chan (net.leftChannel router dim)]) ++
      ((List.range net.nodes).filter fun node => net.nodeInRouter node = router).map .eject := by
  rw [wiring, Wiring.outputChannels_wire, net.filterMap_buildNet router
    (fun dim => .chan (net.rightChannel router dim)) (fun dim => .chan (net.leftChannel router dim))
    .eject (fun r => ?_) (fun v => ?_), if_pos h]
  · rw [attachRouter, filterMap_flatMap]
    by_cases h : r = router
    · subst h
      simp [Wiring.outputOf, filterMap_cons]
    · simp [Wiring.outputOf, filterMap_cons, h]
  · by_cases h : net.nodeInRouter v = router
    · simp [attachNode, Wiring.outputOf, filterMap_cons, h]
    · simp [attachNode, Wiring.outputOf, filterMap_cons, h]

theorem channelAt_port {router port : ℕ} (h : router < net.size) (hport : port < 2 * net.n) :
    net.wiring.channelAt router port = some (.chan (2 * net.n * router + port)) := by
  rw [Wiring.channelAt_natCast, outputChannels_eq net h,
    getElem?_ports (fun dim => Channel.chan (net.rightChannel router dim))
      (fun dim => .chan (net.leftChannel router dim)), if_pos hport, rightChannel, leftChannel]
  split_ifs
  · rw [show 2 * (port / 2) = port by omega]
  · rw [show 2 * (port / 2) + 1 = port by omega]

theorem channelAt_eject (hr : net.RouterPlaces) (ho : net.OffsetPlaces) {node : ℕ}
    (h : node < net.nodes) :
    net.wiring.channelAt (net.nodeInRouter node) (2 * net.n + net.concentrationOffset node : ℕ) =
      some (.eject node) := by
  obtain ⟨router, hrouter, off, hoff, rfl⟩ := net.exists_nodeOf h
  rw [hr.nodeInRouter_nodeOf hrouter, ho.concentrationOffset_nodeOf router hoff,
    Wiring.channelAt_natCast, outputChannels_eq net hrouter,
    getElem?_ports (fun dim => Channel.chan (net.rightChannel router dim))
      (fun dim => .chan (net.leftChannel router dim)), if_neg (by omega), Nat.add_sub_cancel_left,
    hr.filter_nodes_eq hrouter]
  simp [hoff]

theorem input_chan {router port index : ℕ} :
    (net.buildNet.filterMap (Wiring.inputOf router))[port]? = some (.chan index) ↔
      router < net.size ∧ port < 2 * net.n ∧
        index = 2 * net.n * net.neighbour router port + (port ^^^ 1) := by
  have hnodes : ∀ i : ℕ, (((List.range net.nodes).filter fun v => net.nodeInRouter v = router).map
      Channel.inject)[i]? ≠ some (Channel.chan index) := fun i => by simp
  rw [net.filterMap_buildNet router
    (fun dim => .chan (net.leftChannel (net.rightRouter router dim) dim))
    (fun dim => .chan (net.rightChannel (net.leftRouter router dim) dim)) .inject
    (fun r => ?_) (fun v => ?_)]
  · by_cases h : router < net.size
    · rw [if_pos h, getElem?_ports]
      by_cases hp : port < 2 * net.n
      · rw [if_pos hp, xor_one_eq, neighbour, leftChannel, rightChannel, Option.some.injEq]
        split_ifs
        · rw [Channel.chan.injEq, show 2 * (port / 2) + 1 = port + 1 by omega]
          simp [h, hp, eq_comm]
        · rw [Channel.chan.injEq, show 2 * (port / 2) = port - 1 by omega]
          simp [h, hp, eq_comm]
      · rw [if_neg hp]
        exact iff_of_false (hnodes _) fun hchan => hp hchan.2.1
    · rw [if_neg h, nil_append]
      exact iff_of_false (hnodes _) fun hchan => h hchan.1
  · rw [attachRouter, filterMap_flatMap]
    by_cases h : r = router
    · subst h
      simp [Wiring.inputOf, filterMap_cons]
    · simp [Wiring.inputOf, filterMap_cons, h]
  · by_cases h : net.nodeInRouter v = router
    · simp [attachNode, Wiring.inputOf, filterMap_cons, h]
    · simp [attachNode, Wiring.inputOf, filterMap_cons, h]

/-! ## The routing function points ahead -/

/-- Away from the destination's router, `dor_next_cknmesh` points towards it in the first
dimension where the positions differ. -/
theorem dorNextCknmesh_of_ne {cur dest : ℕ}
    (hne : net.routerIndex cur ≠ net.routerIndex (net.nodeInRouter dest)) :
    ∃ port < 2 * net.n, net.dorNextCknmesh cur dest false = port ∧
      Towards (net.routerIndex cur) (net.routerIndex (net.nodeInRouter dest)) port ∧
      ∀ i < port / 2, (net.routerIndex cur).getD i 0 =
        (net.routerIndex (net.nodeInRouter dest)).getD i 0 := by
  have hcur : cur ≠ net.nodeInRouter dest := fun h => hne (by rw [h])
  have hdiff : ∃ i < net.n, (net.routerIndex cur).getD i 0 ≠
      (net.routerIndex (net.nodeInRouter dest)).getD i 0 := by
    by_contra hall
    refine hne (ext_getElem (by simp [routerIndex]) fun i hi hi' => ?_)
    by_contra hi''
    refine hall ⟨i, by simpa [routerIndex, n] using hi, ?_⟩
    simpa [getD_eq_getElem?_getD, hi, hi'] using hi''
  classical
  obtain ⟨hn, hdim⟩ := Nat.find_spec hdiff
  have hmin : ∀ i < Nat.find hdiff, (net.routerIndex cur).getD i 0 =
      (net.routerIndex (net.nodeInRouter dest)).getD i 0 := by
    intro i hi
    have := Nat.find_min hdiff hi
    by_contra hne'
    exact this ⟨by omega, hne'⟩
  generalize hfirst : Nat.find hdiff = dim at *
  have hfind : (List.range net.n).find? (fun dim => (net.routerIndex cur).getD dim 0 ≠
      (net.routerIndex (net.nodeInRouter dest)).getD dim 0) = some dim := by
    rw [List.find?_range_eq_some]
    exact ⟨by simpa using hdim, by simpa using hn, fun i hi => by simpa using hmin i hi⟩
  simp only [dorNextCknmesh, if_neg hcur, Bool.false_eq_true, if_false, hfind, Option.getD_some]
  rcases Nat.lt_or_gt_of_ne hdim with h | h
  · have hhalf : 2 * dim / 2 = dim := by omega
    refine ⟨2 * dim, by omega, if_pos h, ?_, fun i hi => hmin i (by omega)⟩
    rwa [Towards, if_pos (by simp [toRight]), hhalf]
  · have hhalf : (2 * dim + 1) / 2 = dim := by omega
    refine ⟨2 * dim + 1, by omega, if_neg (Nat.not_lt_of_gt h), ?_, fun i hi => hmin i (by omega)⟩
    rwa [Towards, if_neg (by simp [toRight]), hhalf]

/-! ## The journey -/

section Follow

variable {net} {vcs : ClassVCs} {f : Flit} {vc : ℕ → ℤ}
  (hvc : ∀ router, vcs.gBeginVCs f.cl ≤ vc router ∧ vc router ≤ vcs.gEndVCs f.cl)

include hvc

theorem dimOrderCknmesh_eq (router : ℕ) :
    net.dimOrderCknmesh vcs router { f with vc := vc router } false =
      some (OutputSet.clear.addRange (net.dorNextCknmesh router f.dest false)
        (vcs.gBeginVCs f.cl) (vcs.gEndVCs f.cl) 0) := by
  have hadmits : vcs.Admits { f with vc := vc router } false := .inl (hvc router)
  simp [dimOrderCknmesh, hadmits]

theorem follow_of_eject {fuel router node port : ℕ}
    (hport : net.dorNextCknmesh router f.dest false = port)
    (hchan : net.wiring.channelAt router port = some (.eject node)) :
    net.follow vcs f vc (fuel + 1) router = some ⟨[], ⟨router, port⟩, node⟩ := by
  rw [follow, dimOrderCknmesh_eq hvc, hport]
  simp [hchan]

theorem follow_of_chan {fuel router port index next : ℕ}
    (hport : net.dorNextCknmesh router f.dest false = port)
    (hchan : net.wiring.channelAt router port = some (.chan index))
    (hsink : (net.wiring.sink (.chan index)).map Prod.fst = some next) :
    net.follow vcs f vc (fuel + 1) router = (net.follow vcs f vc fuel next).map fun rest =>
      { rest with hops := ⟨router, port⟩ :: rest.hops } := by
  obtain ⟨⟨next, p⟩, hsome, rfl⟩ := Option.map_eq_some_iff.mp hsink
  rw [follow, dimOrderCknmesh_eq hvc, hport]
  simp [hchan, hsome]

end Follow

/-- What one hop does: the port of the routing function leads to a router one step closer, in
the first dimension where the positions differ. -/
structure Approach (router dest port index next : ℕ) : Prop where
  port_eq : net.dorNextCknmesh router dest false = port
  channelAt : net.wiring.channelAt router port = some (.chan index)
  sink : (net.wiring.sink (.chan index)).map Prod.fst = some next
  next_lt : next < net.size
  distance : net.distance next dest + 1 = net.distance router dest
  no_wrap : ¬ net.WrapAround ⟨router, port⟩
  differs : (net.routerIndex router).getD (port / 2) 0 ≠
    (net.routerIndex (net.nodeInRouter dest)).getD (port / 2) 0
  agrees : ∀ i < port / 2, (net.routerIndex next).getD i 0 =
    (net.routerIndex (net.nodeInRouter dest)).getD i 0

theorem RouterPlaces.exists_approach {net : CKNCube} (hr : net.RouterPlaces) {router dest : ℕ}
    (hrouter : router < net.size)
    (hne : net.routerIndex router ≠ net.routerIndex (net.nodeInRouter dest)) :
    ∃ port index next, net.Approach router dest port index next := by
  obtain ⟨port, hlt, hport, hto, hagree⟩ := net.dorNextCknmesh_of_ne hne
  have hsink := hr.isGrid.sink_port hrouter net.input_chan hlt
  have hdest := hr.isGrid.getD_lt (net.nodeInRouter dest) (show port / 2 < net.n by omega)
  refine ⟨port, _, _, hport, net.channelAt_port hrouter hlt, congrArg (Option.map Prod.fst) hsink,
    hr.isGrid.next_lt hrouter hlt, hr.isGrid.closer hrouter hlt hto, ?_, ?_, fun i hi => ?_⟩
  · simp only [WrapAround, Hop.dim]
    simp only [Towards, toRight, decide_eq_true_eq] at hto
    split_ifs at hto <;> omega
  · unfold Towards at hto
    split_ifs at hto <;> omega
  · rw [hr.isGrid.getD_next_of_ne hrouter hlt (by omega), hagree i hi]

/-- The journey from a router whose position agrees with the destination's below `low`: no
hop moves in a dimension below `low`.  By induction on the distance. -/
theorem follow_of_agree {net : CKNCube} (hr : net.RouterPlaces) (ho : net.OffsetPlaces)
    {vcs : ClassVCs} {f : Flit} {vc : ℕ → ℤ}
    (hvc : ∀ router, vcs.gBeginVCs f.cl ≤ vc router ∧ vc router ≤ vcs.gEndVCs f.cl)
    (hdest : f.dest < net.nodes) : ∀ (m router low : ℕ), net.distance router f.dest = m →
    router < net.size →
    (∀ i < low, (net.routerIndex router).getD i 0 =
      (net.routerIndex (net.nodeInRouter f.dest)).getD i 0) →
    ∃ j, (∀ fuel > m, net.follow vcs f vc fuel router = some j) ∧ net.Direct router f.dest j ∧
      ∀ hop ∈ j.hops, low ≤ hop.dim := by
  have hconsistent := numberingConsistent_of_places hr ho
  have hrd : net.nodeInRouter f.dest < net.size := hconsistent.nodeInRouter_lt f.dest hdest
  intro m
  induction m with
  | zero =>
    intro router low hm hrouter _
    have hindex := eq_of_manhattan_eq_zero (by simp [routerIndex]) hm
    obtain rfl : router = net.nodeInRouter f.dest := by
      rw [← hr.indexToRouter_routerIndex hrouter, hindex, hr.indexToRouter_routerIndex hrd]
    have hport : net.dorNextCknmesh (net.nodeInRouter f.dest) f.dest false =
        2 * net.n + net.concentrationOffset f.dest := by simp [dorNextCknmesh]
    have hchan := net.channelAt_eject hr ho hdest
    refine ⟨⟨[], ⟨net.nodeInRouter f.dest, 2 * net.n + net.concentrationOffset f.dest⟩, f.dest⟩,
      fun fuel hfuel => ?_, ⟨hm.symm, by simp, by simp, rfl, hchan, rfl⟩, by simp⟩
    obtain ⟨fuel, rfl⟩ : ∃ k, fuel = k + 1 := ⟨fuel - 1, by omega⟩
    exact follow_of_eject hvc hport hchan
  | succ m ih =>
    intro router low hm hrouter hlow
    have hne : net.routerIndex router ≠ net.routerIndex (net.nodeInRouter f.dest) := by
      intro h
      rw [distance, h, manhattan_self] at hm
      omega
    obtain ⟨port, index, next, hhop⟩ := hr.exists_approach hrouter hne
    have hdist := hhop.distance
    obtain ⟨j, hfollow, hdirect, hdims⟩ := ih next (port / 2) (by omega) hhop.next_lt hhop.agrees
    have hlowport : low ≤ port / 2 := Nat.le_of_not_lt fun hlt => hhop.differs (hlow _ hlt)
    refine ⟨{ j with hops := ⟨router, port⟩ :: j.hops }, fun fuel hfuel => ?_, ?_, ?_⟩
    · obtain ⟨fuel, rfl⟩ : ∃ k, fuel = k + 1 := ⟨fuel - 1, by omega⟩
      rw [follow_of_chan hvc hhop.port_eq hhop.channelAt hhop.sink, hfollow fuel (by omega)]
      rfl
    · refine ⟨?_, ?_, ?_, hdirect.last_router, hdirect.last_port, hdirect.node⟩
      · simp [hdirect.length_hops, hdist]
      · simpa using ⟨hhop.no_wrap, hdirect.no_wrap⟩
      · rw [map_cons, pairwise_cons]
        refine ⟨fun d hd => ?_, hdirect.ascending⟩
        obtain ⟨hop, hop_mem, rfl⟩ := mem_map.mp hd
        exact hdims hop hop_mem
    · intro hop hmem
      rcases mem_cons.mp hmem with rfl | hmem
      · exact hlowport
      · exact hlowport.trans (hdims hop hmem)

theorem places_of_le_two (hn : net.n ≤ 2) : net.RouterPlaces ∧ net.OffsetPlaces := by
  constructor
  · intro dim h1 hlt _
    obtain rfl : dim = 1 := by omega
    cases hk : net.kVect with
    | nil => simp [n, hk] at hlt
    | cons k ks => simp
  · intro dim h1 hlt _
    obtain rfl : dim = 1 := by omega
    cases hc : net.cVect with
    | nil => simp [← length_cVect, hc] at hlt
    | cons c cs => simp

/-- **Delivery in the concentrated mesh.**  In one and two dimensions every flit that holds
VCs of its class reaches the ejection port of its destination, from every router: without
wrapping around, in as many hops as the routers are apart, one dimension after the other. -/
theorem follow_dimOrderCknmesh (hn : net.n ≤ 2) (vcs : ClassVCs) (f : Flit) (vc : ℕ → ℤ)
    (hvc : ∀ router, vcs.gBeginVCs f.cl ≤ vc router ∧ vc router ≤ vcs.gEndVCs f.cl)
    (router : ℕ) (hrouter : router < net.size) (hdest : f.dest < net.nodes) :
    ∃ j, (∀ fuel > net.distance router f.dest, net.follow vcs f vc fuel router = some j) ∧
      net.Direct router f.dest j := by
  obtain ⟨hr, ho⟩ := net.places_of_le_two hn
  obtain ⟨j, hfollow, hdirect, -⟩ := follow_of_agree hr ho hvc hdest _ router 0 rfl hrouter
    fun i hi => absurd hi (Nat.not_lt_zero i)
  exact ⟨j, hfollow, hdirect⟩

/-- A 3 by 2 mesh with 2 by 1 nodes per router. -/
def mesh32 : CKNCube := ⟨[3, 2], [2, 1], rfl, by decide, by decide, by decide⟩

/-- One class with four VCs. -/
def fourVCs : ClassVCs := ⟨fun _ => 0, fun _ => 3, 4, fun _ => by decide⟩

/-- A flit for node 11. -/
def toNode11 : Flit := { id := 0, pid := 0, cl := 0, src := 0, dest := 11 }

/-- From router 0, the router of node 11 is three hops away. -/
theorem follow_dimOrderCknmesh_mesh32 : mesh32.distance 0 toNode11.dest = 3 ∧
    ∃ j, (∀ fuel > mesh32.distance 0 toNode11.dest,
        mesh32.follow fourVCs toNode11 (fun _ => 1) fuel 0 = some j) ∧
      mesh32.Direct 0 toNode11.dest j :=
  ⟨by decide, mesh32.follow_dimOrderCknmesh (by decide) fourVCs toNode11 (fun _ => 1)
    (fun _ => ⟨by decide, by decide⟩) 0 (by decide) (by decide)⟩

end BookSim.CKNCube
