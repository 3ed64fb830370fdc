/-
# CKNCube — the numbering of routers and nodes

`networks/ckncube.cpp` builds the concentrated mesh and torus.  Routers form an
`n`-dimensional grid with radix `k[dim]` in dimension `dim`, and each router serves a grid
of `c[0] · c[1] · …` nodes.  Three functions turn grid positions into numbers, each with
place values of its own:

    NodeIndex, RouterIndex     repeated division, so the products of the radices before
    IndexToRouter              k[dim-1] to the power dim
    ConcentrationOffset        c[dim-1]

`NumberingConsistent` says what the rest of the network relies on, and
`numberingConsistent_iff` says for which shapes these place values deliver it: in every
dimension that has more than one position they have to be the product of the radices
before.  That holds in one and two dimensions; for `k = (2, 3, 2)` it does not.
-/
import Mathlib.Data.List.Sort
import BookSim.Lib.MixedRadix

namespace BookSim

open List MixedRadix

/-- The shape `CKNCube::_ComputeSize` accepts: one radix and one concentration for each
dimension, none of them zero. -/
structure CKNCube where
  /-- The radix of each dimension (`_kVect`, `gKvector`). -/
  kVect : List ℕ
  /-- The concentration in each dimension (`_cVect`, `gCvector`). -/
  cVect : List ℕ
  length_eq : kVect.length = cVect.length
  length_pos : 0 < kVect.length
  kVect_pos : ∀ k ∈ kVect, 0 < k
  cVect_pos : ∀ c ∈ cVect, 0 < c

namespace CKNCube

variable (net : CKNCube)

/-! ## The source's functions -/

/-- The number of dimensions. -/
def n : ℕ := net.kVect.length

/-- The number of nodes of one router. -/
def c : ℕ := net.cVect.prod

/-- The number of routers. -/
def size : ℕ := net.kVect.prod

def nodes : ℕ := net.size * net.c

/-- `RouterIndex`: the grid position of a router. -/
def routerIndex (router : ℕ) : List ℕ := digits net.kVect router

/-- `NodeIndex`: the grid position of a node, over the radices `k[dim] * c[dim]`. -/
def nodeIndex (node : ℕ) : List ℕ := digits (List.zipWith (· * ·) net.kVect net.cVect) node

/-- `IndexToRouter`: the loop over the dimensions from the second on. -/
def indexToRouter (routerIndex : List ℕ) : ℕ :=
  (List.range' 1 (net.n - 1)).foldl
    (fun routerId dim => routerId + net.kVect.getD (dim - 1) 0 ^ dim * routerIndex.getD dim 0)
    (routerIndex.getD 0 0)

/-- `NodeInRouter`: the router a node is attached to. -/
def nodeInRouter (node : ℕ) : ℕ :=
  net.indexToRouter (List.zipWith (· / ·) (net.nodeIndex node) net.cVect)

/-- `ConcentrationOffset`: the position of a node among the nodes of its router. -/
def concentrationOffset (node : ℕ) : ℕ :=
  let nodeIndex := net.nodeIndex node
  (List.range' 1 (net.n - 1)).foldl (fun offset dim =>
      offset + net.cVect.getD (dim - 1) 0 * (nodeIndex.getD dim 0 % net.cVect.getD dim 0))
    (nodeIndex.getD 0 0 % net.cVect.getD 0 0)

/-! ## What the numbering is for -/

/-- The nodes attached to a router. -/
def nodesOf (router : ℕ) : Set ℕ := {node | node < net.nodes ∧ net.nodeInRouter node = router}

/-- The three numberings fit together: positions and router numbers are inverse to each
other, the nodes are spread evenly over the routers, and the offset of a node is its rank
among the nodes of its router. -/
structure NumberingConsistent : Prop where
  indexToRouter_routerIndex : ∀ router < net.size,
    net.indexToRouter (net.routerIndex router) = router
  routerIndex_indexToRouter : ∀ index, Fits net.kVect index →
    net.indexToRouter index < net.size ∧ net.routerIndex (net.indexToRouter index) = index
  nodeInRouter_lt : ∀ node < net.nodes, net.nodeInRouter node < net.size
  card_nodesOf : ∀ router < net.size,
    ((List.range net.nodes).filter fun node => net.nodeInRouter node = router).length = net.c
  offset_bijOn : ∀ router < net.size,
    Set.BijOn net.concentrationOffset (net.nodesOf router) (Set.Iio net.c)
  offset_strictMonoOn : ∀ router < net.size,
    StrictMonoOn net.concentrationOffset (net.nodesOf router)

/-- The place values of `IndexToRouter` are those of `RouterIndex`, where it matters. -/
def RouterPlaces : Prop :=
  ∀ dim, 1 ≤ dim → dim < net.n → 2 ≤ net.kVect.getD dim 0 →
    net.kVect.getD (dim - 1) 0 ^ dim = (net.kVect.take dim).prod

/-- The place values of `ConcentrationOffset` number the nodes of a router without gaps,
where it matters. -/
def OffsetPlaces : Prop :=
  ∀ dim, 1 ≤ dim → dim < net.n → 2 ≤ net.cVect.getD dim 0 →
    net.cVect.getD (dim - 1) 0 = (net.cVect.take dim).prod

instance : Decidable net.RouterPlaces :=
  decidable_of_iff (∀ dim < net.n, 1 ≤ dim → 2 ≤ net.kVect.getD dim 0 →
    net.kVect.getD (dim - 1) 0 ^ dim = (net.kVect.take dim).prod)
    ⟨fun h dim h1 hn => h dim hn h1, fun h dim hn h1 => h dim h1 hn⟩

instance : Decidable net.OffsetPlaces :=
  decidable_of_iff (∀ dim < net.n, 1 ≤ dim → 2 ≤ net.cVect.getD dim 0 →
    net.cVect.getD (dim - 1) 0 = (net.cVect.take dim).prod)
    ⟨fun h dim h1 hn => h dim hn h1, fun h dim hn h1 => h dim h1 hn⟩

/-! ## The loops as weighted sums -/

theorem length_cVect : net.cVect.length = net.n := net.length_eq.symm

/-- The place values `ConcentrationOffset` uses. -/
def offsetPlace (dim : ℕ) : ℕ := if dim = 0 then 1 else net.cVect.getD (dim - 1) 0

theorem foldl_places_eq {w w' : ℕ → ℕ} {ds : List ℕ} (hlen : ds.length = net.n) (h0 : w' 0 = 1)
    (hw : ∀ dim, 1 ≤ dim → w dim = w' dim) :
    (List.range' 1 (net.n - 1)).foldl (fun acc dim => acc + w dim * ds.getD dim 0) (ds.getD 0 0)
      = weighted w' ds := by
  obtain ⟨d, es, rfl⟩ : ∃ d es, ds = d :: es :=
    exists_cons_of_length_pos (by rw [hlen]; exact net.length_pos)
  have hes : net.n - 1 = es.length := by rw [← hlen]; simp
  rw [hes, foldl_range'_weighted w (d :: es) es 1 _ rfl, weighted, h0, Nat.one_mul, getD_cons_zero]
  congr 2
  exact funext fun i => by rw [hw (1 + i) (by omega), Nat.add_comm]

theorem indexToRouter_eq_weighted {index : List ℕ} (h : index.length = net.n) :
    net.indexToRouter index = weighted (fun dim => net.kVect.getD (dim - 1) 0 ^ dim) index :=
  net.foldl_places_eq h (Nat.pow_zero _) fun _ _ => rfl

theorem getD_zipWith_mod {xs ys : List ℕ} (h : xs.length = ys.length) (i : ℕ) :
    (List.zipWith (· % ·) xs ys).getD i 0 = xs.getD i 0 % ys.getD i 0 := by
  rcases Nat.lt_or_ge i xs.length with hi | hi
  · simp [getD_eq_getElem?_getD, hi, h ▸ hi]
  · simp [getD_eq_getElem?_getD, hi, h ▸ hi]

theorem length_nodeIndex (node : ℕ) : (net.nodeIndex node).length = net.n := by
  simp [nodeIndex, n, net.length_eq]

theorem concentrationOffset_eq_weighted (node : ℕ) : net.concentrationOffset node =
      weighted net.offsetPlace (List.zipWith (· % ·) (net.nodeIndex node) net.cVect) := by
  have hlen : (net.nodeIndex node).length = net.cVect.length := by
    rw [length_nodeIndex, length_cVect]
  have hlen' : (List.zipWith (· % ·) (net.nodeIndex node) net.cVect).length = net.n := by
    simp [length_nodeIndex, length_cVect]
  rw [← net.foldl_places_eq (w := fun dim => net.cVect.getD (dim - 1) 0) hlen' rfl
    fun dim h => by simp [offsetPlace, Nat.ne_of_gt h]]
  simp only [concentrationOffset, getD_zipWith_mod hlen]

/-! ## When the place values are right -/

theorem indexToRouter_eq_value_iff :
    (∀ index, Fits net.kVect index → net.indexToRouter index = value net.kVect index) ↔
      net.RouterPlaces := by
  have hplaces := weighted_eq_value_iff net.kVect_pos fun dim => net.kVect.getD (dim - 1) 0 ^ dim
  constructor
  · intro h dim _ hn hk
    refine hplaces.mp (fun index hfits => ?_) dim hn hk
    rw [← net.indexToRouter_eq_weighted hfits.length_eq, h index hfits]
  · intro h index hfits
    rw [net.indexToRouter_eq_weighted hfits.length_eq]
    refine hplaces.mpr (fun dim hn hk => ?_) index hfits
    cases dim with
    | zero => simp
    | succ dim => exact h (dim + 1) (by omega) hn hk

theorem weighted_offsetPlace_iff :
    (∀ offs, Fits net.cVect offs → weighted net.offsetPlace offs = value net.cVect offs) ↔
      net.OffsetPlaces := by
  rw [weighted_eq_value_iff net.cVect_pos, length_cVect]
  constructor
  · intro h dim h1 hn hc
    rw [← h dim hn hc, offsetPlace, if_neg (by omega)]
  · intro h dim hn hc
    cases dim with
    | zero => simp [offsetPlace]
    | succ dim => exact h (dim + 1) (by omega) hn hc

/-! ## The nodes of a router

`nodeOf r o` is the node at the `o`-th position inside router `r`. -/

def nodeOf (router off : ℕ) : ℕ := point net.kVect net.cVect router off

theorem nodeOf_lt (router off : ℕ) : net.nodeOf router off < net.nodes :=
  point_lt net.length_eq net.kVect_pos net.cVect_pos router off

theorem nodeOf_lt_nodeOf_iff (router : ℕ) {off off' : ℕ} (h : off < net.c) (h' : off' < net.c) :
    net.nodeOf router off < net.nodeOf router off' ↔ off < off' :=
  point_lt_point_iff net.length_eq net.kVect_pos net.cVect_pos router h h'

theorem exists_nodeOf {node : ℕ} (h : node < net.nodes) :
    ∃ router < net.size, ∃ off < net.c, node = net.nodeOf router off :=
  exists_point net.length_eq net.kVect_pos net.cVect_pos h

theorem nodeIndex_nodeOf (router off : ℕ) : net.nodeIndex (net.nodeOf router off) =
      pair net.cVect (net.routerIndex router) (digits net.cVect off) :=
  digits_point net.kVect_pos net.cVect_pos router off

theorem nodeInRouter_nodeOf (router off : ℕ) :
    net.nodeInRouter (net.nodeOf router off) = net.indexToRouter (net.routerIndex router) := by
  rw [nodeInRouter, nodeIndex_nodeOf]
  exact congrArg net.indexToRouter
    (div_pair net.length_eq (fits_digits net.kVect_pos router) (fits_digits net.cVect_pos off))

theorem concentrationOffset_nodeOf (router off : ℕ) :
    net.concentrationOffset (net.nodeOf router off) =
      weighted net.offsetPlace (digits net.cVect off) := by
  rw [concentrationOffset_eq_weighted, nodeIndex_nodeOf]
  exact congrArg (weighted net.offsetPlace)
    (mod_pair net.length_eq (fits_digits net.kVect_pos router) (fits_digits net.cVect_pos off))

section RightPlaces

variable {net}

theorem fits_routerIndex (router : ℕ) : Fits net.kVect (net.routerIndex router) :=
  fits_digits net.kVect_pos router

theorem RouterPlaces.indexToRouter_eq (hr : net.RouterPlaces) {index : List ℕ}
    (h : Fits net.kVect index) : net.indexToRouter index = value net.kVect index :=
  net.indexToRouter_eq_value_iff.mpr hr index h

theorem RouterPlaces.indexToRouter_routerIndex (hr : net.RouterPlaces) {router : ℕ}
    (h : router < net.size) : net.indexToRouter (net.routerIndex router) = router := by
  rw [hr.indexToRouter_eq (fits_routerIndex router)]
  exact value_digits h

theorem RouterPlaces.routerIndex_indexToRouter (hr : net.RouterPlaces) {index : List ℕ}
    (h : Fits net.kVect index) :
    net.indexToRouter index < net.size ∧ net.routerIndex (net.indexToRouter index) = index := by
  rw [hr.indexToRouter_eq h]
  exact ⟨value_lt h, digits_value h⟩

theorem RouterPlaces.nodeInRouter_nodeOf (hr : net.RouterPlaces) {router : ℕ}
    (h : router < net.size) (off : ℕ) : net.nodeInRouter (net.nodeOf router off) = router := by
  rw [net.nodeInRouter_nodeOf, hr.indexToRouter_routerIndex h]

theorem OffsetPlaces.concentrationOffset_nodeOf (ho : net.OffsetPlaces) (router : ℕ) {off : ℕ}
    (h : off < net.c) : net.concentrationOffset (net.nodeOf router off) = off := by
  rw [net.concentrationOffset_nodeOf,
    net.weighted_offsetPlace_iff.mpr ho _ (fits_digits net.cVect_pos off)]
  exact value_digits h

theorem RouterPlaces.mem_nodesOf_iff (hr : net.RouterPlaces) {router node : ℕ}
    (h : router < net.size) :
    node ∈ net.nodesOf router ↔ ∃ off < net.c, node = net.nodeOf router off := by
  constructor
  · rintro ⟨hnode, hrouter⟩
    obtain ⟨r, hlt, off, hoff, rfl⟩ := net.exists_nodeOf hnode
    rw [hr.nodeInRouter_nodeOf hlt] at hrouter
    exact ⟨off, hoff, by rw [hrouter]⟩
  · rintro ⟨off, -, rfl⟩
    exact ⟨net.nodeOf_lt _ _, hr.nodeInRouter_nodeOf h off⟩

theorem RouterPlaces.filter_nodes_eq (hr : net.RouterPlaces) {router : ℕ} (h : router < net.size) :
    (List.range net.nodes).filter (fun node => net.nodeInRouter node = router) =
      (List.range net.c).map (net.nodeOf router) := by
  have hsorted : ((List.range net.nodes).filter
      fun node => net.nodeInRouter node = router).Pairwise (· < ·) :=
    pairwise_lt_range.filter _
  have hsorted' : ((List.range net.c).map (net.nodeOf router)).Pairwise (· < ·) := by
    rw [pairwise_map]
    refine pairwise_lt_range.imp_of_mem fun {a b} ha hb hab => ?_
    exact (net.nodeOf_lt_nodeOf_iff router (mem_range.mp ha) (mem_range.mp hb)).mpr hab
  refine hsorted.eq_of_mem_iff hsorted' fun node => ?_
  have hmem : node < net.nodes ∧ net.nodeInRouter node = router ↔ _ := hr.mem_nodesOf_iff h
  simp only [mem_filter, mem_range, decide_eq_true_eq, hmem, mem_map]
  exact exists_congr fun off => and_congr_right fun _ => eq_comm

theorem numberingConsistent_of_places (hr : net.RouterPlaces) (ho : net.OffsetPlaces) :
    net.NumberingConsistent where
  indexToRouter_routerIndex _ h := hr.indexToRouter_routerIndex h
  routerIndex_indexToRouter _ h := hr.routerIndex_indexToRouter h
  nodeInRouter_lt node h := by
    obtain ⟨router, hlt, off, -, rfl⟩ := net.exists_nodeOf h
    rwa [hr.nodeInRouter_nodeOf hlt]
  card_nodesOf router h := by rw [hr.filter_nodes_eq h, length_map, length_range]
  offset_bijOn router h := by
    refine ⟨fun node hnode => ?_, fun node hnode node' hnode' heq => ?_, fun off hoff => ?_⟩
    · obtain ⟨off, hoff, rfl⟩ := (hr.mem_nodesOf_iff h).mp hnode
      rwa [ho.concentrationOffset_nodeOf router hoff]
    · obtain ⟨off, hoff, rfl⟩ := (hr.mem_nodesOf_iff h).mp hnode
      obtain ⟨off', hoff', rfl⟩ := (hr.mem_nodesOf_iff h).mp hnode'
      rw [ho.concentrationOffset_nodeOf router hoff,
        ho.concentrationOffset_nodeOf router hoff'] at heq
      rw [heq]
    · exact ⟨net.nodeOf router off, (hr.mem_nodesOf_iff h).mpr ⟨off, hoff, rfl⟩,
        ho.concentrationOffset_nodeOf router hoff⟩
  offset_strictMonoOn router h node hnode node' hnode' hlt := by
    obtain ⟨off, hoff, rfl⟩ := (hr.mem_nodesOf_iff h).mp hnode
    obtain ⟨off', hoff', rfl⟩ := (hr.mem_nodesOf_iff h).mp hnode'
    rw [ho.concentrationOffset_nodeOf router hoff, ho.concentrationOffset_nodeOf router hoff']
    exact (net.nodeOf_lt_nodeOf_iff router hoff hoff').mp hlt

theorem NumberingConsistent.routerPlaces (h : net.NumberingConsistent) : net.RouterPlaces := by
  refine net.indexToRouter_eq_value_iff.mp fun index hfits => ?_
  have hinv := h.indexToRouter_routerIndex (value net.kVect index) (value_lt hfits)
  rwa [routerIndex, digits_value hfits] at hinv

theorem NumberingConsistent.offsetPlaces (h : net.NumberingConsistent) : net.OffsetPlaces := by
  have hr := h.routerPlaces
  have hzero : 0 < net.size := Nat.zero_lt_of_lt (value_lt (fits_routerIndex 0))
  have hmem : ∀ off < net.c, net.nodeOf 0 off ∈ net.nodesOf 0 := fun off hoff =>
    (hr.mem_nodesOf_iff hzero).mpr ⟨off, hoff, rfl⟩
  -- Along the nodes of router 0 the offset is an order-preserving map of `[0, c)` to itself.
  have hrank : ∀ off < net.c, net.concentrationOffset (net.nodeOf 0 off) = off := by
    intro off hoff
    refine eq_self_of_strictMonoOn (f := fun off => net.concentrationOffset (net.nodeOf 0 off))
      (m := net.c) (fun a ha b hb hab => ?_) (fun a ha => ?_) hoff
    · exact h.offset_strictMonoOn 0 hzero (hmem a ha) (hmem b hb)
        ((net.nodeOf_lt_nodeOf_iff 0 ha hb).mpr hab)
    · exact (h.offset_bijOn 0 hzero).mapsTo (hmem a ha)
  refine net.weighted_offsetPlace_iff.mp fun offs hfits => ?_
  have hoff := hrank (value net.cVect offs) (value_lt hfits)
  rwa [net.concentrationOffset_nodeOf, digits_value hfits] at hoff

end RightPlaces

/-- **The numbering of a `CKNCube` is consistent exactly for the shapes whose place values
are the products of the radices before them.** -/
theorem numberingConsistent_iff : net.NumberingConsistent ↔ net.RouterPlaces ∧ net.OffsetPlaces :=
  ⟨fun h => ⟨h.routerPlaces, h.offsetPlaces⟩, fun ⟨hr, ho⟩ => numberingConsistent_of_places hr ho⟩

/-- A mesh of 2 by 3 by 2 routers with one node each. -/
def cube232 : CKNCube := ⟨[2, 3, 2], [1, 1, 1], rfl, by decide, by decide, by decide⟩

/-- Router 6 of that mesh is at position `(0, 0, 1)`, for which `IndexToRouter` gives 9. -/
theorem cube232_not_consistent :
    cube232.routerIndex 6 = [0, 0, 1] ∧ cube232.indexToRouter [0, 0, 1] = 9 ∧
      ¬ cube232.NumberingConsistent := by
  refine ⟨by decide, by decide, fun h => ?_⟩
  have hinv := h.indexToRouter_routerIndex 6 (by decide)
  exact absurd hinv (by decide)

end CKNCube

end BookSim
