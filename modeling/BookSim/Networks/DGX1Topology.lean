/-
# DGX1Topology — the routers of DGX-1 machines and their links

A machine has 14 routers, in two planes of seven.  The routers of a plane are a binary tree
of buses, with a CPU at the root, two PCIe switches and four GPUs,

             0
          1     2            offset 14·i for one plane, 14·i + 7 for the other
         3 4   5 6

the GPUs are linked among each other inside their plane and to their place in the other
plane, and the two CPUs are linked.  The maps are those of an `AnyNet`, and so is the search
for the routing tables, `hypermesh_min_route`.

No link leaves its machine (`link_box`).  So with more than one machine there are routers
that no search can reach, and `routeLoops_iff` says of both kinds of network when the loop of
the search ends.
-/
import BookSim.Networks.AnyNetRoute

namespace BookSim.NVIDIADGX1

open List
open Dijkstra (Walk)

/-! ## Building the topology -/

/-- `BusLatency`. -/
inductive BusLatency where
  | pcieGen3x16
  | nvLinkV1
  | nvLinkV2
  | qpi
  deriving DecidableEq, Repr

/-- The value of a constant of `BusLatency`: the cycles of a flit. -/
def BusLatency.cycles : BusLatency → ℕ
  | .pcieGen3x16 => 16
  | .nvLinkV1 => 6
  | .nvLinkV2 => 2
  | .qpi => 1

/-- `version`. -/
inductive Version where
  | P100
  | V100
  deriving DecidableEq, Repr

/-- An assignment to an entry of a map. -/
structure Bus where
  src : ℕ
  dst : ℕ
  latency : BusLatency
  deriving DecidableEq, Repr

/-- The GPUs of the tree at an offset. -/
def treeGPUs (offset : ℕ) : List ℕ := [4, 5, 6, 7].map fun i => offset + i - 1

/-- The nodes that `_buildBinaryTree` attaches to their routers. -/
def treeNodes (offset : ℕ) : List Bus :=
  ⟨offset, offset, .pcieGen3x16⟩ ::
    ([2, 3].map fun i => ⟨offset + i - 1, offset + i - 1, .pcieGen3x16⟩) ++
    (treeGPUs offset).map fun gpu => ⟨gpu, gpu, .nvLinkV1⟩

/-- The links of `_buildBinaryTree`, in the order in which they are assigned. -/
def buildBinaryTree (offset : ℕ) : List Bus :=
  [⟨offset, offset + 1, .pcieGen3x16⟩, ⟨offset, offset + 2, .pcieGen3x16⟩] ++
    ([2, 3].flatMap fun i =>
      [⟨offset + i - 1, offset + i * 2 - 1, .pcieGen3x16⟩,
        ⟨offset + i - 1, offset + i * 2, .pcieGen3x16⟩,
        ⟨offset + i - 1, offset + i / 2 - 1, .pcieGen3x16⟩]) ++
    ([4, 5, 6, 7].map fun i => ⟨offset + i - 1, offset + i / 2 - 1, .pcieGen3x16⟩)

/-- The links of a GPU in `_buildHyperCube`. -/
def gpuLinks (v : Version) (gpu : ℕ) : List Bus :=
  let diagonal := if gpu / 7 = (gpu + 2) / 7 then gpu + 2 else gpu - 2
  let otherPlane := if gpu / 14 = (gpu + 7) / 14 then gpu + 7 else gpu - 7
  let left := if gpu / 7 = (gpu + 3) / 7 then gpu + 3 else gpu - 1
  let right := if gpu / 7 = (gpu + 1) / 7 then gpu + 1 else gpu - 3
  match v with
  | .P100 => [⟨gpu, diagonal, .nvLinkV1⟩, ⟨gpu, otherPlane, .nvLinkV1⟩, ⟨gpu, left, .nvLinkV1⟩,
      ⟨gpu, right, .nvLinkV1⟩]
  | .V100 =>
    ⟨gpu, diagonal, .nvLinkV1⟩ ::
    if gpu / 7 = (gpu + 2) / 7 then
      ⟨gpu, otherPlane, .nvLinkV2⟩ ::
      if gpu / 7 = (gpu + 3) / 7 then [⟨gpu, left, .nvLinkV2⟩, ⟨gpu, right, .nvLinkV1⟩]
      else [⟨gpu, left, .nvLinkV1⟩, ⟨gpu, right, .nvLinkV2⟩]
    else [⟨gpu, otherPlane, .nvLinkV1⟩, ⟨gpu, left, .nvLinkV2⟩, ⟨gpu, right, .nvLinkV2⟩]

/-- `GPU_node_list` after that many machines. -/
def gpuNodeList (n : ℕ) : List ℕ :=
  (List.range n).flatMap fun i => treeGPUs (i * 14) ++ treeGPUs (i * 14 + 7)

/-- The links of one machine.  `_buildHyperCube` runs over the GPUs of all machines so far. -/
def boxLinks (v : Version) (i : ℕ) : List Bus :=
  buildBinaryTree (i * 14) ++ buildBinaryTree (i * 14 + 7) ++
    (gpuNodeList (i + 1)).flatMap (gpuLinks v) ++
    [⟨i * 14, i * 14 + 7, .qpi⟩, ⟨i * 14 + 7, i * 14, .qpi⟩]

def allNodes (num_dgx1 : ℕ) : List Bus :=
  (List.range num_dgx1).flatMap fun i => treeNodes (i * 14) ++ treeNodes (i * 14 + 7)

def allLinks (v : Version) (num_dgx1 : ℕ) : List Bus :=
  (List.range num_dgx1).flatMap (boxLinks v)

/-- `node_list` and `router_list[NODE_ROUTER]`. -/
def assignNode (net : AnyNet) (b : Bus) : AnyNet :=
  { net with nodeList := net.nodeList.insert b.dst b.src }.setLink .node b.src b.dst
    ⟨-1, b.latency.cycles⟩

/-- `router_list[ROUTER_ROUTER]`. -/
def assignLink (net : AnyNet) (b : Bus) : AnyNet :=
  net.setLink .router b.src b.dst ⟨-1, b.latency.cycles⟩

/-- `_buildTopology`. -/
def buildTopology (v : Version) (num_dgx1 : ℕ) : AnyNet :=
  (allLinks v num_dgx1).foldl assignLink ((allNodes num_dgx1).foldl assignNode {})

/-! ## The links of a machine -/

/-- Every link of `_buildTopology` is in one machine. -/
def Bus.Within (n : ℕ) (b : Bus) : Prop := b.src < n * 14 ∧ b.src / 14 = b.dst / 14

theorem mem_gpuNodeList {n gpu : ℕ} : gpu ∈ gpuNodeList n ↔ gpu < n * 14 ∧ 3 ≤ gpu % 7 := by
  simp only [gpuNodeList, treeGPUs, mem_flatMap, mem_range, mem_append, mem_map,
    mem_cons, not_mem_nil, or_false]
  constructor
  · rintro ⟨i, hi, ⟨j, rfl | rfl | rfl | rfl, rfl⟩ | ⟨j, rfl | rfl | rfl | rfl, rfl⟩⟩ <;> omega
  · rintro ⟨hlt, hmod⟩
    refine ⟨gpu / 14, by omega, ?_⟩
    have hplane : gpu % 14 = gpu % 7 ∨ gpu % 14 = gpu % 7 + 7 := by omega
    rcases hplane with h | h
    · exact .inl ⟨gpu % 7 + 1, by omega, by omega⟩
    · exact .inr ⟨gpu % 7 + 1, by omega, by omega⟩

theorem within_tree {n offset : ℕ} (h7 : offset % 7 = 0) (h : offset + 7 ≤ n * 14) {b : Bus}
    (hb : b ∈ buildBinaryTree offset) : b.Within n := by
  simp only [buildBinaryTree, mem_append, mem_cons, mem_flatMap, mem_map,
    not_mem_nil, or_false, exists_eq_or_imp, exists_eq_left] at hb
  unfold Bus.Within
  rcases hb with ((rfl | rfl) | (rfl | rfl | rfl) | (rfl | rfl | rfl)) | rfl | rfl | rfl | rfl <;>
    dsimp only <;> omega

theorem within_gpu {n gpu : ℕ} {v : Version} (hgpu : gpu ∈ gpuNodeList n) {b : Bus}
    (hb : b ∈ gpuLinks v gpu) : b.Within n := by
  obtain ⟨hlt, hmod⟩ := mem_gpuNodeList.mp hgpu
  unfold Bus.Within
  cases v <;> simp only [gpuLinks] at hb <;> grind

theorem within_allLinks {v : Version} {n : ℕ} {b : Bus} (hb : b ∈ allLinks v n) : b.Within n := by
  obtain ⟨i, hi, hb⟩ := mem_flatMap.mp hb
  rw [mem_range] at hi
  simp only [boxLinks, mem_append, mem_flatMap, mem_cons, not_mem_nil, or_false] at hb
  rcases hb with ((hb | hb) | ⟨gpu, hgpu, hb⟩) | rfl | rfl
  · exact within_tree (by omega) (by omega) hb
  · exact within_tree (by omega) (by omega) hb
  · obtain ⟨hlt, hmod⟩ := mem_gpuNodeList.mp hgpu
    exact within_gpu (mem_gpuNodeList.mpr ⟨by omega, hmod⟩) hb
  · unfold Bus.Within
    dsimp only
    omega
  · unfold Bus.Within
    dsimp only
    omega

/-! ## The maps -/

/-- `f` writes an entry of map `t`. -/
structure Assigns (t : ParseType) (f : AnyNet → Bus → AnyNet) : Prop where
  link? : ∀ net w a b, (f net w).link? t a b =
    if a = w.src ∧ b = w.dst then some ⟨-1, w.latency.cycles⟩ else net.link? t a b
  listed : ∀ net w r, (f net w).Listed t r ↔ r = w.src ∨ net.Listed t r

theorem assigns_assignLink : Assigns .router assignLink where
  link? net w a b := by
    rw [assignLink, AnyNet.link?_setLink]
    simp only [true_and]
  listed net w r := by
    rw [assignLink, AnyNet.listed_setLink]
    simp only [true_and]

theorem assigns_assignNode : Assigns .node assignNode where
  link? net w a b := by
    rw [assignNode, AnyNet.link?_setLink]
    simp only [true_and]
    rfl
  listed net w r := by
    rw [assignNode, AnyNet.listed_setLink]
    simp only [true_and]
    rfl

section Assigned

variable {t : ParseType} {f : AnyNet → Bus → AnyNet} (hf : Assigns t f)

include hf

theorem isSome_link?_foldl {a b : ℕ} : ∀ (ws : List Bus) (net : AnyNet),
    ((ws.foldl f net).link? t a b).isSome ↔
      (∃ w ∈ ws, w.src = a ∧ w.dst = b) ∨ (net.link? t a b).isSome
  | [], net => by simp
  | w :: ws, net => by
    rw [foldl_cons, isSome_link?_foldl ws, hf.link?]
    by_cases hw : a = w.src ∧ b = w.dst
    · simp [hw]
    · have hne : ¬ (w.src = a ∧ w.dst = b) := fun h => hw ⟨h.1.symm, h.2.symm⟩
      simp [hw, hne]

theorem listed_foldl {r : ℕ} : ∀ (ws : List Bus) (net : AnyNet),
    (ws.foldl f net).Listed t r ↔ (∃ w ∈ ws, w.src = r) ∨ net.Listed t r
  | [], net => by simp
  | w :: ws, net => by
    rw [foldl_cons, listed_foldl ws, hf.listed]
    simp only [mem_cons, exists_eq_or_imp]
    rw [eq_comm, or_assoc, or_left_comm]

end Assigned

theorem routerList_foldl_assignNode : ∀ (ws : List Bus) (net : AnyNet),
    (ws.foldl assignNode net).routerList .router = net.routerList .router
  | [], _ => rfl
  | w :: ws, net => by
    rw [foldl_cons, routerList_foldl_assignNode ws]
    rfl

section Topology

variable {v : Version} {n a b : ℕ}

theorem link_box (h : ((buildTopology v n).link? .router a b).isSome) : a / 14 = b / 14 := by
  rw [buildTopology, isSome_link?_foldl assigns_assignLink] at h
  rcases h with ⟨w, hw, rfl, rfl⟩ | h
  · exact (within_allLinks hw).2
  · rw [AnyNet.link?, routerList_foldl_assignNode] at h
    cases h

theorem exists_link {r : ℕ} (hr : r < n * 14) : ∃ w ∈ allLinks v n, w.src = r := by
  have htree : r ∈ (buildBinaryTree (r / 7 * 7)).map Bus.src := by
    change r ∈ [r / 7 * 7, _, _, r / 7 * 7 + 1, _, _, r / 7 * 7 + 2, _, r / 7 * 7 + 3,
      r / 7 * 7 + 4, r / 7 * 7 + 5, r / 7 * 7 + 6]
    simp only [mem_cons]
    omega
  obtain ⟨w, hw, rfl⟩ := mem_map.mp htree
  refine ⟨w, mem_flatMap.mpr ⟨w.src / 14, mem_range.mpr (by omega), ?_⟩, rfl⟩
  simp only [boxLinks, mem_append]
  have hplane : w.src / 7 * 7 = w.src / 14 * 14 ∨ w.src / 7 * 7 = w.src / 14 * 14 + 7 := by omega
  rcases hplane with h | h
  · exact .inl (.inl (.inl (h ▸ hw)))
  · exact .inl (.inl (.inr (h ▸ hw)))

theorem listed_buildTopology {r : ℕ} : (buildTopology v n).Listed .router r ↔ r < n * 14 := by
  rw [buildTopology, listed_foldl assigns_assignLink, AnyNet.Listed, routerList_foldl_assignNode]
  constructor
  · rintro (⟨w, hw, rfl⟩ | h)
    · exact (within_allLinks hw).1
    · cases h
  · exact fun hr => .inl (exists_link hr)

theorem size_buildTopology : (buildTopology v n).size = n * 14 := by
  have hkeys := OrdMap.keys_eq_range fun r => @listed_buildTopology v n r
  rw [AnyNet.size, OrdMap.size, ← length_map, ← OrdMap.keys, hkeys, length_range]

theorem walk_box {d : ℤ} (h : Walk (buildTopology v n).adj a b d) : a / 14 = b / 14 := by
  induction h with
  | nil => rfl
  | snoc _ he ih =>
    obtain ⟨l, hl, -⟩ := AnyNet.mem_adj_iff.mp he
    exact ih.trans (link_box (Option.isSome_of_eq_some hl))

end Topology

/-! ## When the loops end -/

theorem search_single (v : Version) : ∀ gpu ∈ gpuNodeList 1,
    ((buildTopology v 1).search gpu (buildTopology v 1).size).rlist = [] := by
  cases v <;> decide +kernel

theorem hypermesh_ends_iff {v : Version} {n gpu : ℕ} (hn : 1 ≤ n) (hgpu : gpu ∈ gpuNodeList n) :
    (buildTopology v n).RouteEnds gpu ↔ n = 1 := by
  constructor
  · intro hends
    by_contra hne
    -- Some router of the first or of the second machine is not in the machine of the GPU.
    obtain ⟨r, hr, hother⟩ : ∃ r < n * 14, gpu / 14 ≠ r / 14 := by
      by_cases hfirst : gpu / 14 = 0
      · exact ⟨14, by omega, by omega⟩
      · exact ⟨0, by omega, by omega⟩
    rw [← @size_buildTopology v n] at hr
    exact Dijkstra.not_ends AnyNet.intMax_pos hr (fun _ hwalk => hother (walk_box hwalk)) hends
  · rintro rfl
    exact Dijkstra.ends_iff_run.mpr (search_single v gpu hgpu)

/-- What the loop of `route(r_start)` needs to end: arrays that have a place for every router, and
that a latency of 0 is reported before, or that sums are true sums and every router is at a distance
below the largest `int`. -/
structure Reaches (net : AnyNet) (rStart : ℕ) : Prop where
  numbered : net.Numbered
  reached : (∃ t a b l, net.link? t a b = some l ∧ l.lat = 0) ∨ net.SumsFit rStart ∧
    ∀ v < net.size, ∃ d < AnyNet.intMax, Walk net.adj rStart v d

/-- **When the searches for the routing tables end.**  On any network that `readFile` could leave:
if `Reaches` holds, and with routers from 0 on and sums that fit only then.  On machines of DGX-1:
if there is only one. -/
theorem routeLoops_iff (net : AnyNet) (r : ℕ) (hr : r < net.size) (v : Version)
    (num_dgx1 : ℕ) (hnum : 1 ≤ num_dgx1) (gpu : ℕ) (hgpu : gpu ∈ gpuNodeList num_dgx1) :
    (Reaches net r → ∀ built, net.buildNet = .ok built → built.net.RouteEnds r) ∧
    (net.Numbered → net.SumsFit r → (∀ built, net.buildNet = .ok built → built.net.RouteEnds r) →
      Reaches net r) ∧
    ((buildTopology v num_dgx1).RouteEnds gpu ↔ num_dgx1 = 1) := by
  refine ⟨?_, fun hnet hsums h => ⟨hnet, ?_⟩, hypermesh_ends_iff hnum hgpu⟩
  · rintro ⟨hnet, hzero | ⟨hsums, hreached⟩⟩ built hbuild
    · obtain ⟨e, he⟩ := (AnyNet.buildNet_eq_error_iff hnet).mpr hzero
      cases he.symm.trans hbuild
    · rw [AnyNet.net_of_buildNet hbuild, AnyNet.routeEnds_numberPorts]
      exact (AnyNet.routeEnds_iff hnet hr hsums).mpr hreached
  · rw [← AnyNet.buildNet_eq_error_iff hnet]
    cases hbuild : net.buildNet with
    | error e => exact .inl ⟨e, rfl⟩
    | ok built =>
      have hends := h built hbuild
      rw [AnyNet.net_of_buildNet hbuild, AnyNet.routeEnds_numberPorts] at hends
      exact .inr ⟨hsums, (AnyNet.routeEnds_iff hnet hr hsums).mp hends⟩

/-- The file with the lines `router 0 router 1 15 node 0` and `router 1 node 1`, and one machine. -/
theorem routeLoops_end : ∃ net, AnyNet.readFile [[.router, .number 0, .router, .number 1,
      .number 15, .node, .number 0], [.router, .number 1, .node, .number 1]] = .ok net ∧
    (∀ built, net.buildNet = .ok built → built.net.RouteEnds 0) ∧
    (buildTopology .V100 1).RouteEnds 3 := by
  have hpair : (AnyNet.pairNet 15 1).Routable := AnyNet.routable_pairNet (by decide) (by decide)
    (by decide)
  obtain ⟨hends, -, hdgx⟩ := routeLoops_iff (AnyNet.pairNet 15 1) 0 (by decide) .V100 1 le_rfl 3
    (by decide)
  refine ⟨AnyNet.pairNet 15 1, ?_, hends ⟨hpair.toNumbered, .inr ⟨hpair.sums 0 (by decide),
    hpair.reach 0 (by decide)⟩⟩, hdgx.mpr rfl⟩
  refine congrArg Except.ok (congrArg (AnyNet.mk _) (funext fun t => ?_))
  cases t <;> rfl

/-- `router 0 node 0` and `router 1 node 1`. -/
def apart : List (List Token) :=
  [[.router, .number 0, .node, .number 0], [.router, .number 1, .node, .number 1]]

/-- Two routers without a link are accepted, and so are two machines; neither search ends. -/
theorem routeLoops_endless : (∃ net built, AnyNet.readFile apart = .ok net ∧ net.size = 2 ∧
      net.buildNet = .ok built ∧ ¬ built.net.RouteEnds 0) ∧
    ¬ (buildTopology .V100 2).RouteEnds 3 := by
  refine ⟨⟨_, _, rfl, rfl, rfl, ?_⟩, fun h => ?_⟩
  · rw [AnyNet.RouteEnds, Dijkstra.ends_iff_run]
    decide
  · have hgpu : 3 ∈ gpuNodeList 2 := by decide
    exact absurd ((hypermesh_ends_iff (by decide) hgpu).mp h) (by decide)

end BookSim.NVIDIADGX1
