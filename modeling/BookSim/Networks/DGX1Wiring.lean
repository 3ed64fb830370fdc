/-
# DGX1Wiring — the wires of DGX-1 machines are consistent

The machines are copies of the first one, 14 routers further each (`mem_allLinks`).  So what
has to be looked up in the tables of one machine, that a link has the same bus in both
directions, is looked up in those of the first, and holds for all of them:

    flip_mem_allLinks    every assignment is made in the other direction too
    latency_unique       and two assignments to one entry agree
    lat?_symm            so the bus of a link is the bus of the way back

With that the loops of `DGX1Lanes` give a network as it should be (`LanesConsistent`).
-/
import BookSim.Networks.DGX1Lanes

namespace BookSim.NVIDIADGX1

open List

/-! ## Machines as copies of the first one -/

def Bus.shift (k : ℕ) (b : Bus) : Bus := ⟨b.src + k, b.dst + k, b.latency⟩

def Bus.flip (b : Bus) : Bus := ⟨b.dst, b.src, b.latency⟩

/-- The links of machine `i`, without those of the machines before it. -/
def machineLinks (v : Version) (i : ℕ) : List Bus :=
  buildBinaryTree (i * 14) ++ buildBinaryTree (i * 14 + 7) ++
    (treeGPUs (i * 14) ++ treeGPUs (i * 14 + 7)).flatMap (gpuLinks v) ++
    [⟨i * 14, i * 14 + 7, .qpi⟩, ⟨i * 14 + 7, i * 14, .qpi⟩]

variable {v : Version} {n a b : ℕ}

theorem buildBinaryTree_shift (offset k : ℕ) :
    buildBinaryTree (offset + k) = (buildBinaryTree offset).map (Bus.shift k) := by
  simp only [buildBinaryTree, map_cons, map_nil, flatMap_cons, flatMap_nil, append_nil, Bus.shift,
    cons_append, nil_append, List.cons.injEq, Bus.mk.injEq, and_true, true_and]
  omega

theorem treeGPUs_shift (offset k : ℕ) : treeGPUs (offset + k) = (treeGPUs offset).map (· + k) := by
  simp only [treeGPUs, map_cons, map_nil, List.cons.injEq, and_true]
  omega

theorem gpuLinks_shift (v : Version) {gpu : ℕ} (hgpu : 3 ≤ gpu % 7) (i : ℕ) :
    gpuLinks v (gpu + i * 14) = (gpuLinks v gpu).map (Bus.shift (i * 14)) := by
  -- the four tests, and with them the four neighbours
  have h1 : (gpu + i * 14) / 7 = (gpu + i * 14 + 1) / 7 ↔ gpu / 7 = (gpu + 1) / 7 := by omega
  have h2 : (gpu + i * 14) / 7 = (gpu + i * 14 + 2) / 7 ↔ gpu / 7 = (gpu + 2) / 7 := by omega
  have h3 : (gpu + i * 14) / 7 = (gpu + i * 14 + 3) / 7 ↔ gpu / 7 = (gpu + 3) / 7 := by omega
  have h7 : (gpu + i * 14) / 14 = (gpu + i * 14 + 7) / 14 ↔ gpu / 14 = (gpu + 7) / 14 := by omega
  have hright : (if gpu / 7 = (gpu + 1) / 7 then gpu + i * 14 + 1 else gpu + i * 14 - 3) =
      (if gpu / 7 = (gpu + 1) / 7 then gpu + 1 else gpu - 3) + i * 14 := by
    split_ifs <;> omega
  have hdiagonal : (if gpu / 7 = (gpu + 2) / 7 then gpu + i * 14 + 2 else gpu + i * 14 - 2) =
      (if gpu / 7 = (gpu + 2) / 7 then gpu + 2 else gpu - 2) + i * 14 := by
    split_ifs <;> omega
  have hleft : (if gpu / 7 = (gpu + 3) / 7 then gpu + i * 14 + 3 else gpu + i * 14 - 1) =
      (if gpu / 7 = (gpu + 3) / 7 then gpu + 3 else gpu - 1) + i * 14 := by
    split_ifs <;> omega
  have hother : (if gpu / 14 = (gpu + 7) / 14 then gpu + i * 14 + 7 else gpu + i * 14 - 7) =
      (if gpu / 14 = (gpu + 7) / 14 then gpu + 7 else gpu - 7) + i * 14 := by
    split_ifs <;> omega
  cases v with
  | P100 =>
    simp only [gpuLinks, h1, h2, h3, h7, hright, hdiagonal, hleft, hother]
    rfl
  | V100 =>
    simp only [gpuLinks, h1, h2, h3, h7, hright, hdiagonal, hleft, hother]
    split_ifs <;> rfl

theorem machineLinks_eq (v : Version) (i : ℕ) :
    machineLinks v i = (machineLinks v 0).map (Bus.shift (i * 14)) := by
  have htree (plane : ℕ) : buildBinaryTree (i * 14 + plane) =
      (buildBinaryTree (0 * 14 + plane)).map (Bus.shift (i * 14)) := by
    rw [← buildBinaryTree_shift, Nat.zero_mul, Nat.zero_add, Nat.add_comm]
  have hgpus (plane : ℕ) : treeGPUs (i * 14 + plane) =
      (treeGPUs (0 * 14 + plane)).map (· + i * 14) := by
    rw [← treeGPUs_shift, Nat.zero_mul, Nat.zero_add, Nat.add_comm]
  have hlinks (gpus : List ℕ) (h : ∀ gpu ∈ gpus, 3 ≤ gpu % 7) :
      (gpus.map (· + i * 14)).flatMap (gpuLinks v) =
        (gpus.flatMap (gpuLinks v)).map (Bus.shift (i * 14)) := by
    rw [flatMap_map, map_flatMap]
    exact flatMap_congr fun gpu hgpu => gpuLinks_shift v (h gpu hgpu) i
  unfold machineLinks
  rw [map_append, map_append, map_append, ← hlinks _ (by decide), map_append]
  refine congrArg₂ _ (congrArg₂ _ (congrArg₂ _ (htree 0) (htree 7)) ?_) ?_
  · rw [← hgpus 0, ← hgpus 7]
    rfl
  · simp only [map_cons, map_nil, Bus.shift, Nat.zero_mul, Nat.zero_add, Nat.add_comm]

theorem mem_allLinks {w : Bus} : w ∈ allLinks v n ↔
    ∃ i < n, ∃ b ∈ machineLinks v 0, b.shift (i * 14) = w := by
  have hown : w ∈ allLinks v n ↔ ∃ i < n, w ∈ machineLinks v i := by
    simp only [allLinks, mem_flatMap, mem_range]
    constructor
    · rintro ⟨i, hi, hw⟩
      simp only [boxLinks, mem_append] at hw
      rcases hw with (hw | hw) | hw
      · exact ⟨i, hi, mem_append_left _ (mem_append_left _ (mem_append.mpr hw))⟩
      · -- the link of a GPU of this machine or of one before it
        obtain ⟨gpu, hgpu, hw⟩ := mem_flatMap.mp hw
        obtain ⟨j, hj, hgpu⟩ := mem_flatMap.mp hgpu
        have := mem_range.mp hj
        refine ⟨j, by omega, mem_append_left _ (mem_append_right _ ?_)⟩
        exact mem_flatMap.mpr ⟨gpu, hgpu, hw⟩
      · exact ⟨i, hi, mem_append_right _ hw⟩
    · rintro ⟨i, hi, hw⟩
      refine ⟨i, hi, ?_⟩
      simp only [machineLinks, boxLinks, mem_append] at hw ⊢
      rcases hw with (hw | hw) | hw
      · exact .inl (.inl hw)
      · obtain ⟨gpu, hgpu, hw⟩ := mem_flatMap.mp hw
        refine .inl (.inr (mem_flatMap.mpr ⟨gpu, ?_, hw⟩))
        exact mem_flatMap.mpr ⟨i, mem_range.mpr (Nat.lt_succ_self i), hgpu⟩
      · exact .inr hw
  rw [hown]
  refine exists_congr fun i => and_congr_right fun _ => ?_
  rw [machineLinks_eq v i, mem_map]

theorem machineLinks_zero (v : Version) :
    (∀ b ∈ machineLinks v 0, b.src < 14 ∧ b.flip ∈ machineLinks v 0) ∧
      ∀ b ∈ machineLinks v 0, ∀ b' ∈ machineLinks v 0,
        b.src = b'.src → b.dst = b'.dst → b.latency = b'.latency := by
  cases v <;> decide +kernel

theorem flip_mem_allLinks {w : Bus} (hw : w ∈ allLinks v n) : w.flip ∈ allLinks v n := by
  obtain ⟨i, hi, b, hb, rfl⟩ := mem_allLinks.mp hw
  exact mem_allLinks.mpr ⟨i, hi, b.flip, ((machineLinks_zero v).1 b hb).2, rfl⟩

theorem latency_unique {w w' : Bus} (hw : w ∈ allLinks v n) (hw' : w' ∈ allLinks v n)
    (hsrc : w.src = w'.src) (hdst : w.dst = w'.dst) : w.latency = w'.latency := by
  obtain ⟨i, -, b, hb, rfl⟩ := mem_allLinks.mp hw
  obtain ⟨j, -, b', hb', rfl⟩ := mem_allLinks.mp hw'
  have hlt := ((machineLinks_zero v).1 b hb).1
  have hlt' := ((machineLinks_zero v).1 b' hb').1
  simp only [Bus.shift] at hsrc hdst
  obtain rfl : i = j := by omega
  exact (machineLinks_zero v).2 b hb b' hb' (by omega) (by omega)

/-! ## The maps -/

theorem lat?_foldl {ws : List Bus} {net : AnyNet}
    (hunique : ∀ w ∈ ws, ∀ w' ∈ ws, w.src = w'.src → w.dst = w'.dst → w.latency = w'.latency)
    (hnet : net.lat? .router a b = none) (lat : ℕ) :
    (ws.foldl assignLink net).lat? .router a b = some lat ↔
      ∃ w ∈ ws, w.src = a ∧ w.dst = b ∧ w.latency.cycles = lat := by
  induction ws using List.reverseRecOn with
  | nil => simp [hnet]
  | append_singleton ws w ih =>
    have hws := ih fun w₁ h₁ w₂ h₂ =>
      hunique w₁ (mem_append_left _ h₁) w₂ (mem_append_left _ h₂)
    rw [foldl_concat, assignLink, AnyNet.lat?_setLink]
    by_cases hw : a = w.src ∧ b = w.dst
    · grind
    · grind

theorem lat?_symm (v : Version) (n a b : ℕ) :
    (buildTopology v n).lat? .router a b = (buildTopology v n).lat? .router b a := by
  have hnone (a b : ℕ) : ((allNodes n).foldl assignNode {}).lat? .router a b = none := by
    rw [AnyNet.lat?, AnyNet.link?, routerList_foldl_assignNode]
    rfl
  have hlat (a b : ℕ) := @lat?_foldl a b (allLinks v n) _
    (fun w hw w' hw' => latency_unique hw hw') (hnone a b)
  have hflip (a b lat : ℕ)
      (h : ∃ w ∈ allLinks v n, w.src = a ∧ w.dst = b ∧ w.latency.cycles = lat) :
      ∃ w ∈ allLinks v n, w.src = b ∧ w.dst = a ∧ w.latency.cycles = lat := by
    obtain ⟨w, hw, hsrc, hdst, hcycles⟩ := h
    exact ⟨w.flip, flip_mem_allLinks hw, hdst, hsrc, hcycles⟩
  refine Option.ext fun lat => ?_
  rw [buildTopology, hlat, hlat]
  exact ⟨hflip a b lat, hflip b a lat⟩

theorem port_foldl {t : ParseType} {f : AnyNet → Bus → AnyNet} (hf : Assigns t f) {l : Link} :
    ∀ (ws : List Bus) (net : AnyNet), (ws.foldl f net).link? t a b = some l →
      l.port = -1 ∨ net.link? t a b = some l
  | [], _, h => .inr h
  | w :: ws, net, h => by
    rcases port_foldl hf ws _ h with h | h
    · exact .inl h
    · rw [hf.link?] at h
      split_ifs at h with heq
      · cases h
        exact .inl rfl
      · exact .inr h

theorem routerList_foldl_assignLink : ∀ (ws : List Bus) (net : AnyNet),
    (ws.foldl assignLink net).routerList .node = net.routerList .node ∧
      (ws.foldl assignLink net).nodeList = net.nodeList
  | [], _ => ⟨rfl, rfl⟩
  | w :: ws, net => routerList_foldl_assignLink ws (assignLink net w)

theorem isSome_nodeList_foldl {m : ℕ} : ∀ (ws : List Bus) (net : AnyNet),
    ((ws.foldl assignNode net).nodeList.get? m).isSome ↔
      (∃ w ∈ ws, w.dst = m) ∨ (net.nodeList.get? m).isSome
  | [], net => by simp
  | w :: ws, net => by
    rw [foldl_cons, isSome_nodeList_foldl ws]
    change _ ∨ ((net.nodeList.insert w.dst w.src).get? m).isSome ↔ _
    rw [OrdMap.get?_insert]
    by_cases hm : m = w.dst
    · simp [hm]
    · simp [hm, Ne.symm hm]

theorem mem_treeNodes {offset r m : ℕ} :
    (∃ w ∈ treeNodes offset, w.src = r ∧ w.dst = m) ↔ offset ≤ r ∧ r < offset + 7 ∧ m = r := by
  have hpairs : (treeNodes offset).map (fun w => (w.src, w.dst)) =
      (List.range 7).map fun k => (offset + k, offset + k) := rfl
  have hmem : (∃ w ∈ treeNodes offset, w.src = r ∧ w.dst = m) ↔
      (r, m) ∈ (treeNodes offset).map fun w => (w.src, w.dst) := by
    simp only [mem_map, Prod.mk.injEq]
  rw [hmem, hpairs]
  simp only [mem_map, mem_range, Prod.mk.injEq]
  constructor
  · rintro ⟨k, hk, rfl, rfl⟩
    omega
  · rintro ⟨hle, hlt, rfl⟩
    exact ⟨m - offset, by omega, by omega, by omega⟩

theorem mem_allNodes {r m : ℕ} :
    (∃ w ∈ allNodes n, w.src = r ∧ w.dst = m) ↔ r < n * 14 ∧ m = r := by
  have hmachine : (∃ w ∈ allNodes n, w.src = r ∧ w.dst = m) ↔
      ∃ i < n, (∃ w ∈ treeNodes (i * 14), w.src = r ∧ w.dst = m) ∨
        ∃ w ∈ treeNodes (i * 14 + 7), w.src = r ∧ w.dst = m := by
    simp only [allNodes, mem_flatMap, mem_range, mem_append]
    constructor
    · rintro ⟨w, ⟨i, hi, hw | hw⟩, h⟩
      · exact ⟨i, hi, .inl ⟨w, hw, h⟩⟩
      · exact ⟨i, hi, .inr ⟨w, hw, h⟩⟩
    · rintro ⟨i, hi, ⟨w, hw, h⟩ | ⟨w, hw, h⟩⟩
      · exact ⟨w, ⟨i, hi, .inl hw⟩, h⟩
      · exact ⟨w, ⟨i, hi, .inr hw⟩, h⟩
  rw [hmachine]
  simp only [mem_treeNodes]
  constructor
  · rintro ⟨i, hi, h⟩
    omega
  · rintro ⟨hlt, rfl⟩
    exact ⟨m / 14, by omega, by omega⟩

theorem isSome_link?_node {r m : ℕ} :
    ((buildTopology v n).link? .node r m).isSome ↔ r < n * 14 ∧ m = r := by
  have hnodes : (buildTopology v n).link? .node r m =
      ((allNodes n).foldl assignNode {}).link? .node r m := by
    rw [AnyNet.link?, AnyNet.link?, buildTopology, (routerList_foldl_assignLink _ _).1]
  rw [hnodes, isSome_link?_foldl assigns_assignNode, mem_allNodes]
  exact or_iff_left (by simp [AnyNet.link?])

theorem port_buildTopology {t : ParseType} {l : Link}
    (h : (buildTopology v n).link? t a b = some l) : l.port = -1 := by
  cases t with
  | router =>
    rcases port_foldl assigns_assignLink _ _ h with h | h
    · exact h
    · rw [AnyNet.link?, routerList_foldl_assignNode] at h
      cases h
  | node =>
    rw [AnyNet.link?, buildTopology, (routerList_foldl_assignLink _ _).1] at h
    rcases port_foldl assigns_assignNode _ _ h with h | h
    · exact h
    · cases h

theorem listed_node {r : ℕ} : (buildTopology v n).Listed .node r ↔ r < n * 14 := by
  rw [AnyNet.Listed, buildTopology, (routerList_foldl_assignLink _ _).1, ← AnyNet.Listed,
    listed_foldl assigns_assignNode]
  constructor
  · rintro (⟨w, hw, rfl⟩ | h)
    · exact (mem_allNodes.mp ⟨w, hw, rfl, rfl⟩).1
    · cases h
  · intro hr
    obtain ⟨w, hw, hsrc, -⟩ := mem_allNodes.mpr ⟨hr, rfl⟩
    exact .inl ⟨w, hw, hsrc⟩

theorem numbered_buildTopology (v : Version) (n : ℕ) : (buildTopology v n).Numbered where
  routers t := by
    rw [size_buildTopology]
    cases t with
    | node => exact OrdMap.keys_eq_range fun r => listed_node
    | router => exact OrdMap.keys_eq_range fun r => listed_buildTopology
  ends a b h := by
    obtain ⟨l, hl⟩ := Option.isSome_iff_exists.mp h
    obtain ⟨row, hrow, -⟩ := Option.bind_eq_some_iff.mp hl
    have ha := listed_buildTopology.mp (Option.isSome_of_eq_some hrow)
    have hbox := link_box h
    rw [size_buildTopology]
    omega

theorem row_node {r : ℕ} (hr : r < n * 14) : ∃ l, (buildTopology v n).row .node r = [(r, l)] := by
  obtain ⟨row, hrow⟩ := Option.isSome_iff_exists.mp (@listed_node v n r |>.mpr hr)
  have hkeys : row.keys = [r] := by
    refine OrdMap.keys_eq (pairwise_singleton ..) fun k => ?_
    have hlink := @isSome_link?_node v n r k
    rw [AnyNet.link?, hrow, Option.bind_some] at hlink
    rw [hlink, mem_singleton]
    exact and_iff_right hr
  obtain ⟨e, hentries, he⟩ := map_eq_singleton_iff.mp hkeys
  refine ⟨e.2, ?_⟩
  rw [AnyNet.row, hrow]
  exact hentries.trans (by rw [← he])

theorem size_nodeList : (buildTopology v n).nodeList.size = n * 14 := by
  have hkeys : (buildTopology v n).nodeList.keys = List.range (n * 14) := by
    refine OrdMap.keys_eq_range fun m => ?_
    rw [buildTopology, (routerList_foldl_assignLink _ _).2, isSome_nodeList_foldl]
    constructor
    · rintro (⟨w, hw, rfl⟩ | h)
      · have h := mem_allNodes.mp ⟨w, hw, rfl, rfl⟩
        omega
      · cases h
    · intro hm
      obtain ⟨w, hw, -, hdst⟩ := mem_allNodes.mpr ⟨hm, rfl⟩
      exact .inl ⟨w, hw, hdst⟩
  rw [OrdMap.size, ← length_map, ← OrdMap.keys, hkeys, length_range]

/-! ## The lanes of the nodes -/

theorem lanes_iterate_nodeLane (node port link k : ℕ) (s : Build) :
    ((Build.nodeLane node port link)^[k] s).lanes = (addLane link)^[k] s.lanes := by
  have hlane : Function.Semiconj Build.lanes (Build.nodeLane node port link) (addLane link) :=
    fun _ => rfl
  exact hlane.iterate_right k s

theorem lanes_attachNode (node : ℕ) (s : Build) (e : ℕ × Link) :
    (s.attachNode node e).lanes = addNode s.lanes e.1 := by
  rw [Build.attachNode, Build.nextPort, lanes_iterate_nodeLane, addNode]
  rfl

theorem lanes_attachLink (node : ℕ) (s : Build) (e : ℕ × Link) :
    (s.attachLink node e).lanes = s.lanes := by
  have hlane (port : ℕ) : Function.Semiconj Build.lanes (Build.linkLane node port e.1) id :=
    fun _ => rfl
  rw [Build.attachLink, Build.nextPort, ((hlane _).iterate_right (getLanesNum e.2.lat)).eq,
    Function.iterate_id]
  rfl

theorem lanes_wireLanes (v : Version) (n : ℕ) :
    (wireLanes (buildTopology v n)).lanes = buildNet n := by
  have hnodes : ∀ (routers : List ℕ) (s : Build), (∀ r ∈ routers, r < n * 14) →
      (routers.foldl (fun s r =>
        ((buildTopology v n).row .node r).foldl (Build.attachNode r) s) s).lanes =
        routers.foldl addNode s.lanes := by
    intro routers
    induction routers with
    | nil => exact fun _ _ => rfl
    | cons r routers ih =>
      intro s hrouters
      obtain ⟨l, hrow⟩ := @row_node v n r (hrouters r mem_cons_self)
      rw [foldl_cons, foldl_cons, ih _ fun r' hr' => hrouters r' (mem_cons_of_mem r hr'),
        hrow, foldl_cons, foldl_nil, lanes_attachNode]
  have hlinks (entries : List (ℕ × ℕ × Link)) (s : Build) :
      (entries.foldl (fun s p => Build.attachLink p.1 s p.2) s).lanes = s.lanes := by
    induction entries generalizing s with
    | nil => rfl
    | cons p entries ih => rw [foldl_cons, ih, lanes_attachLink]
  rw [wireLanes_eq, hlinks, entriesOf, foldl_flatMap]
  simp only [foldl_map]
  rw [(numbered_buildTopology v n).routers, size_buildTopology, hnodes _ _ fun r => mem_range.mp,
    buildNet, Nat.mul_comm]

/-! ## The network -/

/-- What the wires of `num_dgx1` machines should be. -/
structure LanesConsistent (v : Version) (num_dgx1 : ℕ) (s : Build) : Prop where
  /-- A link goes both ways, over the same bus. -/
  symmetric : ∀ a b, s.net.lat? .router a b = s.net.lat? .router b a
  /-- An output port belongs to one virtual port. -/
  disjoint : ∀ r < 14 * num_dgx1, ∀ p q, p ≠ q →
  Disjoint (s.actualOutports r p) (s.actualOutports r q)
  /-- And those that do are the ports the router was made with. -/
  together : ∀ r < 14 * num_dgx1, ∀ x, (∃ p, x ∈ s.actualOutports r p) ↔
    x < getRouterPortsNum (buildTopology v num_dgx1) r
  /-- The ports of an entry lead to the node or router of the entry. -/
  leads : ∀ t r m l, s.net.link? t r m = some l →
    0 ≤ l.port ∧ ∀ x ∈ s.actualOutports r l.port.toNat, s.Leads t r m x
  inputs : ∀ r < 14 * num_dgx1, (s.wiring.inputChannels r).length =
    getRouterPortsNum (buildTopology v num_dgx1) r
  /-- The channels between routers that are used. -/
  channels : ∀ c, ((s.wiring.source (.chan c)).isSome ↔
      c < computeChannels (buildTopology v num_dgx1)) ∧
    ((s.wiring.sink (.chan c)).isSome ↔ c < computeChannels (buildTopology v num_dgx1))
  /-- The channels of nodes that are used. -/
  nodes : ∀ vnode, ((s.wiring.sink (.inject vnode)).isSome ↔
      vnode < computeNodes (buildTopology v num_dgx1)) ∧
    ((s.wiring.source (.eject vnode)).isSome ↔ vnode < computeNodes (buildTopology v num_dgx1))

/-- **The lanes are wired consistently**, for any number of machines of either version. -/
theorem lanes_consistent (v : Version) (num_dgx1 : ℕ) :
    LanesConsistent v num_dgx1 (wireLanes (buildTopology v num_dgx1)) := by
  have hnet := numbered_buildTopology v num_dgx1
  obtain ⟨hbetween, hports⟩ := between_wireLanes hnet fun t a b l hl => port_buildTopology hl
  have hsize (r : ℕ) (hr : r < 14 * num_dgx1) : r < (buildTopology v num_dgx1).size := by
    rw [size_buildTopology]
    omega
  have hvnode : (wireLanes (buildTopology v num_dgx1)).lanes.vnode =
      computeNodes (buildTopology v num_dgx1) := by
    rw [lanes_wireLanes, buildNet, (buildNet_spec _).1, computeNodes, size_nodeList,
      Nat.mul_comm 14]
  have hsound := hbetween.sound
  refine ⟨fun a b => ?_, fun r hr p q hne => ?_, fun r hr x => ?_, fun t r m l hl => ?_,
    fun r hr => length_inputChannels_eq hnet (lat?_symm v num_dgx1) (hsize r hr),
    fun c => ?_, fun vnode => ?_⟩
  · rw [hbetween.lats, hbetween.lats, lat?_symm]
  · rw [Finset.disjoint_left]
    exact fun x hp hq => hne (hsound.disjoint hp hq)
  · rw [← actualOutcnt_eq hnet (hsize r hr)]
    refine ⟨?_, hsound.covered⟩
    rintro ⟨p, hp⟩
    exact (hsound.below hp).1
  · have hport := hports t r m l hl
    exact ⟨hport, fun x hx => hsound.leads hl (Int.toNat_of_nonneg hport).symm hx⟩
  · rw [← pchannelCount_eq hnet]
    exact ⟨hbetween.used.source c, hbetween.used.sink c⟩
  · rw [← hvnode]
    exact ⟨hbetween.used.inject vnode, hbetween.used.eject vnode⟩

-- a CPU: its node, two PCIe buses and the other CPU
example : getRouterPortsNum (buildTopology .V100 1) 0 = 64 + 16 + 16 + 1 := by decide +kernel

end BookSim.NVIDIADGX1
