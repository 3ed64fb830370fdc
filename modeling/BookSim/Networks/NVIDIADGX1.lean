/-
# NVIDIADGX1 — the lanes of the nodes

A node of a DGX-1 is linked to its router by 64 lanes, and every lane is a terminal of the
network, a *virtual node*.  `_BuildNet` numbers the lanes node by node, and `GetVirtualNode`
hands out the lanes of a node in turn, with an iterator that is kept for the node:

    virtualNodes    the ordered set of the lanes of a node
    lastVnode       the iterator: the lane it stands at, or `none` for `end()`
    actualNode      the node of a lane

The iterator of a node is set to `begin()` before the lanes are inserted.  `rotates_iff` tells
what would have to come out of the first read for the lanes to be handed out in turn.
-/
import Mathlib.Data.List.Nodup
import Mathlib.Data.List.Perm.Subperm
import Mathlib.Data.List.Range
import Mathlib.Data.Nat.Notation
import Mathlib.Logic.Function.Basic

namespace BookSim

open List
open Function (update update_of_ne update_self)

/-- The lanes of all nodes; `vnode` is the next lane. -/
structure Lanes where
  vnode : ℕ := 0
  virtualNodes : ℕ → List ℕ := fun _ => []
  lastVnode : ℕ → Option ℕ := fun _ => none
  actualNode : ℕ → ℕ := fun _ => 0

namespace NVIDIADGX1

/-- One round of the loop over the lanes of node `link`. -/
def addLane (link : ℕ) (s : Lanes) : Lanes where
  vnode := s.vnode + 1
  virtualNodes := update s.virtualNodes link (s.virtualNodes link ++ [s.vnode])
  lastVnode := s.lastVnode
  actualNode := update s.actualNode s.vnode link

def addNode (s : Lanes) (link : ℕ) : Lanes :=
  (addLane link)^[64] { s with lastVnode := update s.lastVnode link (s.virtualNodes link).head? }

/-- `_BuildNet` on `num_dgx1` machines, with a router and a node for each of their 14 parts. -/
def buildNet (num_dgx1 : ℕ) : Lanes :=
  (List.range (14 * num_dgx1)).foldl addNode {}

/-- `GetVirtualNode`: the lane at the iterator, and the lanes with the iterator moved on.  To
read or to move the iterator `end()` is undefined: it can give any lane and any iterator. -/
def getVirtualNode (undefined : ℕ × Option ℕ) (s : Lanes) (node : ℕ) : ℕ × Lanes :=
  match s.lastVnode node with
  | none => (undefined.1, { s with lastVnode := update s.lastVnode node undefined.2 })
  | some vnode =>
    let lanes := s.virtualNodes node
    let next := (lanes.drop (lanes.idxOf vnode + 1)).head?
    (vnode, { s with lastVnode := update s.lastVnode node (next.or lanes.head?) })

section Build

variable {s : Lanes} {link : ℕ}

theorem addLane_iterate (k : ℕ) : ((addLane link)^[k] s).vnode = s.vnode + k ∧
      ((addLane link)^[k] s).lastVnode = s.lastVnode ∧
      (∀ n, n ≠ link → ((addLane link)^[k] s).virtualNodes n = s.virtualNodes n) ∧
      ∀ v, ((addLane link)^[k] s).actualNode v =
        if s.vnode ≤ v ∧ v < s.vnode + k then link else s.actualNode v := by
  induction k with
  | zero =>
    refine ⟨rfl, rfl, fun _ _ => rfl, fun v => ?_⟩
    rw [if_neg (by omega)]
    rfl
  | succ k ih =>
    obtain ⟨hvnode, hlast, hnodes, hactual⟩ := ih
    rw [Function.iterate_succ_apply']
    refine ⟨?_, hlast, fun n hn => ?_, fun v => ?_⟩
    · rw [addLane, hvnode, Nat.add_assoc]
    · exact (update_of_ne hn ..).trans (hnodes n hn)
    · simp only [addLane, hvnode, Function.update_apply, hactual]
      split_ifs <;> omega

/-- The lanes are numbered node by node, and no node's iterator stands at one of them. -/
theorem buildNet_spec (n : ℕ) :
    let lanes := (List.range n).foldl addNode {}
    lanes.vnode = 64 * n ∧ (∀ m, lanes.lastVnode m = none) ∧
      (∀ m, n ≤ m → lanes.virtualNodes m = []) ∧ ∀ v < 64 * n, lanes.actualNode v = v / 64 := by
  induction n with
  | zero => exact ⟨rfl, fun _ => rfl, fun _ _ => rfl, fun v hv => absurd hv (Nat.not_lt_zero v)⟩
  | succ n ih =>
    obtain ⟨hvnode, hlast, hnodes, hactual⟩ := ih
    simp only [range_succ, foldl_append, foldl_cons, foldl_nil]
    generalize (List.range n).foldl addNode {} = lanes at *
    obtain ⟨hvnode', hlast', hnodes', hactual'⟩ := @addLane_iterate
      { lanes with lastVnode := update lanes.lastVnode n (lanes.virtualNodes n).head? } n 64
    refine ⟨?_, fun m => ?_, fun m hm => ?_, fun v hv => ?_⟩
    · rw [addNode, hvnode', hvnode]
      omega
    · rw [addNode, hlast', hnodes n (le_refl n), List.head?_nil]
      by_cases hm : m = n
      · exact hm ▸ update_self ..
      · exact (update_of_ne hm ..).trans (hlast m)
    · rw [addNode, hnodes' m (by omega)]
      exact hnodes m (by omega)
    · rw [addNode, hactual', hvnode]
      split_ifs with hnew
      · omega
      · exact hactual v (by omega)

/-- The lanes of a node. -/
def laneList (node : ℕ) : List ℕ := (List.range 64).map (64 * node + ·)

theorem virtualNodes_addLane_iterate (k : ℕ) : ((addLane link)^[k] s).virtualNodes link =
      s.virtualNodes link ++ (List.range k).map (s.vnode + ·) := by
  induction k with
  | zero => exact (append_nil _).symm
  | succ k ih =>
    rw [Function.iterate_succ_apply', range_succ, map_append, map_singleton,
      ← append_assoc, ← ih, ← (addLane_iterate k).1]
    exact update_self ..

theorem virtualNodes_foldl_addNode (n : ℕ) :
    ∀ m < n, ((List.range n).foldl addNode {}).virtualNodes m = laneList m := by
  induction n with
  | zero => exact fun m hm => absurd hm (Nat.not_lt_zero m)
  | succ n ih =>
    intro m hm
    obtain ⟨hvnode, -, hnodes, -⟩ := buildNet_spec n
    rw [range_succ, foldl_append, foldl_cons, foldl_nil, addNode]
    by_cases hmn : m = n
    · subst hmn
      rw [virtualNodes_addLane_iterate, hnodes m (le_refl m), nil_append, hvnode, laneList]
    · rw [(addLane_iterate 64).2.2.1 m hmn]
      exact ih m (by omega)

/-- Every lane of the first `n` nodes belongs to its node, and so does the lane at its iterator. -/
structure Own (n : ℕ) (s : Lanes) : Prop where
  lanes : ∀ node < n, ∀ v ∈ s.virtualNodes node, s.actualNode v = node
  iterator : ∀ node < n, ∀ v ∈ s.lastVnode node, s.actualNode v = node

theorem own_buildNet (num_dgx1 : ℕ) : Own (14 * num_dgx1) (buildNet num_dgx1) := by
  obtain ⟨-, hnone, -, hactual⟩ := buildNet_spec (14 * num_dgx1)
  refine ⟨fun node hnode v hv => ?_, fun node _ v hv => ?_⟩
  · rw [buildNet, virtualNodes_foldl_addNode _ node hnode] at hv
    obtain ⟨p, hp, rfl⟩ := mem_map.mp hv
    have := mem_range.mp hp
    rw [buildNet, hactual _ (by omega)]
    omega
  · rw [buildNet, hnone node] at hv
    exact nomatch hv

/-- An iterator that is read moves on to a lane of its node, unless it leaves `end()` for
another. -/
theorem Own.getVirtualNode {n node : ℕ} {u : ℕ × Option ℕ} (h : Own n s)
    (hu : ∀ v ∈ u.2, s.actualNode v = node) : Own n (getVirtualNode u s node).2 := by
  have hmoved : ∀ it : Option ℕ, (node < n → ∀ v ∈ it, s.actualNode v = node) →
      Own n { s with lastVnode := update s.lastVnode node it } := by
    refine fun it hit => ⟨h.lanes, fun m hm v hv => ?_⟩
    by_cases hmn : m = node
    · subst hmn
      exact hit hm v (by simpa using hv)
    · exact h.iterator m hm v (by simpa [update_of_ne hmn] using hv)
  unfold NVIDIADGX1.getVirtualNode
  cases s.lastVnode node with
  | none => exact hmoved _ fun _ => hu
  | some vnode =>
    refine hmoved _ fun hnode v hv => h.lanes node hnode v ?_
    rcases Option.or_eq_some_iff.mp hv with hnext | ⟨-, hfirst⟩
    · exact mem_of_mem_drop (mem_of_mem_head? hnext)
    · exact mem_of_mem_head? hfirst

end Build

/-! ## Rotation -/

/-- A sequence of calls of `GetVirtualNode`: the node of each, and the lane it returns.
`undefined` is what the read of a node's iterator at `end()` gives. -/
def calls (undefined : ℕ → ℕ × Option ℕ) : Lanes → List ℕ → List (ℕ × ℕ)
  | _, [] => []
  | s, node :: nodes =>
    let called := getVirtualNode (undefined node) s node
    (node, called.1) :: calls undefined called.2 nodes

/-- The lanes that the calls for `node` have returned. -/
def returned (node : ℕ) (trace : List (ℕ × ℕ)) : List ℕ :=
  (trace.filter (·.1 = node)).map Prod.snd

/-- Every call returns a lane of its node, and 64 calls in a row for a node return all its
lanes. -/
structure Rotates (lanes : Lanes) (trace : List (ℕ × ℕ)) : Prop where
  own : ∀ c ∈ trace, lanes.actualNode c.2 = c.1
  window : ∀ node w, w <:+: returned node trace → w.length = 64 → w.Perm (lanes.virtualNodes node)

section Rotation

variable {undefined : ℕ → ℕ × Option ℕ} {s : Lanes} {node p : ℕ}

/-- What the read at `end()` has to give for `node`: its lane number `p`, and the iterator at
the lane after it. -/
def ReadsLane (u : ℕ × Option ℕ) (node p : ℕ) : Prop :=
  u = (64 * node + p, some (64 * node + (p + 1) % 64))

/-- The next call for `node` takes its lane number `p`. -/
structure Standing (undefined : ℕ → ℕ × Option ℕ) (s : Lanes) (node p : ℕ) : Prop where
  lanes : s.virtualNodes node = laneList node
  iterator : s.lastVnode node = some (64 * node + p) ∨
    s.lastVnode node = none ∧ ReadsLane (undefined node) node p
  lt : p < 64

theorem nodup_laneList (node : ℕ) : (laneList node).Nodup :=
  List.Nodup.map (fun _ _ hab => Nat.add_left_cancel hab) nodup_range

theorem next_laneList (h : p < 64) :
    ((laneList node).drop ((laneList node).idxOf (64 * node + p) + 1)).head?.or
      (laneList node).head? = some (64 * node + (p + 1) % 64) := by
  have hlen : p < (laneList node).length := by simpa [laneList] using h
  have hget : (laneList node)[p] = 64 * node + p := by simp [laneList]
  rw [← hget, (nodup_laneList node).idxOf_getElem p hlen, List.head?_drop]
  by_cases hlast : p + 1 < 64
  · rw [Nat.mod_eq_of_lt hlast]
    simp [laneList, hlast]
  · obtain rfl : p = 63 := by omega
    simp [laneList, range_succ_eq_map]

theorem next_laneList_ne (node v : ℕ) :
    ((laneList node).drop ((laneList node).idxOf v + 1)).head?.or
      (laneList node).head? ≠ some v := by
  by_cases hv : v ∈ laneList node
  · obtain ⟨p, hp, rfl⟩ := mem_map.mp hv
    rw [next_laneList (mem_range.mp hp)]
    intro heq
    have := Option.some.inj heq
    have := mem_range.mp hp
    omega
  · intro heq
    rw [idxOf_eq_length hv, drop_eq_nil_of_le (Nat.le_succ _)] at heq
    exact hv (mem_of_mem_head? heq)

theorem Standing.call (h : Standing undefined s node p) :
    (getVirtualNode (undefined node) s node).1 = 64 * node + p ∧
      Standing undefined (getVirtualNode (undefined node) s node).2 node ((p + 1) % 64) := by
  rcases h.iterator with hsome | ⟨hnone, hread⟩
  · simp only [getVirtualNode, hsome]
    refine ⟨trivial, h.lanes, .inl ?_, Nat.mod_lt _ (by decide)⟩
    rw [h.lanes]
    exact (update_self ..).trans (next_laneList h.lt)
  · simp only [getVirtualNode, hnone]
    refine ⟨by rw [hread], h.lanes, .inl ?_, Nat.mod_lt _ (by decide)⟩
    exact (update_self ..).trans (by rw [hread])

theorem getVirtualNode_frame (u : ℕ × Option ℕ) (s : Lanes) (node : ℕ) :
    (getVirtualNode u s node).2.virtualNodes = s.virtualNodes ∧
      ∀ m, m ≠ node → (getVirtualNode u s node).2.lastVnode m = s.lastVnode m := by
  unfold getVirtualNode
  cases s.lastVnode node with
  | none | some v => exact ⟨rfl, fun m hm => update_of_ne hm ..⟩

/-- From lane number `p` on, the calls for a node return its lanes in turn, whatever calls for
other nodes come between them. -/
theorem Standing.returned_calls (h : Standing undefined s node p) (nodes : List ℕ) :
    returned node (calls undefined s nodes) =
      (List.range (nodes.count node)).map fun j => 64 * node + (p + j) % 64 := by
  induction nodes generalizing s p with
  | nil => rfl
  | cons m nodes ih =>
    rw [calls, returned]
    by_cases hm : m = node
    · subst hm
      obtain ⟨hlane, hnext⟩ := h.call
      rw [filter_cons_of_pos (by simp), map_cons, count_cons_self,
        range_succ_eq_map, map_cons, map_map]
      refine congrArg₂ List.cons ?_ ((ih hnext).trans (map_congr_left fun j _ => ?_))
      · rw [hlane, Nat.add_zero, Nat.mod_eq_of_lt h.lt]
      · show 64 * m + ((p + 1) % 64 + j) % 64 = 64 * m + (p + (j + 1)) % 64
        omega
    · obtain ⟨hlanes, hothers⟩ := getVirtualNode_frame (undefined m) s m
      rw [filter_cons_of_neg (by simpa using hm), count_cons_of_ne hm]
      refine ih ⟨by rw [hlanes, h.lanes], ?_, h.lt⟩
      rw [hothers node (Ne.symm hm)]
      exact h.iterator

theorem window_perm {m : ℕ} {w : List ℕ}
    (hw : w <:+: (List.range m).map fun j => 64 * node + (p + j) % 64) (hlen : w.length = 64) :
    w.Perm (laneList node) := by
  obtain ⟨before, after, hsplit⟩ := hw
  have hm : before.length + 64 + after.length = m := by
    simpa [hlen, Nat.add_assoc] using congrArg List.length hsplit
  have heq : w = (List.range' before.length 64).map fun j => 64 * node + (p + j) % 64 := by
    calc w = ((before ++ w ++ after).drop before.length).take 64 := by
          rw [append_assoc, drop_left, ← hlen, take_left]
      _ = _ := by
          rw [hsplit, ← map_drop, ← map_take, range_eq_range', drop_range',
            take_range'_of_length_ge (by omega), Nat.zero_add, Nat.mul_one]
  have hnodup : w.Nodup := by
    rw [heq]
    refine List.Nodup.map_on (fun j hj j' hj' hjj' => ?_) nodup_range'
    rw [mem_range'_1] at hj hj'
    omega
  have hsubset : w ⊆ laneList node := by
    intro v hv
    rw [heq] at hv
    obtain ⟨j, -, rfl⟩ := mem_map.mp hv
    exact mem_map.mpr ⟨(p + j) % 64, mem_range.mpr (Nat.mod_lt _ (by decide)), rfl⟩
  refine (subperm_of_subset hnodup hsubset).perm_of_length_le ?_
  simp [laneList, hlen]

theorem mem_returned {c : ℕ × ℕ} {trace : List (ℕ × ℕ)} (h : c ∈ trace) :
    c.2 ∈ returned c.1 trace :=
  mem_map.mpr ⟨c, mem_filter.mpr ⟨h, decide_eq_true rfl⟩, rfl⟩

theorem node_mem_of_mem_calls {nodes : List ℕ} {c : ℕ × ℕ} (h : c ∈ calls undefined s nodes) :
    c.1 ∈ nodes := by
  induction nodes generalizing s with
  | nil => exact nomatch h
  | cons m nodes ih =>
    rcases mem_cons.mp h with rfl | h
    · exact mem_cons_self
    · exact mem_cons_of_mem m (ih h)

/-- Where the iterators stand right after `_BuildNet`, when the first read of each gives a lane
of its node and moves on. -/
theorem standing_buildNet {num_dgx1 : ℕ} (hnode : node < 14 * num_dgx1) (hp : p < 64)
    (hread : ReadsLane (undefined node) node p) :
    Standing undefined (buildNet num_dgx1) node p :=
  ⟨virtualNodes_foldl_addNode _ node hnode, .inr ⟨(buildNet_spec _).2.1 node, hread⟩, hp⟩

theorem rotates_of_readsLane {num_dgx1 : ℕ} {nodes : List ℕ}
    (hread : ∀ node < 14 * num_dgx1, ∃ p < 64, ReadsLane (undefined node) node p)
    (hnodes : ∀ node ∈ nodes, node < 14 * num_dgx1) :
    Rotates (buildNet num_dgx1) (calls undefined (buildNet num_dgx1) nodes) := by
  obtain ⟨-, -, hempty, hactual⟩ := buildNet_spec (14 * num_dgx1)
  refine ⟨fun c hc => ?_, fun node w hw hlen => ?_⟩
  · have hnode := hnodes c.1 (node_mem_of_mem_calls hc)
    obtain ⟨p, hp, hread⟩ := hread c.1 hnode
    have hmem := mem_returned hc
    rw [(standing_buildNet hnode hp hread).returned_calls] at hmem
    obtain ⟨j, -, hj⟩ := mem_map.mp hmem
    rw [buildNet, ← hj, hactual _ (by omega)]
    omega
  · -- a node with 64 calls is one of those called
    obtain ⟨v, hv⟩ := exists_mem_of_length_pos (hlen.symm ▸ Nat.zero_lt_succ 63 : 0 < w.length)
    obtain ⟨c, hc, -⟩ := mem_map.mp (hw.subset hv)
    obtain ⟨hc, hcnode⟩ := mem_filter.mp hc
    have hnode := hnodes node (of_decide_eq_true hcnode ▸ node_mem_of_mem_calls hc)
    obtain ⟨p, hp, hread⟩ := hread node hnode
    rw [(standing_buildNet hnode hp hread).returned_calls] at hw
    rw [buildNet, virtualNodes_foldl_addNode _ node hnode]
    exact window_perm hw hlen

theorem length_returned_calls (nodes : List ℕ) :
    (returned node (calls undefined s nodes)).length = nodes.count node := by
  induction nodes generalizing s with
  | nil => rfl
  | cons m nodes ih =>
    rw [calls, returned]
    by_cases hm : m = node
    · subst hm
      rw [filter_cons_of_pos (by simp), map_cons, length_cons, count_cons_self]
      exact congrArg (· + 1) ih
    · rw [filter_cons_of_neg (by simpa using hm), count_cons_of_ne hm]
      exact ih

theorem returned_replicate_succ (k : ℕ) :
    returned node (calls undefined s (List.replicate (k + 1) node)) =
      (getVirtualNode (undefined node) s node).1 ::
        returned node (calls undefined (getVirtualNode (undefined node) s node).2
          (List.replicate k node)) := by
  rw [replicate_succ, calls, returned, filter_cons_of_pos (by simp), map_cons]
  rfl

theorem mem_laneList {v : ℕ} : v ∈ laneList node ↔ ∃ p < 64, v = 64 * node + p := by
  simp [laneList, eq_comm]

/-- If the first 64 calls for a node return all its lanes, the read at `end()` has given a lane
of the node and moved on. -/
theorem readsLane_of_perm (hlanes : s.virtualNodes node = laneList node)
    (hnone : s.lastVnode node = none)
    (h : (returned node (calls undefined s (List.replicate 64 node))).Perm (laneList node)) :
    ∃ p < 64, ReadsLane (undefined node) node p := by
  have hnodup := h.nodup_iff.mpr (nodup_laneList node)
  rw [returned_replicate_succ, returned_replicate_succ] at h hnodup
  obtain ⟨⟨v, it⟩, hu⟩ : ∃ u, undefined node = u := ⟨_, rfl⟩
  have hfirst : getVirtualNode (undefined node) s node =
      (v, { s with lastVnode := update s.lastVnode node it }) := by
    rw [getVirtualNode, hnone, hu]
  rw [hfirst] at h hnodup
  obtain ⟨p, hp, rfl⟩ := mem_laneList.mp (h.subset mem_cons_self)
  refine ⟨p, hp, hu.trans ?_⟩
  cases it with
  | none =>
    -- the second call reads `end()` again, and returns the same lane
    have hagain : (getVirtualNode (undefined node)
        { s with lastVnode := update s.lastVnode node none } node).1 = 64 * node + p := by
      simp only [getVirtualNode, update_self, hu]
    rw [hagain] at hnodup
    exact absurd mem_cons_self (nodup_cons.mp hnodup).1
  | some u =>
    have hsecond : (getVirtualNode (undefined node)
        { s with lastVnode := update s.lastVnode node (some u) } node).1 = u := by
      simp only [getVirtualNode, update_self]
    rw [hsecond] at h
    obtain ⟨q, hq, rfl⟩ := mem_laneList.mp (h.subset (mem_cons_of_mem _ mem_cons_self))
    have hstanding : Standing undefined
        { s with lastVnode := update s.lastVnode node (some (64 * node + q)) } node q :=
      ⟨hlanes, .inl (update_self ..), hq⟩
    rw [← returned_replicate_succ, hstanding.returned_calls, count_replicate_self] at hnodup
    -- the 63 lanes from number `q` on do not contain number `p`, so `q` comes right after it
    have hnew : ∀ j < 63, (q + j) % 64 ≠ p := by
      intro j hj heq
      refine (nodup_cons.mp hnodup).1 (mem_map.mpr ⟨j, mem_range.mpr hj, ?_⟩)
      rw [heq]
    have hlast := hnew ((p + 64 - q) % 64)
    have hq' : q = (p + 1) % 64 := by omega
    rw [hq']

theorem readsLane_of_rotates {num_dgx1 : ℕ} (hnode : node < 14 * num_dgx1)
    (h : Rotates (buildNet num_dgx1)
      (calls undefined (buildNet num_dgx1) (List.replicate 64 node))) :
    ∃ p < 64, ReadsLane (undefined node) node p := by
  have hlanes : (buildNet num_dgx1).virtualNodes node = laneList node :=
    virtualNodes_foldl_addNode _ node hnode
  refine readsLane_of_perm hlanes ((buildNet_spec _).2.1 node) ?_
  rw [← hlanes]
  refine h.window node _ (infix_refl _) ?_
  rw [length_returned_calls, count_replicate_self]

/-- The lanes rotate correctly in every sequence of calls exactly if the first read of every
node's iterator, which stands at `end()`, happens to give a lane of the node and to move to
the next one. -/
theorem rotates_iff (num_dgx1 : ℕ) (undefined : ℕ → ℕ × Option ℕ) :
    (∀ nodes, (∀ node ∈ nodes, node < 14 * num_dgx1) →
        Rotates (buildNet num_dgx1) (calls undefined (buildNet num_dgx1) nodes)) ↔
      ∀ node < 14 * num_dgx1, ∃ p < 64, ReadsLane (undefined node) node p := by
  constructor
  · intro h node hnode
    refine readsLane_of_rotates hnode (h _ fun m hm => ?_)
    exact eq_of_mem_replicate hm ▸ hnode
  · exact fun hread nodes hnodes => rotates_of_readsLane hread hnodes

/-- What the GNU library has at `end()`: after the node of the tree that stands for it comes the
size of the set, and the step from there goes to the last element. -/
def gnuEnd (node : ℕ) : ℕ × Option ℕ := (64, some (64 * node + 63))

/-- The first call for node 0 returns a lane of node 1. -/
theorem first_lane_astray :
    calls gnuEnd (buildNet 1) [0] = [(0, 64)] ∧ (buildNet 1).actualNode 64 = 1 ∧
      ¬ Rotates (buildNet 1) (calls gnuEnd (buildNet 1) [0]) := by
  obtain ⟨-, hnone, -, hactual⟩ := buildNet_spec 14
  have hcalls : calls gnuEnd (buildNet 1) [0] = [(0, 64)] := by
    have hend : (buildNet 1).lastVnode 0 = none := hnone 0
    simp only [calls, getVirtualNode, hend, gnuEnd]
  have hnode : (buildNet 1).actualNode 64 = 1 := hactual 64 (by decide)
  refine ⟨hcalls, hnode, fun h => ?_⟩
  rw [hcalls] at h
  exact absurd ((h.own (0, 64) mem_cons_self).symm.trans hnode) (by decide)

end Rotation

end NVIDIADGX1

end BookSim
