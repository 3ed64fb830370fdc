/-
# `BookSim.Lib.RootedTree` — trees given by their parents

A tree is given by the parent of each node, and a level that is lower for the parent.  A path
between two nodes is determined step by step by where the end is:

    the end is below the start        the path goes down, to the child the end is below of
    otherwise                         it goes up, to the parent

This is so as the subtree of a node can only be left through the parent of the node.
-/
import Mathlib.Combinatorics.SimpleGraph.Acyclic

namespace BookSim

/-- A tree by its parents; the root is its own. -/
structure RootedTree (V : Type*) where
  root : V
  parent : V → V
  level : V → ℕ
  parent_root : parent root = root
  level_parent : ∀ {v}, v ≠ root → level (parent v) < level v

namespace RootedTree

open SimpleGraph

variable {V : Type*} (T : RootedTree V) {a b u v x y z : V}

/-- Parents and their children are next to each other. -/
def graph : SimpleGraph V where
  Adj u v := u ≠ v ∧ (T.parent v = u ∨ T.parent u = v)
  symm := ⟨fun _ _ h => ⟨h.1.symm, h.2.symm⟩⟩
  loopless := ⟨fun _ h => h.1 rfl⟩

/-- The node `v` is in the subtree of `a`. -/
def Below (a v : V) : Prop := ∃ n, T.parent^[n] v = a

variable {T}

theorem Below.refl (v : V) : T.Below v v := ⟨0, rfl⟩

theorem Below.of_parent (h : T.Below a (T.parent v)) : T.Below a v := by
  obtain ⟨n, hn⟩ := h
  exact ⟨n + 1, hn⟩

theorem below_iff : T.Below a v ↔ v = a ∨ T.Below a (T.parent v) := by
  constructor
  · rintro ⟨n, hn⟩
    cases n with
    | zero => exact .inl hn
    | succ n => exact .inr ⟨n, hn⟩
  · rintro (rfl | h)
    · exact .refl v
    · exact h.of_parent

theorem level_parent_le (v : V) : T.level (T.parent v) ≤ T.level v := by
  by_cases hv : v = T.root
  · rw [hv, T.parent_root]
  · exact (T.level_parent hv).le

theorem level_iterate_le (n : ℕ) (v : V) : T.level (T.parent^[n] v) ≤ T.level v := by
  induction n generalizing v with
  | zero => exact le_rfl
  | succ n ih => exact (ih (T.parent v)).trans (level_parent_le v)

theorem level_lt_of_child (hparent : T.parent z = x) (hne : z ≠ x) : T.level x < T.level z := by
  rw [← hparent]
  refine T.level_parent fun hroot => hne ?_
  rw [← hparent, hroot, T.parent_root]

/-- A node is below one child only. -/
theorem child_unique {z' : V} (hz : T.parent z = x) (hne : z ≠ x) (hy : T.Below z y)
    (hz' : T.parent z' = x) (hne' : z' ≠ x) (hy' : T.Below z' y) : z = z' := by
  obtain ⟨n, hn⟩ := hy
  obtain ⟨m, hm⟩ := hy'
  have hlower : ∀ {k l : ℕ} {c c' : V}, T.parent^[k] y = c → T.parent^[l] y = c' →
      T.parent c = x → T.level x < T.level c' → ¬ k < l := by
    intro k l c c' hc hc' hparent hlevel hlt
    obtain ⟨j, rfl⟩ := Nat.exists_eq_add_of_lt hlt
    have hx : T.parent^[k + 1] y = x := by rw [Function.iterate_succ_apply', hc, hparent]
    have hc' : T.parent^[j] x = c' := by
      rw [← hc', ← hx, ← Function.iterate_add_apply, show k + j + 1 = j + (k + 1) by omega]
    have hle := level_iterate_le (T := T) j x
    rw [hc'] at hle
    exact absurd hle (not_le.mpr hlevel)
  rcases lt_trichotomy n m with hlt | rfl | hlt
  · exact absurd hlt (hlower hn hm hz (level_lt_of_child hz' hne'))
  · exact hn.symm.trans hm
  · exact absurd hlt (hlower hm hn hz' (level_lt_of_child hz hne))

/-- A subtree is left through the parent of its node. -/
theorem leaves_subtree (hadj : T.graph.Adj u v) (hu : T.Below a u) (hv : ¬ T.Below a v) :
    u = a ∧ v = T.parent a := by
  rcases hadj.2 with hparent | hparent
  · exact absurd (Below.of_parent (hparent.symm ▸ hu)) hv
  · rcases below_iff.mp hu with rfl | hu
    · exact ⟨rfl, hparent.symm⟩
    · exact absurd (hparent ▸ hu) hv

theorem parent_not_below (hne : x ≠ T.root) : ¬ T.Below x (T.parent x) := by
  rintro ⟨n, hn⟩
  have hle := level_iterate_le (T := T) n (T.parent x)
  rw [hn] at hle
  exact absurd hle (not_le.mpr (T.level_parent hne))

/-! ## Paths -/

/-- The first step of a path. -/
theorem snd_of_isPath {p : T.graph.Walk x y} (hp : p.IsPath) (hne : x ≠ y) :
    T.Below x y ∧ T.parent p.snd = x ∧ p.snd ≠ x ∧ T.Below p.snd y ∨
      ¬ T.Below x y ∧ p.snd = T.parent x := by
  cases p with
  | nil => exact absurd rfl hne
  | @cons _ z _ hadj p =>
    obtain ⟨-, hfresh⟩ := (Walk.cons_isPath_iff hadj p).mp hp
    rw [Walk.snd_cons]
    rcases hadj.2 with hparent | hparent
    · have hbelow : T.Below z y := by
        by_contra hout
        obtain ⟨d, hd, hin, hout⟩ := p.exists_boundary_dart {w | T.Below z w} (.refl z) hout
        obtain ⟨-, hleft⟩ := leaves_subtree d.adj hin hout
        exact hfresh (hparent ▸ hleft ▸ p.dart_snd_mem_support_of_mem_darts hd)
      refine .inl ⟨?_, hparent, hadj.1.symm, hbelow⟩
      obtain ⟨n, hn⟩ := hbelow
      exact ⟨n + 1, by rw [Function.iterate_succ_apply', hn, hparent]⟩
    · refine .inr ⟨fun hbelow => ?_, hparent.symm⟩
      have hroot : x ≠ T.root := by
        rintro rfl
        exact hadj.1 (T.parent_root.symm.trans hparent)
      have hstart : z ∈ {w | ¬ T.Below x w} := by
        rw [← hparent]
        exact parent_not_below hroot
      obtain ⟨d, hd, hout, hin⟩ := p.exists_boundary_dart _ hstart fun h => h hbelow
      obtain ⟨hback, -⟩ := leaves_subtree d.adj.symm (not_not.mp hin) hout
      exact hfresh (hback ▸ p.dart_snd_mem_support_of_mem_darts hd)

theorem snd_eq {p q : T.graph.Walk x y} (hp : p.IsPath) (hq : q.IsPath) (hne : x ≠ y) :
    p.snd = q.snd := by
  rcases snd_of_isPath hp hne with ⟨hin, hz, hzne, hzy⟩ | ⟨hout, hz⟩
  · rcases snd_of_isPath hq hne with ⟨-, hz', hzne', hzy'⟩ | ⟨hout, -⟩
    · exact child_unique hz hzne hzy hz' hzne' hzy'
    · exact absurd hin hout
  · rcases snd_of_isPath hq hne with ⟨hin, -⟩ | ⟨-, hz'⟩
    · exact absurd hin hout
    · exact hz.trans hz'.symm

/-- Paths between two nodes are equal. -/
theorem isPath_unique {p q : T.graph.Walk x y} (hp : p.IsPath) (hq : q.IsPath) : p = q := by
  induction p with
  | nil => exact (Walk.isPath_iff_nil.mp hq).eq_nil.symm
  | @cons x z y hadj p ih =>
    obtain ⟨hp', hfresh⟩ := (Walk.cons_isPath_iff hadj p).mp hp
    have hne : x ≠ y := fun h => hfresh (h ▸ p.end_mem_support)
    have hsnd := snd_eq hp hq hne
    cases q with
    | nil => exact absurd rfl hne
    | cons hadj' q =>
      obtain ⟨hq', -⟩ := (Walk.cons_isPath_iff hadj' q).mp hq
      rw [Walk.snd_cons, Walk.snd_cons] at hsnd
      subst hsnd
      rw [ih hp' hq']

theorem reachable_root (v : V) : T.graph.Reachable v T.root := by
  induction hl : T.level v using Nat.strong_induction_on generalizing v with
  | _ l ih =>
    by_cases hv : v = T.root
    · rw [hv]
    · have hlower := T.level_parent hv
      have hne : v ≠ T.parent v := fun h => by rw [← h] at hlower; exact hlower.false
      have hadj : T.graph.Adj v (T.parent v) := ⟨hne, .inr rfl⟩
      exact hadj.reachable.trans (ih _ (hl ▸ hlower) _ rfl)

theorem exists_isPath (x y : V) : ∃ p : T.graph.Walk x y, p.IsPath :=
  ((reachable_root x).trans (reachable_root y).symm).exists_isPath

end RootedTree

end BookSim
