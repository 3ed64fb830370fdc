/-
# Pool — quotas with a common overflow

The members of a pool claim slots, and are divided into groups.  Each group has a quota of its
own; what its members claim beyond that is spilled into a part that all groups share:

    load g       what the members of `g` claim
    spill        what the groups claim beyond their quotas, all together

Whoever keeps these two in counters has to change them as the lemmas here say, and then
`sum_claims_le` bounds the claims by the quotas and the shared part.
-/
import Mathlib.Algebra.BigOperators.Group.Finset.Basic
import Mathlib.Algebra.BigOperators.Group.Finset.Piecewise
import Mathlib.Algebra.Order.BigOperators.Group.Finset
import Mathlib.Algebra.Order.Group.Int
import Mathlib.Tactic.Abel

namespace BookSim

open Function (update update_of_ne update_self)

/-- A sum of which one place is changed. -/
theorem sum_comp_update {α β : Type} [DecidableEq α] {s : Finset α} {a : α} (ha : a ∈ s)
    (φ : α → β → ℤ) (f : α → β) (x : β) :
    ∑ b ∈ s, φ b (update f a x b) = ∑ b ∈ s, φ b (f b) + (φ a x - φ a (f a)) := by
  rw [← Finset.add_sum_erase s _ ha, ← Finset.add_sum_erase s (fun b => φ b (f b)) ha, update_self]
  have hother : ∑ b ∈ s.erase a, φ b (update f a x b) = ∑ b ∈ s.erase a, φ b (f b) :=
    Finset.sum_congr rfl fun b hb => by rw [update_of_ne (Finset.ne_of_mem_erase hb)]
  rw [hother]
  abel

structure Pool (M G : Type) where
  members : Finset M
  groups : Finset G
  group : M → G
  quota : G → ℤ
  group_mem : ∀ m ∈ members, group m ∈ groups

namespace Pool

variable {M G : Type} (P : Pool M G)

def load [DecidableEq G] (claims : M → ℤ) (g : G) : ℤ :=
  ∑ m ∈ P.members, if P.group m = g then claims m else 0

def spill (load : G → ℤ) : ℤ := ∑ g ∈ P.groups, max 0 (load g - P.quota g)

variable {P} {claims : M → ℤ} {l : G → ℤ} {m : M} {g : G}

theorem excess_le_spill (hg : g ∈ P.groups) : l g - P.quota g ≤ P.spill l :=
  (le_max_right 0 _).trans (Finset.single_le_sum (f := fun g => max 0 (l g - P.quota g))
    (fun _ _ => le_max_left 0 _) hg)

variable [DecidableEq G]

theorem load_update [DecidableEq M] (claims : M → ℤ) (hm : m ∈ P.members) (x : ℤ) :
    P.load (update claims m x) g = P.load claims g + if P.group m = g then x - claims m else 0 := by
  rw [load, sum_comp_update hm (fun m c => if P.group m = g then c else 0)]
  split
  · rfl
  · rfl

/-- The loads are changed at the group of the member only. -/
theorem load_update_eq [DecidableEq M] (claims : M → ℤ) (hm : m ∈ P.members) (x : ℤ) :
    P.load (update claims m x) =
      update (P.load claims) (P.group m) (P.load claims (P.group m) + (x - claims m)) := by
  funext g
  rw [load_update claims hm]
  by_cases hg : P.group m = g
  · subst hg
    rw [if_pos rfl, update_self]
  · rw [if_neg hg, update_of_ne (Ne.symm hg), add_zero]

theorem spill_update (hg : g ∈ P.groups) (x : ℤ) : P.spill (update l g x) =
    P.spill l + (max 0 (x - P.quota g) - max 0 (l g - P.quota g)) :=
  sum_comp_update hg (fun g y => max 0 (y - P.quota g)) l x

theorem claim_le_load (hclaims : ∀ m ∈ P.members, 0 ≤ claims m) (hm : m ∈ P.members) :
    claims m ≤ P.load claims (P.group m) := by
  refine le_trans (le_of_eq (if_pos rfl).symm) (Finset.single_le_sum (f := fun m' =>
    if P.group m' = P.group m then claims m' else 0) (fun m' hm' => ?_) hm)
  split
  · exact hclaims m' hm'
  · exact le_rfl

theorem sum_load : ∑ g ∈ P.groups, P.load claims g = ∑ m ∈ P.members, claims m := by
  unfold load
  rw [Finset.sum_comm]
  refine Finset.sum_congr rfl fun m hm => ?_
  rw [Finset.sum_ite_eq, if_pos (P.group_mem m hm)]

/-- What is claimed is within the quotas, or spilled. -/
theorem sum_claims_le (claims : M → ℤ) :
    ∑ m ∈ P.members, claims m ≤ ∑ g ∈ P.groups, P.quota g + P.spill (P.load claims) := by
  rw [← sum_load, spill, ← Finset.sum_add_distrib]
  refine Finset.sum_le_sum fun g _ => ?_
  have := le_max_right 0 (P.load claims g - P.quota g)
  omega

end Pool

end BookSim
