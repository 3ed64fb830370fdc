/-
# `BookSim.Lib.Tokens` — tokens that wait in several places

The tokens of a family of queues, put together, as one list: adding a token to one of
the queues, or taking it from there, adds it to the list or takes it from there; and if
only one place has something to show, that is all there is to see.
-/
import Mathlib.Data.List.Nodup
import Mathlib.Data.List.Perm.Basic
import Mathlib.Data.List.ProdSigma

namespace BookSim

variable {α β : Type*} [DecidableEq α]

open List

/-- Two families of queues that agree but for one token in one place. -/
theorem flatMap_perm_cons {places : List α} {p : α} {f g : α → List β} {x : β}
    (hnodup : places.Nodup) (hp : p ∈ places) (hother : ∀ q, q ≠ p → g q = f q)
    (hplace : g p ~ x :: f p) : places.flatMap g ~ x :: places.flatMap f := by
  have hsplit : ∀ h : α → List β, places.flatMap h ~ h p ++ (places.erase p).flatMap h :=
    fun h => (perm_cons_erase hp).flatMap_right h
  have hrest : (places.erase p).flatMap g = (places.erase p).flatMap f :=
    flatMap_congr fun q hq => hother q (hnodup.mem_erase_iff.mp hq).1
  calc places.flatMap g
      ~ g p ++ (places.erase p).flatMap g := hsplit g
    _ ~ x :: f p ++ (places.erase p).flatMap f := hrest ▸ hplace.append_right _
    _ ~ x :: places.flatMap f := (hsplit f).symm.cons x

theorem filterMap_of_single {f : α → Option β} {a : α} {b : β} {xs : List α} (hnodup : xs.Nodup)
    (hmem : a ∈ xs) (ha : f a = some b) (hother : ∀ x, x ≠ a → f x = none) :
    xs.filterMap f = [b] := by
  have hrest : (xs.erase a).filterMap f = [] :=
    filterMap_eq_nil_iff.mpr fun x hx => hother x (hnodup.mem_erase_iff.mp hx).1
  have hperm := (perm_cons_erase hmem).filterMap f
  rw [filterMap_cons_some ha, hrest] at hperm
  exact perm_singleton.mp hperm

end BookSim
