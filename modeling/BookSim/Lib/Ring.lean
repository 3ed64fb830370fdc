/-
# `BookSim.Lib.Ring` — ways around a ring, and distances by coordinates

The positions of a ring of size `k` are `0, …, k - 1`.  There are two ways from one to
another, and `way k forth a b` is the length of one of them.  A step along it makes it
shorter by one; so does a step for any goal beyond the first one, which is how a line that
is not to be crossed is carried along.  `gridDist` adds up the distances of two points
coordinate by coordinate, and the last part says what one changed coordinate does to it.
-/
import Mathlib.Data.Nat.Notation
import Mathlib.Order.Basic

namespace BookSim.RingWay

/-- The next position upwards. -/
def next (k a : ℕ) : ℕ := if a = k - 1 then 0 else a + 1

/-- The next position downwards. -/
def prev (k a : ℕ) : ℕ := if a = 0 then k - 1 else a - 1

/-- One step, forth or back. -/
def move (k : ℕ) (forth : Bool) (a : ℕ) : ℕ := if forth then next k a else prev k a

/-- The number of steps upwards from `a` to `b`. -/
def ahead (k a b : ℕ) : ℕ := if a ≤ b then b - a else b + k - a

/-- The number of steps from `a` to `b`, forth or back. -/
def way (k : ℕ) (forth : Bool) (a b : ℕ) : ℕ := if forth then ahead k a b else ahead k b a

/-- The shorter way. -/
def dist (k a b : ℕ) : ℕ := min (ahead k a b) (ahead k b a)

section Ways

variable {k a b : ℕ} {forth : Bool} (ha : a < k) (hb : b < k)

include ha in

theorem move_lt (forth : Bool) : move k forth a < k := by
  unfold move next prev
  split_ifs <;> omega

include ha in

/-- A step, and back. -/
theorem move_not_move : move k (!forth) (move k forth a) = a := by
  unfold move next prev
  cases forth <;> simp <;> split_ifs <;> omega

@[simp] theorem way_self : way k forth a a = 0 := by
  unfold way ahead
  split_ifs <;> omega

include ha hb

theorem way_lt (forth : Bool) : way k forth a b < k := by
  unfold way ahead
  split_ifs <;> omega

theorem way_pos (forth : Bool) (hne : a ≠ b) : 0 < way k forth a b := by
  unfold way ahead
  split_ifs <;> omega

/-- A step along the way. -/
theorem way_move (forth : Bool) (hne : a ≠ b) :
    way k forth (move k forth a) b + 1 = way k forth a b := by
  unfold way ahead move next prev
  split_ifs <;> omega

/-- The two ways make up the ring. -/
theorem way_add_way_not (hne : a ≠ b) : way k forth a b + way k (!forth) a b = k := by
  unfold way ahead
  cases forth <;> simp only [Bool.not_true, Bool.not_false, if_true, if_false,
    Bool.false_eq_true] <;> split_ifs <;> omega

/-- A way that is at most half the ring is the shorter one. -/
theorem dist_of_way_le (hle : 2 * way k forth a b ≤ k) : dist k a b = way k forth a b := by
  unfold way at hle ⊢
  unfold dist ahead at *
  split_ifs at hle ⊢ <;> omega

/-- A step changes the distance by one at most. -/
theorem dist_le_move (forth : Bool) : dist k a b ≤ dist k (move k forth a) b + 1 := by
  unfold dist ahead move next prev
  split_ifs <;> omega

end Ways

@[simp] theorem dist_self (k a : ℕ) : dist k a a = 0 := by
  unfold dist ahead
  simp

/-! ## Coordinates -/

/-- The distance of two points, coordinate by coordinate. -/
def gridDist (d : ℕ → ℕ → ℕ) : List ℕ → List ℕ → ℕ
  | a :: as, b :: bs => d a b + gridDist d as bs
  | _, _ => 0

variable {d : ℕ → ℕ → ℕ}

/-- What another coordinate does to the distance. -/
theorem gridDist_set : ∀ {as bs : List ℕ} {i : ℕ} (x : ℕ), as.length = bs.length → i < as.length →
    gridDist d (as.set i x) bs + d (as.getD i 0) (bs.getD i 0) =
      gridDist d as bs + d x (bs.getD i 0)
  | a :: as, b :: bs, 0, x, _, _ => by simp [gridDist]; omega
  | a :: as, b :: bs, i + 1, x, hlen, hi => by
    have ih := @gridDist_set as bs i x (by simpa using hlen) (by simpa using hi)
    simp only [List.set_cons_succ, gridDist, List.getD_cons_succ]
    omega

theorem gridDist_self (hd : ∀ a, d a a = 0) : ∀ as : List ℕ, gridDist d as as = 0
  | [] => rfl
  | a :: as => by rw [gridDist, hd, gridDist_self hd as]

end BookSim.RingWay
