/-
# `BookSim.Lib.DigitExchange` — a number and a digit change places

The wires between two stages of a butterfly exchange one digit of a number, written to the base
`k`, with a digit beside it.  Done twice it is nothing; the digits above stay as they are, and so
does the bound on the number.
-/
import Mathlib.Algebra.Ring.Nat
import Mathlib.Tactic.Common

namespace BookSim.DigitExchange

/-- The number with the digit `p` at the place of `shift`, and the digit that was there. -/
def exchange (k shift a p : ℕ) : ℕ × ℕ :=
  (a - a / shift % k * shift + p * shift, a / shift % k)

variable {k shift : ℕ}

theorem exchange_snd_lt (hk : 0 < k) {a p : ℕ} : (exchange k shift a p).2 < k := Nat.mod_lt _ hk

variable (hshift : 0 < shift)

include hshift

/-- With the digits above and below. -/
theorem exchange_digits {hi d lo p : ℕ} (hd : d < k) (hlo : lo < shift) :
    exchange k shift ((hi * k + d) * shift + lo) p = ((hi * k + p) * shift + lo, d) := by
  have hdiv : ((hi * k + d) * shift + lo) / shift = hi * k + d := by
    rw [Nat.mul_comm, Nat.mul_add_div hshift, Nat.div_eq_of_lt hlo, Nat.add_zero]
  have hmod : (hi * k + d) % k = d := by
    rw [Nat.mul_comm, Nat.mul_add_mod, Nat.mod_eq_of_lt hd]
  rw [exchange, hdiv, hmod, Prod.mk.injEq]
  refine ⟨?_, rfl⟩
  rw [Nat.add_mul, Nat.add_mul (hi * k)]
  omega

variable (hk : 0 < k)

include hk

/-- Every number is of this form. -/
theorem exists_digits (a : ℕ) : ∃ d lo, d < k ∧ lo < shift ∧
    a = (a / (shift * k) * k + d) * shift + lo := by
  refine ⟨a / shift % k, a % shift, Nat.mod_lt _ hk, Nat.mod_lt _ hshift, ?_⟩
  rw [← Nat.div_div_eq_div_mul, Nat.div_add_mod', Nat.div_add_mod']

theorem exchange_exchange {a p : ℕ} (hp : p < k) :
    exchange k shift (exchange k shift a p).1 (exchange k shift a p).2 = (a, p) := by
  obtain ⟨d, lo, hd, hlo, ha⟩ := exists_digits hshift hk a
  rw [ha, exchange_digits hshift hd hlo, exchange_digits hshift hp hlo]

/-- The digit takes the place below the digits above. -/
theorem exchange_div {a p : ℕ} : (exchange k shift a p).1 / shift = a / (shift * k) * k + p := by
  obtain ⟨d, lo, hd, hlo, ha⟩ := exists_digits hshift hk a
  generalize a / (shift * k) = hi at ha ⊢
  rw [ha, exchange_digits hshift hd hlo, Nat.mul_comm, Nat.mul_add_div hshift,
    Nat.div_eq_of_lt hlo, Nat.add_zero]

theorem exchange_lt {a p m : ℕ} (hp : p < k) (ha : a < shift * k * m) :
    (exchange k shift a p).1 < shift * k * m := by
  have hhi : a / (shift * k) < m := Nat.div_lt_of_lt_mul ha
  have hdiv : (exchange k shift a p).1 / shift < m * k := by
    rw [exchange_div hshift hk]
    have hmul := Nat.mul_le_mul_right k (Nat.succ_le_of_lt hhi)
    rw [Nat.succ_mul] at hmul
    omega
  have hlt := Nat.lt_mul_of_div_lt hdiv hshift
  rwa [Nat.mul_comm, Nat.mul_comm m, ← Nat.mul_assoc] at hlt

end BookSim.DigitExchange
