/-
# Mixed-radix numerals

A numeral over the radices `ks = [k₀, k₁, …]` is a list of digits, least significant
first; its place values are `1, k₀, k₀·k₁, …`.  The library has three parts:

    digits / value      the two directions of the numbering of `[0, k₀·k₁·…)`
    weighted            the sum of the digits under ANY place values, and when it
                        agrees with `value` on every numeral
    pair                one numeral over `[k₀·c₀, k₁·c₁, …]` as a numeral over `ks`
                        together with a numeral over `cs`, digit by digit

The last part numbers a grid of cells of which each is itself a small grid.
-/
import Mathlib.Algebra.BigOperators.Group.List.Basic
import Mathlib.Order.Monotone.Basic
import Mathlib.Data.Set.Function
import Mathlib.Tactic.Ring

namespace BookSim.MixedRadix

open List

/-! ## Digits and values -/

/-- The digits of `x`, by repeated division. -/
def digits : List ℕ → ℕ → List ℕ
  | [], _ => []
  | k :: ks, x => x % k :: digits ks (x / k)

/-- The number a list of digits stands for. -/
def value : List ℕ → List ℕ → ℕ
  | k :: ks, d :: ds => d + k * value ks ds
  | _, _ => 0

/-- Every digit is below its radix, and there is one digit per radix. -/
abbrev Fits (ks ds : List ℕ) : Prop := List.Forall₂ (· < ·) ds ks

@[simp] theorem length_digits : ∀ (ks : List ℕ) (x : ℕ), (digits ks x).length = ks.length
  | [], _ => rfl
  | _ :: ks, x => by simp [digits, length_digits ks]

theorem fits_digits : ∀ {ks : List ℕ}, (∀ k ∈ ks, 0 < k) → ∀ x, Fits ks (digits ks x)
  | [], _, _ => .nil
  | k :: _, hpos, x =>
    .cons (Nat.mod_lt x (hpos k (by simp)))
      (fits_digits (fun j hj => hpos j (mem_cons_of_mem _ hj)) _)

theorem value_lt : ∀ {ks ds : List ℕ}, Fits ks ds → value ks ds < ks.prod
  | [], _, .nil => by simp [value]
  | k :: ks, d :: ds, .cons hd h => by
    have ih := value_lt h
    have hmul : k * (value ks ds + 1) ≤ k * ks.prod := Nat.mul_le_mul_left k ih
    rw [Nat.mul_add_one] at hmul
    simp only [value, prod_cons]
    omega

/-- Dividing by the radices in turn and summing up again gives the number back. -/
theorem value_digits : ∀ {ks : List ℕ} {x : ℕ}, x < ks.prod → value ks (digits ks x) = x
  | [], x, h => by simp only [prod_nil, Nat.lt_one_iff] at h; simp [value, h]
  | k :: ks, x, h => by
    have hlt : x / k < ks.prod := Nat.div_lt_of_lt_mul (by simpa using h)
    rw [digits, value, value_digits hlt]
    exact Nat.mod_add_div x k

theorem digits_value : ∀ {ks ds : List ℕ}, Fits ks ds → digits ks (value ks ds) = ds
  | [], _, .nil => rfl
  | k :: ks, d :: ds, .cons hd h => by
    have hk : 0 < k := by omega
    rw [value, digits, Nat.add_mul_mod_self_left, Nat.mod_eq_of_lt hd,
      Nat.add_mul_div_left _ _ hk, Nat.div_eq_of_lt hd, Nat.zero_add, digits_value h]

/-- Numbers compare by their higher digits first. -/
theorem add_mul_lt_add_mul_iff {k a a' b b' : ℕ} (ha : a < k) (ha' : a' < k) :
    a + k * b < a' + k * b' ↔ b < b' ∨ b = b' ∧ a < a' := by
  rcases Nat.lt_trichotomy b b' with h | rfl | h
  · have : k * (b + 1) ≤ k * b' := Nat.mul_le_mul_left k h
    rw [Nat.mul_add_one] at this
    constructor
    · exact fun _ => .inl h
    · intro; omega
  · omega
  · have : k * (b' + 1) ≤ k * b := Nat.mul_le_mul_left k h
    rw [Nat.mul_add_one] at this
    constructor
    · intro; omega
    · rintro (h' | ⟨h', -⟩) <;> omega

/-! ## Changing one digit -/

theorem fits_set : ∀ {ks ds : List ℕ} {i d : ℕ}, Fits ks ds → d < ks.getD i 0 → Fits ks (ds.set i d)
  | [], _, _, _, .nil, hd => by simp at hd
  | _ :: _, _ :: _, 0, _, .cons _ h, hd => .cons (by simpa using hd) h
  | _ :: _, _ :: _, _ + 1, _, .cons hd' h, hd => .cons hd' (fits_set h (by simpa using hd))

theorem getD_lt_of_fits : ∀ {ks ds : List ℕ} {i : ℕ}, Fits ks ds → i < ks.length →
    ds.getD i 0 < ks.getD i 0
  | _ :: _, _ :: _, 0, .cons hd _, _ => by simpa using hd
  | _ :: _, _ :: _, _ + 1, .cons _ h, hi => by
    simpa using getD_lt_of_fits h (by simpa using hi)

/-- The digit in a place, read off the number. -/
theorem getD_digits : ∀ {ks : List ℕ} {i : ℕ} (x : ℕ), i < ks.length →
    (digits ks x).getD i 0 = x / (ks.take i).prod % ks.getD i 0
  | k :: ks, 0, x, _ => by simp [digits]
  | k :: ks, i + 1, x, h => by
    have ih := @getD_digits ks i (x / k) (by simpa using h)
    rw [digits, getD_cons_succ, ih, take_succ_cons, prod_cons, Nat.div_div_eq_div_mul,
      getD_cons_succ]

/-- What another digit in one place does to the number. -/
theorem value_set : ∀ {ks ds : List ℕ} {i : ℕ} (d : ℕ), ds.length = ks.length → i < ks.length →
    value ks (ds.set i d) + (ks.take i).prod * ds.getD i 0 = value ks ds + (ks.take i).prod * d
  | k :: ks, e :: ds, 0, d, _, _ => by
    simp only [set_cons_zero, value, take_zero, prod_nil, one_mul, getD_cons_zero]
    omega
  | k :: ks, e :: ds, i + 1, d, hlen, hi => by
    have ih := @value_set ks ds i d (by simpa using hlen) (by simpa using hi)
    simp only [set_cons_succ, value, take_succ_cons, prod_cons, getD_cons_succ]
    calc e + k * value ks (ds.set i d) + k * (ks.take i).prod * ds.getD i 0
        = e + k * (value ks (ds.set i d) + (ks.take i).prod * ds.getD i 0) := by ring
      _ = e + k * value ks ds + k * (ks.take i).prod * d := by rw [ih]; ring

/-! ## Other place values -/

/-- The sum of the digits under the place values `w`. -/
def weighted (w : ℕ → ℕ) : List ℕ → ℕ
  | [] => 0
  | d :: ds => w 0 * d + weighted (fun i => w (i + 1)) ds

theorem weighted_mul (k : ℕ) : ∀ (w : ℕ → ℕ) (ds : List ℕ),
    weighted (fun i => k * w i) ds = k * weighted w ds
  | _, [] => by simp [weighted]
  | w, d :: ds => by
    simp only [weighted]
    rw [weighted_mul k (fun i => w (i + 1)) ds]
    ring

/-- The place values of a numeral are the products of the preceding radices. -/
theorem value_eq_weighted : ∀ {ks ds : List ℕ}, ds.length = ks.length →
    value ks ds = weighted (fun i => (ks.take i).prod) ds
  | [], [], _ => rfl
  | k :: ks, d :: ds, h => by
    have hlen : ds.length = ks.length := by simpa using h
    simp only [value, weighted, take_zero, prod_nil, one_mul, take_succ_cons, prod_cons]
    rw [weighted_mul k (fun i => (ks.take i).prod), value_eq_weighted hlen]

/-- Place values matter only where a digit can be other than zero. -/
theorem weighted_congr : ∀ {ks ds : List ℕ} {w w' : ℕ → ℕ}, Fits ks ds →
    (∀ i < ks.length, 2 ≤ ks.getD i 0 → w i = w' i) → weighted w ds = weighted w' ds
  | [], _, _, _, .nil, _ => rfl
  | k :: ks, d :: ds, w, w', .cons hd h, hw => by
    have hhead : w 0 * d = w' 0 * d := by
      rcases Nat.lt_or_ge k 2 with hk | hk
      · have : d = 0 := by omega
        simp [this]
      · rw [hw 0 (by simp) (by simpa using hk)]
    have htail : weighted (fun i => w (i + 1)) ds = weighted (fun i => w' (i + 1)) ds :=
      weighted_congr h fun i hi hk => hw (i + 1) (by simpa using hi) (by simpa using hk)
    rw [weighted, weighted, hhead, htail]

/-- The numeral whose only digit other than zero is a one at place `i`. -/
def unit (n i : ℕ) : List ℕ := (List.replicate n 0).set i 1

theorem weighted_replicate_zero : ∀ (n : ℕ) (w : ℕ → ℕ), weighted w (List.replicate n 0) = 0
  | 0, _ => rfl
  | n + 1, w => by simp [weighted, replicate_succ, weighted_replicate_zero n]

theorem weighted_unit : ∀ {n i : ℕ} (w : ℕ → ℕ), i < n → weighted w (unit n i) = w i
  | n + 1, 0, w, _ => by simp [unit, weighted, replicate_succ, weighted_replicate_zero]
  | n + 1, i + 1, w, h => by
    have ih := weighted_unit (n := n) (i := i) (fun j => w (j + 1)) (by omega)
    simpa [unit, weighted, replicate_succ] using ih

@[simp] theorem length_unit (n i : ℕ) : (unit n i).length = n := by simp [unit]

theorem fits_replicate_zero : ∀ {ks : List ℕ}, (∀ k ∈ ks, 0 < k) →
    Fits ks (List.replicate ks.length 0)
  | [], _ => .nil
  | k :: _, hpos =>
    .cons (hpos k (by simp)) (fits_replicate_zero fun j hj => hpos j (mem_cons_of_mem _ hj))

theorem fits_unit {ks : List ℕ} {i : ℕ} (hpos : ∀ k ∈ ks, 0 < k) (h : 2 ≤ ks.getD i 0) :
    Fits ks (unit ks.length i) :=
  fits_set (fits_replicate_zero hpos) h

/-- Some place values name every numeral by its number exactly when they are the products
of the preceding radices, in every place where a digit other than zero fits. -/
theorem weighted_eq_value_iff {ks : List ℕ} (hpos : ∀ k ∈ ks, 0 < k) (w : ℕ → ℕ) :
    (∀ ds, Fits ks ds → weighted w ds = value ks ds) ↔
      ∀ i < ks.length, 2 ≤ ks.getD i 0 → w i = (ks.take i).prod := by
  constructor
  · intro h i hi hk
    have hu := h _ (fits_unit hpos hk)
    rwa [value_eq_weighted (length_unit _ _), weighted_unit _ hi, weighted_unit _ hi] at hu
  · intro h ds hds
    rw [value_eq_weighted hds.length_eq]
    exact weighted_congr hds h

/-- A loop that adds up digits times place values, from place `a` on. -/
theorem foldl_range'_weighted (w : ℕ → ℕ) (ds : List ℕ) : ∀ (es : List ℕ) (a init : ℕ),
    ds.drop a = es → (List.range' a es.length).foldl (fun acc i => acc + w i * ds.getD i 0) init
      = init + weighted (fun i => w (a + i)) es
  | [], _, init, _ => by simp [weighted]
  | e :: es, a, init, h => by
    have hhead : ds.getD a 0 = e := by
      have := congrArg (fun l => l.getD 0 0) h
      simpa using this
    have htail : ds.drop (a + 1) = es := by
      rw [← tail_drop, h, tail_cons]
    rw [length_cons, List.range'_succ, foldl_cons,
      foldl_range'_weighted w ds es (a + 1) _ htail, hhead]
    simp only [weighted, Nat.add_zero]
    rw [show (fun i => w (a + 1 + i)) = fun i => w (a + (i + 1)) from
      funext fun i => by rw [Nat.add_assoc, Nat.add_comm 1 i]]
    omega

/-! ## Cells of cells -/

/-- The digits over `ks · cs` of the point `os` of the cell `rs`. -/
def pair : List ℕ → List ℕ → List ℕ → List ℕ
  | c :: cs, r :: rs, o :: os => (r * c + o) :: pair cs rs os
  | _, _, _ => []

theorem prod_zipWith_mul : ∀ {ks cs : List ℕ}, ks.length = cs.length →
    (List.zipWith (· * ·) ks cs).prod = ks.prod * cs.prod
  | [], [], _ => rfl
  | k :: ks, c :: cs, h => by
    have hlen : ks.length = cs.length := by simpa using h
    rw [zipWith_cons_cons, prod_cons, prod_zipWith_mul hlen, prod_cons, prod_cons]
    ring

theorem fits_pair : ∀ {ks cs rs os : List ℕ}, Fits ks rs → Fits cs os →
    Fits (List.zipWith (· * ·) ks cs) (pair cs rs os)
  | [], _, _, _, .nil, h => by cases h <;> exact .nil
  | _ :: _, [], _, _, .cons _ _, .nil => .nil
  | k :: _, c :: _, r :: _, o :: _, .cons hr hrs, .cons ho hos => by
    refine .cons ?_ (fits_pair hrs hos)
    have : (r + 1) * c ≤ k * c := Nat.mul_le_mul_right c hr
    rw [Nat.add_one_mul] at this
    show r * c + o < k * c
    omega

theorem div_pair : ∀ {ks cs rs os : List ℕ}, ks.length = cs.length → Fits ks rs → Fits cs os →
    List.zipWith (· / ·) (pair cs rs os) cs = rs
  | [], [], _, _, _, .nil, .nil => rfl
  | _ :: _, c :: _, r :: _, o :: _, h, .cons hr hrs, .cons ho hos => by
    rw [pair, zipWith_cons_cons, div_pair (by simpa using h) hrs hos, Nat.add_comm,
      Nat.add_mul_div_right _ _ (by omega), Nat.div_eq_of_lt ho, Nat.zero_add]

theorem mod_pair : ∀ {ks cs rs os : List ℕ}, ks.length = cs.length → Fits ks rs → Fits cs os →
    List.zipWith (· % ·) (pair cs rs os) cs = os
  | [], [], _, _, _, .nil, .nil => rfl
  | _ :: _, c :: _, r :: _, o :: _, h, .cons hr hrs, .cons ho hos => by
    rw [pair, zipWith_cons_cons, mod_pair (by simpa using h) hrs hos, Nat.add_comm,
      Nat.add_mul_mod_self_right, Nat.mod_eq_of_lt ho]

/-- Every point of the grid of grids lies in a cell. -/
theorem exists_pair : ∀ {ks cs ds : List ℕ}, ks.length = cs.length →
    Fits (List.zipWith (· * ·) ks cs) ds → ∃ rs os, Fits ks rs ∧ Fits cs os ∧ ds = pair cs rs os
  | [], [], _, _, .nil => ⟨[], [], .nil, .nil, rfl⟩
  | k :: ks, c :: cs, d :: ds, h, .cons hd hds => by
    obtain ⟨rs, os, hrs, hos, rfl⟩ := exists_pair (by simpa using h) hds
    have hc : 0 < c := Nat.pos_of_ne_zero fun h0 => by simp [h0] at hd
    refine ⟨d / c :: rs, d % c :: os, .cons ?_ hrs, .cons (Nat.mod_lt d hc) hos, ?_⟩
    · exact Nat.div_lt_of_lt_mul (by rwa [Nat.mul_comm])
    · rw [pair, Nat.mul_comm, Nat.div_add_mod]

/-- Inside one cell the numbers of the points are ordered as their offsets are. -/
theorem value_pair_lt_iff : ∀ {ks cs rs os os' : List ℕ}, ks.length = cs.length → Fits ks rs →
    Fits cs os → Fits cs os' →
    (value (List.zipWith (· * ·) ks cs) (pair cs rs os) <
        value (List.zipWith (· * ·) ks cs) (pair cs rs os') ↔ value cs os < value cs os')
  | [], [], _, _, _, _, .nil, .nil, .nil => Iff.rfl
  | k :: ks, c :: cs, r :: rs, o :: os, o' :: os', h, .cons hr hrs, .cons ho hos,
      .cons ho' hos' => by
    have hlen : ks.length = cs.length := by simpa using h
    have hlt := value_pair_lt_iff hlen hrs hos hos'
    have hgt := value_pair_lt_iff hlen hrs hos' hos
    have hbound : (r + 1) * c ≤ k * c := Nat.mul_le_mul_right c hr
    rw [Nat.add_one_mul] at hbound
    simp only [pair, value, zipWith_cons_cons]
    rw [add_mul_lt_add_mul_iff (by omega) (by omega), add_mul_lt_add_mul_iff ho ho']
    omega

/-- The number of point `o` of cell `r`. -/
def point (ks cs : List ℕ) (r o : ℕ) : ℕ :=
  value (List.zipWith (· * ·) ks cs) (pair cs (digits ks r) (digits cs o))

section Point

variable {ks cs : List ℕ} (hlen : ks.length = cs.length) (hk : ∀ k ∈ ks, 0 < k)
  (hc : ∀ c ∈ cs, 0 < c)

include hlen hk hc

theorem point_lt (r o : ℕ) : point ks cs r o < ks.prod * cs.prod := by
  rw [← prod_zipWith_mul hlen]
  exact value_lt (fits_pair (fits_digits hk r) (fits_digits hc o))

omit hlen in

theorem digits_point (r o : ℕ) :
    digits (List.zipWith (· * ·) ks cs) (point ks cs r o) = pair cs (digits ks r) (digits cs o) :=
  digits_value (fits_pair (fits_digits hk r) (fits_digits hc o))

theorem point_lt_point_iff (r : ℕ) {o o' : ℕ} (ho : o < cs.prod) (ho' : o' < cs.prod) :
    point ks cs r o < point ks cs r o' ↔ o < o' := by
  have h := value_pair_lt_iff hlen (fits_digits hk r) (fits_digits hc o) (fits_digits hc o')
  rwa [value_digits ho, value_digits ho'] at h

theorem exists_point {x : ℕ} (hx : x < ks.prod * cs.prod) :
    ∃ r < ks.prod, ∃ o < cs.prod, x = point ks cs r o := by
  have hx' : x < (List.zipWith (· * ·) ks cs).prod := by rwa [prod_zipWith_mul hlen]
  have hpos : ∀ k ∈ List.zipWith (· * ·) ks cs, 0 < k := by
    intro k hmem
    obtain ⟨a, ha, b, hb, rfl⟩ : ∃ a ∈ ks, ∃ b ∈ cs, a * b = k := by
      rw [mem_iff_getElem] at hmem
      obtain ⟨i, hi, rfl⟩ := hmem
      rw [length_zipWith] at hi
      exact ⟨ks[i], getElem_mem _, cs[i], getElem_mem _, (getElem_zipWith).symm⟩
    exact Nat.mul_pos (hk a ha) (hc b hb)
  obtain ⟨rs, os, hrs, hos, hds⟩ := exists_pair hlen (fits_digits hpos x)
  refine ⟨value ks rs, value_lt hrs, value cs os, value_lt hos, ?_⟩
  rw [point, digits_value hrs, digits_value hos, ← hds, value_digits hx']

end Point

/-! ## Rankings -/

/-- The only way to number `m` things in order with `0, …, m - 1` is their own order. -/
theorem eq_self_of_strictMonoOn {f : ℕ → ℕ} {m : ℕ} (hmono : StrictMonoOn f (Set.Iio m))
    (hmaps : Set.MapsTo f (Set.Iio m) (Set.Iio m)) {x : ℕ} (hx : x < m) : f x = x := by
  have hstep : ∀ i d, i + d < m → f i + d ≤ f (i + d) := by
    intro i d
    induction d with
    | zero => intro; exact Nat.le_refl _
    | succ d ih =>
      intro hd
      have hlt : f (i + d) < f (i + (d + 1)) :=
        hmono (by simp only [Set.mem_Iio]; omega) (by simpa using hd) (by omega)
      have := ih (by omega)
      omega
  have hlow := hstep 0 x (by omega)
  have hhigh := hstep x (m - 1 - x) (by omega)
  have hlast : f (x + (m - 1 - x)) < m := hmaps (by simp only [Set.mem_Iio]; omega)
  rw [Nat.zero_add] at hlow
  omega

end BookSim.MixedRadix
