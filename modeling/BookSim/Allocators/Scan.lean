/-
# Scan — the loop over the requests of a port

The sparse allocators go through the requests of a port from a round-robin pointer to the end, then
to the first request in any case, and from there as long as they are before the pointer (`scan`).
So the first request may be looked at twice, and none is missed.

    Before      which of two ports comes first, seen from the pointer
    pick        the loop that looks for the highest priority
    Chosen      what it finds: of the eligible requests with the highest priority, the first
-/
import BookSim.Allocators.Allocator

namespace BookSim

open List

/-- The requests of a port in the order in which they are looked at. -/
def scan (offset : ℤ) (reqs : List (ℤ × Request)) : List (ℤ × Request) :=
  reqs.dropWhile (·.1 < offset) ++ (reqs.take 1 ++ (reqs.drop 1).takeWhile (·.1 < offset))

theorem mem_scan {offset : ℤ} {reqs : List (ℤ × Request)} {r : ℤ × Request} :
    r ∈ scan offset reqs ↔ r ∈ reqs := by
  have hsplit := takeWhile_append_dropWhile (p := fun r : ℤ × Request => r.1 < offset) (l := reqs)
  constructor
  · intro h
    rcases mem_append.mp h with h | h
    · exact (dropWhile_sublist _).subset h
    · rcases mem_append.mp h with h | h
      · exact (take_sublist ..).subset h
      · exact (drop_sublist ..).subset ((takeWhile_sublist _).subset h)
  · intro h
    rw [← hsplit] at h
    rcases mem_append.mp h with h | h
    · refine mem_append_right _ ?_
      cases reqs with
      | nil => cases h
      | cons r' rest =>
        rw [takeWhile_cons] at h
        split at h
        · exact h
        · cases h
    · exact mem_append_left _ h

/-! ## The order of a scan -/

/-- Seen from `offset`, `i` does not come after `j`. -/
def Before (offset i j : ℤ) : Prop :=
  offset ≤ i ∧ j < offset ∨ (offset ≤ i ↔ offset ≤ j) ∧ i ≤ j

theorem Before.antisymm {offset i j : ℤ} (h : Before offset i j) (h' : Before offset j i) :
    i = j := by
  unfold Before at h h'
  omega

theorem before_succ_emod {n i j : ℤ} (hi : 0 ≤ i ∧ i < n) (hj : 0 ≤ j ∧ j < n) :
    Before ((j + 1) % n) i j := by
  unfold Before
  rcases lt_or_eq_of_le (Int.add_one_le_of_lt hj.2) with hlt | heq
  · rw [Int.emod_eq_of_lt (by omega) hlt]
    omega
  · rw [heq, Int.emod_self]
    omega

theorem le_of_mem_dropWhile {offset : ℤ} {reqs : List (ℤ × Request)} {r : ℤ × Request}
    (hsorted : reqs.Pairwise fun r r' => r.1 < r'.1) (hr : r ∈ reqs.dropWhile (·.1 < offset)) :
    offset ≤ r.1 := by
  induction reqs with
  | nil => cases hr
  | cons r' rest ih =>
    obtain ⟨hhead, hrest⟩ := pairwise_cons.mp hsorted
    rw [dropWhile_cons] at hr
    split at hr
    · exact ih hrest hr
    · grind

/-- A scan goes through the requests in order, and may then come to one of them again. -/
theorem scan_ordered (offset : ℤ) {reqs : List (ℤ × Request)}
    (hsorted : reqs.Pairwise fun r r' => r.1 < r'.1) :
    ∃ l : List (ℤ × Request), l.Pairwise (fun r r' => Before offset r.1 r'.1) ∧
      (scan offset reqs = l ∨ ∃ r ∈ l, scan offset reqs = l ++ [r]) := by
  cases reqs with
  | nil => exact ⟨[], .nil, .inl rfl⟩
  | cons r rest =>
    obtain ⟨hhead, hrest⟩ := pairwise_cons.mp hsorted
    by_cases hr : r.1 < offset
    · -- the two parts of the scan are those from the pointer on, and those before it
      have hscan : scan offset (r :: rest) =
          (r :: rest).dropWhile (·.1 < offset) ++ (r :: rest).takeWhile (·.1 < offset) := by
        simp [scan, hr]
      refine ⟨_, ?_, .inl rfl⟩
      rw [hscan, pairwise_append]
      refine ⟨?_, ?_, fun r₁ hr₁ r₂ hr₂ => .inl ⟨le_of_mem_dropWhile hsorted hr₁, ?_⟩⟩
      · refine (hsorted.sublist (dropWhile_sublist _)).imp_of_mem fun h₁ h₂ hlt => .inr ⟨?_, hlt.le⟩
        exact iff_of_true (le_of_mem_dropWhile hsorted h₁) (le_of_mem_dropWhile hsorted h₂)
      · refine (hsorted.sublist (takeWhile_sublist _)).imp_of_mem fun h₁ h₂ hlt => .inr ⟨?_, hlt.le⟩
        have h₁ := mem_takeWhile_imp h₁
        have h₂ := mem_takeWhile_imp h₂
        simp only [decide_eq_true_eq] at h₁ h₂
        omega
      · simpa using mem_takeWhile_imp hr₂
    · have hge : ∀ r' ∈ r :: rest, offset ≤ r'.1 := by
        intro r' hr'
        rcases mem_cons.mp hr' with rfl | hr'
        · exact not_lt.mp hr
        · exact (not_lt.mp hr).trans (hhead r' hr').le
      have hnone : rest.takeWhile (·.1 < offset) = [] := by
        refine eq_nil_iff_forall_not_mem.mpr fun r' hr' => ?_
        have hlt := mem_takeWhile_imp hr'
        have hle := hge r' (mem_cons_of_mem r ((takeWhile_sublist _).subset hr'))
        simp only [decide_eq_true_eq] at hlt
        omega
      refine ⟨r :: rest, hsorted.imp_of_mem fun h₁ h₂ hlt => .inr ⟨?_, hlt.le⟩,
        .inr ⟨r, mem_cons_self, ?_⟩⟩
      · exact iff_of_true (hge _ h₁) (hge _ h₂)
      · simp [scan, hr, hnone]

/-! ## The highest priority -/

/-- The loop that keeps the eligible request with the highest priority so far, as `max_index` and
`max_pri`; what is left in `max_index`. -/
def pick (eligible : ℤ → Bool) (pri : Request → ℤ) (reqs : List (ℤ × Request)) : ℤ :=
  (reqs.foldl (fun best r =>
    if eligible r.1 ∧ (pri r.2 > best.2 ∨ best.1 = -1) then (r.1, pri r.2) else best)
    ((-1, 0) : ℤ × ℤ)).1

/-- Of the eligible requests in a row, that of `i` has the highest priority, and among those that
have the same it comes first from `offset` on. -/
def Chosen (row : ℤ → Option Request) (eligible : ℤ → Prop) (pri : Request → ℤ) (offset i : ℤ) :
    Prop :=
  eligible i ∧ ∃ q, row i = some q ∧ ∀ j q', row j = some q' → eligible j →
    pri q' ≤ pri q ∧ (pri q' = pri q → Before offset i j)

section Chosen

variable {row : ℤ → Option Request} {eligible : ℤ → Prop} {pri : Request → ℤ} {offset i j : ℤ}

theorem Chosen.isSome (h : Chosen row eligible pri offset i) : (row i).isSome = true := by
  obtain ⟨-, q, hq, -⟩ := h
  rw [hq]
  rfl

theorem Chosen.congr {eligible' : ℤ → Prop}
    (h : ∀ j, (row j).isSome = true → (eligible j ↔ eligible' j)) :
    Chosen row eligible pri offset i ↔ Chosen row eligible' pri offset i := by
  have hsome : ∀ {j q}, row j = some q → (eligible j ↔ eligible' j) :=
    fun hq => h _ (Option.isSome_iff_exists.mpr ⟨_, hq⟩)
  constructor
  · rintro ⟨hi, q, hq, hbest⟩
    exact ⟨(hsome hq).mp hi, q, hq, fun j q' hq' hj => hbest j q' hq' ((hsome hq').mpr hj)⟩
  · rintro ⟨hi, q, hq, hbest⟩
    exact ⟨(hsome hq).mpr hi, q, hq, fun j q' hq' hj => hbest j q' hq' ((hsome hq').mp hj)⟩

theorem Chosen.unique (hi : Chosen row eligible pri offset i)
    (hj : Chosen row eligible pri offset j) : i = j := by
  obtain ⟨hi, q, hq, hbest⟩ := hi
  obtain ⟨hj, q', hq', hbest'⟩ := hj
  obtain ⟨hle, hbefore⟩ := hbest j q' hq' hj
  obtain ⟨hle', hbefore'⟩ := hbest' i q hq hi
  have hpri := le_antisymm hle hle'
  exact (hbefore hpri).antisymm (hbefore' hpri.symm)

end Chosen

/-- What the loop keeps when it has gone through the requests in `seen`. -/
inductive Picked (eligible : ℤ → Bool) (pri : Request → ℤ) (offset : ℤ)
    (seen : List (ℤ × Request)) : ℤ × ℤ → Prop
  | none : (∀ r ∈ seen, eligible r.1 = false) → Picked eligible pri offset seen (-1, 0)
  | some {r : ℤ × Request} : r ∈ seen → eligible r.1 = true →
      (∀ r' ∈ seen, eligible r'.1 = true →
        pri r'.2 ≤ pri r.2 ∧ (pri r'.2 = pri r.2 → Before offset r.1 r'.1)) →
      Picked eligible pri offset seen (r.1, pri r.2)

namespace Picked

variable {eligible : ℤ → Bool} {pri : Request → ℤ} {offset : ℤ} {seen : List (ℤ × Request)}
  {best : ℤ × ℤ} {x : ℤ × Request}

theorem step (h : Picked eligible pri offset seen best) (hseen : ∀ r ∈ seen, r.1 ≠ -1)
    (hx : x ∈ seen ∨ ∀ r ∈ seen, Before offset r.1 x.1) :
    Picked eligible pri offset (seen ++ [x])
      (if eligible x.1 ∧ (pri x.2 > best.2 ∨ best.1 = -1) then (x.1, pri x.2) else best) := by
  have hrefl : Before offset x.1 x.1 := .inr ⟨Iff.rfl, le_rfl⟩
  cases h with
  | none hnone =>
    split
    · next hnew =>
        refine .some (mem_snoc.mpr (.inr rfl)) hnew.1 fun r' hr' heligible => ?_
        rcases mem_snoc.mp hr' with hr' | rfl
        · simp [hnone r' hr'] at heligible
        · exact ⟨le_rfl, fun _ => hrefl⟩
    · next hold =>
        refine .none fun r' hr' => ?_
        rcases mem_snoc.mp hr' with hr' | rfl
        · exact hnone r' hr'
        · simpa using hold
  | @some r hr heligible hbest =>
    split
    · next hnew =>
        obtain ⟨hx', hgt | habsurd⟩ := hnew
        · refine .some (mem_snoc.mpr (.inr rfl)) hx' fun r' hr' hr'' => ?_
          rcases mem_snoc.mp hr' with hr' | rfl
          · have hle := (hbest r' hr' hr'').1
            exact ⟨hle.trans hgt.le, fun heq => absurd (heq ▸ hle) (not_le.mpr hgt)⟩
          · exact ⟨le_rfl, fun _ => hrefl⟩
        · exact absurd habsurd (hseen r hr)
    · next hold =>
        refine .some (mem_snoc.mpr (.inl hr)) heligible fun r' hr' hr'' => ?_
        rcases mem_snoc.mp hr' with hr' | rfl
        · exact hbest r' hr' hr''
        · grind

end Picked

theorem pick_spec {row : ℤ → Option Request} {reqs : OrdMap ℤ Request}
    (hrow : ∀ i, reqs.get? i = row i) (hpos : ∀ i, (row i).isSome = true → 0 ≤ i)
    (eligible : ℤ → Bool) (pri : Request → ℤ) (offset : ℤ) :
    pick eligible pri (scan offset reqs.entries) = -1 ∧
        (∀ i, (row i).isSome = true → eligible i = false) ∨
      Chosen row (eligible · = true) pri offset (pick eligible pri (scan offset reqs.entries)) := by
  have hentry : ∀ {i q}, (i, q) ∈ scan offset reqs.entries ↔ row i = some q := by
    intro i q
    rw [mem_scan, OrdMap.mem_entries_iff, hrow]
  have hkey : ∀ r ∈ scan offset reqs.entries, r.1 ≠ -1 := by
    intro r hr heq
    have := hpos r.1 (by rw [hentry.mp hr]; rfl)
    omega
  obtain ⟨l, hl, hscan⟩ := scan_ordered offset reqs.sorted
  have hsub : ∀ r ∈ l, r ∈ scan offset reqs.entries := by
    intro r hr
    rcases hscan with hscan | ⟨r', -, hscan⟩
    · rwa [hscan]
    · rw [hscan]
      exact mem_append_left _ hr
  have hordered : Picked eligible pri offset l (l.foldl (fun best r =>
      if eligible r.1 ∧ (pri r.2 > best.2 ∨ best.1 = -1) then (r.1, pri r.2) else best)
        (-1, 0)) := by
    refine foldl_seen_inv (I := fun seen best => Picked eligible pri offset seen best)
      (.none nofun) fun seen x rest best hsplit h => ?_
    rw [hsplit] at hl hsub
    refine h.step (fun r hr => hkey r (hsub r (mem_append_left _ hr))) (.inr fun r hr => ?_)
    exact (pairwise_append.mp hl).2.2 r hr x mem_cons_self
  have hpicked : ∃ best, best.1 = pick eligible pri (scan offset reqs.entries) ∧
      Picked eligible pri offset (scan offset reqs.entries) best := by
    refine ⟨_, rfl, ?_⟩
    rcases hscan with hscan | ⟨r, hr, hscan⟩
    · rwa [hscan]
    · rw [hscan, foldl_append]
      exact hordered.step (fun r hr => hkey r (hsub r hr)) (.inl hr)
  obtain ⟨best, hbest, hpicked⟩ := hpicked
  rw [← hbest]
  cases hpicked with
  | none hnone =>
    refine .inl ⟨rfl, fun i hi => ?_⟩
    obtain ⟨q, hq⟩ := Option.isSome_iff_exists.mp hi
    exact hnone (i, q) (hentry.mpr hq)
  | @some r hr heligible hmax =>
    exact .inr ⟨heligible, r.2, hentry.mp hr, fun j q' hj hj' => hmax (j, q') (hentry.mpr hj) hj'⟩

end BookSim
