/-
# `BookSim.Lib.Fallible` — reasoning about programs that may stop with a fault

A program that may abort is a function into `Except`.  What it can end in is
described for both outcomes at once:

    Ends P F x      `x` returns a result with `P`, or stops with a fault with `F`

and the rules follow the program text: `ok` and `error` at its ends, `bind` for a
sequence, `require` for a check, `foldlM` for a loop (with an invariant) and `drain`
for one that empties the front of a queue.  For a program that is known to return,
`bind_ok` and `require_ok` take the sequence apart from the front.  What a
closed program ends in can be computed: `returns` and `stops`.
-/
import Mathlib.Logic.Function.Basic
import Mathlib.Data.List.Nodup
import Mathlib.Data.List.Range
import Mathlib.Data.List.TakeWhile

namespace BookSim

open List

universe u

variable {ε α β σ : Type u}

/-! ## Both outcomes -/

/-- The possible ends of a fallible program. -/
inductive Ends (P : α → Prop) (F : ε → Prop) : Except ε α → Prop
  | ok {a : α} : P a → Ends P F (.ok a)
  | error {e : ε} : F e → Ends P F (.error e)

/-- A check that stops the program with `e` when it fails. -/
def require (e : ε) (p : Prop) [Decidable p] : Except ε PUnit :=
  if p then .ok ⟨⟩ else .error e

/-- The program does not stop. -/
abbrev Returns (x : Except ε α) : Prop := Ends (fun _ => True) (fun _ => False) x

namespace Ends

variable {P Q : α → Prop} {F G : ε → Prop} {x : Except ε α}

theorem ok_iff {a : α} : Ends P F (.ok a) ↔ P a :=
  ⟨fun h => by cases h with | ok ha => exact ha, .ok⟩

theorem error_iff {e : ε} : Ends P F (.error e : Except ε α) ↔ F e :=
  ⟨fun h => by cases h with | error he => exact he, .error⟩

theorem of_eq_ok (h : Ends P F x) {a : α} (hx : x = .ok a) : P a :=
  ok_iff.mp (hx ▸ h)

theorem of_eq_error (h : Ends P F x) {e : ε} (hx : x = .error e) : F e :=
  error_iff.mp (hx ▸ h)

theorem mono (h : Ends P F x) (hP : ∀ a, P a → Q a) (hF : ∀ e, F e → G e) : Ends Q G x := by
  cases h with
  | ok ha => exact .ok (hP _ ha)
  | error he => exact .error (hF _ he)

theorem mono_ok (h : Ends P F x) (hP : ∀ a, P a → Q a) : Ends Q F x :=
  h.mono hP fun _ => id

theorem exists_ok (h : Ends P (fun _ => False) x) : ∃ a, x = .ok a ∧ P a := by
  cases h with
  | ok ha => exact ⟨_, rfl, ha⟩
  | error he => exact he.elim

theorem bind {R : β → Prop} {f : α → Except ε β} (h : Ends P F x)
    (hf : ∀ a, P a → Ends R F (f a)) : Ends R F (x >>= f) := by
  cases h with
  | ok ha => exact hf _ ha
  | error he => exact .error he

/-- When nothing is asked of a stop, nothing need be known of the first part. -/
theorem bind_any {R : β → Prop} {f : α → Except ε β} (hf : ∀ a, Ends R (fun _ => True) (f a)) :
    Ends R (fun _ => True) (x >>= f) := by
  cases x with
  | error e => exact .error trivial
  | ok a => exact hf a

theorem returns (a : α) : Ends (fun _ => True) F (.ok a) := .ok trivial

/-- What follows a program and cannot fail does not matter for its faults. -/
theorem map (h : Ends (fun _ => True) F x) (f : α → β) :
    Ends (fun _ => True) F (do return f (← x)) :=
  h.bind fun a _ => returns (f a)

/-- A result may be used as the result of this very program. -/
theorem eq_ok (h : Ends P F x) : Ends (fun a => x = .ok a) F x := by
  cases h with
  | ok _ => exact .ok rfl
  | error he => exact .error he

/-- After a check the rest may use it. -/
theorem require {R : β → Prop} {e : ε} {p : Prop} [Decidable p] {f : PUnit → Except ε β}
    (hp : p → Ends R F (f ⟨⟩)) (he : ¬ p → F e) : Ends R F (BookSim.require e p >>= f) := by
  unfold BookSim.require
  by_cases h : p
  · rw [if_pos h]
    exact hp h
  · rw [if_neg h]
    exact .error (he h)

theorem ite {p : Prop} [Decidable p] {y : Except ε α} (hx : p → Ends P F x)
    (hy : ¬ p → Ends P F y) : Ends P F (if p then x else y) := by
  by_cases h : p
  · rw [if_pos h]
    exact hx h
  · rw [if_neg h]
    exact hy h

/-- The rule for loops: what every round keeps, the loop keeps. -/
theorem foldlM {I : σ → Prop} {f : σ → α → Except ε σ} :
    ∀ {xs : List α}, (∀ s, ∀ a ∈ xs, I s → Ends I F (f s a)) →
      ∀ {s : σ}, I s → Ends I F (xs.foldlM f s)
  | [], _, _, hs => .ok hs
  | a :: xs, hstep, s, hs => by
    rw [foldlM_cons]
    refine (hstep s a mem_cons_self hs).bind fun t ht => ?_
    exact foldlM (fun s b hb => hstep s b (mem_cons_of_mem a hb)) ht

/-- A loop that takes the entries with `p` from the front of a queue.  A round may put new
entries at its end. -/
theorem drain {queue : σ → List α} {p : α → Bool} {f : σ → α → Except ε σ} {I : σ → Prop}
    (hstep : ∀ s a rest, queue s = a :: rest → p a = true → I s → Ends I F (f s a))
    (hqueue : ∀ s a rest t, queue s = a :: rest → f s a = .ok t → ∃ new, queue t = rest ++ new)
    {s : σ} (hs : I s) : Ends I F (((queue s).takeWhile p).foldlM f s) := by
  -- the entries still to be taken are the front of the queue of the current state
  suffices h : ∀ (xs : List α), (∀ a ∈ xs, p a = true) → ∀ s ys, queue s = xs ++ ys → I s →
      Ends I F (xs.foldlM f s) by
    refine h _ (fun a ha => mem_takeWhile_imp ha) s ((queue s).dropWhile p) ?_ hs
    exact (takeWhile_append_dropWhile).symm
  intro xs
  induction xs with
  | nil => exact fun _ s _ _ hs => .ok hs
  | cons a xs ih =>
    intro hp s ys hqs hs
    rw [foldlM_cons]
    cases hf : f s a with
    | error e => exact .error ((hstep s a _ hqs (hp a mem_cons_self) hs).of_eq_error hf)
    | ok t =>
      obtain ⟨new, hnew⟩ := hqueue s a _ t hqs hf
      refine ih (fun b hb => hp b (mem_cons_of_mem a hb)) t (ys ++ new)
        (hnew.trans (append_assoc xs ys new)) ?_
      exact (hstep s a _ hqs (hp a mem_cons_self) hs).of_eq_ok hf

end Ends

/-! ## Programs that return -/

variable {x : Except ε α} {f : σ → α → Except ε σ}

theorem bind_ok {f : α → Except ε β} {b : β} : x >>= f = .ok b ↔ ∃ a, x = .ok a ∧ f a = .ok b := by
  cases x with
  | error e => exact ⟨fun h => (nomatch h), fun ⟨_, h, _⟩ => (nomatch h)⟩
  | ok a => exact ⟨fun h => ⟨a, rfl, h⟩, fun ⟨_, ha, h⟩ => by cases ha; exact h⟩

theorem return_ok {a b : α} : (pure a : Except ε α) = .ok b ↔ a = b :=
  ⟨fun h => Except.ok.inj h, fun h => congrArg Except.ok h⟩

theorem require_ok {e : ε} {p : Prop} [Decidable p] {f : PUnit → Except ε β} {b : β} :
    require e p >>= f = .ok b ↔ p ∧ f ⟨⟩ = .ok b := by
  unfold require
  by_cases h : p
  · rw [if_pos h]
    exact ⟨fun hf => ⟨h, hf⟩, fun hf => hf.2⟩
  · rw [if_neg h]
    exact ⟨fun hf => (nomatch hf), fun hf => absurd hf.1 h⟩

theorem bind_return_ok {f : α → β} {b : β} :
    (do return f (← x)) = .ok b ↔ ∃ a, x = .ok a ∧ f a = b := by
  rw [bind_ok]
  exact exists_congr fun _ => and_congr_right fun _ => return_ok

theorem require_return_ok {e : ε} {p : Prop} [Decidable p] {a b : α} :
    (do require e p; return a) = .ok b ↔ p ∧ a = b := by
  rw [require_ok, return_ok]

theorem require_bind {e : ε} {p : Prop} [Decidable p] (h : p) (f : PUnit → Except ε β) :
    require e p >>= f = f ⟨⟩ := by
  rw [require, if_pos h]
  rfl

theorem ite_ok {p : Prop} [Decidable p] {x y : Except ε α} {a : α} :
    (if p then x else y) = .ok a ↔ p ∧ x = .ok a ∨ ¬ p ∧ y = .ok a := by
  by_cases h : p
  · simp [h]
  · simp [h]

/-- A relation that holds of every round and composes holds of the whole loop. -/
theorem rel_of_foldlM_eq_ok {R : σ → σ → Prop}
    (hrefl : ∀ s, R s s) (htrans : ∀ {s t u}, R s t → R t u → R s u) :
    ∀ {xs : List α}, (∀ s t, ∀ a ∈ xs, f s a = .ok t → R s t) →
      ∀ {s t : σ}, xs.foldlM f s = .ok t → R s t
  | [], _, s, t, h => by
    cases h
    exact hrefl s
  | a :: xs, hstep, s, u, h => by
    rw [foldlM_cons] at h
    obtain ⟨t, hst, htu⟩ := bind_ok.mp h
    exact htrans (hstep s t a mem_cons_self hst) (rel_of_foldlM_eq_ok hrefl htrans
        (fun s t b hb => hstep s t b (mem_cons_of_mem a hb)) htu)

/-- What every round keeps, a loop that returns has kept. -/
theorem inv_of_foldlM_eq_ok {I : σ → Prop} {xs : List α} {s t : σ}
    (h : xs.foldlM f s = .ok t) (hstep : ∀ s t, ∀ a ∈ xs, f s a = .ok t → I s → I t) (hs : I s) :
    I t :=
  rel_of_foldlM_eq_ok (R := fun s t => I s → I t) (fun _ => id) (fun h h' => h' ∘ h) hstep h hs

/-- A counting loop that returns; the invariant may speak of the counter. -/
theorem inv_of_foldlM_range_eq_ok {ε τ : Type} {I : ℕ → τ → Prop} {f : τ → ℕ → Except ε τ} {s : τ} :
    ∀ {n : ℕ} {t : τ}, (List.range n).foldlM f s = .ok t →
      (∀ k s t, k < n → f s k = .ok t → I k s → I (k + 1) t) → I 0 s → I n t
  | 0, t, h, _, hs => by
    cases h
    exact hs
  | n + 1, t, h, hstep, hs => by
    rw [range_succ, foldlM_append] at h
    obtain ⟨t₁, ht₁, h⟩ := bind_ok.mp h
    rw [foldlM_cons] at h
    obtain ⟨t₂, ht₂, h⟩ := bind_ok.mp h
    cases h
    refine hstep n t₁ t (Nat.lt_succ_self n) ht₂ ?_
    exact inv_of_foldlM_range_eq_ok ht₁ (fun k s t hk => hstep k s t (by omega)) hs

/-- A loop in which no round fails; the invariant may speak of what has been seen. -/
theorem exists_foldlM_seen {I : List α → σ → Prop} {s : σ} {l : List α}
    (hs : I [] s) (hstep : ∀ seen x rest s, l = seen ++ x :: rest → I seen s →
      ∃ s', f s x = .ok s' ∧ I (seen ++ [x]) s') : ∃ s', l.foldlM f s = .ok s' ∧ I l s' := by
  have hrest : ∀ rest seen s, l = seen ++ rest → I seen s →
      ∃ s', rest.foldlM f s = .ok s' ∧ I l s' := by
    intro rest
    induction rest with
    | nil =>
      intro seen s hl h
      rw [append_nil] at hl
      exact ⟨s, rfl, hl ▸ h⟩
    | cons x rest ih =>
      intro seen s hl h
      obtain ⟨s₁, hs₁, h₁⟩ := hstep seen x rest s hl h
      obtain ⟨s', hs', h'⟩ := ih (seen ++ [x]) s₁ (by rw [hl]; simp) h₁
      rw [foldlM_cons]
      exact ⟨s', bind_ok.mpr ⟨s₁, hs₁, hs'⟩, h'⟩
  exact hrest l [] s rfl hs

/-- A loop from two states that are related, with rounds that keep them so. -/
theorem exists_foldlM_related {R : σ → σ → Prop}
    (hround : ∀ {s s' t a}, R s s' → f s a = .ok t → ∃ t', f s' a = .ok t' ∧ R t t') :
    ∀ {xs : List α} {s s' t : σ}, R s s' → xs.foldlM f s = .ok t →
      ∃ t', xs.foldlM f s' = .ok t' ∧ R t t'
  | [], _, s', _, hs, h => by
    cases h
    exact ⟨s', rfl, hs⟩
  | a :: xs, s, s', t, hs, h => by
    rw [foldlM_cons] at h
    obtain ⟨s₁, hs₁, h⟩ := bind_ok.mp h
    obtain ⟨s₁', hs₁', hrel⟩ := hround hs hs₁
    obtain ⟨t', ht', hrel'⟩ := exists_foldlM_related hround hrel h
    refine ⟨t', ?_, hrel'⟩
    rw [foldlM_cons]
    exact bind_ok.mpr ⟨s₁', hs₁', ht'⟩

/-- A loop that returns has gone through the round of each element. -/
theorem exists_round_of_foldlM_eq_ok {a : α} :
    ∀ {xs : List α} {s t : σ}, xs.foldlM f s = .ok t → a ∈ xs → ∃ s' t', f s' a = .ok t'
  | [], _, _, _, ha => absurd ha not_mem_nil
  | b :: xs, s, t, h, ha => by
    rw [foldlM_cons] at h
    obtain ⟨s₁, hs₁, h⟩ := bind_ok.mp h
    rcases mem_cons.mp ha with rfl | ha
    · exact ⟨s, s₁, hs₁⟩
    · exact exists_round_of_foldlM_eq_ok h ha

/-- What the round of `a` brings about, and every round keeps. -/
theorem of_round_of_foldlM_eq_ok {Q : σ → Prop} {a : α} {xs : List α}
    {s t : σ} (h : xs.foldlM f s = .ok t) (ha : a ∈ xs) (hmake : ∀ s s', f s a = .ok s' → Q s')
    (hkeep : ∀ s s', ∀ b ∈ xs, f s b = .ok s' → Q s → Q s') : Q t := by
  obtain ⟨front, back, rfl⟩ := append_of_mem ha
  rw [foldlM_append] at h
  obtain ⟨s₁, -, h⟩ := bind_ok.mp h
  rw [foldlM_cons] at h
  obtain ⟨s₂, hround, h⟩ := bind_ok.mp h
  refine inv_of_foldlM_eq_ok h (fun s s' b hb => hkeep s s' b ?_) (hmake s₁ s₂ hround)
  exact mem_append_right _ (mem_cons_of_mem a hb)

/-- A loop in which no round does anything. -/
theorem foldlM_of_idle {s : σ} : ∀ {xs : List α}, (∀ a ∈ xs, f s a = .ok s) → xs.foldlM f s = .ok s
  | [], _ => rfl
  | a :: xs, h => by
    rw [foldlM_cons]
    refine bind_ok.mpr ⟨s, h a mem_cons_self, ?_⟩
    exact foldlM_of_idle fun b hb => h b (mem_cons_of_mem a hb)

/-- A loop in which only the round of `a` does something. -/
theorem foldlM_of_single {a : α} {s t : σ} (ha : f s a = .ok t) :
    ∀ {xs : List α}, (∀ b ∈ xs, b ≠ a → f s b = .ok s ∧ f t b = .ok t) → xs.Nodup → a ∈ xs →
      xs.foldlM f s = .ok t
  | b :: xs, hother, hnodup, hmem => by
    rw [foldlM_cons]
    by_cases hb : b = a
    · subst hb
      refine bind_ok.mpr ⟨t, ha, foldlM_of_idle fun c hc => ?_⟩
      refine (hother c (mem_cons_of_mem b hc) fun heq => ?_).2
      exact (nodup_cons.mp hnodup).1 (heq ▸ hc)
    · refine bind_ok.mpr ⟨s, (hother b mem_cons_self hb).1, ?_⟩
      refine foldlM_of_single ha (fun c hc => hother c (mem_cons_of_mem b hc))
        (nodup_cons.mp hnodup).2 ?_
      exact (mem_cons.mp hmem).resolve_left (Ne.symm hb)

/-- Programs for the entries of a list, none of which fails. -/
theorem mapM_eq_ok {f : α → Except ε β} : ∀ {xs : List α}, (∀ x ∈ xs, ∃ y, f x = .ok y) →
    ∃ ys, xs.mapM f = .ok ys ∧
      ∀ (i : ℕ) (x : α), xs[i]? = some x → ∃ y, ys[i]? = some y ∧ f x = .ok y
  | [], _ => ⟨[], rfl, fun i x hx => by simp at hx⟩
  | x :: xs, h => by
    obtain ⟨y, hy⟩ := h x mem_cons_self
    obtain ⟨ys, hys, hall⟩ := mapM_eq_ok fun x' hx' => h x' (mem_cons_of_mem x hx')
    refine ⟨y :: ys, ?_, fun i x' hx' => ?_⟩
    · rw [mapM_cons, hy, hys]
      rfl
    · grind

/-! ## Closed programs -/

/-- The program returns a result with `p`. -/
def returns (p : α → Bool) : Except ε α → Bool
  | .ok a => p a
  | .error _ => false

theorem exists_of_returns {p : α → Bool} (h : returns p x = true) :
    ∃ a, x = .ok a ∧ p a = true := by
  cases x with
  | ok a => exact ⟨a, rfl, h⟩
  | error e => cases h

/-- The program stops with a fault with `p`. -/
def stops (p : ε → Bool) : Except ε α → Bool
  | .ok _ => false
  | .error e => p e

theorem exists_of_stops {p : ε → Bool} (h : stops p x = true) : ∃ e, x = .error e ∧ p e = true := by
  cases x with
  | ok a => cases h
  | error e => exact ⟨e, rfl, h⟩

theorem eq_error_of_stops [DecidableEq ε] {e : ε}
    (h : stops (fun e' => e' = e) x = true) : x = .error e := by
  obtain ⟨e', rfl, he⟩ := exists_of_stops h
  rw [of_decide_eq_true he]

end BookSim
