/-
# Configuration — fields whose values are lists

A field of the configuration may hold a list, as a text in braces with commas between the
elements.  An element may be such a text itself:

    {a,{b,c},d}        three elements, of which the second one is again a list
    a                  no brace in front: one element

`tokenizeStr` finds the elements in one pass over the text, from one brace or comma to the next,
and counts the braces that are open.  What `render` writes it takes apart again, and the result is
an element in its turn, so lists of lists are taken apart level by level (`tokenizeStr_render`).
-/
import BookSim.Lib.Fallible
import Mathlib.Data.List.Basic
import Mathlib.Tactic.Ring

namespace BookSim

open List

/-- Where reading a list ends. -/
inductive ConfigFault where
  | assertion (text : String)
  deriving DecidableEq, Repr

/-- A text, character by character. -/
abbrev Text := List Char

/-- `std::string::find_first_of`; `none` is `npos`. -/
def findFirstOf (data set : Text) (pos : ℕ) : Option ℕ :=
  ((data.drop pos).findIdx? (· ∈ set)).map (pos + ·)

/-- `std::string::substr`. -/
def substr (data : Text) (pos len : ℕ) : Text := (data.drop pos).take len

theorem findFirstOf_lt {data set : Text} {pos i : ℕ} (h : findFirstOf data set pos = some i) :
    pos ≤ i ∧ i < data.length := by
  obtain ⟨j, hj, rfl⟩ := Option.map_eq_some_iff.mp h
  obtain ⟨hlt, -⟩ := List.findIdx?_eq_some_iff_findIdx_eq.mp hj
  rw [length_drop] at hlt
  omega

/-- The loop of the three functions `tokenize_str`, `tokenize_int` and `tokenize_float`, which
differ in how they `read` a token: the values, and how many braces are left open. -/
def tokenizeLoop {α : Type} (read : Text → α) (data : Text) (values : List α) (start curr : ℕ)
    (nested : ℤ) : List α × ℤ :=
  match h : findFirstOf data ['{', ',', '}'] curr with
  | none => (values, nested)
  | some i =>
    have : data.length - (i + 1) < data.length - curr := by
      have := findFirstOf_lt h
      omega
    if data[i]? = some '{' then tokenizeLoop read data values start (i + 1) (nested + 1)
    else if data[i]? = some '}' ∧ nested ≠ 0 then
      tokenizeLoop read data values start (i + 1) (nested - 1)
    else if nested = 0 then
      tokenizeLoop read data
        (if start < i then values ++ [read (substr data start (i - start))] else values)
        (i + 1) (i + 1) nested
    else tokenizeLoop read data values start (i + 1) nested
termination_by data.length - curr

def tokenize {α : Type} (read : Text → α) (data : Text) : Except ConfigFault (List α) := do
  if data = [] then return []
  else if data[0]? ≠ some '{' then return [read data]
  else
    let scanned := tokenizeLoop read data [] 1 1 0
    require (.assertion "!nested") (scanned.2 = 0)
    return scanned.1

def tokenizeStr (data : Text) : Except ConfigFault (List Text) := tokenize id data

/-! ## Lists as they are written -/

/-- The braces that are open after a text. -/
def depth (s : Text) : ℤ := s.count '{' - s.count '}'

/-- What can stand for an element: it is not empty, each brace is closed, no brace is closed
that is not open, and each comma is within braces. -/
structure IsElement (s : Text) : Prop where
  nonempty : s ≠ []
  opened : ∀ i ≤ s.length, 0 ≤ depth (s.take i)
  closed : depth s = 0
  commas : ∀ i < s.length, s[i]? = some ',' → 0 < depth (s.take i)

/-- The elements in braces, with commas between them. -/
def render (xs : List Text) : Text := '{' :: List.intercalate [','] xs ++ ['}']

theorem depth_append (s t : Text) : depth (s ++ t) = depth s + depth t := by
  unfold depth
  rw [count_append, count_append]
  push_cast
  ring

/-! ## One character at a time -/

section Loop

variable {α : Type} {read : Text → α} {data : Text} {values : List α} {start curr : ℕ} {nested : ℤ}

theorem findFirstOf_self {set : Text} {c : Char} (hc : data[curr]? = some c) (hset : c ∈ set) :
    findFirstOf data set curr = some curr := by
  obtain ⟨hlt, rfl⟩ := List.getElem?_eq_some_iff.mp hc
  rw [findFirstOf, drop_eq_getElem_cons hlt, List.findIdx?_cons, if_pos (by simpa using hset)]
  rfl

theorem findFirstOf_succ {set : Text} {c : Char} (hc : data[curr]? = some c) (hset : c ∉ set) :
    findFirstOf data set curr = findFirstOf data set (curr + 1) := by
  obtain ⟨hlt, rfl⟩ := List.getElem?_eq_some_iff.mp hc
  rw [findFirstOf, findFirstOf, drop_eq_getElem_cons hlt, List.findIdx?_cons,
    if_neg (by simpa using hset), Option.map_map]
  congr 1
  funext j
  exact (Nat.add_assoc curr 1 j ▸ congrArg (curr + ·) (Nat.add_comm j 1) :)

theorem tokenizeLoop_of_none (h : findFirstOf data ['{', ',', '}'] curr = none) :
    tokenizeLoop read data values start curr nested = (values, nested) := by
  rw [tokenizeLoop]
  split
  · rfl
  · rename_i hfound
    exact nomatch h.symm.trans hfound

theorem tokenizeLoop_of_some {i : ℕ} (h : findFirstOf data ['{', ',', '}'] curr = some i) :
    tokenizeLoop read data values start curr nested =
      if data[i]? = some '{' then tokenizeLoop read data values start (i + 1) (nested + 1)
      else if data[i]? = some '}' ∧ nested ≠ 0 then
        tokenizeLoop read data values start (i + 1) (nested - 1)
      else if nested = 0 then
        tokenizeLoop read data
          (if start < i then values ++ [read (substr data start (i - start))] else values)
          (i + 1) (i + 1) nested
      else tokenizeLoop read data values start (i + 1) nested := by
  rw [tokenizeLoop]
  split
  · rename_i hnone
    exact nomatch h.symm.trans hnone
  · rename_i hfound
    cases h.symm.trans hfound
    rfl

theorem tokenizeLoop_other {c : Char} (hc : data[curr]? = some c) (hother : c ∉ ['{', ',', '}']) :
    tokenizeLoop read data values start curr nested =
      tokenizeLoop read data values start (curr + 1) nested := by
  have hsame := findFirstOf_succ hc hother
  cases hfind : findFirstOf data ['{', ',', '}'] (curr + 1) with
  | none => rw [tokenizeLoop_of_none (hsame.trans hfind), tokenizeLoop_of_none hfind]
  | some i => rw [tokenizeLoop_of_some (hsame.trans hfind), tokenizeLoop_of_some hfind]

theorem tokenizeLoop_open (hc : data[curr]? = some '{') :
    tokenizeLoop read data values start curr nested =
      tokenizeLoop read data values start (curr + 1) (nested + 1) := by
  rw [tokenizeLoop_of_some (findFirstOf_self hc (by decide)), if_pos hc]

theorem tokenizeLoop_close (hc : data[curr]? = some '}') (hnested : nested ≠ 0) :
    tokenizeLoop read data values start curr nested =
      tokenizeLoop read data values start (curr + 1) (nested - 1) := by
  rw [tokenizeLoop_of_some (findFirstOf_self hc (by decide)), if_neg (by rw [hc]; decide),
    if_pos ⟨hc, hnested⟩]

theorem tokenizeLoop_comma (hc : data[curr]? = some ',') (hnested : nested ≠ 0) :
    tokenizeLoop read data values start curr nested =
      tokenizeLoop read data values start (curr + 1) nested := by
  rw [tokenizeLoop_of_some (findFirstOf_self hc (by decide)), if_neg (by rw [hc]; decide),
    if_neg (by rw [hc]; simp), if_neg hnested]

theorem tokenizeLoop_end {c : Char} (hc : data[curr]? = some c) (hend : c = ',' ∨ c = '}') :
    tokenizeLoop read data values start curr 0 = tokenizeLoop read data
      (if start < curr then values ++ [read (substr data start (curr - start))] else values)
      (curr + 1) (curr + 1) 0 := by
  have hset : c ∈ ['{', ',', '}'] := by
    rcases hend with rfl | rfl
    · decide
    · decide
  have hne : c ≠ '{' := by
    rcases hend with rfl | rfl
    · decide
    · decide
  rw [tokenizeLoop_of_some (findFirstOf_self hc hset), if_neg (by rw [hc]; simpa using hne),
    if_neg (fun h => h.2 rfl), if_pos rfl]

/-! ## One element at a time -/

/-- The loop goes through an element without ending a token: after the part `p` of it the braces
that are open are those of `p`. -/
theorem tokenizeLoop_element {s pre post : Text} (hs : IsElement s)
    (hdata : data = pre ++ s ++ post) {p q : Text} (hsplit : s = p ++ q) :
    tokenizeLoop read data values start (pre.length + p.length) (depth p) =
      tokenizeLoop read data values start (pre.length + s.length) 0 := by
  induction q generalizing p with
  | nil =>
    rw [append_nil] at hsplit
    rw [← hsplit, hs.closed]
  | cons c q ih =>
    have hc : data[pre.length + p.length]? = some c := by
      rw [hdata, hsplit]
      simp
    have hopened : 0 ≤ depth (p ++ [c]) := by
      have h := hs.opened (p.length + 1) (by rw [hsplit]; simp)
      rwa [hsplit, append_cons, take_left' (by simp)] at h
    have ih := @ih (p ++ [c]) (by rw [hsplit, append_assoc, singleton_append])
    rw [← ih, length_append, length_singleton, ← Nat.add_assoc]
    rw [depth_append] at hopened ⊢
    by_cases hopen : c = '{'
    · subst hopen
      exact tokenizeLoop_open hc
    by_cases hclose : c = '}'
    · subst hclose
      refine tokenizeLoop_close hc fun hzero => ?_
      rw [hzero] at hopened
      exact absurd hopened (by decide)
    have hzero : depth [c] = 0 := by
      simp [depth, hopen, hclose]
    rw [hzero, add_zero]
    by_cases hcomma : c = ','
    · subst hcomma
      have hin := hs.commas p.length (by rw [hsplit]; simp) (by rw [hsplit]; simp)
      rw [hsplit, take_left] at hin
      exact tokenizeLoop_comma hc hin.ne'
    · exact tokenizeLoop_other hc (by simp [hopen, hclose, hcomma])

theorem tokenizeLoop_token {s pre post : Text} {c : Char} (hs : IsElement s)
    (hdata : data = pre ++ s ++ c :: post) (hend : c = ',' ∨ c = '}') :
    tokenizeLoop read data values pre.length pre.length 0 =
      tokenizeLoop read data (values ++ [read s]) (pre ++ s ++ [c]).length
        (pre ++ s ++ [c]).length 0 := by
  have hthrough := @tokenizeLoop_element α read data values pre.length s pre (c :: post) hs hdata
    [] s rfl
  have hc : data[pre.length + s.length]? = some c := by
    rw [hdata]
    simp
  have htoken : substr data pre.length (pre.length + s.length - pre.length) = s := by
    rw [hdata, substr, append_assoc, drop_left, Nat.add_sub_cancel_left, take_left]
  have hlength : (pre ++ s ++ [c]).length = pre.length + s.length + 1 := by
    simp [Nat.add_assoc]
  have hpos : pre.length < pre.length + s.length :=
    Nat.lt_add_of_pos_right (length_pos_of_ne_nil hs.nonempty)
  calc tokenizeLoop read data values pre.length pre.length 0
      = tokenizeLoop read data values pre.length (pre.length + s.length) 0 := hthrough
    _ = _ := tokenizeLoop_end hc hend
    _ = _ := by rw [if_pos hpos, htoken, hlength]

theorem tokenizeLoop_elements {xs : List Text} {pre : Text} (hxs : ∀ s ∈ xs, IsElement s)
    (hdata : data = pre ++ List.intercalate [','] xs ++ ['}']) :
    tokenizeLoop read data values pre.length pre.length 0 = (values ++ xs.map read, 0) := by
  have hdone : ∀ {values : List α} {start : ℕ},
      tokenizeLoop read data values start data.length 0 = (values, 0) :=
    tokenizeLoop_of_none (by simp [findFirstOf])
  induction xs generalizing values pre with
  | nil =>
    have hc : data[pre.length]? = some '}' := by
      rw [hdata]
      simp [List.intercalate]
    have hlength : data.length = pre.length + 1 := by
      rw [hdata]
      simp [List.intercalate]
    rw [tokenizeLoop_end hc (.inr rfl), if_neg (lt_irrefl _), ← hlength, hdone, map_nil, append_nil]
  | cons s xs ih =>
    have hs := hxs s mem_cons_self
    cases xs with
    | nil =>
      have hdata' : data = pre ++ s ++ '}' :: [] := by
        rw [hdata]
        simp [List.intercalate]
      rw [tokenizeLoop_token hs hdata' (.inr rfl), ← hdata', hdone]
      rfl
    | cons s' xs =>
      have hdata' : data = pre ++ s ++ ',' :: (List.intercalate [','] (s' :: xs) ++ ['}']) := by
        rw [hdata]
        simp [List.intercalate]
      rw [tokenizeLoop_token hs hdata' (.inl rfl),
        ih (fun t ht => hxs t (mem_cons_of_mem s ht)) (by rw [hdata']; simp),
        append_assoc]
      rfl

end Loop

variable {xs : List Text}

theorem tokenize_render {α : Type} (read : Text → α)
    (hxs : ∀ s ∈ xs, IsElement s) : tokenize read (render xs) = .ok (xs.map read) := by
  have hloop : tokenizeLoop read (render xs) [] 1 1 0 = (xs.map read, 0) :=
    @tokenizeLoop_elements α read (render xs) [] xs ['{'] hxs rfl
  unfold tokenize
  rw [if_neg (by simp [render]), if_neg (by simp [render])]
  dsimp only
  rw [hloop, require_bind rfl]
  rfl

/-! ## Lists of lists -/

/-- Each brace is closed, and none that is not open. -/
structure Balanced (t : Text) : Prop where
  opened : ∀ i, 0 ≤ depth (t.take i)
  closed : depth t = 0

theorem IsElement.balanced {s : Text} (h : IsElement s) : Balanced s where
  opened i := by
    rcases le_or_gt i s.length with hi | hi
    · exact h.opened i hi
    · rw [take_of_length_le hi.le, h.closed]
  closed := h.closed

theorem Balanced.append {s t : Text} (hs : Balanced s) (ht : Balanced t) : Balanced (s ++ t) where
  opened i := by
    rw [take_append, depth_append]
    exact Int.add_nonneg (hs.opened i) (ht.opened _)
  closed := by rw [depth_append, hs.closed, ht.closed, Int.add_zero]

theorem balanced_comma : Balanced [','] where
  opened i := by
    cases i with
    | zero => decide
    | succ i => simp [depth]
  closed := rfl

theorem balanced_intercalate (hxs : ∀ s ∈ xs, IsElement s) :
    Balanced (List.intercalate [','] xs) := by
  induction xs with
  | nil => exact ⟨fun i => by simp [List.intercalate, depth], rfl⟩
  | cons s xs ih =>
    have hs := (hxs s mem_cons_self).balanced
    have ih := ih fun t ht => hxs t (mem_cons_of_mem s ht)
    cases xs with
    | nil => simpa [List.intercalate] using hs
    | cons s' xs =>
      have hrest := hs.append (balanced_comma.append ih)
      simpa [List.intercalate] using hrest

theorem depth_take_render (hxs : ∀ s ∈ xs, IsElement s) {i : ℕ}
    (hi : i ≤ (List.intercalate [','] xs).length) : 0 < depth ((render xs).take (i + 1)) := by
  have hinner := (balanced_intercalate hxs).opened i
  have htake : (render xs).take (i + 1) = ['{'] ++ (List.intercalate [','] xs).take i := by
    rw [render, cons_append, take_succ_cons, take_append_of_le_length hi]
    rfl
  rw [htake, depth_append]
  exact Int.add_pos_of_pos_of_nonneg (by decide) hinner

theorem depth_render (hxs : ∀ s ∈ xs, IsElement s) : depth (render xs) = 0 := by
  have hsplit : render xs = ['{'] ++ List.intercalate [','] xs ++ ['}'] := rfl
  rw [hsplit, depth_append, depth_append, (balanced_intercalate hxs).closed]
  decide

theorem isElement_render (hxs : ∀ s ∈ xs, IsElement s) : IsElement (render xs) where
  nonempty := by simp [render]
  opened i hi := by
    rcases Nat.lt_or_eq_of_le hi with hlt | rfl
    · cases i with
      | zero => exact Int.le_refl 0
      | succ i => exact (depth_take_render hxs (by simp [render] at hlt; omega)).le
    · rw [take_length, depth_render hxs]
  closed := depth_render hxs
  commas i hi hcomma := by
    cases i with
    | zero => simp [render] at hcomma
    | succ i =>
      refine depth_take_render hxs ?_
      by_contra hlong
      have hlast : i = (List.intercalate [','] xs).length := by
        simp [render] at hi
        omega
      rw [hlast] at hcomma
      simp [render] at hcomma

/-- A list is taken apart into its elements, and it may be the element of a list itself. -/
theorem tokenizeStr_render {xs : List Text} (hxs : ∀ s ∈ xs, IsElement s) :
    tokenizeStr (render xs) = .ok xs ∧ IsElement (render xs) := by
  refine ⟨?_, isElement_render hxs⟩
  rw [tokenizeStr, tokenize_render id hxs, map_id]

/-- … as a list of two lists, and each of these. -/
theorem tokenizeStr_render_nested :
    let xs : List Text := [['a'], ['b', 'c']]
    let ys : List Text := [render xs, ['d']]
    tokenizeStr (render ys) = .ok ys ∧ tokenizeStr (render xs) = .ok xs := by
  intro xs ys
  have hxs : ∀ s ∈ xs, IsElement s := by
    intro s hs
    rcases mem_pair.mp hs with rfl | rfl
    · exact ⟨by decide, by decide, by decide, by decide⟩
    · exact ⟨by decide, by decide, by decide, by decide⟩
  have hys : ∀ s ∈ ys, IsElement s := by
    intro s hs
    rcases mem_pair.mp hs with rfl | rfl
    · exact (tokenizeStr_render hxs).2
    · exact ⟨by decide, by decide, by decide, by decide⟩
  exact ⟨(tokenizeStr_render hys).1, (tokenizeStr_render hxs).1⟩

end BookSim
