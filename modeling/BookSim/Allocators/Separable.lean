/-
# Separable — two ranks of arbiters

A separable allocator has an arbiter for every input and one for every output.  Those of the first
rank select among the requests of their port; each selection is passed on to the arbiter of the
other port, and those of the second rank select among what they are passed.  Input-first and
output-first allocators are the same but for which ports come first:

    propose     the turn of a port of the first rank
    dispose     the turn of a port of the second rank

The arbiters of both ports of a granted request update their state, and no others do.  The requests
of a round stay in the arbiters until `Clear`, which is at the beginning of the next round.
-/
import BookSim.Allocators.GrantAccept
import BookSim.Arbiters.Tree

namespace BookSim

open Function (update update_apply update_of_ne update_self)

/-! ## The allocator -/

structure SeparableAllocator (A : Arbiter) extends SparseAllocator where
  inputArb : ℤ → A.State
  outputArb : ℤ → A.State

/-- What changes in the course of `Allocate`; the matching is seen from the first rank. -/
structure Ranks (A : Arbiter) where
  matching : Matching
  first : ℤ → A.State
  second : ℤ → A.State

/-- What the two ranks are: the requests, the priorities that count, and the texts of the assertions
that are different. -/
structure RankOrder where
  first : RequestSide
  second : RequestSide
  firstPri : Request → ℤ
  secondPri : Request → ℤ
  selects : String
  agrees : String

namespace Ranks

variable {A : Arbiter}

/-- The requests of a port are added to its arbiter. -/
def gather (o : RankOrder) (arb : A.State) (port : ℤ) : Except Fault A.State :=
  (o.first.req port).entries.foldlM
    (fun arb r => A.addRequest arb r.1 ⟨r.2.label, o.firstPri r.2⟩) arb

def propose (o : RankOrder) (s : Ranks A) (port : ℤ) : Except Fault (Ranks A) := do
  let arb ← gather o (s.first port) port
  let (arb, other, entry) ← A.arbitrate arb
  require (.assertion o.selects) (other > -1)
  let label := (entry.map ArbEntry.id).getD (-1)
  let req := (o.second.req other).get? port
  require (.assertion o.agrees) (req.map Request.label = some label)
  let arb' ← A.addRequest (s.second other) port ⟨label, (req.map o.secondPri).getD 0⟩
  return { s with first := update s.first port arb, second := update s.second other arb' }

def dispose (s : Ranks A) (port : ℤ) : Except Fault (Ranks A) := do
  let (arb, other, _) ← A.arbitrate (s.second port)
  if other > -1 then do
    require (.assertion "(_inmatch[input] == -1) && (_outmatch[output] == -1)")
      (s.matching.outputAssigned other = -1 ∧ s.matching.inputAssigned port = -1)
    let first ← A.updateState (s.first other)
    let second ← A.updateState arb
    return {
      matching := s.matching.assign other port
      first := update s.first other first
      second := update s.second port second }
  else return { s with second := update s.second port arb }

def allocate (o : RankOrder) (s : Ranks A) : Except Fault (Ranks A) := do
  let s ← o.first.occ.foldlM (propose o) s
  o.second.occ.foldlM dispose s

end Ranks

/-- The same grants, with inputs and outputs exchanged. -/
def Matching.transpose (m : Matching) : Matching := ⟨m.inputAssigned, m.outputAssigned⟩

/-- Which ports come first. -/
inductive Separation
  | inputFirst
  | outputFirst

namespace SeparableAllocator

variable {A : Arbiter}

def clear (s : SeparableAllocator A) : SeparableAllocator A where
  toSparseAllocator := s.toSparseAllocator.clear
  inputArb i := if A.numReqs (s.inputArb i) ≠ 0 then A.clear (s.inputArb i) else s.inputArb i
  outputArb o := if A.numReqs (s.outputArb o) ≠ 0 then A.clear (s.outputArb o) else s.outputArb o

def calls (s : SeparableAllocator A) (l : List SparseAllocator.Call) :
    Except Fault (SeparableAllocator A) := do
  let base ← s.toSparseAllocator.calls l
  return { s with toSparseAllocator := base }

def inputFirst (s : SeparableAllocator A) : RankOrder where
  first := s.ins
  second := s.outs
  firstPri := Request.inPri
  secondPri := Request.outPri
  selects := "output > -1"
  agrees := "(req.port == input) && (req.label == label)"

def outputFirst (s : SeparableAllocator A) : RankOrder where
  first := s.outs
  second := s.ins
  firstPri := Request.outPri
  secondPri := Request.inPri
  selects := "input > -1"
  agrees := "(req.port == output) && (req.label == label)"

/-- `SeparableInputFirstAllocator::Allocate`. -/
def allocateInputFirst (s : SeparableAllocator A) : Except Fault (SeparableAllocator A) := do
  let r ← Ranks.allocate s.inputFirst ⟨s.matching, s.inputArb, s.outputArb⟩
  return { s with matching := r.matching, inputArb := r.first, outputArb := r.second }

/-- `SeparableOutputFirstAllocator::Allocate`. -/
def allocateOutputFirst (s : SeparableAllocator A) : Except Fault (SeparableAllocator A) := do
  let r ← Ranks.allocate s.outputFirst ⟨s.matching.transpose, s.outputArb, s.inputArb⟩
  return { s with matching := r.matching.transpose, inputArb := r.second, outputArb := r.first }

def allocate (s : SeparableAllocator A) : Separation → Except Fault (SeparableAllocator A)
  | .inputFirst => s.allocateInputFirst
  | .outputFirst => s.allocateOutputFirst

end SeparableAllocator

/-! ## The first rank -/

namespace Ranks

variable {A : Arbiter} {L : A.Laws} {o : RankOrder} {t : Requests} {n k : ℕ} {s s₀ : Ranks A}

/-- The requests of both ranks are `t`. -/
structure Ordered (o : RankOrder) (t : Requests) (n k : ℕ) : Prop where
  first : o.first.Keeps t
  second : o.second.Keeps fun b a => t a b
  within : t.Within n k

theorem gather_spec (ho : Ordered o t n k) {arb : A.State} (harb : L.Gathers k (fun _ => none) arb)
    (a : ℤ) : ∃ arb' r, gather o arb a = .ok arb' ∧ L.Gathers k r arb' ∧
      A.memory arb' = A.memory arb ∧
      ∀ b e, r b = some e ↔ ∃ q, t a b = some q ∧ e = ⟨q.label, o.firstPri q⟩ := by
  have hgather := exists_foldlM_seen (l := (o.first.req a).entries)
    (f := fun arb r => A.addRequest arb r.1 ⟨r.2.label, o.firstPri r.2⟩)
    (I := fun seen arb' => ∃ r, L.Gathers k r arb' ∧ A.memory arb' = A.memory arb ∧
      ∀ b e, r b = some e ↔ ∃ q, (b, q) ∈ seen ∧ e = ⟨q.label, o.firstPri q⟩)
    ⟨_, harb, rfl, by simp⟩ fun seen x rest arb' hsplit ⟨r, hr, hmemory, hentries⟩ => by
      obtain ⟨b, q⟩ := x
      have hentry : (b, q) ∈ (o.first.req a).entries := by simp [hsplit]
      rw [OrdMap.mem_entries_iff, ho.first.get] at hentry
      have hb := (ho.within a b (Option.isSome_iff_exists.mpr ⟨q, hentry⟩)).2
      -- the keys ascend, so that there is no other request for `b`
      have hfree : r b = none := by
        by_contra hne
        obtain ⟨e, he⟩ := Option.ne_none_iff_exists'.mp hne
        obtain ⟨q', hq', -⟩ := (hentries b e).mp he
        have hsorted := (o.first.req a).sorted
        rw [hsplit] at hsorted
        exact absurd ((List.pairwise_append.mp hsorted).2.2 _ hq' _ List.mem_cons_self)
          (lt_irrefl b)
      obtain ⟨arb'', hadd, hgathers, hmemory'⟩ := L.addRequest ⟨q.label, o.firstPri q⟩ hr hb hfree
      refine ⟨arb'', hadd, _, hgathers, hmemory'.trans hmemory, fun b' e => ?_⟩
      rw [update_apply]
      split
      · grind
      · next hne =>
          rw [hentries]
          refine exists_congr fun q' => and_congr_left fun _ => ?_
          simp [hne]
  obtain ⟨arb', harb', r, hr, hmemory, hentries⟩ := hgather
  refine ⟨arb', r, harb', hr, hmemory, fun b e => ?_⟩
  rw [hentries]
  refine exists_congr fun q => and_congr_left fun _ => ?_
  rw [OrdMap.mem_entries_iff, ho.first.get]

/-- All arbiters are without requests. -/
structure Fresh (L : A.Laws) (n k : ℕ) (s : Ranks A) : Prop where
  first : ∀ a ∈ below n, L.Gathers k (fun _ => none) (s.first a)
  second : ∀ b ∈ below k, L.Gathers n (fun _ => none) (s.second b)

/-- The ports in `seen` have proposed to the ports `choice` tells; it began with `s₀`. -/
structure Proposed (L : A.Laws) (t : Requests) (n k : ℕ) (s₀ : Ranks A) (seen : List ℤ)
    (choice : ℤ → ℤ) (s : Ranks A) : Prop where
  matching : s.matching = s₀.matching
  rest : ∀ a, a ∉ seen → s.first a = s₀.first a
  first : ∀ a ∈ seen, (t a (choice a)).isSome = true ∧
    A.memory (s.first a) = A.memory (s₀.first a) ∧ ∃ r, L.Decided k r (choice a) (s.first a)
  second : ∀ b ∈ below k, A.memory (s.second b) = A.memory (s₀.second b) ∧
    ∃ r, L.Gathers n r (s.second b) ∧ ∀ a, (r a).isSome = true ↔ a ∈ seen ∧ choice a = b

theorem Fresh.proposed (h : Fresh L n k s) : Proposed L t n k s [] (fun _ => -1) s where
  matching := rfl
  rest _ _ := rfl
  first := nofun
  second b hb := ⟨rfl, _, h.second b hb, by simp⟩

theorem Proposed.propose {seen : List ℤ} {choice : ℤ → ℤ} {a : ℤ}
    (h : Proposed L t n k s₀ seen choice s) (ho : Ordered o t n k) (h₀ : Fresh L n k s₀)
    (ha : a ∈ o.first.occ) (hseen : a ∉ seen) :
    ∃ s', s.propose o a = .ok s' ∧ ∃ choice', Proposed L t n k s₀ (seen ++ [a]) choice' s' := by
  obtain ⟨b₀, hb₀⟩ := (ho.first.mem_occ a).mp ha
  have han := (ho.within a b₀ hb₀).1
  have harb := h₀.first a han
  rw [← h.rest a hseen] at harb
  obtain ⟨arb, r, hgather, hr, hmemory, hentries⟩ := gather_spec ho harb a
  obtain ⟨arb', w, harb', hdecided, hwinner, hmemory'⟩ := L.arbitrate hr
  -- there is a request, hence a winner
  obtain ⟨q, hq, hw⟩ : ∃ q, t a w = some q ∧ r w = some ⟨q.label, o.firstPri q⟩ := by
    rcases hwinner with ⟨-, hnone⟩ | ⟨e, he, -⟩
    · obtain ⟨q₀, hq₀⟩ := Option.isSome_iff_exists.mp hb₀
      have := (hentries b₀ _).mpr ⟨q₀, hq₀, rfl⟩
      rw [hnone] at this
      cases this
    · obtain ⟨q, hq, rfl⟩ := (hentries w e).mp he
      exact ⟨q, hq, he⟩
  have hreq : (t a w).isSome = true := Option.isSome_iff_exists.mpr ⟨q, hq⟩
  have hwk := (ho.within a w hreq).2
  obtain ⟨hmemory₂, r₂, hr₂, hr₂'⟩ := h.second w hwk
  have hfree : r₂ a = none := by
    by_contra hne
    exact hseen ((hr₂' a).mp (Option.isSome_iff_ne_none.mpr hne)).1
  obtain ⟨arb₂, hadd, hgathers₂, hmemory₂'⟩ := L.addRequest ⟨q.label, o.secondPri q⟩ hr₂ han hfree
  have hother : (o.second.req w).get? a = some q := (ho.second.get w a).trans hq
  have hpropose : s.propose o a = .ok { s with
      first := update s.first a arb', second := update s.second w arb₂ } := by
    unfold Ranks.propose
    refine bind_ok.mpr ⟨arb, hgather, bind_ok.mpr ⟨_, harb', ?_⟩⟩
    have hwpos : w > -1 := by
      have := (mem_below.mp hwk).1
      omega
    simp only [hw, hother, Option.map_some, Option.getD_some]
    rw [require_bind hwpos, require_bind trivial]
    exact bind_ok.mpr ⟨arb₂, hadd, rfl⟩
  refine ⟨_, hpropose, update choice a w, h.matching, fun a' ha' => ?_, fun a' ha' => ?_,
    fun b hb => ?_⟩
  · obtain ⟨ha', hne⟩ := not_or.mp (mem_snoc.not.mp ha')
    exact (update_of_ne hne ..).trans (h.rest a' ha')
  · show (t a' (update choice a w a')).isSome = true ∧
      A.memory (update s.first a arb' a') = _ ∧ ∃ r, L.Decided k r _ (update s.first a arb' a')
    by_cases haa : a' = a
    · subst haa
      rw [update_self, update_self, hmemory', hmemory, h.rest a' hseen]
      exact ⟨hreq, rfl, r, hdecided⟩
    · rw [update_of_ne haa, update_of_ne haa]
      exact h.first a' ((mem_snoc.mp ha').resolve_right haa)
  · show A.memory (update s.second w arb₂ b) = _ ∧ ∃ r, L.Gathers n r (update s.second w arb₂ b) ∧ _
    by_cases hbw : b = w
    · grind
    · rw [update_of_ne hbw]
      obtain ⟨hmemory₃, r₃, hr₃, hr₃'⟩ := h.second b hb
      refine ⟨hmemory₃, r₃, hr₃, fun a' => ?_⟩
      rw [mem_snoc, update_apply, hr₃']
      split
      · next haa =>
          subst haa
          exact iff_of_false (fun hseen' => hseen hseen'.1) fun hw' => hbw hw'.2.symm
      · next haa => rw [or_iff_left haa]

/-! ## The second rank -/

/-- The ports in `seen` have decided; the second rank began with `s₁`, to which the ports in
`proposers` had made their proposals. -/
structure Disposed (L : A.Laws) (t : Requests) (n k : ℕ) (s₁ : Ranks A) (proposers : List ℤ)
    (choice : ℤ → ℤ) (seen : List ℤ) (s : Ranks A) : Prop where
  matching : PartialMatching t s.matching
  pairs : ∀ a b, 0 ≤ b → s.matching.outputAssigned a = b → a ∈ proposers ∧ choice a = b ∧ b ∈ seen
  granted : ∀ a ∈ proposers, choice a ∈ seen → 0 ≤ s.matching.inputAssigned (choice a)
  rest : ∀ a, a ∉ proposers → s.first a = s₁.first a
  first : ∀ a ∈ proposers, (∃ r, L.Decided k r (choice a) (s.first a)) ∧
    ∀ p, A.memory (s.first a) p ≠ A.memory (s₁.first a) p →
      s.matching.outputAssigned a = choice a ∧ A.choice (s.first a) p = choice a
  waiting : ∀ b, b ∉ seen → s.second b = s₁.second b ∧ s.matching.inputAssigned b = -1
  second : ∀ b ∈ seen, ∃ r w, L.Decided n r w (s.second b) ∧
    ∀ p, A.memory (s.second b) p ≠ A.memory (s₁.second b) p →
      0 ≤ w ∧ s.matching.inputAssigned b = w ∧ A.choice (s.second b) p = w

section Dispose

variable {s₁ : Ranks A} {proposers seen : List ℤ} {choice : ℤ → ℤ} {b : ℤ}

theorem Proposed.disposed (h : Proposed L t n k s₀ proposers choice s) (h₀ : s₀.matching = {}) :
    Disposed L t n k s proposers choice [] s where
  matching := by
    rw [h.matching, h₀]
    exact .empty t
  pairs a b hb hab := by
    rw [h.matching, h₀] at hab
    change (-1 : ℤ) = b at hab
    omega
  granted := nofun
  rest _ _ := rfl
  first a ha := ⟨(h.first a ha).2.2, fun _ hp => absurd rfl hp⟩
  waiting b _ := by
    rw [h.matching, h₀]
    exact ⟨rfl, rfl⟩
  second := nofun

theorem Disposed.skip {r : Entries} {arb : A.State}
    (h : Disposed L t n k s₁ proposers choice seen s) (hb : b ∉ seen)
    (hr : ∀ a ∈ proposers, choice a ≠ b) (hdecided : L.Decided n r (-1) arb)
    (hmemory : A.memory arb = A.memory (s.second b)) :
    Disposed L t n k s₁ proposers choice (seen ++ [b])
      { s with second := update s.second b arb } := by
  refine ⟨h.matching, fun a b' hb' hab => ?_, fun a ha hchoice => ?_, h.rest, h.first,
    fun b' hb' => ?_, fun b' hb' => ?_⟩
  · obtain ⟨ha, hchoice, hseen⟩ := h.pairs a b' hb' hab
    exact ⟨ha, hchoice, mem_snoc.mpr (.inl hseen)⟩
  · exact h.granted a ha ((mem_snoc.mp hchoice).resolve_right (hr a ha))
  · obtain ⟨hb', hne⟩ := not_or.mp (mem_snoc.not.mp hb')
    obtain ⟨hsame, hfree⟩ := h.waiting b' hb'
    exact ⟨(update_of_ne hne ..).trans hsame, hfree⟩
  · show ∃ r w, L.Decided n r w (update s.second b arb b') ∧
      ∀ p, A.memory (update s.second b arb b') p ≠ _ → 0 ≤ w ∧ _ ∧
      A.choice (update s.second b arb b') p = w
    by_cases hbb : b' = b
    · subst hbb
      rw [update_self, hmemory, (h.waiting b' hb).1]
      exact ⟨r, -1, hdecided, fun p hp => absurd rfl hp⟩
    · rw [update_of_ne hbb]
      exact h.second b' ((mem_snoc.mp hb').resolve_right hbb)

theorem Disposed.grant {r : Entries} {w : ℤ} {first second : A.State}
    (h : Disposed L t n k s₁ proposers choice seen s) (ht : t.Within n k) (hb : b ∉ seen)
    (hreq : (t w b).isSome = true) (hw : w ∈ proposers) (hchoice : choice w = b)
    (hfirst : ∃ r, L.Decided k r b first)
    (hmoved : ∀ p, A.memory first p ≠ A.memory (s.first w) p → A.choice first p = b)
    (hsecond : L.Decided n r w second)
    (hmoved' : ∀ p, A.memory second p ≠ A.memory (s.second b) p → A.choice second p = w) :
    s.matching.outputAssigned w = -1 ∧ s.matching.inputAssigned b = -1 ∧
      Disposed L t n k s₁ proposers choice (seen ++ [b]) {
        matching := s.matching.assign w b
        first := update s.first w first
        second := update s.second b second } := by
  obtain ⟨hw₀, hb₀⟩ := ht w b hreq
  rw [mem_below] at hw₀ hb₀
  -- whoever has a partner has proposed to it
  have hfree : s.matching.outputAssigned w = -1 := by
    refine h.matching.output_eq fun hmatched => hb ?_
    obtain ⟨-, hchoice', hseen⟩ := h.pairs w _ hmatched rfl
    rwa [← hchoice', hchoice] at hseen
  have hfree' := (h.waiting b hb).2
  have hin : ∀ {b'}, b' ≠ b → update s.matching.inputAssigned b w b' =
      s.matching.inputAssigned b' :=
    fun hne => update_of_ne hne ..
  refine ⟨hfree, hfree', h.matching.assign hreq hw₀.1 hb₀.1 hfree hfree', fun a b' hb' hab => ?_,
    fun a ha hseen => ?_, fun a ha => ?_, fun a ha => ?_, fun b' hb' => ?_, fun b' hb' => ?_⟩
  · change update s.matching.outputAssigned w b a = b' at hab
    rw [update_apply] at hab
    split at hab
    · next haw =>
        subst haw hab
        exact ⟨hw, hchoice, mem_snoc.mpr (.inr rfl)⟩
    · obtain ⟨ha, hchoice', hseen⟩ := h.pairs a b' hb' hab
      exact ⟨ha, hchoice', mem_snoc.mpr (.inl hseen)⟩
  · show 0 ≤ update s.matching.inputAssigned b w (choice a)
    rw [update_apply]
    split
    · exact hw₀.1
    · next hne => exact h.granted a ha ((mem_snoc.mp hseen).resolve_right hne)
  · have haw : a ≠ w := fun heq => ha (heq ▸ hw)
    exact (update_of_ne haw ..).trans (h.rest a ha)
  · show (∃ r, L.Decided k r (choice a) (update s.first w first a)) ∧
      ∀ p, A.memory (update s.first w first a) p ≠ _ →
        update s.matching.outputAssigned w b a = _ ∧ A.choice (update s.first w first a) p = _
    by_cases haw : a = w
    · subst haw
      rw [update_self, update_self, hchoice]
      refine ⟨hfirst, fun p hp => ⟨rfl, hmoved p fun hsame => hp ?_⟩⟩
      -- before, the arbiter of `a` remembered what it did at the beginning
      rw [hsame]
      by_contra hne
      have := ((h.first a ha).2 p hne).1
      omega
    · rw [update_of_ne haw, update_of_ne haw]
      exact h.first a ha
  · obtain ⟨hb', hne⟩ := not_or.mp (mem_snoc.not.mp hb')
    obtain ⟨hsame, hnone⟩ := h.waiting b' hb'
    exact ⟨(update_of_ne hne ..).trans hsame, (hin hne).trans hnone⟩
  · show ∃ r w', L.Decided n r w' (update s.second b second b') ∧
      ∀ p, A.memory (update s.second b second b') p ≠ _ → 0 ≤ w' ∧
        update s.matching.inputAssigned b w b' = w' ∧ A.choice (update s.second b second b') p = w'
    by_cases hbb : b' = b
    · subst hbb
      rw [update_self, update_self]
      refine ⟨r, w, hsecond, fun p hp => ⟨hw₀.1, rfl, hmoved' p ?_⟩⟩
      rwa [(h.waiting b' hb).1]
    · rw [update_of_ne hbb, hin hbb]
      exact h.second b' ((mem_snoc.mp hb').resolve_right hbb)

theorem Disposed.dispose (h : Disposed L t n k s₁ proposers choice seen s) (ht : t.Within n k)
    (h₁ : Proposed L t n k s₀ proposers choice s₁) (hb : b ∈ below k) (hseen : b ∉ seen) :
    ∃ s', s.dispose b = .ok s' ∧ Disposed L t n k s₁ proposers choice (seen ++ [b]) s' := by
  obtain ⟨-, r, hr, hr'⟩ := h₁.second b hb
  rw [← (h.waiting b hseen).1] at hr
  obtain ⟨arb, w, harb, hdecided, hwinner, hmemory⟩ := L.arbitrate hr
  by_cases hw : w > -1
  · have hsome : (r w).isSome = true := by
      rcases hwinner with ⟨hnone, -⟩ | ⟨e, he, -⟩
      · omega
      · rw [he]
        rfl
    obtain ⟨hproposer, hchoice⟩ := (hr' w).mp hsome
    have hreq := (h₁.first w hproposer).1
    obtain ⟨r', hfirst⟩ := (h.first w hproposer).1
    rw [hchoice] at hreq hfirst
    obtain ⟨first, hupdate, hfirst', hmoved⟩ := L.updateState hfirst
    obtain ⟨second, hupdate', hsecond', hmoved'⟩ := L.updateState hdecided
    rw [hmemory] at hmoved'
    obtain ⟨hfree, hfree', hgrant⟩ := h.grant ht hseen hreq hproposer hchoice ⟨r', hfirst'⟩ hmoved
      hsecond' hmoved'
    refine ⟨_, bind_ok.mpr ⟨_, harb, (if_pos hw).trans ?_⟩, hgrant⟩
    rw [require_bind ⟨hfree, hfree'⟩]
    exact bind_ok.mpr ⟨first, hupdate, bind_ok.mpr ⟨second, hupdate', rfl⟩⟩
  · have hnone : w = -1 ∧ ∀ a, r a = none := by
      rcases hwinner with hnone | ⟨e, he, -⟩
      · exact hnone
      · have := (mem_below.mp (L.within hr w (by rw [he]; rfl))).1
        omega
    refine ⟨_, bind_ok.mpr ⟨_, harb, if_neg hw⟩, ?_⟩
    rw [hnone.1] at hdecided
    refine h.skip hseen (fun a ha hchoice => ?_) hdecided hmemory
    have hsome := (hr' a).mpr ⟨ha, hchoice⟩
    rw [hnone.2 a] at hsome
    cases hsome

end Dispose

/-- What an arbiter may be left with. -/
def Settled (L : A.Laws) (n : ℕ) (arb : A.State) : Prop :=
  ∃ r, L.Gathers n r arb ∨ ∃ w, L.Decided n r w arb

/-- The outcome of `Allocate`, from `s₀` to `s`. -/
structure Allocated (L : A.Laws) (t : Requests) (n k : ℕ) (s₀ s : Ranks A) : Prop where
  matching : PartialMatching t s.matching
  outside : ∀ b, b ∉ below k → s.matching.inputAssigned b = -1
  progress : (∃ a b, (t a b).isSome = true) → ∃ a b, 0 ≤ a ∧ 0 ≤ b ∧ s.matching.outputAssigned a = b
  first : ∀ a ∈ below n, Settled L k (s.first a)
  second : ∀ b ∈ below k, Settled L n (s.second b)
  first_moved : ∀ a ∈ below n, ∀ p, A.memory (s.first a) p ≠ A.memory (s₀.first a) p →
    0 ≤ A.choice (s.first a) p ∧ s.matching.outputAssigned a = A.choice (s.first a) p
  second_moved : ∀ b ∈ below k, ∀ p, A.memory (s.second b) p ≠ A.memory (s₀.second b) p →
    0 ≤ A.choice (s.second b) p ∧ s.matching.inputAssigned b = A.choice (s.second b) p

theorem allocate_spec (ho : Ordered o t n k) (h₀ : Fresh L n k s₀) (hmatching : s₀.matching = {}) :
    ∃ s, s₀.allocate o = .ok s ∧ Allocated L t n k s₀ s := by
  obtain ⟨s₁, hs₁, choice, h₁⟩ := exists_foldlM_seen (l := o.first.occ) (f := propose o)
    (I := fun seen s => ∃ choice, Proposed L t n k s₀ seen choice s) ⟨_, h₀.proposed⟩
    fun seen a rest s hsplit ⟨choice, hs⟩ => hs.propose ho h₀ (by simp [hsplit])
      (not_mem_of_nodup_append ho.first.sorted.nodup hsplit)
  have hsecond : ∀ b ∈ o.second.occ, b ∈ below k := by
    intro b hb
    obtain ⟨a, ha⟩ := (ho.second.mem_occ b).mp hb
    exact (ho.within a b ha).2
  obtain ⟨s, hs, h⟩ := exists_foldlM_seen (l := o.second.occ) (f := dispose) (s := s₁)
    (I := fun seen s => Disposed L t n k s₁ o.first.occ choice seen s) (h₁.disposed hmatching)
    fun seen b rest s hsplit hs => hs.dispose ho.within h₁ (hsecond b (by simp [hsplit]))
      (not_mem_of_nodup_append ho.second.sorted.nodup hsplit)
  refine ⟨s, bind_ok.mpr ⟨s₁, hs₁, hs⟩, h.matching, fun b hb => ?_, ?_, fun a ha => ?_,
    fun b hb => ?_, fun a ha p hp => ?_, fun b hb p hp => ?_⟩
  · exact (h.waiting b fun hocc => hb (hsecond b hocc)).2
  · rintro ⟨a, b, hab⟩
    have ha := (ho.first.mem_occ a).mpr ⟨b, hab⟩
    have hreq := (h₁.first a ha).1
    have hgranted := h.granted a ha ((ho.second.mem_occ _).mpr ⟨a, hreq⟩)
    have hb₀ := (mem_below.mp (ho.within _ _ hreq).2).1
    exact ⟨_, choice a, hgranted, hb₀, h.matching.output_of_matched hb₀ hgranted⟩
  · by_cases hocc : a ∈ o.first.occ
    · obtain ⟨r, hr⟩ := (h.first a hocc).1
      exact ⟨r, .inr ⟨_, hr⟩⟩
    · rw [h.rest a hocc, h₁.rest a hocc]
      exact ⟨_, .inl (h₀.first a ha)⟩
  · by_cases hocc : b ∈ o.second.occ
    · obtain ⟨r, w, hr, -⟩ := h.second b hocc
      exact ⟨r, .inr ⟨w, hr⟩⟩
    · obtain ⟨-, r, hr, -⟩ := h₁.second b hb
      rw [(h.waiting b hocc).1]
      exact ⟨r, .inl hr⟩
  · by_cases hocc : a ∈ o.first.occ
    · obtain ⟨hreq, hsame, -⟩ := h₁.first a hocc
      rw [← hsame] at hp
      obtain ⟨hout, hchoice⟩ := (h.first a hocc).2 p hp
      rw [hchoice]
      exact ⟨(mem_below.mp (ho.within _ _ hreq).2).1, hout⟩
    · rw [h.rest a hocc, h₁.rest a hocc] at hp
      exact absurd rfl hp
  · rw [← (h₁.second b hb).1] at hp
    by_cases hocc : b ∈ o.second.occ
    · obtain ⟨r, w, -, hmoved⟩ := h.second b hocc
      obtain ⟨hw, hin, hchoice⟩ := hmoved p hp
      rw [hchoice]
      exact ⟨hw, hin⟩
    · rw [(h.waiting b hocc).1] at hp
      exact absurd rfl hp

namespace Allocated

theorem matching_eq (h : Allocated L t n k s₀ s) (ht : t = .clear) : s.matching = {} := by
  have hout : ∀ a, s.matching.outputAssigned a = -1 := by
    intro a
    refine h.matching.output_eq fun hmatched => ?_
    have hreq := h.matching.requested a _ hmatched rfl
    rw [ht] at hreq
    cases hreq
  have hin : ∀ b, s.matching.inputAssigned b = -1 := by
    intro b
    by_cases hb : b ∈ below k
    · refine h.matching.input_eq fun hmatched => ?_
      have hb₀ := (mem_below.mp hb).1
      have := h.matching.output_of_matched hb₀ hmatched
      rw [hout] at this
      omega
    · exact h.outside b hb
  exact congrArg₂ Matching.mk (funext hout) (funext hin)

theorem transpose (h : Allocated L (fun b a => t a b) n k s₀ s) :
    IsMatching t s.matching.transpose where
  requested a b hb hab := by
    change s.matching.inputAssigned a = b at hab
    have ha : a ∈ below k := by
      by_contra ha
      rw [h.outside a ha] at hab
      omega
    exact h.matching.requested b a (mem_below.mp ha).1
      ((h.matching.inverse b a hb (mem_below.mp ha).1).mpr hab)
  inverse a b ha hb := (h.matching.inverse b a hb ha).symm

end Allocated

theorem Settled.clear {arb : A.State} (h : Settled L n arb) :
    L.Gathers n (fun _ => none) (if A.numReqs arb ≠ 0 then A.clear arb else arb) ∧
      A.memory (if A.numReqs arb ≠ 0 then A.clear arb else arb) = A.memory arb := by
  obtain ⟨r, h⟩ := h
  split
  · exact L.clear h
  · next hzero =>
      obtain rfl : r = fun _ => none := funext ((L.numReqs h).mp (not_not.mp hzero))
      refine ⟨?_, rfl⟩
      rcases h with h | ⟨w, h⟩
      · exact h
      · exact L.idle h

end Ranks

/-! ## Rounds -/

namespace SeparableAllocator

variable {A : Arbiter} {L : A.Laws} {s s₁ : SeparableAllocator A}

/-- Between two rounds. -/
structure Settled (L : A.Laws) (s : SeparableAllocator A) : Prop where
  clean : s.Clean
  input : ∀ i ∈ below s.inputs, Ranks.Settled L s.outputs (s.inputArb i)
  output : ∀ o ∈ below s.outputs, Ranks.Settled L s.inputs (s.outputArb o)

/-- What a round does, from `s` to `s'`, for the requests `t`. -/
structure Round (s : SeparableAllocator A) (t : Requests) (s' : SeparableAllocator A) : Prop where
  matching : IsMatching t s'.matching
  progress : (∃ i o, (t i o).isSome = true) →
    ∃ i o, 0 ≤ i ∧ 0 ≤ o ∧ s'.matching.outputAssigned i = o
  input : ∀ i ∈ below s.inputs, ∀ p, A.memory (s'.inputArb i) p ≠ A.memory (s.inputArb i) p →
    0 ≤ A.choice (s'.inputArb i) p ∧ s'.matching.outputAssigned i = A.choice (s'.inputArb i) p
  output : ∀ o ∈ below s.outputs, ∀ p, A.memory (s'.outputArb o) p ≠ A.memory (s.outputArb o) p →
    0 ≤ A.choice (s'.outputArb o) p ∧ s'.matching.inputAssigned o = A.choice (s'.outputArb o) p

/-- Before `Allocate`: the requests are in, the arbiters have none yet. -/
structure Ready (L : A.Laws) (s : SeparableAllocator A) : Prop where
  represents : s.Represents s.readRequest
  matching : s.matching = {}
  input : ∀ i ∈ below s.inputs, L.Gathers s.outputs (fun _ => none) (s.inputArb i)
  output : ∀ o ∈ below s.outputs, L.Gathers s.inputs (fun _ => none) (s.outputArb o)

theorem Ready.allocateInputFirst (h : s.Ready L) :
    ∃ s', s.allocateInputFirst = .ok s' ∧ s'.Settled L ∧ s.Round s.readRequest s' := by
  have horder : Ranks.Ordered s.inputFirst s.readRequest s.inputs s.outputs :=
    ⟨h.represents.ins, h.represents.outs, h.represents.within⟩
  have hfresh : Ranks.Fresh L s.inputs s.outputs ⟨s.matching, s.inputArb, s.outputArb⟩ :=
    ⟨h.input, h.output⟩
  obtain ⟨r, hr, ha⟩ := Ranks.allocate_spec horder hfresh h.matching
  refine ⟨_, bind_ok.mpr ⟨r, hr, rfl⟩, ⟨fun hdirty => ?_, ha.first, ha.second⟩,
    ha.matching.toIsMatching, ha.progress, ha.first_moved, ha.second_moved⟩
  exact ha.matching_eq (h.represents.clean hdirty).2

theorem Ready.allocateOutputFirst (h : s.Ready L) :
    ∃ s', s.allocateOutputFirst = .ok s' ∧ s'.Settled L ∧ s.Round s.readRequest s' := by
  have horder : Ranks.Ordered s.outputFirst (fun o i => s.readRequest i o) s.outputs s.inputs :=
    ⟨h.represents.outs, h.represents.ins, fun o i hreq => (h.represents.within i o hreq).symm⟩
  have hfresh : Ranks.Fresh L s.outputs s.inputs ⟨s.matching.transpose, s.outputArb, s.inputArb⟩ :=
    ⟨h.output, h.input⟩
  obtain ⟨r, hr, ha⟩ := Ranks.allocate_spec horder hfresh (congrArg Matching.transpose h.matching)
  refine ⟨_, bind_ok.mpr ⟨r, hr, rfl⟩, ⟨fun hdirty => ?_, ha.second, ha.first⟩,
    ha.transpose, ?_, ha.second_moved, ha.first_moved⟩
  · exact congrArg Matching.transpose (ha.matching_eq (congrArg (fun t o i => t i o)
      (h.represents.clean hdirty).2))
  · rintro ⟨i, o, hreq⟩
    obtain ⟨o', i', ho', hi', hmatched⟩ := ha.progress ⟨o, i, hreq⟩
    exact ⟨i', o', hi', ho', (ha.matching.inverse o' i' ho' hi').mp hmatched⟩

theorem Ready.allocate (h : s.Ready L) (order : Separation) :
    ∃ s', s.allocate order = .ok s' ∧ s'.Settled L ∧ s.Round s.readRequest s' := by
  cases order with
  | inputFirst => exact h.allocateInputFirst
  | outputFirst => exact h.allocateOutputFirst

theorem Settled.ready (h : s.Settled L) {l : List SparseAllocator.Call}
    (hcalls : s.clear.calls l = .ok s₁) :
    s₁.Ready L ∧ s₁.inputs = s.inputs ∧ s₁.outputs = s.outputs ∧
      (∀ i ∈ below s.inputs, A.memory (s₁.inputArb i) = A.memory (s.inputArb i)) ∧
      ∀ o ∈ below s.outputs, A.memory (s₁.outputArb o) = A.memory (s.outputArb o) := by
  obtain ⟨base, hbase, rfl⟩ := bind_return_ok.mp hcalls
  obtain ⟨hempty, hmatching⟩ := SparseAllocator.Represents.clear h.clean
  obtain ⟨hrepresents, hsame⟩ := hempty.calls hbase
  have hsize : base.inputs = s.inputs ∧ base.outputs = s.outputs := by
    obtain ⟨hinputs, houtputs⟩ := SparseAllocator.size_of_calls hbase
    obtain ⟨hinputs', houtputs'⟩ := s.toAllocator.clear_size
    exact ⟨hinputs.trans hinputs', houtputs.trans houtputs'⟩
  obtain ⟨hinputs, houtputs⟩ := hsize
  refine ⟨⟨hrepresents, hsame.trans hmatching, fun i hi => ?_, fun o ho => ?_⟩, hinputs, houtputs,
    fun i hi => (h.input i hi).clear.2, fun o ho => (h.output o ho).clear.2⟩
  · change i ∈ below base.inputs at hi
    show L.Gathers base.outputs _ _
    rw [houtputs]
    exact (h.input i (hinputs ▸ hi)).clear.1
  · change o ∈ below base.outputs at ho
    show L.Gathers base.inputs _ _
    rw [hinputs]
    exact (h.output o (houtputs ▸ ho)).clear.1

theorem Settled.round (h : s.Settled L) {l : List SparseAllocator.Call}
    (hcalls : s.clear.calls l = .ok s₁) (order : Separation) :
    ∃ s₂, s₁.allocate order = .ok s₂ ∧ s₂.Settled L ∧ s.Round s₁.readRequest s₂ := by
  obtain ⟨hready, hinputs, houtputs, hinput, houtput⟩ := h.ready hcalls
  obtain ⟨s₂, hs₂, hsettled, hround⟩ := hready.allocate order
  refine ⟨s₂, hs₂, hsettled, hround.matching, hround.progress, fun i hi p hp => ?_,
    fun o ho p hp => ?_⟩
  · exact hround.input i (hinputs ▸ hi) p ((hinput i hi).symm ▸ hp)
  · exact hround.output o (houtputs ▸ ho) p ((houtput o ho).symm ▸ hp)

/-- A new allocator. -/
structure New (s : SeparableAllocator A) : Prop where
  base : s.toSparseAllocator = { inputs := s.inputs, outputs := s.outputs }
  input : ∀ i ∈ below s.inputs, A.new s.outputs = .ok (s.inputArb i)
  output : ∀ o ∈ below s.outputs, A.new s.inputs = .ok (s.outputArb o)

theorem New.settled (L : A.Laws) (h : s.New) : s.Settled L where
  clean _ := (congrArg (fun a => a.matching) h.base :)
  input i hi := ⟨_, .inl (L.new (h.input i hi))⟩
  output o ho := ⟨_, .inl (L.new (h.output o ho))⟩

/-- The allocators there are after some number of rounds. -/
inductive Reached (order : Separation) : SeparableAllocator A → Prop
  | new {s : SeparableAllocator A} (h : s.New) : Reached order s
  | round {s s₁ s₂ : SeparableAllocator A} {l : List SparseAllocator.Call} (h : Reached order s)
      (hcalls : s.clear.calls l = .ok s₁) (hallocate : s₁.allocate order = .ok s₂) :
      Reached order s₂

theorem Reached.settled (L : A.Laws) {order : Separation} (h : Reached order s) : s.Settled L := by
  induction h with
  | new h => exact h.settled L
  | round h hcalls hallocate ih =>
    obtain ⟨s₂, hs₂, hsettled, -⟩ := ih.round hcalls order
    obtain rfl := Except.ok.inj (hs₂.symm.trans hallocate)
    exact hsettled

end SeparableAllocator

/-- A round of a separable allocator, after any number of rounds: `Allocate` returns, the grants are
a matching of the requests, there is one if there is a request, and a part of an arbiter whose state
has changed has selected a request that is granted. -/
theorem separable_round {arb : ArbType} {order : Separation}
    {s s₁ : SeparableAllocator arb.arbiter} {l : List SparseAllocator.Call} (hs : s.Reached order)
    (hcalls : s.clear.calls l = .ok s₁) :
    ∃ s₂, s₁.allocate order = .ok s₂ ∧ s.Round s₁.readRequest s₂ := by
  obtain ⟨s₂, hs₂, -, hround⟩ := (hs.settled arb.laws).round hcalls order
  exact ⟨s₂, hs₂, hround⟩

theorem separable_round_nested :
    let arb : ArbType := .tree 2 (.tree 2 .matrix)
    let l : List SparseAllocator.Call :=
      [.add 0 1 ⟨3, 0, 1⟩, .add 2 1 ⟨4, 1, 0⟩, .add 3 3 ⟨5, 0, 0⟩, .remove 2 1 4]
    ∃ s s₁ s₂ : SeparableAllocator arb.arbiter, s.Reached .outputFirst ∧
      s.clear.calls l = .ok s₁ ∧ (s₁.readRequest 0 1).isSome = true ∧
      s₁.allocate .outputFirst = .ok s₂ ∧ s.Round s₁.readRequest s₂ := by
  intro arb l
  obtain ⟨a, ha, -⟩ := exists_of_returns (x := arb.arbiter.new 4) (p := fun _ => true)
    (by decide +kernel)
  let base : SparseAllocator := { inputs := 4, outputs := 4 }
  obtain ⟨base', hbase, hreq⟩ := exists_of_returns (x := base.clear.calls l)
    (p := fun b => (b.readRequest 0 1).isSome) (by decide +kernel)
  let s : SeparableAllocator arb.arbiter := ⟨base, fun _ => a, fun _ => a⟩
  have hs : s.Reached .outputFirst := .new ⟨rfl, fun _ _ => ha, fun _ _ => ha⟩
  have hcalls : s.clear.calls l = .ok { s.clear with toSparseAllocator := base' } :=
    bind_ok.mpr ⟨base', hbase, rfl⟩
  obtain ⟨s₂, hs₂, hround⟩ := separable_round hs hcalls
  exact ⟨s, _, s₂, hs, hcalls, hreq, hs₂, hround⟩

end BookSim
