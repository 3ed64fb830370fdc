/-
# Wavefront — diagonals, by priority

The wavefront allocator goes through the priorities that were requested, from the highest down, and
for each of them through the diagonals of the matrix, which it takes to be square.  It grants what
it meets when both sides are free:

    candidates      the pairs in the order in which they are looked at, one time for each priority
    visit           one of them
    Swept           what is true when some of them have been visited

A pair that is not granted was met when its input or its output was taken already, by a pair of the
same priority or a higher one.  `RemoveRequest` takes back the request, but neither the count nor
the priority that came with it; a count of one therefore means that nothing was removed, and then
the one request is granted without a sweep.
-/
import BookSim.Allocators.GrantAccept
import Mathlib.Data.Prod.Lex
import Mathlib.Data.Int.ModEq

namespace BookSim

/-- The priority of a request for the wavefront allocator: that of the output counts first. -/
def Request.level (q : Request) : ℤ ×ₗ ℤ := toLex (q.outPri, q.inPri)

/-! ## The allocator -/

structure Wavefront extends DenseAllocator where
  lastIn : ℤ := -1
  lastOut : ℤ := -1
  priorities : List (ℤ ×ₗ ℤ) := []
  skipDiags : Bool := false
  pri : ℕ := 0
  numRequests : ℕ := 0

/-- A pair that is looked at for its priority. -/
structure Candidate where
  level : ℤ ×ₗ ℤ
  input : ℤ
  output : ℤ

namespace Wavefront

def square (w : Wavefront) : ℕ := max w.inputs w.outputs

def clear (w : Wavefront) : Wavefront := { w with toDenseAllocator := w.toDenseAllocator.clear }

def addRequest (w : Wavefront) (input output : ℤ) (q : Request) : Except Fault Wavefront := do
  let base ← w.toDenseAllocator.addRequest input output q
  return { w with
    toDenseAllocator := base
    numRequests := w.numRequests + 1
    lastIn := input
    lastOut := output
    priorities := KeyedSet.insert id q.level w.priorities }

def removeRequest (w : Wavefront) (input output : ℤ) : Except Fault Wavefront := do
  let base ← w.toDenseAllocator.removeRequest input output
  return { w with toDenseAllocator := base }

/-- The three loops of `Allocate`. -/
def candidates (w : Wavefront) : List Candidate :=
  w.priorities.reverse.flatMap fun level =>
    (indices w.square).flatMap fun p =>
      (indices w.square).map fun output =>
        ⟨level, (w.pri + p + (w.square - output)) % w.square, output⟩

/-- One turn of them; the number is `first_diag`. -/
def visit (w : Wavefront) (s : Matching × ℤ) (c : Candidate) : Matching × ℤ :=
  if c.input < w.inputs ∧ c.output < w.outputs ∧
      s.1.outputAssigned c.input = -1 ∧ s.1.inputAssigned c.output = -1 ∧
      (w.request c.input c.output).map Request.level = some c.level then
    (s.1.assign c.input c.output, if s.2 < 0 then c.input + c.output else s.2)
  else s

def sweep (w : Wavefront) : Matching × ℤ := w.candidates.foldl w.visit (w.matching, -1)

/-- The matching and `first_diag`; a single request is granted at once. -/
def outcome (w : Wavefront) : Matching × ℤ :=
  if w.numRequests = 1 then (w.matching.assign w.lastIn w.lastOut, w.lastIn + w.lastOut)
  else w.sweep

def allocate (w : Wavefront) : Except Fault Wavefront := do
  if w.numRequests = 0 then
    return w
  else
    require (.assertion "first_diag >= 0") (0 ≤ w.outcome.2)
    return { w with
      matching := w.outcome.1
      numRequests := 0
      lastIn := -1
      lastOut := -1
      priorities := []
      pri := ((if w.skipDiags then w.outcome.2.toNat else w.pri) + 1) % w.square }

/-- The calls between `Clear` and `Allocate`: a request is made, or one is replaced. -/
inductive Call
  | add (input output : ℤ) (q : Request)
  | replace (input output : ℤ) (q : Request)

def call (w : Wavefront) : Call → Except Fault Wavefront
  | .add input output q => w.addRequest input output q
  | .replace input output q => do
    let w' ← w.removeRequest input output
    w'.addRequest input output q

def calls (w : Wavefront) (l : List Call) : Except Fault Wavefront := l.foldlM call w

/-! ## The requests of a cycle -/

/-- Between two cycles. -/
structure Idle (w : Wavefront) : Prop where
  clean : w.Clean
  numRequests : w.numRequests = 0
  priorities : w.priorities = []

/-- In the course of the calls. -/
structure Gathering (w : Wavefront) : Prop where
  sound : w.Sound
  matching : w.matching = {}
  level : ∀ i o q, w.request i o = some q → q.level ∈ w.priorities
  sorted : KeyedSet.Sorted id w.priorities
  none : w.numRequests = 0 → w.request = .clear ∧ w.priorities = []

/-- After a call. -/
structure Gathered (w : Wavefront) : Prop extends Gathering w where
  one : w.numRequests = 1 → ∃ q, w.request = update₂ Requests.clear w.lastIn w.lastOut (some q)
  last : w.numRequests ≠ 0 → (w.request w.lastIn w.lastOut).isSome = true ∧ w.dirty = true

section Calls

variable {w w' : Wavefront} {input output : ℤ} {q : Request}

theorem Gathered.clear (h : w.Idle) : w.clear.Gathered := by
  obtain ⟨hsound, hmatching⟩ := DenseAllocator.Sound.clear h.clean
  have hnone : w.clear.numRequests = 0 := h.numRequests
  refine ⟨⟨hsound, hmatching, fun _ _ _ hq => ?_, ?_, fun _ => ⟨rfl, h.priorities⟩⟩,
    fun hone => ?_, fun hne => ?_⟩
  · cases hq
  · show KeyedSet.Sorted id w.priorities
    rw [h.priorities]
    exact .nil
  · omega
  · exact absurd hnone hne

theorem Gathering.addRequest (h : w.Gathering) (hadd : w.addRequest input output q = .ok w') :
    w'.Gathered := by
  obtain ⟨base, hbase, rfl⟩ := bind_return_ok.mp hadd
  obtain ⟨hsound, hrequest, hmatching⟩ := h.sound.addRequest hbase
  have hdirty : base.dirty = true := by
    by_contra hclean
    have hcell := congrFun (congrFun (hsound.clean (by simpa using hclean)).2 input) output
    rw [hrequest] at hcell
    simp [Requests.clear] at hcell
  refine ⟨⟨hsound, hmatching.trans h.matching, fun i o q' hq' => ?_,
    KeyedSet.sorted_insert h.sorted, fun hnone => ?_⟩, fun hone => ⟨q, ?_⟩, fun _ => ⟨?_, hdirty⟩⟩
  · change base.request i o = some q' at hq'
    rw [hrequest, update₂_apply] at hq'
    split at hq'
    · refine (KeyedSet.mem_insert_id h.sorted).mpr (.inr ?_)
      rw [Option.some.inj hq']
    · exact (KeyedSet.mem_insert_id h.sorted).mpr (.inl (h.level i o q' hq'))
  · exact absurd hnone (Nat.succ_ne_zero _)
  · show base.request = _
    rw [hrequest, (h.none (Nat.succ.inj hone)).1]
  · show (base.request input output).isSome = true
    rw [hrequest, update₂_apply, if_pos ⟨rfl, rfl⟩]
    rfl

theorem Gathering.removeRequest (h : w.Gathering)
    (hremove : w.removeRequest input output = .ok w') : w'.Gathering := by
  obtain ⟨base, hbase, rfl⟩ := bind_return_ok.mp hremove
  obtain ⟨hsound, hrequest, hmatching⟩ := h.sound.removeRequest hbase
  refine ⟨hsound, hmatching.trans h.matching, fun i o q' hq' => ?_, h.sorted, fun hnone => ?_⟩
  · change base.request i o = some q' at hq'
    rw [hrequest, update₂_apply] at hq'
    split at hq'
    · cases hq'
    · exact h.level i o q' hq'
  · obtain ⟨hclear, hpriorities⟩ := h.none hnone
    refine ⟨?_, hpriorities⟩
    show base.request = Requests.clear
    rw [hrequest, hclear]
    exact update₂_eq_self rfl

theorem Gathered.calls {l : List Call} (h : w.Gathered) (hcalls : w.calls l = .ok w') :
    w'.Gathered := by
  refine inv_of_foldlM_eq_ok (I := Gathered) hcalls (fun s s' c _ hstep hs => ?_) h
  cases c with
  | add input output q => exact hs.addRequest hstep
  | replace input output q =>
    obtain ⟨w₁, hremove, hadd⟩ := bind_ok.mp hstep
    exact (hs.removeRequest hremove).addRequest hadd

end Calls

/-! ## The sweep -/

/-- A request is granted, or one side of it is given to a request of no lower priority. -/
def Served (t : Requests) (m : Matching) (i o : ℤ) : Prop :=
  ∃ i' o', (i' = i ∨ o' = o) ∧ 0 ≤ o' ∧ m.outputAssigned i' = o' ∧
    ∃ q q', t i o = some q ∧ t i' o' = some q' ∧ q.level ≤ q'.level

/-- The candidates in `seen` have been visited. -/
structure Swept (t : Requests) (seen : List Candidate) (s : Matching × ℤ) : Prop where
  matching : PartialMatching t s.1
  granted : ∀ i o, 0 ≤ o → s.1.outputAssigned i = o →
    ∃ c ∈ seen, (t i o).map Request.level = some c.level
  served : ∀ c ∈ seen, (t c.input c.output).map Request.level = some c.level →
    Served t s.1 c.input c.output
  diag : s.2 < 0 → ∀ i, s.1.outputAssigned i = -1

section Sweep

variable {w : Wavefront} {seen : List Candidate} {s : Matching × ℤ} {c : Candidate}

theorem candidates_descend (h : w.Gathering) :
    w.candidates.Pairwise fun c c' => c'.level ≤ c.level := by
  unfold candidates
  rw [List.pairwise_flatMap]
  have hlevel : ∀ {level : ℤ ×ₗ ℤ} {c : Candidate},
      c ∈ ((indices w.square).flatMap fun p => (indices w.square).map fun output =>
        (⟨level, (w.pri + p + (w.square - output)) % w.square, output⟩ : Candidate)) →
      c.level = level := by
    intro level c hc
    obtain ⟨p, -, hc⟩ := List.mem_flatMap.mp hc
    obtain ⟨output, -, rfl⟩ := List.mem_map.mp hc
    rfl
  constructor
  · intro level _
    refine List.pairwise_of_forall_mem_list fun c hc c' hc' => ?_
    rw [hlevel hc, hlevel hc']
  · refine (List.pairwise_reverse.mpr h.sorted).imp fun hlt c hc c' hc' => ?_
    rw [hlevel hc, hlevel hc']
    exact le_of_lt hlt

theorem mem_candidates (h : w.Gathering) {i o : ℤ} {q : Request} (hq : w.request i o = some q) :
    (⟨q.level, i, o⟩ : Candidate) ∈ w.candidates := by
  obtain ⟨hi, ho⟩ := h.sound.within i o (Option.isSome_iff_exists.mpr ⟨q, hq⟩)
  rw [mem_below] at hi ho
  have hi' : i < w.square := hi.2.trans_le (by exact_mod_cast le_max_left _ _)
  have ho' : o < w.square := ho.2.trans_le (by exact_mod_cast le_max_right _ _)
  refine List.mem_flatMap.mpr ⟨q.level, List.mem_reverse.mpr (h.level i o q hq), ?_⟩
  refine List.mem_flatMap.mpr ⟨(i + o - w.pri) % w.square, ?_, ?_⟩
  · refine mem_indices.mpr (mem_below.mpr ⟨Int.emod_nonneg _ ?_, Int.emod_lt_of_pos _ ?_⟩)
    · omega
    · omega
  · refine List.mem_map.mpr ⟨o, mem_indices.mpr (mem_below.mpr ⟨ho.1, ho'⟩), ?_⟩
    congr 1
    -- the diagonal of the pair is this far from the pointer
    calc ((w.pri : ℤ) + (i + o - w.pri) % w.square + (w.square - o)) % w.square
        = ((i + o - w.pri) % w.square + (w.pri + (w.square - o))) % w.square := by
          rw [add_right_comm, add_comm]
      _ = (i + w.square) % w.square := by
          rw [Int.emod_add_emod]
          congr 1
          omega
      _ = i := by rw [Int.add_emod_right, Int.emod_eq_of_lt hi.1 hi']

theorem Swept.start (t : Requests) : Swept t [] ({}, -1) where
  matching := .empty t
  granted i o ho hio := by
    change (-1 : ℤ) = o at hio
    omega
  served := nofun
  diag _ _ := rfl

theorem Served.assign {t : Requests} {m : Matching} {a b i o : ℤ} (h : Served t m i o)
    (ha : m.outputAssigned a = -1) : Served t (m.assign a b) i o := by
  obtain ⟨i', o', hshare, ho', hio', hlevel⟩ := h
  refine ⟨i', o', hshare, ho', ?_, hlevel⟩
  refine (Function.update_of_ne ?_ ..).trans hio'
  rintro rfl
  omega

theorem Swept.visit (h : Swept w.request seen s) (hw : w.Sound)
    (hc : ∀ c' ∈ seen, c.level ≤ c'.level) : Swept w.request (seen ++ [c]) (w.visit s c) := by
  -- a partner was found at the level of `c`, or above
  have hpartner : ∀ {i o q}, w.request c.input c.output = some q → q.level = c.level →
      (i = c.input ∨ o = c.output) → 0 ≤ o → s.1.outputAssigned i = o →
      Served w.request s.1 c.input c.output := by
    intro i o q hq hlevel hshare ho hio
    obtain ⟨c', hc', hlevel'⟩ := h.granted i o ho hio
    obtain ⟨q', hq', hq''⟩ := Option.map_eq_some_iff.mp hlevel'
    exact ⟨i, o, hshare, ho, hio, q, q', hq, hq', by rw [hlevel, hq'']; exact hc c' hc'⟩
  unfold Wavefront.visit
  split
  · next hgrant =>
      obtain ⟨-, -, hfree, hfree', hlevel⟩ := hgrant
      obtain ⟨q, hq, hqlevel⟩ := Option.map_eq_some_iff.mp hlevel
      have hreq : (w.request c.input c.output).isSome = true := Option.isSome_iff_exists.mpr ⟨q, hq⟩
      obtain ⟨hi, ho⟩ := hw.within _ _ hreq
      rw [mem_below] at hi ho
      refine ⟨h.matching.assign hreq hi.1 ho.1 hfree hfree', fun i o ho' hio => ?_,
        fun c' hc' hlevel' => ?_, fun hneg => ?_⟩
      · change Function.update s.1.outputAssigned c.input c.output i = o at hio
        rw [Function.update_apply] at hio
        split at hio
        · next heq =>
            refine ⟨c, mem_snoc.mpr (.inr rfl), ?_⟩
            rwa [heq, ← hio]
        · obtain ⟨c', hc', hlevel'⟩ := h.granted i o ho' hio
          exact ⟨c', mem_snoc.mpr (.inl hc'), hlevel'⟩
      · rcases mem_snoc.mp hc' with hc' | rfl
        · exact (h.served c' hc' hlevel').assign hfree
        · exact ⟨c'.input, c'.output, .inl rfl, ho.1, Function.update_self .., q, q, hq, hq, le_rfl⟩
      · dsimp only at hneg
        split at hneg <;> omega
  · next hgrant =>
      refine ⟨h.matching, fun i o ho hio => ?_, fun c' hc' hlevel => ?_, h.diag⟩
      · obtain ⟨c', hc', hlevel'⟩ := h.granted i o ho hio
        exact ⟨c', mem_snoc.mpr (.inl hc'), hlevel'⟩
      · rcases mem_snoc.mp hc' with hc' | rfl
        · exact h.served c' hc' hlevel
        · obtain ⟨q, hq, hqlevel⟩ := Option.map_eq_some_iff.mp hlevel
          obtain ⟨hi, ho⟩ := hw.within _ _ (Option.isSome_iff_exists.mpr ⟨q, hq⟩)
          rw [mem_below] at hi ho
          by_cases hfree : s.1.outputAssigned c'.input = -1
          · have hmatched : 0 ≤ s.1.inputAssigned c'.output := by
              by_contra hnone
              exact hgrant ⟨hi.2, ho.2, hfree, h.matching.input_eq hnone, hlevel⟩
            exact hpartner hq hqlevel (.inr rfl) ho.1 (h.matching.output_of_matched ho.1 hmatched)
          · have hmatched : 0 ≤ s.1.outputAssigned c'.input :=
              not_lt.mp fun hlt => hfree (h.matching.output_eq (not_le.mpr hlt))
            exact hpartner hq hqlevel (.inl rfl) hmatched rfl

theorem sweep_swept (h : w.Gathering) : Swept w.request w.candidates w.sweep := by
  unfold sweep
  rw [h.matching]
  refine foldl_seen_inv (I := fun seen s => Swept w.request seen s) (.start _)
    fun seen c rest s hsplit hs => hs.visit h.sound fun c' hc' => ?_
  have hdescend := candidates_descend h
  rw [hsplit] at hdescend
  exact (List.pairwise_append.mp hdescend).2.2 c' hc' c List.mem_cons_self

theorem served_last (h : w.Gathered) (hne : w.numRequests ≠ 0) :
    Served w.request w.sweep.1 w.lastIn w.lastOut := by
  obtain ⟨q, hq⟩ := Option.isSome_iff_exists.mp (h.last hne).1
  exact (sweep_swept h.toGathering).served _ (mem_candidates h.toGathering hq)
    (Option.map_eq_some_iff.mpr ⟨q, hq, rfl⟩)

theorem sweep_one (h : w.Gathered) (hone : w.numRequests = 1) :
    w.sweep.1 = w.matching.assign w.lastIn w.lastOut := by
  obtain ⟨q, hq⟩ := h.one hone
  have hcell : ∀ {i o}, (w.request i o).isSome = true → i = w.lastIn ∧ o = w.lastOut := by
    intro i o hreq
    rw [hq, update₂_apply] at hreq
    split at hreq
    · next hio => exact hio
    · cases hreq
  have hlast : w.lastOut ≠ -1 := by
    have := (mem_below.mp (h.sound.within _ _ (h.last (by omega)).1).2).1
    omega
  have hsweep : w.sweep.1 = {} ∨ w.sweep.1 = w.matching.assign w.lastIn w.lastOut := by
    refine List.foldlRecOn (b := ((w.matching, -1) : Matching × ℤ))
      (motive := fun s => s.1 = {} ∨ s.1 = w.matching.assign w.lastIn w.lastOut)
      w.candidates w.visit (.inl h.matching) fun s hs c _ => ?_
    unfold visit
    split
    · next hgrant =>
        obtain ⟨-, -, hfree, -, hlevel⟩ := hgrant
        obtain ⟨q', hq', -⟩ := Option.map_eq_some_iff.mp hlevel
        obtain ⟨hi, ho⟩ := hcell (Option.isSome_iff_exists.mpr ⟨q', hq'⟩)
        rw [hi, ho]
        rcases hs with hs | hs
        · right
          show s.1.assign w.lastIn w.lastOut = _
          rw [hs, h.matching]
        · rw [hi, hs] at hfree
          exact absurd ((Function.update_self ..).symm.trans hfree) hlast
    · exact hs
  refine hsweep.resolve_left fun hnone => ?_
  obtain ⟨i', o', -, ho', hio', -⟩ := served_last h (by omega)
  rw [hnone] at hio'
  change (-1 : ℤ) = o' at hio'
  omega

theorem outcome_eq (h : w.Gathered) : w.outcome.1 = w.sweep.1 := by
  unfold outcome
  split
  · next hone => exact (sweep_one h hone).symm
  · rfl

theorem outcome_diag (h : w.Gathered) (hne : w.numRequests ≠ 0) : 0 ≤ w.outcome.2 := by
  unfold outcome
  split
  · obtain ⟨hi, ho⟩ := h.sound.within _ _ (h.last hne).1
    rw [mem_below] at hi ho
    exact add_nonneg hi.1 ho.1
  · by_contra hneg
    obtain ⟨i', o', -, ho', hio', -⟩ := served_last h hne
    have := (sweep_swept h.toGathering).diag (not_le.mp hneg) i'
    omega

theorem allocate_of_gathered (h : w.Gathered) :
    ∃ w', w.allocate = .ok w' ∧ w'.matching = w.sweep.1 ∧ w'.Idle := by
  by_cases hnone : w.numRequests = 0
  · obtain ⟨-, hpriorities⟩ := h.none hnone
    refine ⟨w, if_pos hnone, ?_, fun _ => h.matching, hnone, hpriorities⟩
    rw [sweep, candidates, hpriorities]
    rfl
  · have hreturns : w.allocate = _ :=
      (if_neg hnone).trans (require_bind (outcome_diag h hnone) _)
    refine ⟨_, hreturns, outcome_eq h, fun hclean => ?_, rfl, rfl⟩
    exact absurd ((h.last hnone).2.symm.trans hclean) (by decide)

end Sweep

end Wavefront

/-- After `Clear` and calls that make requests or replace them, `Allocate` answers with a matching
of requests.  Every request is granted, or its input or its output is given to one of no lower
priority. A single request is granted as it is in a sweep. -/
theorem wavefront_matching {w : Wavefront} (hidle : w.Idle) {l : List Wavefront.Call}
    {b : Wavefront} (hcalls : w.clear.calls l = .ok b) :
    ∃ b', b.allocate = .ok b' ∧ b'.Idle ∧ IsMatching b.request b'.matching ∧
      (∀ i o q, b.request i o = some q → b'.matching.outputAssigned i ≠ o →
        ∃ i' o' q', (i' = i ∨ o' = o) ∧ b'.matching.outputAssigned i' = o' ∧
          b.request i' o' = some q' ∧ toLex (q.outPri, q.inPri) ≤ toLex (q'.outPri, q'.inPri)) ∧
      (b.numRequests = 1 → b'.matching = b.sweep.1) := by
  have hgathered := (Wavefront.Gathered.clear hidle).calls hcalls
  obtain ⟨b', hb', hmatching, hidle'⟩ := Wavefront.allocate_of_gathered hgathered
  have hswept := Wavefront.sweep_swept hgathered.toGathering
  refine ⟨b', hb', hidle', ?_⟩
  rw [hmatching]
  refine ⟨hswept.matching.toIsMatching, fun i o q hq _ => ?_, fun _ => rfl⟩
  obtain ⟨i', o', hshare, -, hio', q₀, q', hq₀, hq', hlevel⟩ := hswept.served _
    (Wavefront.mem_candidates hgathered.toGathering hq) (Option.map_eq_some_iff.mpr ⟨q, hq, rfl⟩)
  obtain rfl := Option.some.inj (hq.symm.trans hq₀)
  exact ⟨i', o', q', hshare, hio', hq', hlevel⟩

/-- Two requests for one output, the first of which is replaced. -/
theorem wavefront_matching_replaced :
    let w : Wavefront := { inputs := 3, outputs := 2, pri := 2, skipDiags := true }
    ∃ b b', w.clear.calls [.add 0 1 ⟨1, 0, 0⟩, .add 2 1 ⟨1, 3, 1⟩, .replace 0 1 ⟨1, 0, 4⟩] = .ok b ∧
      b.allocate = .ok b' ∧ IsMatching b.request b'.matching := by
  intro w
  obtain ⟨b, hb, -⟩ := exists_of_returns
    (x := w.clear.calls [.add 0 1 ⟨1, 0, 0⟩, .add 2 1 ⟨1, 3, 1⟩, .replace 0 1 ⟨1, 0, 4⟩])
    (p := fun _ => true) (by decide +kernel)
  obtain ⟨b', hb', -, hmatching, -⟩ := wavefront_matching (w := w) ⟨fun _ => rfl, rfl, rfl⟩ hb
  exact ⟨b, b', hb, hb', hmatching⟩

end BookSim
