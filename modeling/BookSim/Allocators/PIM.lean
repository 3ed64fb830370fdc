/-
# PIM — rounds with random choices

`PIM` works in rounds of grants and acceptances over the whole matrix.  Each output draws a random
offset and grants the first request of a free input from there on, and each input draws one and
accepts the first of its grants.  What is drawn is a parameter here (`Draws`), so that the results
are about every outcome.
-/
import BookSim.Allocators.GrantAccept

namespace BookSim

/-- What `RandomInt` returns in the course of `Allocate`, by round and port. -/
structure Draws where
  inputOffset : ℕ → ℤ → ℕ
  outputOffset : ℕ → ℤ → ℕ

structure PIM extends DenseAllocator where
  iters : ℕ

namespace PIM

/-- `grants[output]` after the grant phase of round `iter`. -/
def grant (p : PIM) (draws : Draws) (iter : ℕ) (m : Matching) (output : ℤ) : ℤ :=
  ((rotation (draws.inputOffset iter output) p.inputs).find? fun input =>
    (p.request input output).isSome ∧ m.outputAssigned input = -1 ∧
      m.inputAssigned output = -1).getD (-1)

/-- The turn of `input` in the accept phase. -/
def accept (p : PIM) (draws : Draws) (iter : ℕ) (grants : ℤ → ℤ) (m : Matching) (input : ℤ) :
    Matching :=
  match (rotation (draws.outputOffset iter input) p.outputs).find? fun output =>
    grants output = input with
  | some output => m.assign input output
  | none => m

/-- One round. -/
def iterate (p : PIM) (draws : Draws) (m : Matching) (iter : ℕ) : Matching :=
  (indices p.inputs).foldl (p.accept draws iter (p.grant draws iter m)) m

def allocate (p : PIM) (draws : Draws) : PIM :=
  { p with matching := (List.range p.iters).foldl (p.iterate draws) p.matching }

variable {p : PIM} {draws : Draws} {m : Matching}

theorem grants (h : p.Sound) (draws : Draws) (iter : ℕ) (m : Matching) (b : ℤ) :
    Grants p.request m b (p.grant draws iter m b) := by
  unfold grant
  cases hfind : (rotation (draws.inputOffset iter b) p.inputs).find? fun input =>
      (p.request input b).isSome ∧ m.outputAssigned input = -1 ∧ m.inputAssigned b = -1 with
  | some a => exact .inr (by simpa using List.find?_some hfind)
  | none =>
    refine .inl ⟨rfl, fun a hreq hfree' hfree => ?_⟩
    refine List.find?_eq_none.mp hfind a ?_ (decide_eq_true ⟨hreq, hfree, hfree'⟩)
    exact mem_rotation.mpr (h.within a b hreq).1

theorem accepts (h : p.Sound) {grants : ℤ → ℤ} {m₀ : Matching}
    (hgrants : Granting p.request m₀ grants) (iter : ℕ) (m : Matching) {a : ℤ} (ha : 0 ≤ a) :
    Accepts p.request grants a m (p.accept draws iter grants m a) := by
  unfold accept
  split
  · next b hfind =>
      have hgrant : grants b = a := by simpa using List.find?_some hfind
      refine .take ?_ hgrant
      rw [← hgrant]
      exact (hgrants.free b (hgrant.symm ▸ ha)).1
  · next hfind =>
      refine .skip fun b hreq hgrant => ?_
      refine List.find?_eq_none.mp hfind b ?_ (decide_eq_true hgrant)
      exact mem_rotation.mpr (h.within a b hreq).2

theorem iterate_improves (h : p.Sound) (hm : PartialMatching p.request m) (iter : ℕ) :
    Improves p.request m (p.iterate draws m iter) := by
  have hgrants := Granting.of_grants h.within (grants h draws iter m)
  refine improves_of_foldl id h.within hm hgrants (nodup_indices p.inputs)
    (fun a b hab => mem_indices.mpr (h.within a b hab).1) fun m' a ha => ?_
  exact accepts h hgrants iter m' (mem_below.mp (mem_indices.mp ha)).1

theorem allocate_converging (h : p.Sound) (hp : PartialMatching p.request p.matching)
    (draws : Draws) : Converging p.request p.inputs p.iters (p.allocate draws).matching := by
  refine foldl_range_inv (I := fun k m => Converging p.request p.inputs k m) (.start hp)
    fun k m _ hm => ?_
  exact hm.next h.within (iterate_improves h hm.matching k)

/-- The allocator with the requests of `t` it has a place for. -/
def load (p : PIM) (t : Requests) : PIM :=
  { p with
    request := fun a b => if a ∈ below p.inputs ∧ b ∈ below p.outputs then t a b else none
    matching := {}
    dirty := true }

theorem sound_load (p : PIM) (t : Requests) : (p.load t).Sound := by
  refine ⟨fun a b h => ?_, fun h => ?_⟩
  · obtain ⟨q, hq⟩ := Option.isSome_iff_exists.mp h
    exact (Option.ite_none_right_eq_some.mp hq).1
  · cases h

theorem isMatching_load (p : PIM) (draws : Draws) (t : Requests) :
    IsMatching t ((p.load t).allocate draws).matching := by
  have h := (allocate_converging (sound_load p t) (.empty _) draws).matching.toIsMatching
  refine ⟨fun a b hb hab => ?_, h.inverse⟩
  obtain ⟨q, hq⟩ := Option.isSome_iff_exists.mp (h.requested a b hb hab)
  exact Option.isSome_of_eq_some (Option.ite_none_right_eq_some.mp hq).2

end PIM

/-- After `Clear` and any calls of `AddRequest`, whatever is drawn, `Allocate` answers with a
matching of requests; with as many rounds as there are inputs or outputs, it is maximal. -/
theorem pim_matching {p : PIM} (hclean : p.Clean) {calls : List (ℤ × ℤ × Request)}
    {b : DenseAllocator} (hcalls : p.toDenseAllocator.clear.addRequests calls = .ok b)
    (draws : Draws) :
    let allocated := PIM.allocate { p with toDenseAllocator := b } draws
    IsMatching b.request allocated.matching ∧
      (min b.inputs b.outputs ≤ p.iters → allocated.matching.Maximal b.request) := by
  intro allocated
  obtain ⟨hsound, hmatching⟩ := DenseAllocator.Sound.clear hclean
  obtain ⟨hb, hsame⟩ := hsound.addRequests hcalls
  have hstart : PartialMatching b.request b.matching := by
    rw [hsame, hmatching]
    exact .empty _
  have hconverging : Converging b.request b.inputs p.iters allocated.matching :=
    PIM.allocate_converging (p := { p with toDenseAllocator := b }) hb hstart draws
  exact ⟨hconverging.matching.toIsMatching, hconverging.maximal hb.within⟩

theorem pim_matching_two :
    let p : PIM := { inputs := 2, outputs := 3, iters := 2 }
    let calls : List (ℤ × ℤ × Request) := [(0, 2, ⟨1, 0, 0⟩), (1, 2, ⟨1, 0, 0⟩), (1, 0, ⟨1, 0, 0⟩)]
    ∃ b, p.toDenseAllocator.clear.addRequests calls = .ok b ∧ ∀ draws : Draws,
      (PIM.allocate { p with toDenseAllocator := b } draws).matching.Maximal b.request := by
  intro p calls
  obtain ⟨b, hb, hsize⟩ := exists_of_returns (x := p.toDenseAllocator.clear.addRequests calls)
    (p := fun b => decide (min b.inputs b.outputs ≤ p.iters)) (by decide +kernel)
  exact ⟨b, hb, fun draws =>
    (pim_matching (p := p) (fun _ => rfl) hb draws).2 (of_decide_eq_true hsize)⟩

end BookSim
