/-
# ISlip — rounds with round-robin pointers

`iSLIP_Sparse` works in rounds of grants and acceptances.  An output grants the first request of a
free input that it meets from its pointer `_gptrs` on, an input accepts the first of its grants from
its pointer `_aptrs` on, and the pointers move only on what is accepted in the first round.
-/
import BookSim.Allocators.GrantAccept
import BookSim.Allocators.Scan

namespace BookSim

open Function (update)

/-! ## The allocator -/

/-- What changes in the course of `Allocate`. -/
structure SlipState where
  matching : Matching
  gptrs : ℤ → ℤ
  aptrs : ℤ → ℤ

structure ISlip extends SparseAllocator where
  iters : ℕ
  gptrs : ℤ → ℤ := fun _ => 0
  aptrs : ℤ → ℤ := fun _ => 0

namespace ISlip

/-- `grants[output]` after the grant phase. -/
def grant (a : ISlip) (s : SlipState) (output : ℤ) : ℤ :=
  if (a.outs.req output).entries = [] ∨ s.matching.inputAssigned output ≠ -1 then -1
  else
    match (scan (s.gptrs output) (a.outs.req output).entries).find? fun r =>
      s.matching.outputAssigned r.1 = -1 with
    | some r => r.1
    | none => -1

/-- The turn of `input` in the accept phase of round `iter`. -/
def accept (a : ISlip) (iter : ℕ) (grants : ℤ → ℤ) (s : SlipState) (input : ℤ) : SlipState :=
  if (a.ins.req input).entries = [] then s
  else
    match (scan (s.aptrs input) (a.ins.req input).entries).find? fun r => grants r.1 = input with
    | some r => {
        matching := s.matching.assign input r.1
        gptrs := if iter = 0 then update s.gptrs r.1 ((input + 1) % a.inputs) else s.gptrs
        aptrs := if iter = 0 then update s.aptrs input ((r.1 + 1) % a.outputs) else s.aptrs }
    | none => s

/-- One round. -/
def iterate (a : ISlip) (s : SlipState) (iter : ℕ) : SlipState :=
  (indices a.inputs).foldl (a.accept iter (a.grant s)) s

def allocate (a : ISlip) : ISlip :=
  let s := (List.range a.iters).foldl a.iterate ⟨a.matching, a.gptrs, a.aptrs⟩
  { a with matching := s.matching, gptrs := s.gptrs, aptrs := s.aptrs }

variable {a : ISlip} {s : SlipState} {t : Requests}

theorem grants (h : a.Represents t) (s : SlipState) (b : ℤ) :
    Grants t s.matching b (a.grant s b) := by
  have hmem : ∀ {c : ℤ} {q : Request}, t c b = some q ↔
      (c, q) ∈ scan (s.gptrs b) (a.outs.req b).entries := by
    intro c q
    rw [mem_scan, OrdMap.mem_entries_iff, h.outs.get]
  unfold grant
  split
  · next hclosed =>
      refine .inl ⟨rfl, fun c hc hfree => ?_⟩
      obtain ⟨q, hq⟩ := Option.isSome_iff_exists.mp hc
      have hentry := mem_scan.mp (hmem.mp hq)
      rcases hclosed with hnil | hmatched
      · rw [hnil] at hentry
        cases hentry
      · exact absurd hfree hmatched
  · next hopen =>
      split
      · next r hr =>
          refine .inr ⟨by rw [hmem.mpr (List.mem_of_find?_eq_some hr)]; rfl, ?_, ?_⟩
          · simpa using List.find?_some hr
          · exact not_not.mp (not_or.mp hopen).2
      · next hnone =>
          refine .inl ⟨rfl, fun c hc _ => ?_⟩
          obtain ⟨q, hq⟩ := Option.isSome_iff_exists.mp hc
          simpa using List.find?_eq_none.mp hnone (c, q) (hmem.mp hq)

theorem accepts (h : a.Represents t) (iter : ℕ) (grants : ℤ → ℤ) (s : SlipState) (input : ℤ) :
    Accepts t grants input s.matching (a.accept iter grants s input).matching := by
  have hmem : ∀ {output : ℤ} {q : Request}, t input output = some q ↔
      (output, q) ∈ scan (s.aptrs input) (a.ins.req input).entries := by
    intro output q
    rw [mem_scan, OrdMap.mem_entries_iff, h.ins.get]
  unfold accept
  split
  · next hnil =>
      refine .skip fun b hb => ?_
      obtain ⟨q, hq⟩ := Option.isSome_iff_exists.mp hb
      have := mem_scan.mp (hmem.mp hq)
      rw [hnil] at this
      cases this
  · split
    · next r hr =>
        refine .take (by rw [hmem.mpr (List.mem_of_find?_eq_some hr)]; rfl) ?_
        simpa using List.find?_some hr
    · next hnone =>
        refine .skip fun b hb => ?_
        obtain ⟨q, hq⟩ := Option.isSome_iff_exists.mp hb
        simpa using List.find?_eq_none.mp hnone (b, q) (hmem.mp hq)

theorem iterate_improves (h : a.Represents t) (hs : PartialMatching t s.matching) (iter : ℕ) :
    Improves t s.matching (a.iterate s iter).matching :=
  improves_of_foldl SlipState.matching h.within hs (.of_grants h.within (grants h s))
    (nodup_indices a.inputs) (fun c b hcb => mem_indices.mpr (h.within c b hcb).1)
    (fun s' input _ => accepts h iter (a.grant s) s' input)

theorem allocate_converging (h : a.Represents t) (ha : PartialMatching t a.matching) :
    Converging t a.inputs a.iters a.allocate.matching := by
  refine foldl_range_inv (I := fun k (s : SlipState) => Converging t a.inputs k s.matching)
    (.start ha) fun k s _ hs => ?_
  exact hs.next h.within (iterate_improves h hs.matching k)

end ISlip

/-- After `Clear` and any calls of `AddRequest`, `Allocate` answers with a matching of requests;
with as many rounds as there are inputs or outputs, it is maximal. -/
theorem iSlip_matching {a : ISlip} (hclean : a.Clean) {calls : List (ℤ × ℤ × Request)}
    {b : SparseAllocator} (hcalls : a.toSparseAllocator.clear.addRequests calls = .ok b) :
    let allocated := ISlip.allocate { a with toSparseAllocator := b }
    IsMatching b.readRequest allocated.matching ∧
      (min b.inputs b.outputs ≤ a.iters → allocated.matching.Maximal b.readRequest) := by
  intro allocated
  obtain ⟨hrepresents, hmatching⟩ := SparseAllocator.Represents.clear hclean
  obtain ⟨hb, hsame⟩ := hrepresents.addRequests hcalls
  have hstart : PartialMatching b.readRequest b.matching := by
    rw [hsame, hmatching]
    exact .empty _
  have hconverging : Converging b.readRequest b.inputs a.iters allocated.matching :=
    ISlip.allocate_converging (a := { a with toSparseAllocator := b }) hb hstart
  exact ⟨hconverging.matching.toIsMatching, hconverging.maximal hb.within⟩

theorem iSlip_matching_two :
    let a : ISlip := { inputs := 2, outputs := 2, iters := 2, gptrs := fun _ => 1 }
    let calls : List (ℤ × ℤ × Request) := [(0, 0, ⟨1, 0, 0⟩), (0, 1, ⟨1, 0, 0⟩), (1, 0, ⟨1, 0, 0⟩)]
    ∃ b, a.toSparseAllocator.clear.addRequests calls = .ok b ∧
      (ISlip.allocate { a with toSparseAllocator := b }).matching.Maximal b.readRequest := by
  intro a calls
  obtain ⟨b, hb, hsize⟩ := exists_of_returns (x := a.toSparseAllocator.clear.addRequests calls)
    (p := fun b => decide (min b.inputs b.outputs ≤ a.iters)) (by decide +kernel)
  exact ⟨b, hb, (iSlip_matching (a := a) (fun _ => rfl) hb).2 (of_decide_eq_true hsize)⟩

end BookSim
