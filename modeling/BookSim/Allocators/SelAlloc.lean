/-
# SelAlloc — rounds with priorities and masks

`SelAlloc` works in rounds like iSLIP, but an output grants, and an input accepts, the request with
the highest priority, and a masked output grants nothing.  `grants` is set up once and not cleared
between the rounds, and an input that has a partner is not kept from accepting: what an output
granted in the first round, and the input did not take, is still there in the second.

    FirstChoice     in the first round the output grants this input
    Favourite       in the first round the input accepts this output
    Clash           in the second round an input finds a grant as good as its partner

A clash breaks the matching, and nothing else does (`selAlloc_matching_iff`).
-/
import BookSim.Allocators.GrantAccept
import BookSim.Allocators.Scan

namespace BookSim

open Function (update update_apply)

/-! ## The allocator -/

/-- What changes in the course of `Allocate`. -/
structure SelState where
  matching : Matching
  gptrs : ℤ → ℤ
  aptrs : ℤ → ℤ
  grants : ℤ → ℤ := fun _ => -1

structure SelAlloc extends SparseAllocator where
  iters : ℕ
  gptrs : ℤ → ℤ := fun _ => 0
  aptrs : ℤ → ℤ := fun _ => 0
  outmask : ℤ → ℤ := fun _ => 0

namespace SelAlloc

/-- `max_index` of the grant phase; `-1` for an output that is skipped. -/
def granted (sel : SelAlloc) (s : SelState) (output : ℤ) : ℤ :=
  if (sel.outs.req output).entries = [] ∨ s.matching.inputAssigned output ≠ -1 ∨
      sel.outmask output ≠ 0 then -1
  else
    pick (fun input => s.matching.outputAssigned input = -1) Request.outPri
      (scan (s.gptrs output) (sel.outs.req output).entries)

/-- `grants` after the grant phase. -/
def grant (sel : SelAlloc) (s : SelState) : ℤ → ℤ :=
  sel.outs.occ.foldl (fun grants output =>
    if sel.granted s output ≠ -1 then update grants output (sel.granted s output) else grants)
    s.grants

/-- `max_index` of the accept phase. -/
def accepted (sel : SelAlloc) (s : SelState) (input : ℤ) : ℤ :=
  if (sel.ins.req input).entries = [] then -1
  else
    pick (fun output => s.grants output = input ∧ (sel.outs.req output).entries ≠ [])
      Request.inPri (scan (s.aptrs input) (sel.ins.req input).entries)

/-- The turn of `input` in the accept phase of round `iter`. -/
def accept (sel : SelAlloc) (iter : ℕ) (s : SelState) (input : ℤ) : SelState :=
  let output := sel.accepted s input
  if output ≠ -1 then
    { s with
      matching := s.matching.assign input output
      gptrs := if iter = 0 then update s.gptrs output ((input + 1) % sel.inputs) else s.gptrs
      aptrs := if iter = 0 then update s.aptrs input ((output + 1) % sel.outputs) else s.aptrs }
  else s

/-- One round. -/
def iterate (sel : SelAlloc) (s : SelState) (iter : ℕ) : SelState :=
  sel.ins.occ.foldl (sel.accept iter) { s with grants := sel.grant s }

def allocate (sel : SelAlloc) : SelAlloc :=
  let s := (List.range sel.iters).foldl sel.iterate
    { matching := sel.matching, gptrs := sel.gptrs, aptrs := sel.aptrs }
  { sel with matching := s.matching, gptrs := s.gptrs, aptrs := s.aptrs }

/-! ## The two phases -/

section Phases

variable {sel : SelAlloc} {t : Requests} {s : SelState} {input output : ℤ}

theorem granted_spec (h : sel.Represents t) (s : SelState) (output : ℤ) :
    (sel.granted s output = -1 ∧ (sel.outmask output = 0 → s.matching.inputAssigned output = -1 →
        ∀ input, (t input output).isSome = true → s.matching.outputAssigned input ≠ -1)) ∨
      (sel.outmask output = 0 ∧ s.matching.inputAssigned output = -1 ∧
        Chosen (fun input => t input output) (s.matching.outputAssigned · = -1) Request.outPri
          (s.gptrs output) (sel.granted s output)) := by
  unfold granted
  split
  · next hskip =>
      refine .inl ⟨rfl, fun hmask hfree input hreq => ?_⟩
      have hne := (h.outs.entries_ne_nil output).mpr ⟨input, hreq⟩
      exact absurd hskip (by simp [hne, hmask, hfree])
  · next hopen =>
      simp only [ne_eq, not_or, not_not] at hopen
      rcases pick_spec (h.outs.get output)
        (fun input hreq => (mem_below.mp (h.within input output hreq).1).1)
        (fun input => s.matching.outputAssigned input = -1) Request.outPri (s.gptrs output)
        with ⟨hnone, hall⟩ | hchosen
      · exact .inl ⟨hnone, fun _ _ input hreq => by simpa using hall input hreq⟩
      · exact .inr ⟨hopen.2.2, hopen.2.1, by simpa using hchosen⟩

theorem grant_spec (h : sel.Represents t) (s : SelState) (output : ℤ) :
    (sel.outmask output = 0 ∧ s.matching.inputAssigned output = -1 ∧
        Chosen (fun input => t input output) (s.matching.outputAssigned · = -1) Request.outPri
          (s.gptrs output) (sel.grant s output)) ∨
      (sel.grant s output = s.grants output ∧
        (sel.outmask output = 0 → s.matching.inputAssigned output = -1 →
          ∀ input, (t input output).isSome = true → s.matching.outputAssigned input ≠ -1)) := by
  have hgrant : sel.grant s output =
      if output ∈ sel.outs.occ ∧ sel.granted s output ≠ -1 then sel.granted s output
      else s.grants output := foldl_update_apply (sel.granted s) _ _ _
  rcases granted_spec h s output with ⟨hnone, hall⟩ | hsome
  · exact .inr ⟨hgrant.trans (if_neg fun hpos => hpos.2 hnone), hall⟩
  · have hreq : (t (sel.granted s output) output).isSome = true := hsome.2.2.isSome
    have hnonneg := (mem_below.mp (h.within _ _ hreq).1).1
    rw [hgrant, if_pos ⟨(h.outs.mem_occ output).mpr ⟨_, hreq⟩, by omega⟩]
    exact .inl hsome

theorem accepted_spec (h : sel.Represents t) (s : SelState) (input : ℤ) :
    (sel.accepted s input = -1 ∧ ∀ output, (t input output).isSome = true →
        s.grants output ≠ input) ∨
      Chosen (t input) (s.grants · = input) Request.inPri (s.aptrs input)
        (sel.accepted s input) := by
  have hopen : ∀ output, (t input output).isSome = true → (sel.outs.req output).entries ≠ [] :=
    fun output hreq => (h.outs.entries_ne_nil output).mpr ⟨input, hreq⟩
  unfold accepted
  split
  · next hnil =>
      refine .inl ⟨rfl, fun output hreq => ?_⟩
      exact absurd hnil ((h.ins.entries_ne_nil input).mpr ⟨output, hreq⟩)
  · rcases pick_spec (h.ins.get input)
      (fun output hreq => (mem_below.mp (h.within input output hreq).2).1)
      (fun output => s.grants output = input ∧ (sel.outs.req output).entries ≠ [])
      Request.inPri (s.aptrs input) with ⟨hnone, hall⟩ | ⟨heligible, q, hq, hbest⟩
    · refine .inl ⟨hnone, fun output hreq hgrant => ?_⟩
      exact absurd (hall output hreq) (by simp [hgrant, hopen output hreq])
    · refine .inr ⟨(of_decide_eq_true heligible).1, q, hq, fun output q' hq' hgrant => ?_⟩
      refine hbest output q' hq' (decide_eq_true ⟨hgrant, hopen output ?_⟩)
      rw [hq']
      rfl

theorem accepted_congr {s s' : SelState} (hgrants : s.grants = s'.grants)
    (haptr : s.aptrs input = s'.aptrs input) : sel.accepted s input = sel.accepted s' input := by
  unfold accepted
  rw [hgrants, haptr]

theorem grants_accepted (h : sel.Represents t) (hne : sel.accepted s input ≠ -1) :
    s.grants (sel.accepted s input) = input ∧ (t input (sel.accepted s input)).isSome = true := by
  rcases accepted_spec h s input with ⟨hnone, -⟩ | hchosen
  · exact absurd hnone hne
  · exact ⟨hchosen.1, hchosen.isSome⟩

/-- The accept phase when the inputs in `done` have had their turn; it began in `s₀`. -/
structure Accepting (sel : SelAlloc) (iter : ℕ) (s₀ : SelState) (done : List ℤ) (s : SelState) :
    Prop where
  grants : s.grants = s₀.grants
  output : ∀ i, s.matching.outputAssigned i =
    if i ∈ done ∧ sel.accepted s₀ i ≠ -1 then sel.accepted s₀ i else s₀.matching.outputAssigned i
  input : ∀ o, s.matching.inputAssigned o =
    if 0 ≤ o ∧ s₀.grants o ∈ done ∧ sel.accepted s₀ (s₀.grants o) = o then s₀.grants o
    else s₀.matching.inputAssigned o
  aptrs : ∀ i, s.aptrs i =
    if iter = 0 ∧ i ∈ done ∧ sel.accepted s₀ i ≠ -1 then (sel.accepted s₀ i + 1) % sel.outputs
    else s₀.aptrs i

theorem Accepting.start (iter : ℕ) (s : SelState) : sel.Accepting iter s [] s where
  grants := rfl
  output _ := by simp
  input _ := by simp
  aptrs _ := by simp

theorem Accepting.step {iter : ℕ} {s₀ : SelState} {done : List ℤ} (h : sel.Represents t)
    (hs : sel.Accepting iter s₀ done s) (hinput : input ∉ done) :
    sel.Accepting iter s₀ (done ++ [input]) (sel.accept iter s input) := by
  have hmem : ∀ {c : ℤ}, c ∈ done ++ [input] ↔ c ∈ done ∨ c = input :=
    List.mem_append.trans (or_congr_right List.mem_singleton)
  have hchoice : sel.accepted s input = sel.accepted s₀ input := by
    refine accepted_congr hs.grants ((hs.aptrs input).trans (if_neg fun hdone => ?_))
    exact hinput hdone.2.1
  unfold accept
  simp only [hchoice]
  split
  · next hne =>
      -- the output that is taken has granted this input and no other
      obtain ⟨hgrant, hreq⟩ := grants_accepted h hne
      refine ⟨hs.grants, fun i => ?_, fun o => ?_, fun i => ?_⟩
      · show update s.matching.outputAssigned input (sel.accepted s₀ input) i = _
        rw [update_apply, hs.output]
        by_cases hi : i = input
        · simp [hi, hne]
        · simp [hi]
      · show update s.matching.inputAssigned (sel.accepted s₀ input) input o = _
        rw [update_apply, hs.input o]
        by_cases ho' : o = sel.accepted s₀ input
        · have hnonneg := (mem_below.mp (h.within _ _ hreq).2).1
          rw [if_pos ho', ho', hgrant, if_pos ⟨hnonneg, hmem.mpr (.inr rfl), rfl⟩]
        · grind
      · show (if iter = 0 then update s.aptrs input _ else s.aptrs) i = _
        by_cases hiter : iter = 0
        · rw [if_pos hiter, update_apply, hs.aptrs]
          by_cases hi : i = input
          · simp [hi, hiter, hne]
          · simp [hi, hiter]
        · rw [if_neg hiter, hs.aptrs]
          simp [hiter]
  · next hnone =>
      rw [not_not] at hnone
      have hdrop : ∀ {i : ℤ}, (i ∈ done ++ [input] ∧ sel.accepted s₀ i ≠ -1) ↔
          (i ∈ done ∧ sel.accepted s₀ i ≠ -1) := by
        intro i
        rw [hmem]
        refine and_congr_left fun hne => or_iff_left fun hi => ?_
        exact hne (hi ▸ hnone)
      refine ⟨hs.grants, fun i => ?_, fun o => ?_, fun i => ?_⟩
      · rw [hs.output, if_congr hdrop rfl rfl]
      · rw [hs.input o]
        refine if_congr (and_congr_right fun ho => and_congr_left fun hto => ?_) rfl rfl
        rw [hmem]
        refine (or_iff_left fun heq => ?_).symm
        rw [heq, hnone] at hto
        omega
      · rw [hs.aptrs, if_congr (and_congr_right fun _ => hdrop) rfl rfl]

/-- What a round does; `choice` tells what each input accepts in it. -/
structure Round (sel : SelAlloc) (t : Requests) (iter : ℕ) (s : SelState) (choice : ℤ → ℤ)
    (s' : SelState) : Prop where
  grants : ∀ o, (sel.outmask o = 0 ∧ s.matching.inputAssigned o = -1 ∧
        Chosen (fun i => t i o) (s.matching.outputAssigned · = -1) Request.outPri (s.gptrs o)
          (s'.grants o)) ∨
      (s'.grants o = s.grants o ∧ (sel.outmask o = 0 → s.matching.inputAssigned o = -1 →
        ∀ i, (t i o).isSome = true → s.matching.outputAssigned i ≠ -1))
  chosen : ∀ i, (choice i = -1 ∧ ∀ o, (t i o).isSome = true → s'.grants o ≠ i) ∨
    Chosen (t i) (s'.grants · = i) Request.inPri (s.aptrs i) (choice i)
  output : ∀ i, s'.matching.outputAssigned i =
    if choice i ≠ -1 then choice i else s.matching.outputAssigned i
  input : ∀ o, s'.matching.inputAssigned o =
    if 0 ≤ o ∧ choice (s'.grants o) = o then s'.grants o else s.matching.inputAssigned o
  aptrs : ∀ i, s'.aptrs i =
    if iter = 0 ∧ choice i ≠ -1 then (choice i + 1) % sel.outputs else s.aptrs i

theorem iterate_round (h : sel.Represents t) (iter : ℕ) (s : SelState) :
    ∃ choice, sel.Round t iter s choice (sel.iterate s iter) := by
  have hafter : sel.Accepting iter { s with grants := sel.grant s } sel.ins.occ
      (sel.iterate s iter) :=
    foldl_seen_inv (I := fun done s' => sel.Accepting iter { s with grants := sel.grant s } done s')
      (.start iter _) fun done i rest s' hsplit hs =>
        hs.step h (not_mem_of_nodup_append h.ins.sorted.nodup hsplit)
  -- whoever accepts something has a turn
  have hoccupied : ∀ {i}, sel.accepted { s with grants := sel.grant s } i ≠ -1 → i ∈ sel.ins.occ :=
    fun hne => (h.ins.mem_occ _).mpr ⟨_, (grants_accepted h hne).2⟩
  refine ⟨sel.accepted { s with grants := sel.grant s }, fun o => ?_, fun i => ?_, fun i => ?_,
    fun o => ?_, fun i => ?_⟩
  · rw [hafter.grants]
    exact grant_spec h s o
  · rw [hafter.grants]
    exact accepted_spec h _ i
  · rw [hafter.output]
    exact if_congr (and_iff_right_of_imp hoccupied) rfl rfl
  · rw [hafter.input o, hafter.grants]
    refine if_congr (and_congr_right fun ho => and_iff_right_of_imp fun hto => hoccupied ?_) rfl rfl
    rw [hto]
    omega
  · rw [hafter.aptrs]
    exact if_congr (and_congr_right fun _ => and_iff_right_of_imp hoccupied) rfl rfl

end Phases

/-! ## What a round keeps -/

/-- What is true after every round, as long as no input has given up its partner for another. -/
structure Regular (sel : SelAlloc) (t : Requests) (s : SelState) : Prop where
  matching : PartialMatching t s.matching
  grants : ∀ o, 0 ≤ s.grants o → (t (s.grants o) o).isSome = true ∧ sel.outmask o = 0 ∧
    0 ≤ s.matching.outputAssigned (s.grants o)
  kept : ∀ o, 0 ≤ o → 0 ≤ s.matching.inputAssigned o → s.grants o = s.matching.inputAssigned o

/-- A grant that an input has not taken is not as good as its partner, or the output will not
leave it to the input. -/
structure Settled (sel : SelAlloc) (t : Requests) (s : SelState) : Prop extends
    Regular sel t s where
  partner : ∀ i o c, s.matching.outputAssigned i = o → 0 ≤ o → s.grants c = i → c ≠ o →
    (∃ i', (t i' c).isSome = true ∧ s.matching.outputAssigned i' = -1) ∨
      ∀ q q', t i o = some q → t i c = some q' →
        q'.inPri ≤ q.inPri ∧ (q'.inPri = q.inPri → Before (s.aptrs i) o c)

section Rounds

variable {sel : SelAlloc} {t : Requests} {iter : ℕ} {s s' : SelState} {choice : ℤ → ℤ}
  {inputs outputs : ℕ}

namespace Round

theorem accepts (h : sel.Round t iter s choice s') {i : ℤ} (hne : choice i ≠ -1) :
    (t i (choice i)).isSome = true ∧ s'.grants (choice i) = i := by
  rcases h.chosen i with ⟨hnone, -⟩ | hchosen
  · exact absurd hnone hne
  · exact ⟨hchosen.isSome, hchosen.1⟩

theorem regular (h : sel.Round t iter s choice s') (ht : t.Within inputs outputs)
    (hs : sel.Regular t s)
    (hstay : ∀ i, 0 ≤ s.matching.outputAssigned i → choice i = s.matching.outputAssigned i) :
    sel.Regular t s' ∧ s'.matching.outputAssigned = choice := by
  have hchoice : ∀ i, choice i = -1 ∨ 0 ≤ choice i := by
    intro i
    by_cases hne : choice i = -1
    · exact .inl hne
    · exact .inr (mem_below.mp (ht _ _ (h.accepts hne).1).2).1
  have hout : s'.matching.outputAssigned = choice := by
    funext i
    rw [h.output]
    split
    · rfl
    · next hnone =>
        rw [not_not] at hnone
        rw [hnone]
        refine hs.matching.output_eq fun hmatched => ?_
        have := hstay i hmatched
        omega
  have hgrants : ∀ o, 0 ≤ s'.grants o → (t (s'.grants o) o).isSome = true ∧ sel.outmask o = 0 := by
    intro o ho
    rcases h.grants o with ⟨hmask, -, hchosen⟩ | ⟨hsame, -⟩
    · exact ⟨hchosen.isSome, hmask⟩
    · rw [hsame] at ho ⊢
      obtain ⟨hreq, hmask, -⟩ := hs.grants o ho
      exact ⟨hreq, hmask⟩
  -- an output keeps its partner
  have hkeeps : ∀ o, 0 ≤ o → 0 ≤ s.matching.inputAssigned o →
      choice (s.matching.inputAssigned o) = o ∧ s'.grants o = s.matching.inputAssigned o := by
    intro o ho hmatched
    have hpartner := hs.matching.output_of_matched ho hmatched
    have hsame := hstay _ (hpartner.symm ▸ ho)
    rw [hpartner] at hsame
    have hgrant := (h.accepts (i := s.matching.inputAssigned o) (by omega)).2
    rw [hsame] at hgrant
    exact ⟨hsame, hgrant⟩
  refine ⟨⟨⟨⟨fun i o ho hio => ?_, fun i o hi ho => ?_⟩, fun i => ?_, fun o => ?_⟩,
    fun o ho => ?_, fun o ho hmatched => ?_⟩, hout⟩
  · rw [hout] at hio
    rw [← hio]
    exact (h.accepts (by omega)).1
  · rw [hout, h.input]
    constructor
    · intro hio
      have hgrant := (h.accepts (i := i) (by omega)).2
      rw [hio] at hgrant
      rw [hgrant, if_pos ⟨ho, hio⟩]
    · intro hoi
      split at hoi
      · next hto => rw [← hoi, hto.2]
      · rw [← hoi]
        exact (hkeeps o ho (hoi.symm ▸ hi)).1
  · rw [hout]
    rcases hchoice i with hnone | hsome <;> omega
  · rw [h.input]
    split
    · next hto =>
        have hreq := (h.accepts (i := s'.grants o) (by omega)).1
        have := (mem_below.mp (ht _ _ hreq).1).1
        omega
    · exact hs.matching.input o
  · obtain ⟨hreq, hmask⟩ := hgrants o ho
    refine ⟨hreq, hmask, ?_⟩
    rw [hout]
    refine (hchoice _).resolve_left fun hnone => ?_
    rcases h.chosen (s'.grants o) with ⟨-, hall⟩ | hchosen
    · exact hall o hreq rfl
    · have := (mem_below.mp (ht _ _ hchosen.isSome).2).1
      omega
  · rw [h.input] at hmatched ⊢
    split
    · rfl
    · next hto =>
        rw [if_neg hto] at hmatched
        exact (hkeeps o ho hmatched).2

theorem settled (h : sel.Round t iter s choice s') (hiter : iter ≠ 0) (ht : t.Within inputs outputs)
    (hs : sel.Settled t s) : sel.Settled t s' := by
  have haptrs : s'.aptrs = s.aptrs := by
    funext i
    rw [h.aptrs, if_neg fun hfirst => hiter hfirst.1]
  -- a partner is still granted, and better than what else is
  have hstay : ∀ i, 0 ≤ s.matching.outputAssigned i → choice i = s.matching.outputAssigned i := by
    intro i hmatched
    obtain ⟨o, ho⟩ : ∃ o, s.matching.outputAssigned i = o := ⟨_, rfl⟩
    rw [ho] at hmatched ⊢
    have hreq := hs.matching.requested i o hmatched ho
    have hi := (mem_below.mp (ht i o hreq).1).1
    have hpartner := (hs.matching.inverse i o hi hmatched).mp ho
    have hkept : ∀ c, s'.grants c = i → s.grants c = i ∧ (sel.outmask c = 0 →
        s.matching.inputAssigned c = -1 → ∀ i', (t i' c).isSome = true →
          s.matching.outputAssigned i' ≠ -1) := by
      intro c hc
      rcases h.grants c with ⟨-, -, hchosen⟩ | ⟨hsame, hall⟩
      · have hfree := hchosen.1
        rw [hc, ho] at hfree
        omega
      · exact ⟨hsame ▸ hc, hall⟩
    have hgrant : s'.grants o = i := by
      rcases h.grants o with ⟨-, hfree, -⟩ | ⟨hsame, -⟩
      · omega
      · rw [hsame, hs.kept o hmatched (hpartner.symm ▸ hi), hpartner]
    obtain ⟨q, hq⟩ := Option.isSome_iff_exists.mp hreq
    have hbest : Chosen (t i) (s'.grants · = i) Request.inPri (s.aptrs i) o := by
      refine ⟨hgrant, q, hq, fun c q' hq' hc => ?_⟩
      by_cases hco : c = o
      · rw [hco, hq] at hq'
        rw [Option.some.inj hq', hco]
        exact ⟨le_rfl, fun _ => .inr ⟨Iff.rfl, le_rfl⟩⟩
      · obtain ⟨hc', hall⟩ := hkept c hc
        rcases hs.partner i o c ho hmatched hc' hco with ⟨i', hreq', hfree⟩ | hbehind
        · have hreq'' : (t i c).isSome = true := Option.isSome_iff_exists.mpr ⟨q', hq'⟩
          have hc₀ := (mem_below.mp (ht i c hreq'').2).1
          refine absurd hfree (hall (hs.grants c (hc'.symm ▸ hi)).2.1 ?_ i' hreq')
          refine hs.matching.input_eq fun hmatched' => hco ?_
          have hcpartner := hs.kept c hc₀ hmatched'
          rw [hc'] at hcpartner
          rw [← (hs.matching.inverse i c hi hc₀).mpr hcpartner.symm, ho]
        · exact hbehind q q' hq hq'
    rcases h.chosen i with ⟨-, hnone⟩ | hchosen
    · exact absurd hgrant (hnone o hreq)
    · exact hchosen.unique hbest
  obtain ⟨hregular, hout⟩ := h.regular ht hs.toRegular hstay
  refine ⟨hregular, fun i o c hio ho hc _ => .inr fun q q' hq hq' => ?_⟩
  rw [hout] at hio
  rcases h.chosen i with ⟨hnone, -⟩ | ⟨-, q₀, hq₀, hbest⟩
  · omega
  · rw [hio, hq] at hq₀
    rw [haptrs, Option.some.inj hq₀, ← hio]
    exact hbest c q' hq' hc

theorem holds (h : sel.Round t iter s choice s') {i o : ℤ} (hi : 0 ≤ i)
    (ho : s.matching.inputAssigned o = i ∧ s.grants o = i) :
    s'.matching.inputAssigned o = i ∧ s'.grants o = i := by
  have hgrant : s'.grants o = i := by
    rcases h.grants o with ⟨-, hfree, -⟩ | ⟨hsame, -⟩
    · omega
    · exact hsame.trans ho.2
  refine ⟨?_, hgrant⟩
  rw [h.input]
  split
  · exact hgrant
  · exact ho.1

end Round

end Rounds

/-! ## The first round, and the second -/

section Condition

/-- Output `o` is open, and prefers `i` to all others that request it. -/
def FirstChoice (sel : SelAlloc) (t : Requests) (i o : ℤ) : Prop :=
  sel.outmask o = 0 ∧ Chosen (fun i => t i o) (fun _ => True) Request.outPri (sel.gptrs o) i

/-- Of the outputs that prefer it, `i` prefers `o`. -/
def Favourite (sel : SelAlloc) (t : Requests) (i o : ℤ) : Prop :=
  Chosen (t i) (sel.FirstChoice t i) Request.inPri (sel.aptrs i) o

/-- Every input that requests `o` is preferred by some output. -/
def Exhausted (sel : SelAlloc) (t : Requests) (o : ℤ) : Prop :=
  ∀ i, (t i o).isSome = true → ∃ o', sel.FirstChoice t i o'

/-- Besides its favourite, another output prefers an input, which has the same priority for the
input, and which no one else is left for. -/
def Clash (sel : SelAlloc) (t : Requests) : Prop :=
  ∃ i o o', sel.Favourite t i o ∧ sel.FirstChoice t i o' ∧ o' ≠ o ∧
    (t i o').map Request.inPri = (t i o).map Request.inPri ∧ sel.Exhausted t o'

/-- The state in which the rounds start. -/
def start (sel : SelAlloc) : SelState :=
  { matching := {}, gptrs := sel.gptrs, aptrs := sel.aptrs }

variable {sel : SelAlloc} {t : Requests} {s : SelState} {choice : ℤ → ℤ} {inputs outputs : ℕ}

theorem start_regular (sel : SelAlloc) (t : Requests) : sel.Regular t sel.start where
  matching := .empty t
  grants o ho := absurd ho (by show ¬ (0 : ℤ) ≤ -1; omega)
  kept o _ hmatched := absurd hmatched (by show ¬ (0 : ℤ) ≤ -1; omega)

namespace Round

theorem grants_first (h : sel.Round t 0 sel.start choice s) {i o : ℤ} (hi : 0 ≤ i) :
    s.grants o = i ↔ sel.FirstChoice t i o := by
  have hcongr : ∀ {i}, Chosen (fun i => t i o) (sel.start.matching.outputAssigned · = -1)
      Request.outPri (sel.start.gptrs o) i ↔
      Chosen (fun i => t i o) (fun _ => True) Request.outPri (sel.gptrs o) i :=
    Chosen.congr fun _ _ => iff_of_true rfl trivial
  rcases h.grants o with ⟨hmask, -, hchosen⟩ | ⟨hsame, hall⟩
  · constructor
    · rintro rfl
      exact ⟨hmask, hcongr.mp hchosen⟩
    · rintro ⟨-, hfirst⟩
      exact (hcongr.mp hchosen).unique hfirst
  · refine iff_of_false (fun heq => ?_) fun hfirst => ?_
    · rw [hsame] at heq
      change (-1 : ℤ) = i at heq
      omega
    · exact hall hfirst.1 rfl i hfirst.2.isSome rfl

theorem choice_first (h : sel.Round t 0 sel.start choice s) (ht : t.Within inputs outputs)
    {i o : ℤ} (ho : 0 ≤ o) : choice i = o ↔ sel.Favourite t i o := by
  have hcongr : ∀ {o}, Chosen (t i) (s.grants · = i) Request.inPri (sel.start.aptrs i) o ↔
      sel.Favourite t i o :=
    Chosen.congr fun o hreq => h.grants_first (mem_below.mp (ht i o hreq).1).1
  rcases h.chosen i with ⟨hnone, hall⟩ | hchosen
  · refine iff_of_false (by omega) fun hfavourite => ?_
    have hchosen := hcongr.mpr hfavourite
    exact hall o hchosen.isSome hchosen.1
  · constructor
    · rintro rfl
      exact hcongr.mp hchosen
    · intro hfavourite
      exact (hcongr.mp hchosen).unique hfavourite

theorem regular_first (h : sel.Round t 0 sel.start choice s) (ht : t.Within inputs outputs) :
    sel.Regular t s ∧ s.matching.outputAssigned = choice :=
  h.regular ht (sel.start_regular t) fun i hmatched =>
    absurd hmatched (by show ¬ (0 : ℤ) ≤ -1; omega)

theorem matched_first (h : sel.Round t 0 sel.start choice s) (ht : t.Within inputs outputs)
    {i o : ℤ} (hfirst : sel.FirstChoice t i o) : s.matching.outputAssigned i ≠ -1 := by
  have hreq : (t i o).isSome = true := hfirst.2.isSome
  rw [(h.regular_first ht).2]
  rcases h.chosen i with ⟨-, hnone⟩ | hchosen
  · exact absurd ((h.grants_first (mem_below.mp (ht i o hreq).1).1).mpr hfirst) (hnone o hreq)
  · have := (mem_below.mp (ht _ _ hchosen.isSome).2).1
    omega

theorem settled_first (h : sel.Round t 0 sel.start choice s) (ht : t.Within inputs outputs)
    (hclash : ¬ sel.Clash t) : sel.Settled t s := by
  obtain ⟨hregular, hout⟩ := h.regular_first ht
  refine ⟨hregular, fun i o c hio ho hc hne => ?_⟩
  by_cases hfree : ∃ i', (t i' c).isSome = true ∧ s.matching.outputAssigned i' = -1
  · exact .inl hfree
  · refine .inr fun q q' hq hq' => ?_
    rw [hout] at hio
    have hi : 0 ≤ i := (mem_below.mp (ht i o (Option.isSome_iff_exists.mpr ⟨q, hq⟩)).1).1
    have hfavourite := (h.choice_first ht ho).mp hio
    have hfirst := (h.grants_first hi).mp hc
    obtain ⟨-, q₀, hq₀, hbest⟩ := id hfavourite
    rw [hq] at hq₀
    obtain rfl := Option.some.inj hq₀
    refine ⟨(hbest c q' hq' hfirst).1, fun htie => absurd ?_ hclash⟩
    -- whoever requests `c` has a partner, which it is the favourite of
    refine ⟨i, o, c, hfavourite, hfirst, hne, by rw [hq, hq']; exact congrArg some htie, ?_⟩
    intro i' hreq
    have hmatched : choice i' ≠ -1 := fun hnone => hfree ⟨i', hreq, by rw [hout]; exact hnone⟩
    have hnonneg := (mem_below.mp (ht _ _ (h.accepts hmatched).1).2).1
    exact ⟨choice i', ((h.choice_first ht hnonneg).mp rfl).1⟩

theorem broken {iter : ℕ} {choice' : ℤ → ℤ} {s' : SelState}
    (h : sel.Round t 0 sel.start choice s) (h' : sel.Round t iter s choice' s')
    (ht : t.Within sel.inputs sel.outputs) (hclash : sel.Clash t) :
    ∃ i o o', 0 ≤ i ∧ 0 ≤ o ∧ 0 ≤ o' ∧ o' ≠ o ∧
      (s'.matching.inputAssigned o = i ∧ s'.grants o = i) ∧
      s'.matching.inputAssigned o' = i ∧ s'.grants o' = i := by
  obtain ⟨i, o, d, hfavourite, hfirst, hne, htie, hexhausted⟩ := hclash
  have hreq : (t i o).isSome = true := Chosen.isSome hfavourite
  have hreq' : (t i d).isSome = true := hfirst.2.isSome
  obtain ⟨hi, ho⟩ := ht i o hreq
  have hd := mem_below.mp (ht i d hreq').2
  rw [mem_below] at hi ho
  obtain ⟨hregular, hout⟩ := h.regular_first ht
  have hchoice := (h.choice_first ht ho.1).mpr hfavourite
  have hpartner := (hregular.matching.inverse i o hi.1 ho.1).mp (by rw [hout]; exact hchoice)
  have hheld := h'.holds hi.1
    ⟨hpartner, (hregular.kept o ho.1 (hpartner.symm ▸ hi.1)).trans hpartner⟩
  -- the rival finds no free input, and its grant stays
  have hgrant : s'.grants d = i := by
    rcases h'.grants d with ⟨-, -, hchosen⟩ | ⟨hsame, -⟩
    · obtain ⟨o', hfirst'⟩ := hexhausted _ hchosen.isSome
      exact absurd hchosen.1 (h.matched_first ht hfirst')
    · exact hsame.trans ((h.grants_first hi.1).mpr hfirst)
  rcases h'.chosen i with ⟨-, hnone⟩ | hchosen
  · exact absurd hgrant (hnone d hreq')
  · have he := (mem_below.mp (ht _ _ hchosen.isSome).2).1
    refine ⟨i, o, choice' i, hi.1, ho.1, he, fun heq => hne ?_, hheld, ?_, hchosen.1⟩
    · -- the pointer is behind the partner, so that the rival comes first
      obtain ⟨q', hq'⟩ := Option.isSome_iff_exists.mp hreq'
      obtain ⟨-, q, hq, hbest⟩ := hchosen
      rw [heq] at hq hbest
      rw [hq, hq'] at htie
      have hbefore := (hbest d q' hq' hgrant).2 (Option.some.inj htie)
      rw [h.aptrs, hchoice, if_pos ⟨rfl, by omega⟩] at hbefore
      exact (before_succ_emod hd ho).antisymm hbefore
    · rw [h'.input, hchosen.1, if_pos ⟨he, rfl⟩]

end Round

theorem allocate_iff (h : sel.Represents t) (hmatching : sel.matching = {}) :
    (IsMatching t sel.allocate.matching ∧
        ∀ i o, 0 ≤ o → sel.allocate.matching.outputAssigned i = o → sel.outmask o = 0) ↔
      (2 ≤ sel.iters → ¬ sel.Clash t) := by
  have hstart : sel.allocate.matching =
      ((List.range sel.iters).foldl sel.iterate sel.start).matching := by
    unfold allocate start
    rw [hmatching]
  rw [hstart]
  constructor
  · intro hgood hiters hclash
    -- from the second round on, two outputs have the same partner
    have hbroken := foldl_range_inv (n := sel.iters) (f := sel.iterate) (s := sel.start)
      (I := fun k s => (k = 0 → s = sel.start) ∧
        (k = 1 → ∃ choice, sel.Round t 0 sel.start choice s) ∧
        (2 ≤ k → ∃ i o o', 0 ≤ i ∧ 0 ≤ o ∧ 0 ≤ o' ∧ o' ≠ o ∧
          (s.matching.inputAssigned o = i ∧ s.grants o = i) ∧
          s.matching.inputAssigned o' = i ∧ s.grants o' = i))
      ⟨fun _ => rfl, nofun, nofun⟩ fun k s _ ⟨hzero, hone, hmore⟩ => by
        obtain ⟨choice, hround⟩ := iterate_round h k s
        refine ⟨nofun, fun hk => ?_, fun hk => ?_⟩
        · obtain rfl : k = 0 := by omega
          exact ⟨choice, hzero rfl ▸ hround⟩
        · rcases Nat.lt_or_ge k 2 with hlt | hge
          · obtain ⟨choice₀, hfirst⟩ := hone (by omega)
            exact hfirst.broken hround h.within hclash
          · obtain ⟨i, o, o', hi, ho, ho', hne, hheld, hheld'⟩ := hmore hge
            exact ⟨i, o, o', hi, ho, ho', hne, hround.holds hi hheld, hround.holds hi hheld'⟩
    obtain ⟨i, o, o', hi, ho, ho', hne, hheld, hheld'⟩ := hbroken.2.2 hiters
    have hio := (hgood.1.inverse i o hi ho).mpr hheld.1
    have hio' := (hgood.1.inverse i o' hi ho').mpr hheld'.1
    exact hne (hio'.symm.trans hio)
  · intro hcond
    have hregular := foldl_range_inv (n := sel.iters) (f := sel.iterate) (s := sel.start)
      (I := fun k s => (k = 0 → s = sel.start) ∧ sel.Regular t s ∧
        (1 ≤ k → ¬ sel.Clash t → sel.Settled t s))
      ⟨fun _ => rfl, sel.start_regular t, nofun⟩ fun k s hk ⟨hzero, _, hmore⟩ => by
        obtain ⟨choice, hround⟩ := iterate_round h k s
        refine ⟨nofun, ?_⟩
        rcases Nat.eq_zero_or_pos k with rfl | hpos
        · rw [hzero rfl] at hround ⊢
          exact ⟨(hround.regular_first h.within).1,
            fun _ hclash => hround.settled_first h.within hclash⟩
        · have hsettled := hround.settled (by omega) h.within (hmore hpos (hcond (by omega)))
          exact ⟨hsettled.toRegular, fun _ _ => hsettled⟩
    obtain ⟨-, hregular, -⟩ := hregular
    refine ⟨hregular.matching.toIsMatching, fun i o ho hio => ?_⟩
    have hi := (mem_below.mp (h.within i o (hregular.matching.requested i o ho hio)).1).1
    have hpartner := (hregular.matching.inverse i o hi ho).mp hio
    exact (hregular.grants o
      (by rw [hregular.kept o ho (hpartner.symm ▸ hi), hpartner]; exact hi)).2.1

end Condition

end SelAlloc

/-- After `Clear` and any calls of `AddRequest`, `Allocate` answers with a matching of requests for
open outputs, unless there is a clash and a second round for it. -/
theorem selAlloc_matching_iff {sel : SelAlloc} (hclean : sel.Clean)
    {calls : List (ℤ × ℤ × Request)} {b : SparseAllocator}
    (hcalls : sel.toSparseAllocator.clear.addRequests calls = .ok b) :
    let allocated := SelAlloc.allocate { sel with toSparseAllocator := b }
    (IsMatching b.readRequest allocated.matching ∧
        ∀ i o, 0 ≤ o → allocated.matching.outputAssigned i = o → sel.outmask o = 0) ↔
      (2 ≤ sel.iters → ¬ sel.Clash b.readRequest) := by
  intro allocated
  obtain ⟨hrepresents, hmatching⟩ := SparseAllocator.Represents.clear hclean
  obtain ⟨hb, hsame⟩ := hrepresents.addRequests hcalls
  exact @SelAlloc.allocate_iff { sel with toSparseAllocator := b } b.readRequest hb
    (hsame.trans hmatching)

theorem selAlloc_matching_two_rounds :
    let sel : SelAlloc := { inputs := 2, outputs := 2, iters := 2 }
    let calls : List (ℤ × ℤ × Request) := [(0, 0, ⟨1, 1, 3⟩), (0, 1, ⟨1, 0, 0⟩), (1, 0, ⟨1, 0, 4⟩)]
    ∃ b, sel.toSparseAllocator.clear.addRequests calls = .ok b ∧
      IsMatching b.readRequest
        (SelAlloc.allocate { sel with toSparseAllocator := b }).matching := by
  intro sel calls
  obtain ⟨b, hb, hpris⟩ := exists_of_returns (x := sel.toSparseAllocator.clear.addRequests calls)
    (p := fun b => decide
      (∀ i ∈ indices b.inputs, ∀ o ∈ indices b.outputs, ∀ o' ∈ indices b.outputs,
      o' ≠ o → (b.readRequest i o').isSome = true →
      (b.readRequest i o').map Request.inPri ≠ (b.readRequest i o).map Request.inPri))
    (by decide +kernel)
  have hclean : sel.Clean := fun _ => rfl
  refine ⟨b, hb, ((@selAlloc_matching_iff sel hclean calls b hb).mpr fun _ => ?_).1⟩
  rintro ⟨i, o, o', ⟨-, q, hq, -⟩, ⟨-, -, q', hq', -⟩, hne, heq, -⟩
  have hwithin := ((SparseAllocator.Represents.clear hclean).1.addRequests hb).1.within
  obtain ⟨hi, ho⟩ := hwithin i o (Option.isSome_of_eq_some hq)
  have ho' := (hwithin i o' (Option.isSome_of_eq_some hq')).2
  exact of_decide_eq_true hpris i (mem_indices.mpr hi) o (mem_indices.mpr ho) o'
    (mem_indices.mpr ho') hne (Option.isSome_of_eq_some hq') heq

/-- One input requests two outputs.  In the first round it takes the first of them, in the second
the other, whose grant is left from the first: both outputs then have the same partner. -/
theorem selAlloc_two_partners :
    let sel : SelAlloc := { inputs := 1, outputs := 2, iters := 2 }
    let calls : List (ℤ × ℤ × Request) := [(0, 0, ⟨1, 0, 0⟩), (0, 1, ⟨1, 0, 0⟩)]
    ∃ b, sel.toSparseAllocator.clear.addRequests calls = .ok b ∧
      let m := (SelAlloc.allocate { sel with toSparseAllocator := b }).matching
      m.inputAssigned 0 = 0 ∧ m.inputAssigned 1 = 0 ∧
        ¬ MutuallyInverse m.outputAssigned m.inputAssigned := by
  intro sel calls
  obtain ⟨b, hb, hpartners⟩ := exists_of_returns
    (x := sel.toSparseAllocator.clear.addRequests calls)
    (p := fun b =>
      let m := (SelAlloc.allocate { sel with toSparseAllocator := b }).matching
      m.inputAssigned 0 = 0 ∧ m.inputAssigned 1 = 0) (by decide +kernel)
  obtain ⟨hzero, hone⟩ := of_decide_eq_true hpartners
  refine ⟨b, hb, hzero, hone, fun hinverse => ?_⟩
  have h₀ := (hinverse 0 0 le_rfl le_rfl).mpr hzero
  have h₁ := (hinverse 0 1 le_rfl (by decide)).mpr hone
  exact absurd (h₀.symm.trans h₁) (by decide)

end BookSim
