/-
# RequestTable — two ways to keep requests, and what they answer

A dense and a sparse allocator of the same size get the same calls.  Both keep the requests that
stand, and are asked about them:

    ReadRequest                          the request of an input for an output, or its label
    InputHasRequests, OutputHasRequests  whether there is any
    NumInputRequests, NumOutputRequests  how many

The dense allocator counts.  The sparse one looks for the port in the set of those that have
requests, and answers one however many there are.  It also checks the label of what is removed,
which the dense one does not look at, and returns the output with a request, where the dense one has
0. -/
import BookSim.Allocators.Allocator

namespace BookSim

/-! ## Calls -/

inductive TableCall
  | add (input output : ℤ) (q : Request)
  | remove (input output label : ℤ)
  | clear

namespace TableCall

/-- What the call does to the requests that stand. -/
def apply (t : Requests) : TableCall → Requests
  | .add input output q => update₂ t input output (some q)
  | .remove input output _ => update₂ t input output none
  | .clear => .clear

/-- The pair is in range; a request is added where there is none, with a label, and removed only if
present. -/
def Allowed (inputs outputs : ℕ) (t : Requests) : TableCall → Prop
  | .add input output q => input ∈ below inputs ∧ output ∈ below outputs ∧ 0 ≤ q.label ∧
      t input output = none
  | .remove input output _ => input ∈ below inputs ∧ output ∈ below outputs ∧
      (t input output).isSome = true
  | .clear => True

/-- What is removed is named by its label. -/
def Labelled (t : Requests) : TableCall → Prop
  | .remove input output label => (t input output).map Request.label = some label
  | _ => True

/-- … along a sequence of calls. -/
def AllAlong (P : Requests → TableCall → Prop) : Requests → List TableCall → Prop
  | _, [] => True
  | t, c :: calls => P t c ∧ AllAlong P (c.apply t) calls

end TableCall

open TableCall

/-- The requests that stand after some calls. -/
def standing (t : Requests) (calls : List TableCall) : Requests := calls.foldl TableCall.apply t

def DenseAllocator.call (a : DenseAllocator) : TableCall → Except Fault DenseAllocator
  | .add input output q => a.addRequest input output q
  | .remove input output _ => a.removeRequest input output
  | .clear => return a.clear

def DenseAllocator.run (a : DenseAllocator) (calls : List TableCall) :
    Except Fault DenseAllocator :=
  calls.foldlM DenseAllocator.call a

def SparseAllocator.tableCall (a : SparseAllocator) : TableCall → Except Fault SparseAllocator
  | .add input output q => a.addRequest input output q
  | .remove input output label => a.removeRequest input output label
  | .clear => return a.clear

def SparseAllocator.run (a : SparseAllocator) (calls : List TableCall) :
    Except Fault SparseAllocator :=
  calls.foldlM SparseAllocator.tableCall a

/-! ## Both keep the same requests -/

/-- Both are of the same size, and keep the requests `t`. -/
structure SameTable (inputs outputs : ℕ) (t : Requests) (d : DenseAllocator) (s : SparseAllocator) :
    Prop where
  dense : d.inputs = inputs ∧ d.outputs = outputs
  sparse : s.inputs = inputs ∧ s.outputs = outputs
  request : d.request = t
  represents : s.Represents t
  label : ∀ i o q, t i o = some q → 0 ≤ q.label

namespace SameTable

variable {inputs outputs : ℕ} {t : Requests} {d : DenseAllocator} {s s' : SparseAllocator}
  {c : TableCall} {input output label : ℤ} {q : Request}

theorem new (inputs outputs : ℕ) : SameTable inputs outputs .clear
    { inputs := inputs, outputs := outputs } { inputs := inputs, outputs := outputs } where
  dense := ⟨rfl, rfl⟩
  sparse := ⟨rfl, rfl⟩
  request := rfl
  represents := .new inputs outputs
  label _ _ _ h := by cases h

theorem ranges (h : SameTable inputs outputs t d s) (hin : input ∈ below inputs)
    (hout : output ∈ below outputs) :
    ((0 ≤ input ∧ input < d.inputs) ∧ 0 ≤ output ∧ output < d.outputs) ∧
      (0 ≤ input ∧ input < s.inputs) ∧ 0 ≤ output ∧ output < s.outputs := by
  rw [h.dense.1, h.dense.2, h.sparse.1, h.sparse.2]
  rw [mem_below] at hin hout
  exact ⟨⟨hin, hout⟩, hin, hout⟩

theorem add (h : SameTable inputs outputs t d s) (hin : input ∈ below inputs)
    (hout : output ∈ below outputs) (hlabel : 0 ≤ q.label) (hnone : t input output = none) :
    ∃ d' s', d.addRequest input output q = .ok d' ∧ s.addRequest input output q = .ok s' ∧
      SameTable inputs outputs (update₂ t input output (some q)) d' s' := by
  obtain ⟨⟨hd₁, hd₂⟩, hs₁, hs₂⟩ := h.ranges hin hout
  have hfree : (d.request input output).isNone = true := by
    rw [h.request, hnone]
    rfl
  have hins : ((s.ins.req input).get? output).isNone = true := by
    rw [h.represents.ins.get, hnone]
    rfl
  have houts : ((s.outs.req output).get? input).isNone = true := by
    rw [h.represents.outs.get, hnone]
    rfl
  have hsparse : s.addRequest input output q = .ok { s with
      dirty := true
      ins := s.ins.insert input output q
      outs := s.outs.insert output input q } := by
    unfold SparseAllocator.addRequest Allocator.addRequest
    rw [require_bind hs₁, require_bind hs₂, require_bind hlabel]
    exact (require_bind hins _).trans (require_bind houts _)
  have hdense : d.addRequest input output q = .ok { d with
      dirty := true
      request := update₂ d.request input output (some q) } := by
    unfold DenseAllocator.addRequest Allocator.addRequest
    rw [require_bind hd₁, require_bind hd₂, require_bind hlabel]
    exact bind_ok.mpr ⟨_, rfl, bind_ok.mpr ⟨_, require_bind hfree _, rfl⟩⟩
  refine ⟨_, _, hdense, hsparse, h.dense, h.sparse, ?_, (h.represents.addRequest hsparse).1, ?_⟩
  · show update₂ d.request input output (some q) = _
    rw [h.request]
  · intro i o q' hq'
    rw [update₂_apply] at hq'
    split at hq'
    · exact Option.some.inj hq' ▸ hlabel
    · exact h.label i o q' hq'

theorem remove (h : SameTable inputs outputs t d s) (hin : input ∈ below inputs)
    (hout : output ∈ below outputs) (hsome : (t input output).isSome = true) :
    ∃ d', d.removeRequest input output = .ok d' ∧
      ((∃ s', s.removeRequest input output label = .ok s') ↔
        (t input output).map Request.label = some label) ∧
      ∀ s', s.removeRequest input output label = .ok s' →
        SameTable inputs outputs (update₂ t input output none) d' s' := by
  obtain ⟨⟨hd₁, hd₂⟩, hs₁, hs₂⟩ := h.ranges hin hout
  have hins := h.represents.ins.get input output
  have houts := h.represents.outs.get output input
  refine ⟨{ d with request := update₂ d.request input output none },
    (require_bind hd₁ _).trans (require_bind hd₂ _), ?_, fun s' hs' => ?_⟩
  · unfold SparseAllocator.removeRequest
    rw [require_bind hs₁, require_bind hs₂, hins, houts, require_bind hsome]
    constructor
    · rintro ⟨s', hs'⟩
      exact (require_ok.mp hs').1
    · intro hlabel
      exact ⟨_, (require_bind hlabel _).trans
        ((require_bind hsome _).trans (require_bind hlabel _))⟩
  · have hsize := congrArg SparseAllocator.toAllocator (SparseAllocator.removeRequest_eq_ok hs')
    refine ⟨h.dense, ?_, ?_, (h.represents.removeRequest hs').1, fun i o q hq => ?_⟩
    · rw [hsize]
      exact h.sparse
    · show update₂ d.request input output none = _
      rw [h.request]
    · rw [update₂_apply] at hq
      split at hq
      · cases hq
      · exact h.label i o q hq

theorem clear (h : SameTable inputs outputs t d s) :
    SameTable inputs outputs .clear d.clear s.clear where
  dense := by
    obtain ⟨hin, hout⟩ := d.toAllocator.clear_size
    exact ⟨hin.trans h.dense.1, hout.trans h.dense.2⟩
  sparse := by
    obtain ⟨hin, hout⟩ := s.toAllocator.clear_size
    exact ⟨hin.trans h.sparse.1, hout.trans h.sparse.2⟩
  request := rfl
  represents := (SparseAllocator.Represents.clear fun hdirty => (h.represents.clean hdirty).1).1
  label _ _ _ hq := by cases hq

/-- The dense allocator takes every call, the sparse one those that name the label. -/
theorem call (h : SameTable inputs outputs t d s) (hc : c.Allowed inputs outputs t) :
    ∃ d', d.call c = .ok d' ∧ ((∃ s', s.tableCall c = .ok s') ↔ c.Labelled t) ∧
      ∀ s', s.tableCall c = .ok s' → SameTable inputs outputs (c.apply t) d' s' := by
  cases c with
  | add input output q =>
    obtain ⟨hin, hout, hlabel, hnone⟩ := hc
    obtain ⟨d', s', hd', hs', hsame⟩ := h.add hin hout hlabel hnone
    refine ⟨d', hd', iff_of_true ⟨s', hs'⟩ trivial, fun s'' hs'' => ?_⟩
    obtain rfl := Except.ok.inj (hs'.symm.trans hs'')
    exact hsame
  | remove input output label =>
    obtain ⟨hin, hout, hsome⟩ := hc
    exact h.remove hin hout hsome
  | clear =>
    refine ⟨d.clear, rfl, iff_of_true ⟨s.clear, rfl⟩ trivial, fun s' hs' => ?_⟩
    obtain rfl := return_ok.mp hs'
    exact h.clear

variable {calls : List TableCall}

theorem run (h : SameTable inputs outputs t d s)
    (hcalls : AllAlong (Allowed inputs outputs) t calls) (hlabels : AllAlong Labelled t calls) :
    ∃ d' s', d.run calls = .ok d' ∧ s.run calls = .ok s' ∧
      SameTable inputs outputs (standing t calls) d' s' := by
  induction calls generalizing t d s with
  | nil => exact ⟨d, s, rfl, rfl, h⟩
  | cons c calls ih =>
    obtain ⟨d₁, hd₁, hlabelled, hkept⟩ := h.call hcalls.1
    obtain ⟨s₁, hs₁⟩ := hlabelled.mpr hlabels.1
    obtain ⟨d', s', hd', hs', hsame⟩ := ih (hkept s₁ hs₁) hcalls.2 hlabels.2
    simp only [DenseAllocator.run, SparseAllocator.run, List.foldlM_cons]
    exact ⟨d', s', bind_ok.mpr ⟨d₁, hd₁, hd'⟩, bind_ok.mpr ⟨s₁, hs₁, hs'⟩, hsame⟩

theorem labelled_of_run (h : SameTable inputs outputs t d s)
    (hcalls : AllAlong (Allowed inputs outputs) t calls) (hrun : s.run calls = .ok s') :
    AllAlong Labelled t calls := by
  induction calls generalizing t d s with
  | nil => trivial
  | cons c calls ih =>
    obtain ⟨d₁, -, hlabelled, hkept⟩ := h.call hcalls.1
    rw [SparseAllocator.run, List.foldlM_cons] at hrun
    obtain ⟨s₁, hs₁, hrun⟩ := bind_ok.mp hrun
    exact ⟨hlabelled.mp ⟨s₁, hs₁⟩, ih (hkept s₁ hs₁) hcalls.2 hrun⟩

end SameTable

/-! ## Answers -/

/-- Every question is answered equally. -/
structure AnswersAgree (inputs outputs : ℕ) (d : DenseAllocator) (s : SparseAllocator) : Prop where
  readLabel : ∀ i ∈ below inputs, ∀ o ∈ below outputs, d.readLabel i o = s.readLabel i o
  findRequest : ∀ i ∈ below inputs, ∀ o ∈ below outputs, d.findRequest i o = s.findRequest i o
  outputHasRequests : ∀ o ∈ below outputs, d.outputHasRequests o = s.outputHasRequests o
  inputHasRequests : ∀ i ∈ below inputs, d.inputHasRequests i = s.inputHasRequests i
  numOutputRequests : ∀ o ∈ below outputs, d.numOutputRequests o = s.numOutputRequests o
  numInputRequests : ∀ i ∈ below inputs, d.numInputRequests i = s.numInputRequests i

/-- No input has two requests, and no output has. -/
def Requests.Single (t : Requests) : Prop :=
  (∀ i o o', (t i o).isSome = true → (t i o').isSome = true → o = o') ∧
    ∀ o i i', (t i o).isSome = true → (t i' o).isSome = true → i = i'

namespace SameTable

variable {inputs outputs : ℕ} {t : Requests} {d : DenseAllocator} {s : SparseAllocator} {i o : ℤ}

theorem read_nonneg (h : SameTable inputs outputs t d s) :
    0 ≤ t.read i o ↔ (t i o).isSome = true := by
  rw [Requests.read]
  cases hq : t i o with
  | none => simp
  | some q => simpa using h.label i o q hq

theorem readLabel_eq (h : SameTable inputs outputs t d s) (hi : i ∈ below inputs)
    (ho : o ∈ below outputs) : d.readLabel i o = s.readLabel i o := by
  obtain ⟨⟨hd₁, hd₂⟩, hs₁, hs₂⟩ := h.ranges hi ho
  unfold DenseAllocator.readLabel SparseAllocator.readLabel SparseAllocator.findRequest
  rw [require_bind hd₁, require_bind hd₂, require_bind hs₁, require_bind hs₂, h.request,
    h.represents.readRequest_eq, Requests.read]
  cases t i o <;> rfl

theorem findRequest_eq_iff (h : SameTable inputs outputs t d s) (hi : i ∈ below inputs)
    (ho : o ∈ below outputs) :
    d.findRequest i o = s.findRequest i o ↔ ((t i o).isSome = true → o = 0) := by
  obtain ⟨⟨hd₁, hd₂⟩, hs₁, hs₂⟩ := h.ranges hi ho
  unfold DenseAllocator.findRequest SparseAllocator.findRequest
  rw [require_bind hd₁, require_bind hd₂, require_bind hs₁, require_bind hs₂,
    h.represents.readRequest_eq, h.request]
  simp only [h.read_nonneg]
  cases t i o with
  | none => exact iff_of_true rfl nofun
  | some q =>
    refine ⟨fun heq _ => ?_, fun hzero => ?_⟩
    · exact (congrArg SRequest.port (Option.some.inj (Except.ok.inj heq))).symm
    · rw [hzero rfl]
      rfl

theorem mem_ins (h : SameTable inputs outputs t d s) :
    i ∈ s.ins.occ ↔ ∃ o ∈ indices outputs, (t i o).isSome = true := by
  have hwithin := h.represents.within
  rw [h.sparse.1, h.sparse.2] at hwithin
  rw [h.represents.ins.mem_occ]
  exact ⟨fun ⟨o, ho⟩ => ⟨o, mem_indices.mpr (hwithin i o ho).2, ho⟩, fun ⟨o, _, ho⟩ => ⟨o, ho⟩⟩

theorem mem_outs (h : SameTable inputs outputs t d s) :
    o ∈ s.outs.occ ↔ ∃ i ∈ indices inputs, (t i o).isSome = true := by
  have hwithin := h.represents.within
  rw [h.sparse.1, h.sparse.2] at hwithin
  rw [h.represents.outs.mem_occ]
  exact ⟨fun ⟨i, hi⟩ => ⟨i, mem_indices.mpr (hwithin i o hi).1, hi⟩, fun ⟨i, _, hi⟩ => ⟨i, hi⟩⟩

theorem inputHasRequests_eq (h : SameTable inputs outputs t d s) :
    d.inputHasRequests i = s.inputHasRequests i := by
  rw [Bool.eq_iff_iff, DenseAllocator.inputHasRequests, SparseAllocator.inputHasRequests,
    decide_eq_true_iff, h.mem_ins, List.any_eq_true, h.request, h.dense.2]
  simp only [decide_eq_true_eq, h.read_nonneg]

theorem outputHasRequests_eq (h : SameTable inputs outputs t d s) :
    d.outputHasRequests o = s.outputHasRequests o := by
  rw [Bool.eq_iff_iff, DenseAllocator.outputHasRequests, SparseAllocator.outputHasRequests,
    decide_eq_true_iff, h.mem_outs, List.any_eq_true, h.request, h.dense.1]
  simp only [decide_eq_true_eq, h.read_nonneg]

theorem numInputRequests_eq_iff (h : SameTable inputs outputs t d s) :
    d.numInputRequests i = s.numInputRequests i ↔
      ∀ o ∈ below outputs, ∀ o' ∈ below outputs, (t i o).isSome = true → (t i o').isSome = true →
        o = o' := by
  rw [DenseAllocator.numInputRequests, SparseAllocator.numInputRequests, foldl_count, Nat.zero_add,
    h.request, h.dense.2, countP_eq_ite_iff (nodup_indices outputs) (by
      simp only [h.mem_ins, h.read_nonneg])]
  simp only [mem_indices, h.read_nonneg]

theorem numOutputRequests_eq_iff (h : SameTable inputs outputs t d s) :
    d.numOutputRequests o = s.numOutputRequests o ↔
      ∀ i ∈ below inputs, ∀ i' ∈ below inputs, (t i o).isSome = true → (t i' o).isSome = true →
        i = i' := by
  rw [DenseAllocator.numOutputRequests, SparseAllocator.numOutputRequests, foldl_count,
    Nat.zero_add, h.request, h.dense.1, countP_eq_ite_iff (nodup_indices inputs) (by
      simp only [h.mem_outs, h.read_nonneg])]
  simp only [mem_indices, h.read_nonneg]

theorem answersAgree_iff (h : SameTable inputs outputs t d s) : AnswersAgree inputs outputs d s ↔
      t.Single ∧ ∀ i o, (t i o).isSome = true → o = 0 := by
  have hwithin := h.represents.within
  rw [h.sparse.1, h.sparse.2] at hwithin
  constructor
  · intro hagree
    refine ⟨⟨fun i o o' ho ho' => ?_, fun o i i' hi hi' => ?_⟩, fun i o ho => ?_⟩
    · exact h.numInputRequests_eq_iff.mp (hagree.numInputRequests i (hwithin i o ho).1)
        o (hwithin i o ho).2 o' (hwithin i o' ho').2 ho ho'
    · exact h.numOutputRequests_eq_iff.mp (hagree.numOutputRequests o (hwithin i o hi).2)
        i (hwithin i o hi).1 i' (hwithin i' o hi').1 hi hi'
    · obtain ⟨hi, ho'⟩ := hwithin i o ho
      exact (h.findRequest_eq_iff hi ho').mp (hagree.findRequest i hi o ho') ho
  · rintro ⟨⟨hin, hout⟩, hzero⟩
    exact {
      readLabel := fun i hi o ho => h.readLabel_eq hi ho
      findRequest := fun i hi o ho => (h.findRequest_eq_iff hi ho).mpr (hzero i o)
      outputHasRequests := fun o _ => h.outputHasRequests_eq
      inputHasRequests := fun i _ => h.inputHasRequests_eq
      numOutputRequests := fun o _ =>
        h.numOutputRequests_eq_iff.mpr fun i _ i' _ hi hi' => hout o i i' hi hi'
      numInputRequests := fun i _ =>
        h.numInputRequests_eq_iff.mpr fun o _ o' _ ho ho' => hin i o o' ho ho' }

end SameTable

/-- For every sequence of calls on pairs in range, in which a request is removed only if present:
both allocators get through it and answer every question equally if and only if every removal gives
the label of the request, and at the end no input and no output has two requests and every request
is for output 0. -/
theorem tables_agree_iff (inputs outputs : ℕ) (calls : List TableCall)
    (hcalls : AllAlong (Allowed inputs outputs) .clear calls) :
    (∃ d s, DenseAllocator.run { inputs := inputs, outputs := outputs } calls = .ok d ∧
      SparseAllocator.run { inputs := inputs, outputs := outputs } calls = .ok s ∧
      AnswersAgree inputs outputs d s) ↔
    AllAlong Labelled .clear calls ∧ (standing .clear calls).Single ∧
      ∀ i o, (standing .clear calls i o).isSome = true → o = 0 := by
  have hnew := SameTable.new inputs outputs
  constructor
  · rintro ⟨d, s, hd, hs, hagree⟩
    have hlabels := hnew.labelled_of_run hcalls hs
    obtain ⟨d', s', hd', hs', hsame⟩ := hnew.run hcalls hlabels
    obtain rfl := Except.ok.inj (hd.symm.trans hd')
    obtain rfl := Except.ok.inj (hs.symm.trans hs')
    exact ⟨hlabels, hsame.answersAgree_iff.mp hagree⟩
  · rintro ⟨hlabels, hsingle⟩
    obtain ⟨d, s, hd, hs, hsame⟩ := hnew.run hcalls hlabels
    exact ⟨d, s, hd, hs, hsame.answersAgree_iff.mpr hsingle⟩

/-- One input asks for two outputs: the one allocator counts two requests, the other one. -/
theorem tables_differ_on_two :
    let q : Request := ⟨1, 0, 0⟩
    let calls : List TableCall := [.add 0 0 q, .add 0 1 q]
    ∃ d s, DenseAllocator.run { inputs := 1, outputs := 2 } calls = .ok d ∧
      SparseAllocator.run { inputs := 1, outputs := 2 } calls = .ok s ∧
      d.numInputRequests 0 = 2 ∧ s.numInputRequests 0 = 1 := by
  intro q calls
  obtain ⟨d, hd, hcount⟩ := exists_of_returns
    (x := DenseAllocator.run { inputs := 1, outputs := 2 } calls)
    (p := fun d => d.numInputRequests 0 = 2) (by decide +kernel)
  obtain ⟨s, hs, hcount'⟩ := exists_of_returns
    (x := SparseAllocator.run { inputs := 1, outputs := 2 } calls)
    (p := fun s => s.numInputRequests 0 = 1) (by decide +kernel)
  exact ⟨d, s, hd, hs, of_decide_eq_true hcount, of_decide_eq_true hcount'⟩

/-- … while a request that is removed leaves room for another. -/
theorem tables_agree_after_removal :
    let q : Request := ⟨1, 0, 0⟩
    let calls : List TableCall := [.add 0 1 q, .remove 0 1 1, .add 0 0 q]
    ∃ d s, DenseAllocator.run { inputs := 1, outputs := 2 } calls = .ok d ∧
      SparseAllocator.run { inputs := 1, outputs := 2 } calls = .ok s ∧ AnswersAgree 1 2 d s := by
  intro q calls
  refine (tables_agree_iff 1 2 calls ⟨?_, ?_, ?_, trivial⟩).mpr
    ⟨⟨trivial, ?_, trivial, trivial⟩, ?_⟩
  · exact ⟨by decide, by decide, by decide, rfl⟩
  · exact ⟨by decide, by decide, rfl⟩
  · exact ⟨by decide, by decide, by decide, rfl⟩
  · rfl
  · have hlast : ∀ i o, (standing .clear calls i o).isSome = true → i = 0 ∧ o = 0 := by
      intro i o h
      simp only [standing, calls, List.foldl_cons, List.foldl_nil, TableCall.apply] at h
      rw [update₂_apply] at h
      split at h
      · assumption
      · rw [update₂_apply] at h
        split at h
        · cases h
        · next hne =>
            rw [update₂_apply, if_neg hne] at h
            cases h
    exact ⟨⟨fun i o o' h h' => (hlast i o h).2.trans (hlast i o' h').2.symm,
      fun o i i' h h' => (hlast i o h).1.trans (hlast i' o h').1.symm⟩, fun i o h =>
        (hlast i o h).2⟩

end BookSim
