/-
# Allocator — requests, and what they are answered with

An allocator takes requests, each by one input for one output, and answers with a matching, which
can be read from both sides:

    requested   it grants only what was asked for
    inverse     `OutputAssigned` and `InputAssigned` tell of the same grants

There are two ways to keep the requests.  A dense allocator keeps the whole matrix; a sparse one
keeps, for the inputs and for the outputs, who has requests and which, in order.  `req.port` is
the key of a request in its map, and not kept again.
-/
import BookSim.Flit
import BookSim.Lib.Fallible
import BookSim.Lib.KeyedSet
import BookSim.Lib.OrdMap
import BookSim.Lib.Table

namespace BookSim

open Function (update update_apply)

/-! ## Requests -/

/-- What `AddRequest` is given besides the two ports. -/
structure Request where
  label : ℤ
  inPri : ℤ
  outPri : ℤ

/-- `sRequest`, as `ReadRequest( req, in, out )` returns it. -/
structure SRequest extends Request where
  port : ℤ

/-- `RoundRobinArbiter::Supersedes`. -/
def supersedes (input₁ pri₁ input₂ pri₂ offset size : ℤ) : Bool :=
  pri₁ > pri₂ ||
    (pri₁ = pri₂ && (input₁ - offset + size).tmod size < (input₂ - offset + size).tmod size)

/-- The requests made to an allocator, by input and output. -/
abbrev Requests := ℤ → ℤ → Option Request

namespace Requests

def clear : Requests := fun _ _ => none

def add (t : Requests) (input output : ℤ) (q : Request) : Except Fault Requests := do
  require (.assertion "_request[in][out].label == -1") (t input output).isNone
  return update₂ t input output (some q)

def remove (t : Requests) (input output : ℤ) : Requests := update₂ t input output none

/-- `ReadRequest`: the label, or `-1`. -/
def read (t : Requests) (input output : ℤ) : ℤ := ((t input output).map Request.label).getD (-1)

def outputHasRequests (t : Requests) (inputs : ℕ) (output : ℤ) : Bool :=
  (List.range inputs).any fun i => (t i output).isSome

/-- The requests are those of `inputs` inputs for `outputs` outputs. -/
def Within (t : Requests) (inputs outputs : ℕ) : Prop :=
  ∀ a b, (t a b).isSome = true → a ∈ below inputs ∧ b ∈ below outputs

section All

variable {t : Requests} {P : ℤ → ℤ → Prop} {input output : ℤ}

theorem all_add (h : ∀ i o, (t i o).isSome = true → P i o) (hnew : P input output) (q : Request) :
    ∀ i o, (update₂ t input output (some q) i o).isSome = true → P i o := by
  intro i o ho
  rw [update₂_apply] at ho
  split at ho
  · next hio =>
      obtain ⟨rfl, rfl⟩ := hio
      exact hnew
  · exact h i o ho

theorem all_remove (h : ∀ i o, (t i o).isSome = true → P i o) (input output : ℤ) :
    ∀ i o, (update₂ t input output none i o).isSome = true → P i o := by
  intro i o ho
  rw [update₂_apply] at ho
  split at ho
  · cases ho
  · exact h i o ho

end All

end Requests

/-! ## Matchings -/

/-- The outcome of `Allocate`; `-1` stands for none. -/
structure Matching where
  outputAssigned : ℤ → ℤ := fun _ => -1
  inputAssigned : ℤ → ℤ := fun _ => -1

/-- An input and an output are given to each other. -/
def Matching.assign (m : Matching) (a b : ℤ) : Matching where
  outputAssigned := update m.outputAssigned a b
  inputAssigned := update m.inputAssigned b a

/-- Two arrays that give each other's partners, where a negative number stands for none. -/
def MutuallyInverse (f g : ℤ → ℤ) : Prop := ∀ a b, 0 ≤ a → 0 ≤ b → (f a = b ↔ g b = a)

namespace MutuallyInverse

variable {f g : ℤ → ℤ} {a b : ℤ}

theorem join (h : MutuallyInverse f g) (ha : f a < 0) (hb : g b < 0) :
    MutuallyInverse (update f a b) (update g b a) := by
  intro a' b' ha' hb'
  have hinverse := h a' b' ha' hb'
  rw [update_apply, update_apply]
  split_ifs with haa hbb hbb
  · rw [haa, hbb]
    exact iff_of_true rfl rfl
  · rw [haa] at hinverse ⊢
    exact iff_of_false (fun hbb' => hbb hbb'.symm) fun hin =>
      absurd (hinverse.mpr hin ▸ ha) (not_lt.mpr hb')
  · rw [hbb] at hinverse ⊢
    exact iff_of_false (fun hout => absurd (hinverse.mp hout ▸ hb) (not_lt.mpr ha'))
      fun haa' => haa haa'.symm
  · exact hinverse

theorem part (h : MutuallyInverse f g) (ha : 0 ≤ a) (hb : 0 ≤ b) (hab : f a = b) :
    MutuallyInverse (update f a (-1)) (update g b (-1)) := by
  intro a' b' ha' hb'
  have hinverse := h a' b' ha' hb'
  rw [update_apply, update_apply]
  split_ifs with haa hbb hbb
  · exact iff_of_false (by omega) (by omega)
  · refine iff_of_false (by omega) fun hba => hbb ?_
    rw [← hinverse.mpr hba, haa, hab]
  · refine iff_of_false (fun hab' => haa ?_) (by omega)
    rw [← hinverse.mp hab', hbb]
    exact (h a b ha hb).mp hab
  · exact hinverse

end MutuallyInverse

/-- The answer of an allocator to the requests `t` is a matching. -/
structure IsMatching (t : Requests) (m : Matching) : Prop where
  requested : ∀ a b, 0 ≤ b → m.outputAssigned a = b → (t a b).isSome = true
  inverse : MutuallyInverse m.outputAssigned m.inputAssigned

namespace IsMatching

variable {t : Requests} {m : Matching} {a a' b : ℤ}

theorem eq_of_output (h : IsMatching t m) (ha : 0 ≤ a) (ha' : 0 ≤ a') (hb : 0 ≤ b)
    (hab : m.outputAssigned a = b) (hab' : m.outputAssigned a' = b) : a = a' :=
  ((h.inverse a b ha hb).mp hab).symm.trans ((h.inverse a' b ha' hb).mp hab')

theorem assign (h : IsMatching t m) (hreq : (t a b).isSome = true) (ha : m.outputAssigned a < 0)
    (hb : m.inputAssigned b < 0) : IsMatching t (m.assign a b) := by
  refine ⟨fun a' b' hb' hab => ?_, h.inverse.join ha hb⟩
  dsimp only [Matching.assign] at hab
  by_cases haa : a' = a
  · rw [haa, Function.update_self] at hab
    rwa [haa, ← hab]
  · rw [Function.update_of_ne haa] at hab
    exact h.requested a' b' hb' hab

end IsMatching

theorem Matching.isMatching_empty (t : Requests) : IsMatching t {} where
  requested a b hb hab := by
    change -1 = b at hab
    omega
  inverse a b ha hb := by
    change -1 = b ↔ -1 = a
    omega

/-! ## The base class -/

structure Allocator where
  inputs : ℕ
  outputs : ℕ
  dirty : Bool := false
  /-- `_inmatch` and `_outmatch`. -/
  matching : Matching := {}

namespace Allocator

def clear (a : Allocator) : Allocator :=
  if a.dirty then { a with dirty := false, matching := {} } else a

/-- An allocator that is not dirty has no partners left from before.  All operations keep this. -/
def Clean (a : Allocator) : Prop := a.dirty = false → a.matching = {}

theorem clear_matching {a : Allocator} (h : a.Clean) : a.clear.matching = {} := by
  unfold clear
  split
  · rfl
  · next hdirty => exact h (by simpa using hdirty)

theorem clear_size (a : Allocator) : a.clear.inputs = a.inputs ∧ a.clear.outputs = a.outputs := by
  unfold clear
  split <;> exact ⟨rfl, rfl⟩

def addRequest (a : Allocator) (input output label : ℤ) : Except Fault Allocator := do
  require (.assertion "( in >= 0 ) && ( in < _inputs )") (0 ≤ input ∧ input < a.inputs)
  require (.assertion "( out >= 0 ) && ( out < _outputs )") (0 ≤ output ∧ output < a.outputs)
  require (.assertion "label >= 0") (0 ≤ label)
  return { a with dirty := true }

theorem addRequest_eq_ok {a a' : Allocator} {input output label : ℤ}
    (h : a.addRequest input output label = .ok a') :
    (0 ≤ input ∧ input < a.inputs) ∧ (0 ≤ output ∧ output < a.outputs) ∧
      a' = { a with dirty := true } := by
  obtain ⟨hin, h⟩ := require_ok.mp h
  obtain ⟨hout, h⟩ := require_ok.mp h
  obtain ⟨-, h⟩ := require_ok.mp h
  exact ⟨hin, hout, (return_ok.mp h).symm⟩

end Allocator

/-! ## The dense allocator -/

structure DenseAllocator extends Allocator where
  request : Requests := .clear

namespace DenseAllocator

def clear (a : DenseAllocator) : DenseAllocator :=
  { toAllocator := a.toAllocator.clear, request := .clear }

def addRequest (a : DenseAllocator) (input output : ℤ) (q : Request) :
    Except Fault DenseAllocator := do
  let base ← a.toAllocator.addRequest input output q.label
  let request ← a.request.add input output q
  return { toAllocator := base, request := request }

def removeRequest (a : DenseAllocator) (input output : ℤ) : Except Fault DenseAllocator := do
  require (.assertion "( in >= 0 ) && ( in < _inputs )") (0 ≤ input ∧ input < a.inputs)
  require (.assertion "( out >= 0 ) && ( out < _outputs )") (0 ≤ output ∧ output < a.outputs)
  return { a with request := a.request.remove input output }

/-- `ReadRequest( in, out )`. -/
def readLabel (a : DenseAllocator) (input output : ℤ) : Except Fault ℤ := do
  require (.assertion "( in >= 0 ) && ( in < _inputs )") (0 ≤ input ∧ input < a.inputs)
  require (.assertion "( out >= 0 ) && ( out < _outputs )") (0 ≤ output ∧ output < a.outputs)
  return a.request.read input output

/-- `ReadRequest( req, in, out )`; `none` when it returns `false`.  The field `port` of `_request`
is 0 from `resize`, and is never written. -/
def findRequest (a : DenseAllocator) (input output : ℤ) : Except Fault (Option SRequest) := do
  require (.assertion "( in >= 0 ) && ( in < _inputs )") (0 ≤ input ∧ input < a.inputs)
  require (.assertion "( out >= 0 ) && ( out < _outputs )") (0 ≤ output ∧ output < a.outputs)
  return if 0 ≤ a.request.read input output then
    (a.request input output).map fun q => ⟨q, 0⟩
  else none

def inputHasRequests (a : DenseAllocator) (input : ℤ) : Bool :=
  (indices a.outputs).any fun output => 0 ≤ a.request.read input output

def outputHasRequests (a : DenseAllocator) (output : ℤ) : Bool :=
  (indices a.inputs).any fun input => 0 ≤ a.request.read input output

def numInputRequests (a : DenseAllocator) (input : ℤ) : ℕ :=
  (indices a.outputs).foldl
    (fun result output => if 0 ≤ a.request.read input output then result + 1 else result) 0

def numOutputRequests (a : DenseAllocator) (output : ℤ) : ℕ :=
  (indices a.inputs).foldl
    (fun result input => if 0 ≤ a.request.read input output then result + 1 else result) 0

/-- Several calls of `AddRequest`. -/
def addRequests (a : DenseAllocator) (calls : List (ℤ × ℤ × Request)) :
    Except Fault DenseAllocator :=
  calls.foldlM (fun a c => a.addRequest c.1 c.2.1 c.2.2) a

/-- The requests are within the matrix, and an allocator that is not dirty is empty. -/
structure Sound (a : DenseAllocator) : Prop where
  within : a.request.Within a.inputs a.outputs
  clean : a.dirty = false → a.matching = {} ∧ a.request = .clear

namespace Sound

variable {a a' : DenseAllocator} {input output : ℤ} {q : Request}

theorem clear (h : a.Clean) : a.clear.Sound ∧ a.clear.matching = {} := by
  have hmatching := Allocator.clear_matching h
  refine ⟨⟨fun _ _ h => ?_, fun _ => ⟨hmatching, rfl⟩⟩, hmatching⟩
  cases h

theorem addRequest (h : a.Sound) (hadd : a.addRequest input output q = .ok a') :
    a'.Sound ∧ a'.request = update₂ a.request input output (some q) ∧ a'.matching = a.matching := by
  obtain ⟨base, hbase, hadd⟩ := bind_ok.mp hadd
  obtain ⟨hin, hout, rfl⟩ := Allocator.addRequest_eq_ok hbase
  obtain ⟨request, hrequest, hadd⟩ := bind_ok.mp hadd
  obtain ⟨-, rfl⟩ := require_return_ok.mp hrequest
  obtain rfl := return_ok.mp hadd
  refine ⟨⟨?_, nofun⟩, rfl, rfl⟩
  exact Requests.all_add h.within ⟨mem_below.mpr hin, mem_below.mpr hout⟩ q

theorem addRequests {calls : List (ℤ × ℤ × Request)} (h : a.Sound)
    (hadd : a.addRequests calls = .ok a') : a'.Sound ∧ a'.matching = a.matching := by
  refine inv_of_foldlM_eq_ok (I := fun s => s.Sound ∧ s.matching = a.matching) hadd
    (fun s s' c _ hstep hs => ?_) ⟨h, rfl⟩
  obtain ⟨hs', -, hmatching⟩ := hs.1.addRequest hstep
  exact ⟨hs', hmatching.trans hs.2⟩

theorem removeRequest (h : a.Sound) (hremove : a.removeRequest input output = .ok a') :
    a'.Sound ∧ a'.request = update₂ a.request input output none ∧ a'.matching = a.matching := by
  obtain ⟨-, hremove⟩ := require_ok.mp hremove
  obtain ⟨-, rfl⟩ := require_return_ok.mp hremove
  refine ⟨⟨Requests.all_remove h.within input output, fun hdirty => ?_⟩, rfl, rfl⟩
  obtain ⟨hmatching, hrequest⟩ := h.clean hdirty
  refine ⟨hmatching, ?_⟩
  show update₂ a.request input output none = Requests.clear
  rw [hrequest]
  exact update₂_eq_self rfl

end Sound

end DenseAllocator

/-! ## The sparse allocator -/

/-- The requests as the inputs see them, or the outputs: which ports have any (`_in_occ`), and the
requests of each (`_in_req`), by the port at the other end, which `AddRequest` writes into the field
`port` as well. -/
structure RequestSide where
  occ : List ℤ := []
  req : ℤ → OrdMap ℤ Request := fun _ => .empty

namespace RequestSide

def insert (s : RequestSide) (port other : ℤ) (q : Request) : RequestSide where
  occ := if (s.req port).entries = [] then KeyedSet.insert id port s.occ else s.occ
  req := update s.req port ((s.req port).insert other q)

def erase (s : RequestSide) (port other : ℤ) : RequestSide where
  occ := if ((s.req port).erase other).entries = [] then s.occ.filter (· ≠ port) else s.occ
  req := update s.req port ((s.req port).erase other)

/-- The side keeps the table `t`. -/
structure Keeps (s : RequestSide) (t : Requests) : Prop where
  get : ∀ port other, (s.req port).get? other = t port other
  sorted : KeyedSet.Sorted id s.occ
  mem_occ : ∀ port, port ∈ s.occ ↔ ∃ other, (t port other).isSome = true

variable {s : RequestSide} {t : Requests} {port other : ℤ}

theorem Keeps.empty : Keeps {} .clear where
  get _ _ := rfl
  sorted := .nil
  mem_occ _ := by simp [Requests.clear]

theorem Keeps.entries_ne_nil (h : s.Keeps t) (port : ℤ) :
    (s.req port).entries ≠ [] ↔ ∃ other, (t port other).isSome = true := by
  rw [OrdMap.entries_ne_nil_iff]
  exact exists_congr fun other => by rw [h.get]

theorem exists_add_iff {p : ℤ} {q : Request} :
    (∃ o, (update₂ t port other (some q) p o).isSome = true) ↔
      p = port ∨ ∃ o, (t p o).isSome = true := by
  constructor
  · rintro ⟨o, ho⟩
    rw [update₂_apply] at ho
    split at ho
    · next hpo => exact .inl hpo.1
    · exact .inr ⟨o, ho⟩
  · rintro (rfl | ⟨o, ho⟩)
    · exact ⟨other, by simp⟩
    · refine ⟨o, ?_⟩
      rw [update₂_apply]
      split
      · rfl
      · exact ho

theorem Keeps.insert (h : s.Keeps t) (port other : ℤ) (q : Request) :
    (s.insert port other q).Keeps (update₂ t port other (some q)) where
  get p o := by
    show (update s.req port ((s.req port).insert other q) p).get? o = _
    rw [update₂_apply, update_apply]
    by_cases hp : p = port
    · rw [if_pos hp, OrdMap.get?_insert, h.get, hp]
      simp
    · rw [if_neg hp, h.get, if_neg fun hpo => hp hpo.1]
  sorted := by
    show KeyedSet.Sorted id (if (s.req port).entries = [] then _ else s.occ)
    split
    · exact KeyedSet.sorted_insert h.sorted
    · exact h.sorted
  mem_occ p := by
    show p ∈ (if (s.req port).entries = [] then KeyedSet.insert id port s.occ else s.occ) ↔ _
    rw [exists_add_iff, ← h.mem_occ]
    split
    · rw [KeyedSet.mem_insert_id h.sorted, or_comm]
    · next hne =>
        refine (or_iff_right_of_imp ?_).symm
        rintro rfl
        exact (h.mem_occ p).mpr ((h.entries_ne_nil p).mp hne)

theorem Keeps.erase (h : s.Keeps t) (port other : ℤ) :
    (s.erase port other).Keeps (update₂ t port other none) where
  get p o := by
    show (update s.req port ((s.req port).erase other) p).get? o = _
    rw [update₂_apply, update_apply]
    by_cases hp : p = port
    · rw [if_pos hp, OrdMap.get?_erase, h.get, hp]
      simp
    · rw [if_neg hp, h.get, if_neg fun hpo => hp hpo.1]
  sorted := by
    show KeyedSet.Sorted id (if ((s.req port).erase other).entries = [] then _ else s.occ)
    split
    · exact h.sorted.filter _
    · exact h.sorted
  mem_occ p := by
    -- what is left of the row of `port`
    have hrest : ((s.req port).erase other).entries ≠ [] ↔
        ∃ o, (update₂ t port other none port o).isSome = true := by
      rw [OrdMap.entries_ne_nil_iff]
      refine exists_congr fun o => ?_
      rw [OrdMap.get?_erase, h.get, update₂_apply]
      simp
    have hother : p ≠ port → (p ∈ s.occ ↔ ∃ o, (update₂ t port other none p o).isSome = true) := by
      intro hp
      rw [update₂_row_ne hp, h.mem_occ]
    show p ∈ (if ((s.req port).erase other).entries = [] then _ else s.occ) ↔ _
    by_cases hp : p = port
    · subst hp
      rw [← hrest]
      split
      · next hnil => simp [hnil]
      · next hne =>
          refine iff_of_true ((h.mem_occ p).mpr ?_) hne
          obtain ⟨o, ho⟩ := hrest.mp hne
          refine ⟨o, ?_⟩
          rw [update₂_apply] at ho
          split at ho
          · cases ho
          · exact ho
    · rw [← hother hp]
      split
      · simp [hp]
      · rfl

end RequestSide

structure SparseAllocator extends Allocator where
  ins : RequestSide := {}
  outs : RequestSide := {}

namespace SparseAllocator

def clear (a : SparseAllocator) : SparseAllocator :=
  { toAllocator := a.toAllocator.clear, ins := {}, outs := {} }

def addRequest (a : SparseAllocator) (input output : ℤ) (q : Request) :
    Except Fault SparseAllocator := do
  let base ← a.toAllocator.addRequest input output q.label
  require (.assertion "_in_req[in].count(out) == 0") ((a.ins.req input).get? output).isNone
  require (.assertion "_out_req[out].count(in) == 0") ((a.outs.req output).get? input).isNone
  return {
    toAllocator := base
    ins := a.ins.insert input output q
    outs := a.outs.insert output input q }

def removeRequest (a : SparseAllocator) (input output label : ℤ) :
    Except Fault SparseAllocator := do
  require (.assertion "( in >= 0 ) && ( in < _inputs )") (0 ≤ input ∧ input < a.inputs)
  require (.assertion "( out >= 0 ) && ( out < _outputs )") (0 ≤ output ∧ output < a.outputs)
  require (.assertion "_in_req[in].count( out ) > 0") ((a.ins.req input).get? output).isSome
  require (.assertion "_in_req[in][out].label == label")
    (((a.ins.req input).get? output).map Request.label = some label)
  require (.assertion "_out_req[out].count( in ) > 0") ((a.outs.req output).get? input).isSome
  require (.assertion "_out_req[out][in].label == label")
    (((a.outs.req output).get? input).map Request.label = some label)
  return { a with ins := a.ins.erase input output, outs := a.outs.erase output input }

/-- Several calls of `AddRequest`. -/
def addRequests (a : SparseAllocator) (calls : List (ℤ × ℤ × Request)) :
    Except Fault SparseAllocator :=
  calls.foldlM (fun a c => a.addRequest c.1 c.2.1 c.2.2) a

/-- A call between `Clear` and `Allocate`. -/
inductive Call
  | add (input output : ℤ) (q : Request)
  | remove (input output label : ℤ)

def call (a : SparseAllocator) : Call → Except Fault SparseAllocator
  | .add input output q => a.addRequest input output q
  | .remove input output label => a.removeRequest input output label

def calls (a : SparseAllocator) (l : List Call) : Except Fault SparseAllocator := l.foldlM call a

/-- `ReadRequest`: the request, if there is one. -/
def readRequest (a : SparseAllocator) : Requests := fun input output =>
  (a.ins.req input).get? output

/-- `ReadRequest( req, in, out )`; `none` when it returns `false`. -/
def findRequest (a : SparseAllocator) (input output : ℤ) : Except Fault (Option SRequest) := do
  require (.assertion "( in >= 0 ) && ( in < _inputs )") (0 ≤ input ∧ input < a.inputs)
  require (.assertion "( out >= 0 ) && ( out < _outputs )") (0 ≤ output ∧ output < a.outputs)
  return (a.readRequest input output).map fun q => ⟨q, output⟩

/-- `ReadRequest( in, out )`. -/
def readLabel (a : SparseAllocator) (input output : ℤ) : Except Fault ℤ := do
  match ← a.findRequest input output with
  | some q => return q.label
  | none => return -1

def inputHasRequests (a : SparseAllocator) (input : ℤ) : Bool := input ∈ a.ins.occ

def outputHasRequests (a : SparseAllocator) (output : ℤ) : Bool := output ∈ a.outs.occ

/-- `_in_occ.count(in)`, where `_in_occ` is a set. -/
def numInputRequests (a : SparseAllocator) (input : ℤ) : ℕ := if input ∈ a.ins.occ then 1 else 0

def numOutputRequests (a : SparseAllocator) (output : ℤ) : ℕ := if output ∈ a.outs.occ then 1 else 0

theorem addRequest_eq_ok {a a' : SparseAllocator} {input output : ℤ} {q : Request}
    (h : a.addRequest input output q = .ok a') :
    (0 ≤ input ∧ input < a.inputs) ∧ (0 ≤ output ∧ output < a.outputs) ∧ a' = { a with
      dirty := true
      ins := a.ins.insert input output q
      outs := a.outs.insert output input q } := by
  obtain ⟨base, hbase, h⟩ := bind_ok.mp h
  obtain ⟨hin, hout, rfl⟩ := Allocator.addRequest_eq_ok hbase
  obtain ⟨-, h⟩ := require_ok.mp h
  obtain ⟨-, h⟩ := require_ok.mp h
  exact ⟨hin, hout, (return_ok.mp h).symm⟩

theorem removeRequest_eq_ok {a a' : SparseAllocator} {input output label : ℤ}
    (h : a.removeRequest input output label = .ok a') :
    a' = { a with ins := a.ins.erase input output, outs := a.outs.erase output input } := by
  obtain ⟨-, h⟩ := require_ok.mp h
  obtain ⟨-, h⟩ := require_ok.mp h
  obtain ⟨-, h⟩ := require_ok.mp h
  obtain ⟨-, h⟩ := require_ok.mp h
  obtain ⟨-, h⟩ := require_ok.mp h
  obtain ⟨-, h⟩ := require_ok.mp h
  exact (return_ok.mp h).symm

/-- Both sides keep the requests `t`, and an allocator that is not dirty is empty. -/
structure Represents (a : SparseAllocator) (t : Requests) : Prop where
  ins : a.ins.Keeps t
  outs : a.outs.Keeps fun output input => t input output
  within : t.Within a.inputs a.outputs
  clean : a.dirty = false → a.matching = {} ∧ t = .clear

namespace Represents

variable {a a' : SparseAllocator} {t : Requests} {input output : ℤ} {q : Request}

theorem readRequest_eq (h : a.Represents t) : a.readRequest = t :=
  funext fun _ => funext fun _ => h.ins.get _ _

theorem new (inputs outputs : ℕ) : Represents { inputs := inputs, outputs := outputs } .clear where
  ins := .empty
  outs := .empty
  within _ _ h := by cases h
  clean _ := ⟨rfl, rfl⟩

theorem clear (h : a.Clean) : a.clear.Represents .clear ∧ a.clear.matching = {} := by
  have hmatching := Allocator.clear_matching h
  refine ⟨⟨.empty, .empty, fun _ _ h => ?_, fun _ => ⟨hmatching, rfl⟩⟩, hmatching⟩
  cases h

theorem addRequest (h : a.Represents t) (hadd : a.addRequest input output q = .ok a') :
    a'.Represents (update₂ t input output (some q)) ∧ a'.matching = a.matching := by
  obtain ⟨hin, hout, rfl⟩ := addRequest_eq_ok hadd
  refine ⟨⟨h.ins.insert input output q, ?_, ?_, nofun⟩, rfl⟩
  · rw [update₂_transpose]
    exact h.outs.insert output input q
  · exact Requests.all_add h.within ⟨mem_below.mpr hin, mem_below.mpr hout⟩ q

theorem foldlM {β : Type} {f : SparseAllocator → β → Except Fault SparseAllocator} {l : List β}
    (h : a.Represents t) (hrun : l.foldlM f a = .ok a')
    (hcall : ∀ {s s' c t}, s.Represents t → f s c = .ok s' →
      ∃ t', s'.Represents t' ∧ s'.matching = s.matching) :
    a'.Represents a'.readRequest ∧ a'.matching = a.matching := by
  obtain ⟨t', ht', hmatching⟩ : ∃ t', a'.Represents t' ∧ a'.matching = a.matching := by
    refine inv_of_foldlM_eq_ok (I := fun s => ∃ t', s.Represents t' ∧ s.matching = a.matching)
      hrun (fun s s' c _ hstep ⟨t, ht, hmatching⟩ => ?_) ⟨t, h, rfl⟩
    obtain ⟨t', ht', hsame⟩ := hcall ht hstep
    exact ⟨t', ht', hsame.trans hmatching⟩
  exact ⟨ht'.readRequest_eq ▸ ht', hmatching⟩

theorem addRequests {calls : List (ℤ × ℤ × Request)} (h : a.Represents t)
    (hadd : a.addRequests calls = .ok a') :
    a'.Represents a'.readRequest ∧ a'.matching = a.matching :=
  h.foldlM hadd fun ht hstep => ⟨_, ht.addRequest hstep⟩

theorem removeRequest {label : ℤ} (h : a.Represents t)
    (hremove : a.removeRequest input output label = .ok a') :
    a'.Represents (update₂ t input output none) ∧ a'.matching = a.matching := by
  obtain rfl := removeRequest_eq_ok hremove
  refine ⟨⟨h.ins.erase input output, ?_, Requests.all_remove h.within input output,
    fun hdirty => ?_⟩, rfl⟩
  · rw [update₂_transpose]
    exact h.outs.erase output input
  · obtain ⟨hmatching, rfl⟩ := h.clean hdirty
    exact ⟨hmatching, update₂_eq_self rfl⟩

theorem calls {l : List Call} (h : a.Represents t) (hcalls : a.calls l = .ok a') :
    a'.Represents a'.readRequest ∧ a'.matching = a.matching := by
  refine h.foldlM hcalls fun {_ _ c _} ht hstep => ?_
  cases c with
  | add input output q => exact ⟨_, ht.addRequest hstep⟩
  | remove input output label => exact ⟨_, ht.removeRequest hstep⟩

end Represents

theorem size_of_calls {a a' : SparseAllocator} {l : List Call} (h : a.calls l = .ok a') :
    a'.inputs = a.inputs ∧ a'.outputs = a.outputs := by
  refine inv_of_foldlM_eq_ok (I := fun s => s.inputs = a.inputs ∧ s.outputs = a.outputs) h
    (fun s s' c _ hstep hs => ?_) ⟨rfl, rfl⟩
  cases c with
  | add input output q =>
    obtain ⟨-, -, rfl⟩ := addRequest_eq_ok hstep
    exact hs
  | remove input output label =>
    obtain rfl := removeRequest_eq_ok hstep
    exact hs

end SparseAllocator

end BookSim
