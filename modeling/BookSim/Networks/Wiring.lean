/-
# Wiring — routers and the channels between them

A topology's `_BuildNet` is a sequence of calls `AddInputChannel` and `AddOutputChannel` on
its routers.  A router numbers its ports in the order of the calls, and each call tells the
channel which router and port it ends at.  `Attach` is one such call, `wire` runs a
sequence of them, and the lemmas read off a finished network

    which channel is at output port p of router r     `outputChannels_wire`
    which router a channel leads to                    `sink_wire`
    at which of its input ports                        `sink_wire_port`
-/
import Mathlib.Data.List.Basic
import Mathlib.Data.Int.Notation
import Mathlib.Logic.Function.Basic

namespace BookSim

open List

/-- The flit channels of a network: one in and one out per node, and those between routers. -/
inductive Channel where
  | inject (node : ℕ)
  | eject (node : ℕ)
  | chan (index : ℕ)
  deriving DecidableEq, Repr

/-- A call that attaches a channel to a router. -/
inductive Attach where
  | input (router : ℕ) (channel : Channel)
  | output (router : ℕ) (channel : Channel)
  deriving DecidableEq, Repr

/-- The channel lists of the routers, and the router and port at either end of a channel. -/
structure Wiring where
  inputChannels : ℕ → List Channel
  outputChannels : ℕ → List Channel
  sink : Channel → Option (ℕ × ℕ)
  source : Channel → Option (ℕ × ℕ)

namespace Wiring

/-- Routers without channels. -/
def empty : Wiring := ⟨fun _ => [], fun _ => [], fun _ => none, fun _ => none⟩

/-- `Router::AddInputChannel`. -/
def addInputChannel (w : Wiring) (router : ℕ) (channel : Channel) : Wiring :=
  { w with
    inputChannels := Function.update w.inputChannels router (w.inputChannels router ++ [channel])
    sink := Function.update w.sink channel (some (router, (w.inputChannels router).length)) }

/-- `Router::AddOutputChannel`. -/
def addOutputChannel (w : Wiring) (router : ℕ) (channel : Channel) : Wiring :=
  { w with
    outputChannels :=
      Function.update w.outputChannels router (w.outputChannels router ++ [channel])
    source := Function.update w.source channel (some (router, (w.outputChannels router).length)) }

def attach (w : Wiring) : Attach → Wiring
  | .input router channel => w.addInputChannel router channel
  | .output router channel => w.addOutputChannel router channel

/-- The network a sequence of calls builds. -/
def wire (calls : List Attach) : Wiring := calls.foldl attach empty

/-- The channel a call adds to the outputs of `router`, if it does. -/
def outputOf (router : ℕ) : Attach → Option Channel
  | .output r channel => if r = router then some channel else none
  | .input _ _ => none

theorem outputChannels_attach (w : Wiring) (call : Attach) (router : ℕ) :
    (w.attach call).outputChannels router =
      w.outputChannels router ++ (outputOf router call).toList := by
  cases call with
  | input r channel => simp [attach, addInputChannel, outputOf]
  | output r channel =>
    by_cases h : r = router
    · subst h
      simp [attach, addOutputChannel, outputOf]
    · simp [attach, addOutputChannel, outputOf, h, Function.update_of_ne (Ne.symm h)]

theorem outputChannels_foldl (router : ℕ) : ∀ (calls : List Attach) (w : Wiring),
    (calls.foldl attach w).outputChannels router =
      w.outputChannels router ++ calls.filterMap (outputOf router)
  | [], _ => by simp
  | call :: calls, w => by
    rw [foldl_cons, outputChannels_foldl router calls, outputChannels_attach, append_assoc]
    cases h : outputOf router call <;> simp [h]

theorem outputChannels_wire (calls : List Attach) (router : ℕ) :
    (wire calls).outputChannels router = calls.filterMap (outputOf router) := by
  simp [wire, outputChannels_foldl, empty]

variable {channel : Channel}

theorem sink_attach_of_ne (w : Wiring) {call : Attach}
    (h : ∀ r, call ≠ .input r channel) : (w.attach call).sink channel = w.sink channel := by
  cases call with
  | input r c =>
    have hc : channel ≠ c := fun heq => h r (by rw [heq])
    simp [attach, addInputChannel, Function.update_of_ne hc]
  | output r c => rfl

/-- Once a channel leads to `router`, it does so as long as no other router takes it. -/
theorem sink_foldl {router : ℕ} : ∀ (calls : List Attach) (w : Wiring),
    (∀ r, Attach.input r channel ∈ calls → r = router) →
    ((w.sink channel).map Prod.fst = some router ∨ Attach.input router channel ∈ calls) →
    ((calls.foldl attach w).sink channel).map Prod.fst = some router
  | [], _, _, h => by simpa using h
  | call :: calls, w, honly, h => by
    refine sink_foldl calls _ (fun r hr => honly r (mem_cons_of_mem _ hr)) ?_
    by_cases hcall : ∃ r, call = .input r channel
    · obtain ⟨r, rfl⟩ := hcall
      have hr : r = router := honly r (by simp)
      left
      simp [attach, addInputChannel, hr]
    · rw [sink_attach_of_ne w fun r hr => hcall ⟨r, hr⟩]
      rcases h with h | h
      · exact .inl h
      · rcases mem_cons.mp h with h | h
        · exact absurd ⟨router, h.symm⟩ hcall
        · exact .inr h

theorem sink_wire {calls : List Attach} {router : ℕ} (hmem : Attach.input router channel ∈ calls)
    (honly : ∀ r, Attach.input r channel ∈ calls → r = router) :
    ((wire calls).sink channel).map Prod.fst = some router :=
  sink_foldl calls empty honly (.inr hmem)

/-- The channel a call adds to the inputs of `router`, if it does. -/
def inputOf (router : ℕ) : Attach → Option Channel
  | .input r channel => if r = router then some channel else none
  | .output _ _ => none

theorem inputChannels_attach (w : Wiring) (call : Attach) (router : ℕ) :
    (w.attach call).inputChannels router =
      w.inputChannels router ++ (inputOf router call).toList := by
  cases call with
  | output r channel => simp [attach, addOutputChannel, inputOf]
  | input r channel =>
    by_cases h : r = router
    · subst h
      simp [attach, addInputChannel, inputOf]
    · simp [attach, addInputChannel, inputOf, h, Function.update_of_ne (Ne.symm h)]

theorem inputChannels_foldl (router : ℕ) : ∀ (calls : List Attach) (w : Wiring),
    (calls.foldl attach w).inputChannels router =
      w.inputChannels router ++ calls.filterMap (inputOf router)
  | [], _ => by simp
  | call :: calls, w => by
    rw [foldl_cons, inputChannels_foldl router calls, inputChannels_attach, append_assoc]
    cases h : inputOf router call <;> simp [h]

theorem inputChannels_wire (calls : List Attach) (router : ℕ) :
    (wire calls).inputChannels router = calls.filterMap (inputOf router) := by
  simp [wire, inputChannels_foldl, empty]

/-- What a channel knows of its end is so: the router has it at that port. -/
def SinksListed (w : Wiring) : Prop :=
  ∀ channel router port, w.sink channel = some (router, port) →
    (w.inputChannels router)[port]? = some channel

theorem SinksListed.attach {w : Wiring} (h : w.SinksListed) (call : Attach) :
    (w.attach call).SinksListed := by
  intro channel router port hsink
  rw [inputChannels_attach]
  by_cases hcall : ∃ r, call = .input r channel
  · obtain ⟨r, rfl⟩ := hcall
    obtain ⟨rfl, rfl⟩ : r = router ∧ (w.inputChannels r).length = port := by
      simpa [Wiring.attach, addInputChannel] using hsink
    simp [inputOf]
  · rw [sink_attach_of_ne w fun r hr => hcall ⟨r, hr⟩] at hsink
    have hold := h channel router port hsink
    obtain ⟨hlt, -⟩ := List.getElem?_eq_some_iff.mp hold
    rw [List.getElem?_append_left hlt, hold]

theorem sinksListed_wire (calls : List Attach) : (wire calls).SinksListed := by
  have hfold : ∀ (calls : List Attach) (w : Wiring), w.SinksListed →
      (calls.foldl Wiring.attach w).SinksListed := by
    intro calls
    induction calls with
    | nil => exact fun _ h => h
    | cons call calls ih => exact fun w h => ih _ (h.attach call)
  exact hfold calls empty fun _ _ _ h => nomatch h

theorem mem_filterMap_inputOf {calls : List Attach} {router : ℕ} :
    channel ∈ calls.filterMap (inputOf router) ↔ Attach.input router channel ∈ calls := by
  rw [mem_filterMap]
  constructor
  · rintro ⟨call, hmem, hcall⟩
    cases call with
    | output r c => simp [inputOf] at hcall
    | input r c =>
      simp only [inputOf, Option.ite_none_right_eq_some, Option.some.injEq] at hcall
      obtain ⟨rfl, rfl⟩ := hcall
      exact hmem
  · intro hmem
    exact ⟨_, hmem, by simp [inputOf]⟩

theorem sink_wire_port {calls : List Attach} {router port : ℕ}
    (hat : (calls.filterMap (inputOf router))[port]? = some channel)
    (honly : ∀ r p, (calls.filterMap (inputOf r))[p]? = some channel → r = router ∧ p = port) :
    (wire calls).sink channel = some (router, port) := by
  have hmem : Attach.input router channel ∈ calls :=
    mem_filterMap_inputOf.mp (mem_of_getElem? hat)
  have hrouter : ∀ r, Attach.input r channel ∈ calls → r = router := by
    intro r hr
    obtain ⟨p, hp⟩ := mem_iff_getElem?.mp (mem_filterMap_inputOf.mpr hr)
    exact (honly r p hp).1
  obtain ⟨⟨r, p⟩, hsink, rfl⟩ := Option.map_eq_some_iff.mp (sink_wire hmem hrouter)
  have hlisted := sinksListed_wire calls channel r p hsink
  rw [inputChannels_wire] at hlisted
  rw [hsink, (honly r p hlisted).2]

/-- The channel at an output port. -/
def channelAt (w : Wiring) (router : ℕ) (port : ℤ) : Option Channel :=
  if port < 0 then none else (w.outputChannels router)[port.toNat]?

theorem channelAt_natCast (w : Wiring) (router port : ℕ) :
    w.channelAt router port = (w.outputChannels router)[port]? := by
  rw [channelAt, if_neg (by omega), Int.toNat_natCast]

/-- Some output port of `router` has a channel to `next`. -/
def Linked (w : Wiring) (router next : ℕ) : Prop :=
  ∃ port index inPort, w.channelAt router port = some (.chan index) ∧
    w.sink (.chan index) = some (next, inPort)

/-- A way over that many channels. -/
inductive Path (w : Wiring) : ℕ → ℕ → ℕ → Prop
  | nil {router : ℕ} : Path w router 0 router
  | cons {router next last m : ℕ} : w.Linked router next → Path w next m last →
      Path w router (m + 1) last

/-- If no channel brings a router more than one closer to the end of a path, the path is at
least as long as the distance says. -/
theorem Path.le_length {w : Wiring} {dist : ℕ → ℕ} {router last m : ℕ} (h : w.Path router m last)
    (hstep : ∀ r r', w.Linked r r' → dist r ≤ dist r' + 1) (hlast : dist last = 0) :
    dist router ≤ m := by
  induction h with
  | nil => exact Nat.le_of_eq hlast
  | cons hlink _ ih => exact Nat.le_trans (hstep _ _ hlink) (Nat.add_le_add_right (ih hlast) 1)

end Wiring

/-! ## Reading off a sequence of calls -/

variable {α : Type}

theorem flatMap_range_ite (l : List α) (router : ℕ) : ∀ m,
    ((List.range m).flatMap fun r => if r = router then l else []) = if router < m then l else []
  | 0 => by simp
  | m + 1 => by
    rw [range_succ, flatMap_append, flatMap_range_ite l router m]
    rcases Nat.lt_trichotomy router m with h | h | h
    · simp [h, Nat.lt_succ_of_lt h, Nat.ne_of_gt h]
    · simp [h]
    · simp [Nat.not_lt_of_gt h, Nat.ne_of_lt h, Nat.not_lt.mpr h]

theorem flatMap_ite_of_nodup (l : List α) (a : ℕ) : ∀ {is : List ℕ}, is.Nodup →
    (is.flatMap fun i => if i = a then l else []) = if a ∈ is then l else []
  | [], _ => by simp
  | i :: is, h => by
    obtain ⟨hfresh, hnodup⟩ := nodup_cons.mp h
    rw [flatMap_cons, flatMap_ite_of_nodup l a hnodup]
    by_cases hi : i = a
    · subst hi
      simp [hfresh]
    · simp [hi, Ne.symm hi]

/-- Two nested loops over the levels and the positions of the routers: router `r` is met on level
`r / m`, at position `r % m`. -/
theorem flatMap_nested {m : ℕ} (hm : 0 < m) (l : ℕ → ℕ → List α) {is : List ℕ}
    (his : is.Nodup) (router : ℕ) : (is.flatMap fun i => (List.range m).flatMap fun j =>
        if i * m + j = router then l i j else []) =
      if router / m ∈ is then l (router / m) (router % m) else [] := by
  have hinner : ∀ i, ((List.range m).flatMap fun j =>
      if i * m + j = router then l i j else []) =
      if i = router / m then l (router / m) (router % m) else [] := by
    intro i
    have hone := flatMap_range_ite (if i = router / m then l (router / m) (router % m) else [])
      (router % m) m
    rw [if_pos (Nat.mod_lt router hm)] at hone
    rw [← hone]
    refine flatMap_congr fun j hj => ?_
    have hlt := mem_range.mp hj
    by_cases h : i * m + j = router
    · have hcount : j + m * i = router := by rw [← h, Nat.mul_comm, Nat.add_comm]
      obtain ⟨hi, hj⟩ := (Nat.div_mod_unique hm).mpr ⟨hcount, hlt⟩
      rw [if_pos h, if_pos hj.symm, if_pos hi.symm, hi, hj]
    · rw [if_neg h]
      split
      next hj =>
        rw [if_neg]
        rintro rfl
        exact h (by rw [hj, Nat.mul_comm, Nat.div_add_mod])
      next => rfl
  simp only [hinner]
  exact flatMap_ite_of_nodup _ _ his

theorem filterMap_nested {m router : ℕ} (hm : 0 < m) {kind : Attach → Option Channel}
    {calls : ℕ → ℕ → List Attach} (chans : ℕ → ℕ → List Channel)
    (hcalls : ∀ i j, (calls i j).filterMap kind =
      if i * m + j = router then chans i j else []) {is : List ℕ} (his : is.Nodup) :
    (is.flatMap fun i => (List.range m).flatMap fun j => calls i j).filterMap kind =
      if router / m ∈ is then chans (router / m) (router % m) else [] := by
  rw [filterMap_flatMap]
  simp only [filterMap_flatMap, hcalls]
  exact flatMap_nested hm chans his router

theorem getElem?_map_range (f : ℕ → α) (k p : ℕ) :
    ((List.range k).map f)[p]? = if p < k then some (f p) else none := by
  by_cases h : p < k
  · simp [h]
  · simp [h]

theorem getElem?_flatMap_blocks {f : ℕ → List α} {w : ℕ} : ∀ {n i j : ℕ},
    (∀ i < n, (f i).length = w) → i < n → j < w → ((List.range n).flatMap f)[w * i + j]? = (f i)[j]?
  | n + 1, i, j, hf, hi, hj => by
    have hlen : ((List.range n).flatMap f).length = w * n := by
      rw [length_flatMap, map_congr_left (fun i hi => hf i (Nat.lt_succ_of_lt (mem_range.mp hi)))]
      simp [Nat.mul_comm]
    rw [range_succ, flatMap_append, flatMap_singleton]
    rcases Nat.lt_or_ge i n with hlt | hge
    · have hmul : w * (i + 1) ≤ w * n := Nat.mul_le_mul_left w hlt
      rw [Nat.mul_add_one] at hmul
      rw [List.getElem?_append_left (by omega)]
      exact getElem?_flatMap_blocks (fun i hi => hf i (Nat.lt_succ_of_lt hi)) hlt hj
    · obtain rfl : i = n := by omega
      rw [List.getElem?_append_right (by omega), hlen, Nat.add_sub_cancel_left]

theorem getElem?_flatMap_pairs (a b : ℕ → α) (n i : ℕ) (h : i < n) :
    ((List.range n).flatMap fun j => [a j, b j])[2 * i]? = some (a i) ∧
    ((List.range n).flatMap fun j => [a j, b j])[2 * i + 1]? = some (b i) := by
  have hblock : ∀ {j}, j < 2 → ((List.range n).flatMap fun j => [a j, b j])[2 * i + j]? =
      [a i, b i][j]? := getElem?_flatMap_blocks (fun _ _ => rfl) h
  exact ⟨hblock Nat.zero_lt_two, hblock Nat.one_lt_two⟩

theorem flatMap_range_skip (f : ℕ → α) {e : ℕ} : ∀ {k : ℕ}, e < k →
    ((List.range k).flatMap fun i => if i = e then [] else [f i]) =
      (List.range (k - 1)).map fun j => f (if j < e then j else j + 1)
  | k + 1, h => by
    have hbelow : ∀ m ≤ e, ((List.range m).flatMap fun i => if i = e then [] else [f i]) =
        (List.range m).map fun j => f (if j < e then j else j + 1) := by
      intro m
      induction m with
      | zero => exact fun _ => rfl
      | succ m ih =>
        intro hm
        simp [range_succ, ih (by omega), Nat.ne_of_lt hm, Nat.lt_of_succ_le hm]
    rw [range_succ, flatMap_append, Nat.add_sub_cancel]
    rcases Nat.lt_or_ge e k with hlt | hge
    · obtain ⟨m, rfl⟩ : ∃ m, k = m + 1 := ⟨k - 1, by omega⟩
      rw [flatMap_range_skip f hlt, Nat.add_sub_cancel, range_succ, map_append]
      simp [Nat.ne_of_gt hlt, Nat.not_lt.mpr (Nat.le_of_lt_succ hlt)]
    · obtain rfl : e = k := by omega
      simp [hbelow e (Nat.le_refl e)]

theorem mul_add_lt_mul {m n i j : ℕ} (hi : i < n) (hj : j < m) : m * i + j < m * n := by
  have hmul : m * (i + 1) ≤ m * n := Nat.mul_le_mul_left m hi
  rw [Nat.mul_add_one] at hmul
  omega

theorem eq_of_mul_add_eq {m a b i j : ℕ} (hi : i < m) (hj : j < m)
    (h : m * a + i = m * b + j) : a = b ∧ i = j := by
  have hdiv : (m * a + i) / m = (m * b + j) / m := by rw [h]
  rw [Nat.mul_add_div (by omega), Nat.mul_add_div (by omega), Nat.div_eq_of_lt hi,
    Nat.div_eq_of_lt hj, Nat.add_zero, Nat.add_zero] at hdiv
  subst hdiv
  exact ⟨rfl, Nat.add_left_cancel h⟩

end BookSim
