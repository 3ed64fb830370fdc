/-
# DelayLine — a channel in every cycle

In a cycle a channel reads what was sent in the cycle before, may be sent something, and puts what
is due into the output register.  What is sent in cycle `i` should be in the output register in
cycle `i + latency`:

    delayed       what the output register should hold in a cycle
    inFlight      what should be in the wait queue, with the times it is due
    Follows       the channel is as it should be after some cycles

The clock has 64 bits, but the times in the wait queue are stored in an `int`.  A channel is an
exact delay line if and only if all of them fit.
-/
import BookSim.Channel
import Mathlib.Data.List.Range

namespace BookSim

namespace TimedChannel

variable {α : Type}

/-! ## Cycles -/

/-- The cycle at time `now`, in which something may be sent. -/
def cycle (c : TimedChannel α) (now : ℤ) (sent : Option α) : Except Fault (TimedChannel α) :=
  let read := c.readInputs now
  match sent with
  | none => read.writeOutputs now
  | some data => (read.send data).writeOutputs now

/-- Cycles from the time `start` on, and what is in the output register after each. -/
def cycles (c : TimedChannel α) (start : ℤ) (sends : ℕ → Option α) :
    ℕ → Except Fault (TimedChannel α × List (Option α))
  | 0 => .ok (c, [])
  | n + 1 => do
    let (c, outputs) ← cycles c start sends n
    let c ← c.cycle (start + n) (sends n)
    return (c, outputs ++ [c.output])

/-! ## What is in the channel -/

section Contents

variable (latency : ℕ) (start : ℤ) (sends : ℕ → Option α)

/-- What was sent `latency` cycles ago. -/
def delayed (i : ℕ) : Option α := if latency ≤ i then sends (i - latency) else none

/-- What was sent in cycle `i`, with the time it is due as it is stored. -/
def timed (i : ℕ) : Option (ℤ × α) := (sends i).map fun data => (toInt (start + i + latency), data)

/-- What was sent from cycle `i` on, in `k` cycles. -/
def inFlight (i k : ℕ) : List (ℤ × α) := (List.range' i k).filterMap (timed latency start sends)

/-- After `n` cycles: what was sent in the last one is in the input register, and in the wait queue
is what was sent before and is not due yet. -/
structure Follows (n : ℕ) (c : TimedChannel α) : Prop where
  delay : c.delay = latency
  input : c.input = if n = 0 then none else sends (n - 1)
  queue : c.waitQueue = inFlight latency start sends (n - latency) (n - 1 - (n - latency))

end Contents

variable {latency n : ℕ} {start : ℤ} {sends : ℕ → Option α} {c c' : TimedChannel α}

theorem inFlight_succ_left (i k : ℕ) : inFlight latency start sends i (k + 1) =
    (timed latency start sends i).toList ++ inFlight latency start sends (i + 1) k := by
  rw [inFlight, List.range'_succ, List.filterMap_cons]
  cases timed latency start sends i <;> rfl

theorem inFlight_succ_right (i k : ℕ) : inFlight latency start sends i (k + 1) =
    inFlight latency start sends i k ++ (timed latency start sends (i + k)).toList := by
  rw [inFlight, List.range'_concat, List.filterMap_append, Nat.one_mul]
  cases h : timed latency start sends (i + k) with
  | none | some item => simp [inFlight, h]

/-- What is due in cycle `n`. -/
def dueIn (latency : ℕ) (start : ℤ) (sends : ℕ → Option α) (n : ℕ) : Option (ℤ × α) :=
  if latency ≤ n then timed latency start sends (n - latency) else none

theorem dueIn_data : (dueIn latency start sends n).map Prod.snd = delayed latency sends n := by
  unfold dueIn delayed timed
  split
  · cases sends (n - latency) <;> rfl
  · rfl

theorem inFlight_due (hlatency : 1 ≤ latency) (n : ℕ) :
    inFlight latency start sends (n - latency) (n - (n - latency)) =
      (dueIn latency start sends n).toList ++
        inFlight latency start sends (n + 1 - latency) (n - (n + 1 - latency)) := by
  unfold dueIn
  split
  · next hle =>
      have hcount : n - (n - latency) = n - (n + 1 - latency) + 1 := by omega
      have hfrom : n + 1 - latency = n - latency + 1 := by omega
      rw [hcount, inFlight_succ_left, ← hfrom]
  · next hlt =>
      have hfrom : n - latency = n + 1 - latency := by omega
      rw [hfrom]
      rfl

theorem Follows.readInputs (h : Follows latency start sends n c) (hlatency : 1 ≤ latency) :
    (c.readInputs (start + n)).delay = latency ∧ (c.readInputs (start + n)).input = none ∧
      (c.readInputs (start + n)).waitQueue =
        inFlight latency start sends (n - latency) (n - (n - latency)) := by
  have hinput := h.input
  have hqueue := h.queue
  refine ⟨?_, input_readInputs, ?_⟩
  · unfold TimedChannel.readInputs
    split <;> exact h.delay
  · cases n with
    | zero =>
      unfold TimedChannel.readInputs
      rwa [hinput]
    | succ k =>
      have hcount : k + 1 - (k + 1 - latency) = k - (k + 1 - latency) + 1 := by omega
      have hlast : k + 1 - latency + (k - (k + 1 - latency)) = k := by omega
      rw [if_neg (Nat.succ_ne_zero k), Nat.add_sub_cancel] at hinput
      rw [Nat.add_sub_cancel] at hqueue
      rw [hcount, inFlight_succ_right, hlast, timed]
      unfold TimedChannel.readInputs
      rw [hinput]
      cases hsent : sends k with
      | none => exact hqueue.trans (List.append_nil _).symm
      | some data =>
        have hdue : start + ((k + 1 : ℕ) : ℤ) + c.delay - 1 = start + k + latency := by
          rw [h.delay]
          omega
        rw [hqueue, hdue]
        rfl

theorem writeOutputs_of_due {now : ℤ} {due : Option (ℤ × α)} {later : List (ℤ × α)}
    (hqueue : c.waitQueue = due.toList ++ later) (hdue : ∀ item ∈ due, item.1 = now)
    (hlater : ∀ item ∈ later, now < item.1) :
    c.writeOutputs now = .ok { c with output := due.map Prod.snd, waitQueue := later } := by
  unfold TimedChannel.writeOutputs
  rw [hqueue]
  cases due with
  | none =>
    cases later with
    | nil => rfl
    | cons item later => exact if_pos (hlater item List.mem_cons_self)
  | some item =>
    have hnow : item.1 = now := hdue item rfl
    exact (if_neg (by rw [hnow]; exact lt_irrefl _)).trans (require_bind hnow.symm _)

theorem due_of_writeOutputs {now : ℤ} {due : Option (ℤ × α)} {later : List (ℤ × α)}
    (hqueue : c.waitQueue = due.toList ++ later) (h : c.writeOutputs now = .ok c')
    (houtput : c'.output = due.map Prod.snd) :
    (∀ item ∈ due, item.1 = now) ∧
      c' = { c with output := due.map Prod.snd, waitQueue := later } := by
  unfold TimedChannel.writeOutputs at h
  rw [hqueue] at h
  cases due with
  | none =>
    refine ⟨fun _ hitem => absurd hitem (Option.not_mem_none _), ?_⟩
    cases later with
    | nil => exact (Except.ok.inj h).symm
    | cons item later =>
      dsimp only [Option.toList_none, List.nil_append] at h
      split at h
      · rw [← Except.ok.inj h]
        rfl
      · -- something would have been put out
        obtain ⟨-, rfl⟩ := require_return_ok.mp h
        cases houtput
  | some item =>
    dsimp only [Option.toList_some, List.singleton_append] at h
    split at h
    · cases Except.ok.inj h
      cases houtput
    · obtain ⟨hnow, h⟩ := require_ok.mp h
      refine ⟨fun item' hitem => ?_, (return_ok.mp h).symm⟩
      obtain rfl := Option.mem_some.mp hitem
      exact hnow.symm

theorem Follows.cycle_eq (h : Follows latency start sends n c) (hlatency : 1 ≤ latency) :
    ∃ read : TimedChannel α, c.cycle (start + n) (sends n) = read.writeOutputs (start + n) ∧
      read.waitQueue = (dueIn latency start sends n).toList ++
        inFlight latency start sends (n + 1 - latency) (n - (n + 1 - latency)) ∧
      ∀ output, Follows latency start sends (n + 1) { read with
        output := output
        waitQueue := inFlight latency start sends (n + 1 - latency) (n - (n + 1 - latency)) } := by
  obtain ⟨hdelay, hinput, hqueue⟩ := h.readInputs hlatency
  rw [inFlight_due hlatency] at hqueue
  unfold TimedChannel.cycle
  cases hsent : sends n with
  | none =>
    refine ⟨_, rfl, hqueue, fun output => ⟨hdelay, ?_, rfl⟩⟩
    rwa [if_neg (Nat.succ_ne_zero n), Nat.add_sub_cancel, hsent]
  | some data =>
    refine ⟨_, rfl, hqueue, fun output => ⟨hdelay, ?_, rfl⟩⟩
    rw [if_neg (Nat.succ_ne_zero n), Nat.add_sub_cancel, hsent]
    rfl

/-- All times are stored as they are. -/
def DueTimesFit (latency : ℕ) (start : ℤ) (sends : ℕ → Option α) : Prop :=
  ∀ i, (sends i).isSome = true → -2 ^ 31 ≤ start + i + latency ∧ start + i + latency < 2 ^ 31

theorem Follows.cycle (h : Follows latency start sends n c) (hlatency : 1 ≤ latency)
    (hfit : DueTimesFit latency start sends) :
    ∃ c', c.cycle (start + n) (sends n) = .ok c' ∧ c'.output = delayed latency sends n ∧
      Follows latency start sends (n + 1) c' := by
  obtain ⟨read, hcycle, hqueue, hfollows⟩ := h.cycle_eq hlatency
  refine ⟨_, hcycle.trans (writeOutputs_of_due hqueue ?_ ?_), dueIn_data, hfollows _⟩
  · intro item hitem
    unfold dueIn timed at hitem
    split at hitem
    · next hle =>
        obtain ⟨data, hsent, rfl⟩ := Option.map_eq_some_iff.mp hitem
        refine (toInt_eq_self_iff.mpr (hfit _ (by rw [hsent]; rfl))).trans ?_
        omega
    · cases hitem
  · intro item hitem
    obtain ⟨i, hi, hitem⟩ := List.mem_filterMap.mp hitem
    obtain ⟨data, hsent, rfl⟩ := Option.map_eq_some_iff.mp hitem
    have hstored := toInt_eq_self_iff.mpr (hfit i (by rw [hsent]; rfl))
    have hfrom := (List.mem_range'_1.mp hi).1
    show start + n < toInt (start + i + latency)
    omega

theorem Follows.of_output (h : Follows latency start sends n c) (hlatency : 1 ≤ latency)
    (hcycle : c.cycle (start + n) (sends n) = .ok c')
    (houtput : c'.output = delayed latency sends n) : Follows latency start sends (n + 1) c' ∧
      ∀ item ∈ dueIn latency start sends n, item.1 = start + n := by
  obtain ⟨read, heq, hqueue, hfollows⟩ := h.cycle_eq hlatency
  rw [← dueIn_data] at houtput
  obtain ⟨hdue, rfl⟩ := due_of_writeOutputs hqueue (heq.symm.trans hcycle) houtput
  exact ⟨hfollows _, hdue⟩

/-! ## Runs -/

/-- What the output register should hold in each of the first `n` cycles. -/
def delayedOutputs (latency : ℕ) (sends : ℕ → Option α) (n : ℕ) : List (Option α) :=
  (List.range n).map (delayed latency sends)

theorem delayedOutputs_succ (n : ℕ) :
    delayedOutputs latency sends (n + 1) = delayedOutputs latency sends n ++
      [delayed latency sends n] := by
  rw [delayedOutputs, List.range_succ, List.map_append]
  rfl

theorem follows_new : Follows latency start sends 0 { delay := latency } := by
  refine ⟨rfl, rfl, ?_⟩
  rw [Nat.zero_sub]
  rfl

theorem cycles_of_fit (hlatency : 1 ≤ latency) (hfit : DueTimesFit latency start sends) (n : ℕ) :
    ∃ c, cycles { delay := latency } start sends n = .ok (c, delayedOutputs latency sends n) ∧
      Follows latency start sends n c := by
  induction n with
  | zero => exact ⟨_, rfl, follows_new⟩
  | succ n ih =>
    obtain ⟨c, hcycles, hfollows⟩ := ih
    obtain ⟨c', hcycle, houtput, hfollows'⟩ := hfollows.cycle hlatency hfit
    refine ⟨c', ?_, hfollows'⟩
    rw [delayedOutputs_succ, ← houtput]
    exact bind_ok.mpr ⟨_, hcycles, bind_ok.mpr ⟨c', hcycle, rfl⟩⟩

theorem cycles_succ_eq_ok (h : cycles { delay := latency } start sends (n + 1) =
      .ok (c, delayedOutputs latency sends (n + 1))) :
    ∃ c₁, cycles { delay := latency } start sends n = .ok (c₁, delayedOutputs latency sends n) ∧
      c₁.cycle (start + n) (sends n) = .ok c ∧ c.output = delayed latency sends n := by
  rw [delayedOutputs_succ] at h
  obtain ⟨⟨c₁, outputs⟩, hcycles, h⟩ := bind_ok.mp h
  obtain ⟨c₂, hcycle, h⟩ := bind_ok.mp h
  obtain ⟨rfl, houtputs⟩ := Prod.ext_iff.mp (return_ok.mp h)
  obtain ⟨rfl, hlast⟩ := List.append_inj' houtputs rfl
  exact ⟨c₁, hcycles, hcycle, List.head_eq_of_cons_eq hlast⟩

theorem follows_of_cycles (hlatency : 1 ≤ latency)
    (h : cycles { delay := latency } start sends n = .ok (c, delayedOutputs latency sends n)) :
    Follows latency start sends n c := by
  induction n generalizing c with
  | zero =>
    cases h
    exact follows_new
  | succ n ih =>
    obtain ⟨c₁, hcycles, hcycle, houtput⟩ := cycles_succ_eq_ok h
    exact ((ih hcycles).of_output hlatency hcycle houtput).1

/-- **An exact delay line**: for every latency, starting time and schedule, a channel puts out in
every cycle what was sent `latency` cycles ago, and nothing else, and its assertion about the due
time never fails, if and only if all due times fit into an `int`. -/
theorem delay_line_iff (hlatency : 1 ≤ latency) (start : ℤ) (sends : ℕ → Option α) :
    (∀ n, ∃ c, cycles { delay := latency } start sends n =
      .ok (c, delayedOutputs latency sends n)) ↔ DueTimesFit latency start sends := by
  constructor
  · intro hexact i hsent
    obtain ⟨data, hdata⟩ := Option.isSome_iff_exists.mp hsent
    -- in the cycle in which it is due, the time that is stored is that of the clock
    obtain ⟨c, hcycles⟩ := hexact (i + latency + 1)
    obtain ⟨c₁, hcycles₁, hcycle, houtput⟩ := cycles_succ_eq_ok hcycles
    have hdue := ((follows_of_cycles hlatency hcycles₁).of_output hlatency hcycle houtput).2
      (toInt (start + i + latency), data)
      (by rw [dueIn, if_pos (Nat.le_add_left _ _), Nat.add_sub_cancel, timed, hdata]; rfl)
    rw [Nat.cast_add, ← add_assoc] at hdue
    exact toInt_eq_self_iff.mp hdue
  · intro hfit n
    obtain ⟨c, hcycles, -⟩ := cycles_of_fit hlatency hfit n
    exact ⟨c, hcycles⟩

/-- One item sent on a channel of latency 2 at time 7. -/
theorem delay_line_two :
    let sends : ℕ → Option ℕ := fun i => if i = 0 then some 5 else none
    ∃ c, cycles { delay := 2 } 7 sends 4 = .ok (c, [none, none, some 5, none]) := by
  intro sends
  refine (@delay_line_iff ℕ 2 (by decide) 7 sends).mpr (fun i hsent => ?_) 4
  have hi : i = 0 := by
    by_contra hne
    simp [sends, hne] at hsent
  subst hi
  decide

/-- At the last time that fits into an `int`, what is sent has no due time that does. -/
theorem delay_line_overflow :
    let sends : ℕ → Option ℕ := fun i => if i = 0 then some 5 else none
    cycles { delay := 1 } (2 ^ 31 - 1) sends 2 = .error (.assertion "GetSimTime() == time") := by
  intro sends
  rfl

end TimedChannel

end BookSim
