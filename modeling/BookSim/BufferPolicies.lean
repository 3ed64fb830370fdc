/-
# BufferPolicies — what the seven policies have in common

The policies are built on one another, so that an operation of one does to its parts what the
operation of another does:

    sharedBuffer     the private and the shared slots, under all policies but `private`
    counter          the number of VCs in use, under the limited policies

For each part there is one lemma for each operation; the policies are taken apart here and nowhere
else.
-/
import BookSim.BufferState

namespace BookSim

open Function (update)

/-! ## The parts -/

/-- The number of VCs in use and the number of VCs, as the limited policies know them. -/
def Policy.counter : Policy → Option (ℤ × ℕ)
  | .limited p | .dynamic p | .shifting p => some (p.activeVCs, p.vcs)
  | _ => none

/-- The class of the object. -/
def Policy.kind : Policy → BufferPolicy
  | .private_ _ => .private_
  | .shared _ => .shared
  | .limited _ => .limited
  | .dynamic _ => .dynamic
  | .shifting _ => .shifting
  | .feedback _ => .feedback
  | .simplefeedback _ => .simplefeedback

/-- The private and the shared slots. -/
def Policy.sharedBuffer : Policy → Option SharedBuffer
  | .private_ _ => none
  | .shared p => some p
  | .limited p | .dynamic p | .shifting p => some p.toSharedBuffer
  | .feedback p => some p.toSharedBuffer
  | .simplefeedback p => some p.toSharedBuffer

/-- The policy leaves the VCs a positive number of slots when one more is taken. -/
def Policy.Shares : Policy → Prop
  | .dynamic p => (0 : ℤ) < { p with activeVCs := p.activeVCs + 1 }.evenShare
  | .shifting p => (0 : ℤ) < { p with activeVCs := p.activeVCs + 1 }.shiftedShare
  | _ => True

section Parts

variable {now : ℤ} {p p' : Policy}

variable {q q' : LimitedBuffer} {cfg : BufferConfig}

theorem LimitedBuffer.takeBuffer_eq_ok (h : q.takeBuffer = .ok q') :
    q' = { q with activeVCs := q.activeVCs + 1 } := by
  rcases ite_ok.mp h with ⟨-, h⟩ | ⟨-, h⟩
  · cases h
  · cases h
    rfl

theorem LimitedBuffer.takeBufferWith_eq_ok {text : String} {share : LimitedBuffer → ℤ}
    (h : q.takeBufferWith text share = .ok q') :
    0 < share { q with activeVCs := q.activeVCs + 1 } ∧ q' = { q with
      activeVCs := q.activeVCs + 1
      maxHeldSlots := share { q with activeVCs := q.activeVCs + 1 } } := by
  obtain ⟨q₁, hq₁, h⟩ := bind_ok.mp h
  obtain rfl := takeBuffer_eq_ok hq₁
  obtain ⟨-, h⟩ := require_ok.mp h
  obtain ⟨hshare, h⟩ := require_ok.mp h
  exact ⟨hshare, (return_ok.mp h).symm⟩

theorem LimitedBuffer.sendingFlit_eq_ok {f : Flit} (h : q.sendingFlit f = .ok q') :
    ∃ sent, q.toSharedBuffer.sendingFlit f = .ok sent ∧ q' = { q with
      toSharedBuffer := sent
      activeVCs := if f.tail then q.activeVCs - 1 else q.activeVCs } := by
  obtain ⟨sent, hsent, h⟩ := bind_ok.mp h
  refine ⟨sent, hsent, ?_⟩
  rcases ite_ok.mp h with ⟨htail, h⟩ | ⟨htail, h⟩
  · rcases ite_ok.mp h with ⟨-, h⟩ | ⟨-, h⟩
    · cases h
    · rw [← return_ok.mp h, if_pos htail]
  · rw [← return_ok.mp h, if_neg htail]

theorem LimitedBuffer.sendingFlitWith_eq_ok {share : LimitedBuffer → ℤ} {f : Flit}
    (h : q.sendingFlitWith share f = .ok q') :
    ∃ sent, q.sendingFlit f = .ok sent ∧ 0 < q'.maxHeldSlots ∧ q' = { sent with
      maxHeldSlots := if f.tail ∧ sent.activeVCs ≠ 0 then share sent else sent.maxHeldSlots } := by
  obtain ⟨sent, hsent, h⟩ := bind_ok.mp h
  obtain ⟨hlimit, rfl⟩ := require_return_ok.mp h
  exact ⟨sent, hsent, hlimit, rfl⟩

theorem FeedbackBuffer.sendingFlit_eq_ok {f : Flit} {q q' : FeedbackBuffer}
    (h : q.sendingFlit now f = .ok q') :
    ∃ sent, q.toSharedBuffer.sendingFlit f = .ok sent ∧ q' = { q with
      toSharedBuffer := sent
      flitSentTime := update q.flitSentTime f.vc (q.flitSentTime f.vc ++ [toInt now]) } := by
  obtain ⟨sent, hsent, h⟩ := bind_ok.mp h
  exact ⟨sent, hsent, (return_ok.mp h).symm⟩

theorem FeedbackBuffer.freeSlotFor_eq_ok {vc : ℤ} {available empty : Bool} {q q' : FeedbackBuffer}
    (h : q.freeSlotFor now vc available empty = .ok q') :
    ∃ freed, q.toSharedBuffer.freeSlotFor vc available empty = .ok freed ∧
      ∃ time times, q.flitSentTime vc = time :: times ∧ q' = { q with
        toSharedBuffer := freed
        flitSentTime := update q.flitSentTime vc times
        roundTripTime := update q.roundTripTime vc (q.computeRTT vc (toInt (now - time)))
        occupancyLimit := update q.occupancyLimit vc
          (q.computeLimit (q.computeRTT vc (toInt (now - time)))) } := by
  obtain ⟨freed, hfreed, h⟩ := bind_ok.mp h
  refine ⟨freed, hfreed, ?_⟩
  cases htimes : q.flitSentTime vc with
  | nil =>
    rw [htimes] at h
    cases h
  | cons time times =>
    rw [htimes] at h
    exact ⟨time, times, rfl, (return_ok.mp h).symm⟩

theorem SimpleFeedbackBuffer.sendingFlit_eq_ok {f : Flit} {occupancy : ℤ}
    {q q' : SimpleFeedbackBuffer} (h : q.sendingFlit now f occupancy = .ok q') :
    ∃ sent, q.toSharedBuffer.sendingFlit f = .ok sent ∧ (q.flitSentTime f.vc = [] ∧ q' = { q with
        toSharedBuffer := sent
        flitSentTime := update q.flitSentTime f.vc [toInt now]
        pendingCredits := update q.pendingCredits f.vc (occupancy - 1) } ∨
      q.flitSentTime f.vc ≠ [] ∧ q' = { q with toSharedBuffer := sent }) := by
  rcases ite_ok.mp h with ⟨hnone, h⟩ | ⟨hprobe, h⟩
  · obtain ⟨-, h⟩ := require_ok.mp h
    obtain ⟨q₁, hq₁, h⟩ := bind_ok.mp h
    obtain ⟨sent, hsent, rfl⟩ := FeedbackBuffer.sendingFlit_eq_ok hq₁
    refine ⟨sent, hsent, .inl ⟨hnone, (return_ok.mp h).symm.trans ?_⟩⟩
    rw [hnone, List.nil_append]
  · obtain ⟨sent, hsent, h⟩ := bind_ok.mp h
    exact ⟨sent, hsent, .inr ⟨hprobe, (return_ok.mp h).symm⟩⟩

theorem SimpleFeedbackBuffer.freeSlotFor_eq_ok {vc : ℤ} {available empty : Bool}
    {q q' : SimpleFeedbackBuffer} (h : q.freeSlotFor now vc available empty = .ok q') :
    ∃ freed, q.toSharedBuffer.freeSlotFor vc available empty = .ok freed ∧
      ((∃ time times, q.flitSentTime vc = time :: times ∧ q.pendingCredits vc = 0 ∧ q' = { q with
        toSharedBuffer := freed
        flitSentTime := update q.flitSentTime vc times
        roundTripTime := update q.roundTripTime vc (q.computeRTT vc (toInt (now - time)))
        occupancyLimit := update q.occupancyLimit vc
          (q.computeLimit (q.computeRTT vc (toInt (now - time)))) }) ∨
      (q.flitSentTime vc = [] ∨ q.pendingCredits vc ≠ 0) ∧ q' = { q with
        toSharedBuffer := freed
        pendingCredits := update q.pendingCredits vc (if q.pendingCredits vc > 0
          then q.pendingCredits vc - 1 else q.pendingCredits vc) }) := by
  rcases ite_ok.mp h with ⟨⟨-, hzero⟩, h⟩ | ⟨hother, h⟩
  · obtain ⟨q₁, hq₁, h⟩ := bind_ok.mp h
    obtain ⟨freed, hfreed, time, times, htimes, rfl⟩ := FeedbackBuffer.freeSlotFor_eq_ok hq₁
    exact ⟨freed, hfreed, .inl ⟨time, times, htimes, hzero, (return_ok.mp h).symm⟩⟩
  · obtain ⟨-, h⟩ := require_ok.mp h
    obtain ⟨freed, hfreed, h⟩ := bind_ok.mp h
    refine ⟨freed, hfreed, .inr ⟨?_, (return_ok.mp h).symm⟩⟩
    rwa [not_and_or, not_not] at hother

theorem SharedBuffer.new_bufSize {q : SharedBuffer}
    (h : SharedBuffer.new cfg = .ok q) : q.bufSize = cfg.size := by
  obtain ⟨map, -, h⟩ := bind_ok.mp h
  obtain ⟨-, rfl⟩ := require_return_ok.mp h
  rfl

theorem LimitedBuffer.new_eq_ok {maxHeldSlots : ℤ} {q : LimitedBuffer}
    (h : LimitedBuffer.new cfg maxHeldSlots = .ok q) :
    ∃ p, SharedBuffer.new cfg = .ok p ∧ q = { p with
      vcs := cfg.numVCs
      maxHeldSlots := if maxHeldSlots < 0 then p.bufSize else maxHeldSlots } := by
  obtain ⟨p, hp, h⟩ := bind_ok.mp h
  exact ⟨p, hp, (return_ok.mp h).symm⟩

theorem FeedbackBuffer.new_eq_ok {minLatency : ℤ} {q : FeedbackBuffer}
    (h : FeedbackBuffer.new cfg minLatency = .ok q) :
    ∃ p, SharedBuffer.new cfg = .ok p ∧ q = { p with
      agingScale := cfg.feedbackAgingScale
      offset := cfg.feedbackOffset
      minLatency := minLatency
      occupancyLimit := fun _ => p.bufSize } := by
  obtain ⟨p, hp, h⟩ := bind_ok.mp h
  exact ⟨p, hp, (return_ok.mp h).symm⟩

theorem Policy.new_eq_ok {minLatency : ℤ}
    (h : Policy.new cfg minLatency = .ok p) : (∀ c ∈ p.counter, c = (0, cfg.numVCs)) ∧
      (∀ q ∈ p.sharedBuffer, SharedBuffer.new cfg = .ok q) ∧ p.kind = cfg.bufferPolicy := by
  have hlimited : ∀ {maxHeldSlots : ℤ} {q : LimitedBuffer},
      LimitedBuffer.new cfg maxHeldSlots = .ok q →
        (∀ c ∈ (limited q).counter, c = (0, cfg.numVCs)) ∧
        ∀ q' ∈ (limited q).sharedBuffer, SharedBuffer.new cfg = .ok q' := by
    intro maxHeldSlots q hq
    obtain ⟨p, hp, rfl⟩ := LimitedBuffer.new_eq_ok hq
    exact ⟨fun c hc => (Option.some.inj hc).symm, fun q' hq' => Option.some.inj hq' ▸ hp⟩
  have hfeedback : ∀ {q : FeedbackBuffer}, FeedbackBuffer.new cfg minLatency = .ok q →
      ∀ q' ∈ (feedback q).sharedBuffer, SharedBuffer.new cfg = .ok q' := by
    intro q hq
    obtain ⟨p, hp, rfl⟩ := FeedbackBuffer.new_eq_ok hq
    exact fun q' hq' => Option.some.inj hq' ▸ hp
  unfold Policy.new at h
  split at h <;> rename_i hkind
  · obtain ⟨-, rfl⟩ := require_return_ok.mp h
    exact ⟨nofun, nofun, hkind.symm⟩
  all_goals
    obtain ⟨q, hq, rfl⟩ := bind_return_ok.mp h
  · exact ⟨nofun, fun q' hq' => Option.some.inj hq' ▸ hq, hkind.symm⟩
  · exact ⟨(hlimited hq).1, (hlimited hq).2, hkind.symm⟩
  · exact ⟨(hlimited hq).1, (hlimited hq).2, hkind.symm⟩
  · exact ⟨(hlimited hq).1, (hlimited hq).2, hkind.symm⟩
  · exact ⟨nofun, hfeedback hq, hkind.symm⟩
  · exact ⟨nofun, hfeedback hq, hkind.symm⟩

theorem Policy.takeBuffer_eq_ok (h : p.takeBuffer = .ok p') :
    p'.counter = p.counter.map (fun c => (c.1 + 1, c.2)) ∧ p'.sharedBuffer = p.sharedBuffer ∧
      p'.kind = p.kind := by
  cases p with
  | limited q =>
    obtain ⟨q', hq', rfl⟩ := bind_return_ok.mp h
    rw [LimitedBuffer.takeBuffer_eq_ok hq']
    exact ⟨rfl, rfl, rfl⟩
  | dynamic q | shifting q =>
    obtain ⟨q', hq', rfl⟩ := bind_return_ok.mp h
    obtain ⟨-, rfl⟩ := LimitedBuffer.takeBufferWith_eq_ok hq'
    exact ⟨rfl, rfl, rfl⟩
  | _ =>
    cases h
    exact ⟨rfl, rfl, rfl⟩

theorem Policy.sendingFlit_eq_ok {f : Flit} {occupancy : ℤ}
    (h : p.sendingFlit now f occupancy = .ok p') :
    p'.counter = p.counter.map (fun c => (if f.tail then c.1 - 1 else c.1, c.2)) ∧
      p.sharedBuffer.map (·.sendingFlit f) = p'.sharedBuffer.map .ok ∧ p'.kind = p.kind := by
  cases p with
  | private_ size =>
    rcases ite_ok.mp h with ⟨-, h⟩ | ⟨-, h⟩
    · cases h
    · cases h
      exact ⟨rfl, rfl, rfl⟩
  | shared q =>
    obtain ⟨q', hq', rfl⟩ := bind_return_ok.mp h
    exact ⟨rfl, congrArg some hq', rfl⟩
  | limited q =>
    obtain ⟨q', hq', rfl⟩ := bind_return_ok.mp h
    obtain ⟨sent, hsent, rfl⟩ := LimitedBuffer.sendingFlit_eq_ok hq'
    exact ⟨rfl, congrArg some hsent, rfl⟩
  | dynamic q | shifting q =>
    obtain ⟨q', hq', rfl⟩ := bind_return_ok.mp h
    obtain ⟨q₁, hq₁, -, rfl⟩ := LimitedBuffer.sendingFlitWith_eq_ok hq'
    obtain ⟨sent, hsent, rfl⟩ := LimitedBuffer.sendingFlit_eq_ok hq₁
    exact ⟨rfl, congrArg some hsent, rfl⟩
  | feedback q =>
    obtain ⟨q', hq', rfl⟩ := bind_return_ok.mp h
    obtain ⟨sent, hsent, rfl⟩ := FeedbackBuffer.sendingFlit_eq_ok hq'
    exact ⟨rfl, congrArg some hsent, rfl⟩
  | simplefeedback q =>
    obtain ⟨q', hq', rfl⟩ := bind_return_ok.mp h
    obtain ⟨sent, hsent, ⟨-, rfl⟩ | ⟨-, rfl⟩⟩ := SimpleFeedbackBuffer.sendingFlit_eq_ok hq'
    · exact ⟨rfl, congrArg some hsent, rfl⟩
    · exact ⟨rfl, congrArg some hsent, rfl⟩

theorem Policy.freeSlotFor_eq_ok {vc : ℤ} {available empty : Bool}
    (h : p.freeSlotFor now vc available empty = .ok p') :
    p'.counter = p.counter ∧
      p.sharedBuffer.map (·.freeSlotFor vc available empty) = p'.sharedBuffer.map .ok ∧
      p'.kind = p.kind := by
  cases p with
  | private_ size =>
    cases h
    exact ⟨rfl, rfl, rfl⟩
  | feedback q =>
    obtain ⟨q', hq', rfl⟩ := bind_return_ok.mp h
    obtain ⟨freed, hfreed, time, times, -, rfl⟩ := FeedbackBuffer.freeSlotFor_eq_ok hq'
    exact ⟨rfl, congrArg some hfreed, rfl⟩
  | simplefeedback q =>
    obtain ⟨q', hq', rfl⟩ := bind_return_ok.mp h
    obtain ⟨freed, hfreed, ⟨time, times, -, -, rfl⟩ | ⟨-, rfl⟩⟩ :=
      SimpleFeedbackBuffer.freeSlotFor_eq_ok hq'
    · exact ⟨rfl, congrArg some hfreed, rfl⟩
    · exact ⟨rfl, congrArg some hfreed, rfl⟩
  | _ =>
    obtain ⟨freed, hfreed, rfl⟩ := bind_return_ok.mp h
    exact ⟨rfl, congrArg some hfreed, rfl⟩

/-- All that can keep the policy from giving a VC is that there are no more, or that the slots
do not suffice. -/
theorem Policy.takeBuffer_of_counter (hroom : ∀ c ∈ p.counter, 0 ≤ c.1 ∧ c.1 + 1 ≤ c.2) :
    Ends (fun _ => True) (fun fault => fault = .assertion "_max_held_slots > 0" ∧ ¬ p.Shares)
      p.takeBuffer := by
  have htake : ∀ {q : LimitedBuffer}, 0 ≤ q.activeVCs ∧ q.activeVCs + 1 ≤ q.vcs →
      q.takeBuffer = .ok { q with activeVCs := q.activeVCs + 1 } :=
    fun hq => if_neg (not_lt.mpr hq.2)
  have hwith : ∀ text (share : LimitedBuffer → ℤ) {q : LimitedBuffer},
      0 ≤ q.activeVCs ∧ q.activeVCs + 1 ≤ q.vcs →
      Ends (fun _ => True) (fun fault => fault = .assertion "_max_held_slots > 0" ∧
        ¬ 0 < share { q with activeVCs := q.activeVCs + 1 }) (q.takeBufferWith text share) := by
    intro text share q hq
    unfold LimitedBuffer.takeBufferWith
    rw [htake hq]
    refine .require (fun _ => ?_) fun hneg => absurd (Int.lt_add_one_iff.mpr hq.1) hneg
    exact .require (fun _ => .returns _) fun hshare => ⟨rfl, hshare⟩
  cases p with
  | limited q =>
    change Ends _ _ (q.takeBuffer >>= _)
    rw [htake (hroom _ rfl)]
    exact .returns _
  | dynamic q => exact (hwith _ LimitedBuffer.evenShare (hroom _ rfl)).map _
  | shifting q => exact (hwith _ LimitedBuffer.shiftedShare (hroom _ rfl)).map _
  | _ => exact .returns _

end Parts

end BookSim
