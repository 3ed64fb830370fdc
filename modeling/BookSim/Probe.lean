/-
# Probe — the round trips that the simple feedback policy measures

The simple feedback policy measures round trips with one flit of a VC at a time, the probe.  It
does not mark the flit; it counts the flits that are out before it (`_pending_credits`) and takes
the credit that comes when all of those have come back for that of the probe.

`ProbeUse` marks each flit, when it is sent, by whether it is a probe.  The credits of a VC come
back in the order its flits were sent, so that what the policy knows of a VC is

    no probe is out            no time is kept and nothing is pending
    before ++ t :: after       the probe was sent at `t`; `before` are pending

and the credit it samples is that of the flit whose time it has kept.  The time is kept in an `int`.
-/
import BookSim.BufferUse

namespace BookSim

open Function (update update_of_ne update_self)

/-! ## The probe of a VC -/

/-- What is known of the probe of a VC: the times kept, the credits pending, when the flits that
are out were sent, and which of them are probes. -/
inductive ProbeState : List ℤ → ℤ → List ℤ → List Bool → Prop
  | none (sent : List ℤ) : ProbeState [] 0 sent (.replicate sent.length false)
  | out (before : List ℤ) (t : ℤ) (after : List ℤ) :
      ProbeState [toInt t] before.length (before ++ t :: after)
        (.replicate before.length false ++ true :: .replicate after.length false)

namespace ProbeState

variable {times : List ℤ} {pending : ℤ} {sent : List ℤ} {marks : List Bool}

theorem pending_eq_zero (h : ProbeState [] pending sent marks) : pending = 0 := by
  cases h with
  | none => rfl

theorem send_probe (h : ProbeState [] pending sent marks) (now : ℤ) :
    ProbeState [toInt now] sent.length (sent ++ [now]) (marks ++ [true]) := by
  cases h with
  | none => exact .out sent now []

theorem send_other (h : ProbeState times pending sent marks) (htimes : times ≠ []) (now : ℤ) :
    ProbeState times pending (sent ++ [now]) (marks ++ [false]) := by
  cases h with
  | none => exact absurd rfl htimes
  | out before t after =>
    have hout := ProbeState.out before t (after ++ [now])
    simpa [List.replicate_succ'] using hout

theorem credit_probe (h : ProbeState times 0 sent marks) (htimes : times ≠ []) :
    ∃ t, times = [toInt t] ∧ sent.head? = some t ∧ marks.head? = some true ∧
      ProbeState [] 0 sent.tail marks.tail := by
  generalize hpending : (0 : ℤ) = pending at h
  cases h with
  | none => exact absurd rfl htimes
  | out before t after =>
    obtain rfl : before = [] := List.length_eq_zero_iff.mp (Int.ofNat_inj.mp hpending.symm)
    exact ⟨t, rfl, rfl, rfl, .none after⟩

theorem credit_other (h : ProbeState times pending sent marks) (hsent : sent ≠ [])
    (hother : times = [] ∨ pending ≠ 0) : marks.head? = some false ∧
      ProbeState times (if pending > 0 then pending - 1 else pending) sent.tail marks.tail := by
  cases h with
  | none =>
    obtain ⟨t, sent, rfl⟩ := List.exists_cons_of_ne_nil hsent
    exact ⟨rfl, .none sent⟩
  | out before t after =>
    cases before with
    | nil => simp at hother
    | cons s before =>
      refine ⟨rfl, ?_⟩
      rw [if_pos (by simp)]
      simpa using ProbeState.out before t after

end ProbeState
/-! ## In every run -/

/-- The policy sends the next flit on `vc` as a probe. -/
def Policy.probesNext (vc : ℤ) : Policy → Bool
  | .simplefeedback q => q.flitSentTime vc = []
  | _ => false

/-- Which of the flits that are out are probes, after the operation. -/
def BufferOp.mark (b : BufferState) (marks : ℤ → List Bool) : BufferOp → ℤ → List Bool
  | take _ _ => marks
  | send _ f => update marks f.vc (marks f.vc ++ [b.policy.probesNext f.vc])
  | credit _ vc => update marks vc (marks vc).tail

/-- Legal use in which the flits are marked by whether they are probes. -/
inductive ProbeUse (cfg : BufferConfig) : BufferState → Usage → (ℤ → List Bool) → Prop
  | new {minLatency : ℤ} {b : BufferState} : 0 ≤ minLatency →
      BufferState.new cfg minLatency = .ok b → ProbeUse cfg b {} fun _ => []
  | op {b b' : BufferState} {u : Usage} {marks : ℤ → List Bool} {o : BufferOp} :
      ProbeUse cfg b u marks → o.Legal b u → o.run b = .ok b' →
      ProbeUse cfg b' (o.record u) (o.mark b marks)

variable {cfg : BufferConfig} {b b' : BufferState} {u : Usage} {marks : ℤ → List Bool}

theorem ProbeUse.legalUse (h : ProbeUse cfg b u marks) : LegalUse cfg b u := by
  induction h with
  | new hmin hb => exact .new hmin hb
  | op _ hlegal hrun ih => exact .op ih hlegal hrun

theorem LegalUse.exists_probeUse (h : LegalUse cfg b u) : ∃ marks, ProbeUse cfg b u marks := by
  induction h with
  | new hmin hb => exact ⟨_, .new hmin hb⟩
  | op _ hlegal hrun ih =>
    obtain ⟨marks, ih⟩ := ih
    exact ⟨_, .op ih hlegal hrun⟩

/-- The policy knows of its probes what there is to know. -/
structure Probing (q : SimpleFeedbackBuffer) (u : Usage) (marks : ℤ → List Bool) : Prop where
  minLatency : 0 ≤ q.minLatency
  probe : ∀ vc, ProbeState (q.flitSentTime vc) (q.pendingCredits vc) (u.sent vc) (marks vc)

namespace Probing

variable {q q' : SimpleFeedbackBuffer} {now : ℤ}

theorem send {f : Flit} {occupancy : ℤ} (h : Probing q u marks)
    (hocc : occupancy = (u.sent f.vc).length + 1) (hb : b.policy = .simplefeedback q)
    (hsend : q.sendingFlit now f occupancy = .ok q') :
    Probing q' ((BufferOp.send now f).record u) ((BufferOp.send now f).mark b marks) := by
  have hprobes : b.policy.probesNext f.vc = decide (q.flitSentTime f.vc = []) := by
    rw [hb]
    rfl
  have hprobe := h.probe f.vc
  obtain ⟨sent, -, ⟨hnone, rfl⟩ | ⟨hout, rfl⟩⟩ := SimpleFeedbackBuffer.sendingFlit_eq_ok hsend
  · refine ⟨h.minLatency, fun vc => ?_⟩
    rw [hnone] at hprobe
    simp only [BufferOp.record, BufferOp.mark, hprobes, hnone, decide_true]
    by_cases hvc : vc = f.vc
    · subst hvc
      simp only [update_self, hocc, add_sub_cancel_right]
      exact hprobe.send_probe now
    · simp only [update_of_ne hvc]
      exact h.probe vc
  · refine ⟨h.minLatency, fun vc => ?_⟩
    simp only [BufferOp.record, BufferOp.mark, hprobes, hout, decide_false]
    by_cases hvc : vc = f.vc
    · subst hvc
      simp only [update_self]
      exact hprobe.send_other hout now
    · simp only [update_of_ne hvc]
      exact h.probe vc

theorem credit {vc : ℤ} {available empty : Bool} (h : Probing q u marks) (hsent : u.sent vc ≠ [])
    (hfree : q.freeSlotFor now vc available empty = .ok q') :
    Probing q' ((BufferOp.credit now vc).record u) ((BufferOp.credit now vc).mark b marks) ∧
      ((∃ t, (u.sent vc).head? = some t ∧ (marks vc).head? = some true ∧
        q.flitSentTime vc = [toInt t] ∧ q'.roundTripTime =
          update q.roundTripTime vc (q.computeRTT vc (toInt (now - toInt t)))) ∨
      (marks vc).head? = some false ∧ q'.roundTripTime = q.roundTripTime) := by
  have hprobe := h.probe vc
  obtain ⟨freed, -, ⟨time, times, htimes, hzero, rfl⟩ | ⟨hother, rfl⟩⟩ :=
    SimpleFeedbackBuffer.freeSlotFor_eq_ok hfree
  · rw [hzero, htimes] at hprobe
    obtain ⟨t, htime, hhead, hmark, hnext⟩ := hprobe.credit_probe (List.cons_ne_nil _ _)
    obtain ⟨rfl, rfl⟩ := List.cons.inj htime
    refine ⟨⟨h.minLatency, fun v => ?_⟩, .inl ⟨t, hhead, hmark, htimes, rfl⟩⟩
    simp only [BufferOp.record, BufferOp.mark]
    by_cases hv : v = vc
    · subst hv
      simpa only [update_self, hzero] using hnext
    · simp only [update_of_ne hv]
      exact h.probe v
  · obtain ⟨hmark, hnext⟩ := hprobe.credit_other hsent hother
    refine ⟨⟨h.minLatency, fun v => ?_⟩, .inr ⟨hmark, rfl⟩⟩
    simp only [BufferOp.record, BufferOp.mark]
    by_cases hv : v = vc
    · subst hv
      simpa only [update_self] using hnext
    · simp only [update_of_ne hv]
      exact h.probe v

end Probing

theorem Policy.new_simplefeedback {minLatency : ℤ} {p : Policy}
    (hpolicy : cfg.bufferPolicy = .simplefeedback) (h : Policy.new cfg minLatency = .ok p) :
    ∃ q, p = .simplefeedback q ∧ q.minLatency = minLatency ∧ (∀ vc, q.flitSentTime vc = []) ∧
      ∀ vc, q.pendingCredits vc = 0 := by
  unfold Policy.new at h
  rw [hpolicy] at h
  obtain ⟨q, hq, h⟩ := bind_ok.mp h
  obtain ⟨p, -, rfl⟩ := FeedbackBuffer.new_eq_ok hq
  exact ⟨_, (return_ok.mp h).symm, rfl, fun _ => rfl, fun _ => rfl⟩

theorem ProbeUse.probing (hpolicy : cfg.bufferPolicy = .simplefeedback)
    (h : ProbeUse cfg b u marks) : ∃ q, b.policy = .simplefeedback q ∧ Probing q u marks := by
  induction h with
  | new hmin hb =>
    obtain ⟨policy, hpolicy', rfl⟩ := bind_return_ok.mp hb
    obtain ⟨q, hq, hlatency, htimes, hpending⟩ := Policy.new_simplefeedback hpolicy hpolicy'
    refine ⟨q, hq, hlatency.symm ▸ hmin, fun vc => ?_⟩
    rw [htimes, hpending]
    exact .none []
  | @op b b' u marks o huse hlegal hrun ih =>
    obtain ⟨q, hq, hprobing⟩ := ih
    cases o with
    | take vc tag =>
      obtain ⟨-, -, policy, hnext, rfl⟩ := BufferState.takeBuffer_eq_ok hrun
      rw [hq] at hnext
      cases hnext
      exact ⟨q, rfl, hprobing.minLatency, hprobing.probe⟩
    | send now f =>
      obtain ⟨-, -, policy, hnext, rfl⟩ := BufferState.sendingFlit_eq_ok hrun
      rw [hq] at hnext
      obtain ⟨q', hq', hnext⟩ := bind_ok.mp hnext
      refine ⟨q', (return_ok.mp hnext).symm, hprobing.send ?_ hq hq'⟩
      rw [huse.legalUse.accounts.vcOccupancy]
    | credit now vc =>
      obtain ⟨-, -, -, -, -, -, -, -, -, hnext⟩ := BufferState.processCreditFor_eq_ok hrun
      rw [hq] at hnext
      obtain ⟨q', hq', hnext⟩ := bind_ok.mp hnext
      exact ⟨q', (return_ok.mp hnext).symm, (hprobing.credit hlegal hq').1⟩

/-! ## The assertions and the samples -/

/-- The assertions of the simple feedback policy and of `FreeSlotFor` of the feedback policy. -/
def Fault.OfProbe (e : Fault) : Prop :=
  e = .assertion "_buffer_state->OccupancyFor(vc) > 0" ∨
    e = .assertion "!_flit_sent_time[vc].empty()"

theorem Fault.OfSlots.not_ofProbe {e : Fault} (h : e.OfSlots) : ¬ e.OfProbe := by
  rintro (rfl | rfl)
  all_goals exact h.elim

namespace Probing

variable {q : SimpleFeedbackBuffer} {now : ℤ}

theorem send_ends {f : Flit} {occupancy : ℤ} (hpos : 0 < occupancy) :
    Ends (fun _ => True) (fun e => ¬ e.OfProbe) (q.sendingFlit now f occupancy) := by
  have hslots : Ends (fun _ => True) (fun e => ¬ e.OfProbe) (q.toSharedBuffer.sendingFlit f) :=
    (q.toSharedBuffer.sendingFlit_counts f).mono (fun _ => id) fun _ => Fault.OfSlots.not_ofProbe
  refine .ite (fun _ => .require (fun _ => ?_) fun hocc => absurd hpos hocc) fun _ => ?_
  · exact (hslots.map _).map _
  · exact hslots.map _

theorem credit_ends {vc : ℤ} {available empty : Bool} (h : Probing q u marks) :
    Ends (fun _ => True) (fun e => ¬ e.OfProbe) (q.freeSlotFor now vc available empty) := by
  have hslots : Ends (fun _ => True) (fun e => ¬ e.OfProbe)
      (q.toSharedBuffer.freeSlotFor vc available empty) :=
    (q.toSharedBuffer.freeSlotFor_counts vc available empty).mono (fun _ => id)
      fun _ => Fault.OfSlots.not_ofProbe
  refine .ite (fun hout => ?_) fun _ => .require (fun _ => hslots.map _) fun hnone =>
    absurd ?_ hnone
  · refine Ends.map (hslots.bind fun freed _ => ?_) _
    cases htimes : q.flitSentTime vc with
    | nil => exact absurd htimes hout.1
    | cons time times => exact .returns _
  · intro hpending hnil
    exact hpending.ne' (hnil ▸ h.probe vc).pending_eq_zero

end Probing

theorem ProbeUse.probe_ends (hpolicy : cfg.bufferPolicy = .simplefeedback)
    (h : ProbeUse cfg b u marks) {o : BufferOp} (hlegal : o.Legal b u) :
    Ends (fun _ => True) (fun e => ¬ e.OfProbe) (o.run b) := by
  obtain ⟨q, hq, hprobing⟩ := h.probing hpolicy
  cases o with
  | take vc tag =>
    refine .require (fun _ => .require (fun _ => ?_) fun _ => by simp [Fault.OfProbe])
      fun _ => by simp [Fault.OfProbe]
    rw [hq]
    exact .returns _
  | send now f =>
    refine .require (fun _ => .require (fun _ => ?_) fun _ => by simp [Fault.OfProbe])
      fun _ => by simp [Fault.OfProbe]
    have hocc := h.legalUse.accounts.vcOccupancy_nonneg f.vc
    rw [hq]
    exact ((Probing.send_ends (by omega)).map _).map _
  | credit now vc =>
    refine .require (fun _ => .require (fun _ => .require (fun _ => .require (fun _ => ?_)
      fun _ => ?_) fun _ => ?_) fun _ => ?_) fun _ => ?_
    · extract_lets releases freed
      rw [hq]
      exact (hprobing.credit_ends.map _).map _
    all_goals simp [Fault.OfProbe]

/-- `last_rtt` of `FreeSlotFor`. -/
def FeedbackBuffer.sample (q : FeedbackBuffer) (now vc : ℤ) : ℤ :=
  toInt (now - (q.flitSentTime vc).headD 0)

theorem toInt_sub_toInt (x y : ℤ) : toInt (x - toInt y) = toInt (x - y) := by
  unfold toInt
  exact Int.sub_bmod_bmod

/-- At most one flit of a VC is a probe, the policy has kept the time of that one only, and it waits
for the credits of the flits before it. -/
def SimpleFeedbackBuffer.TracksProbe (q : SimpleFeedbackBuffer) (vc : ℤ) (sent : List ℤ)
    (marks : List Bool) : Prop :=
  marks.length = sent.length ∧ marks.count true ≤ 1 ∧
    (q.flitSentTime vc).length = marks.count true ∧
    (true ∈ marks → q.pendingCredits vc = marks.idxOf true)

theorem ProbeState.tracksProbe {q : SimpleFeedbackBuffer} {vc : ℤ} {sent : List ℤ}
    {marks : List Bool} (h : ProbeState (q.flitSentTime vc) (q.pendingCredits vc) sent marks) :
    q.TracksProbe vc sent marks := by
  unfold SimpleFeedbackBuffer.TracksProbe
  generalize q.flitSentTime vc = times at h
  generalize q.pendingCredits vc = pending at h
  cases h with
  | none => simp [List.count_replicate]
  | out before t after => simp [List.count_replicate, List.idxOf_append]

/-- The probe is tracked in every run and no assertion fails.  A credit updates the estimate when it
is that of the probe, and only then; the sample is the round trip of that flit exactly when it
fits an `int`. -/
theorem probe_round_trip (hpolicy : cfg.bufferPolicy = .simplefeedback)
    (h : ProbeUse cfg b u marks) :
    ∃ q, b.policy = .simplefeedback q ∧ 0 ≤ q.minLatency ∧
      (∀ vc, q.TracksProbe vc (u.sent vc) (marks vc)) ∧
      (∀ o : BufferOp, o.Legal b u → Ends (fun _ => True) (fun e => ¬ e.OfProbe) (o.run b)) ∧
      ∀ now vc b', u.sent vc ≠ [] → b.processCreditFor now vc = .ok b' →
        ∃ q', b'.policy = .simplefeedback q' ∧
          ((marks vc).head? = some false → q'.roundTripTime = q.roundTripTime) ∧
          ((marks vc).head? = some true → q'.roundTripTime =
            update q.roundTripTime vc (q.computeRTT vc (q.sample now vc)) ∧
            ∀ t, (u.sent vc).head? = some t →
              (q.sample now vc = now - t ↔ -2 ^ 31 ≤ now - t ∧ now - t < 2 ^ 31)) := by
  obtain ⟨q, hq, hprobing⟩ := h.probing hpolicy
  refine ⟨q, hq, hprobing.minLatency, fun vc => (hprobing.probe vc).tracksProbe,
    fun o => h.probe_ends hpolicy, fun now vc b' hsent hrun => ?_⟩
  obtain ⟨-, -, -, -, -, -, -, -, -, hnext⟩ := BufferState.processCreditFor_eq_ok hrun
  rw [hq] at hnext
  obtain ⟨q', hq', hnext⟩ := bind_ok.mp hnext
  refine ⟨q', (return_ok.mp hnext).symm, ?_⟩
  obtain ⟨-, ⟨t, hhead, hmark, htimes, hestimate⟩ | ⟨hmark, hestimate⟩⟩ :=
    hprobing.credit (b := b) hsent hq'
  · have hsample : q.sample now vc = toInt (now - toInt t) := by
      rw [FeedbackBuffer.sample, htimes]
      rfl
    refine ⟨fun hnot => absurd (hmark.symm.trans hnot) (by simp), fun _ => ⟨?_, fun t' ht' => ?_⟩⟩
    · rw [hsample, hestimate]
    · obtain rfl := Option.some.inj (hhead.symm.trans ht')
      rw [hsample, toInt_sub_toInt, toInt_eq_self_iff]
  · exact ⟨fun _ => hestimate, fun hnot => absurd (hmark.symm.trans hnot) (by simp)⟩

theorem probe_round_trip_first :
    let cfg : BufferConfig := { numVCs := 1, bufSize := 4, bufferPolicy := .simplefeedback }
    ∃ b u marks q, ProbeUse cfg b u marks ∧ u.sent 0 = [4, 8] ∧ b.policy = .simplefeedback q ∧
      (q.flitSentTime 0).length = (marks 0).count true := by
  intro cfg
  let f : Flit := { id := 0, pid := 0, cl := 0, src := 0, dest := 0, vc := 0 }
  -- the credit for the first probe lets the next one go, behind a flit that is no probe
  obtain ⟨⟨b, u⟩, hplay, hsent⟩ := exists_of_returns
    (x := BufferOp.play cfg 5 [.take 0 7, .send 3 f, .send 4 f, .credit 6 0, .send 8 f])
    (p := fun s : BufferState × Usage => decide (s.2.sent 0 = [4, 8])) (by decide +kernel)
  obtain ⟨marks, huse⟩ := (LegalUse.of_play (by decide) hplay).exists_probeUse
  obtain ⟨q, hq, -, htracks, -⟩ := probe_round_trip rfl huse
  exact ⟨b, u, marks, q, huse, of_decide_eq_true hsent, hq, (htracks 0).2.2.1⟩

/-- A flit is out for `2 ^ 31` cycles; the time it took is taken to be negative. -/
theorem sample_wraps :
    let cfg : BufferConfig := { numVCs := 1, bufSize := 4, bufferPolicy := .simplefeedback }
    ∃ b u b' q, LegalUse cfg b u ∧ u.sent 0 = [0] ∧ b.processCreditFor (2 ^ 31) 0 = .ok b' ∧
      b'.policy = .simplefeedback q ∧ q.roundTripTime 0 = -2 ^ 31 := by
  intro cfg
  let f : Flit := { id := 0, pid := 0, cl := 0, src := 0, dest := 0, vc := 0 }
  obtain ⟨⟨b, u⟩, hplay, hnext⟩ :=
    exists_of_returns (x := BufferOp.play cfg 1 [.take 0 7, .send 0 f])
    (p := fun s : BufferState × Usage => decide (s.2.sent 0 = [0]) &&
      returns (fun b' => match b'.policy with
        | .simplefeedback q => decide (q.roundTripTime 0 = -2 ^ 31)
        | _ => false) (s.1.processCreditFor (2 ^ 31) 0)) (by decide +kernel)
  obtain ⟨hsent, hcredit⟩ := Bool.and_eq_true_iff.mp hnext
  obtain ⟨b', hb', hpolicy⟩ := exists_of_returns hcredit
  refine ⟨b, u, b', ?_⟩
  split at hpolicy
  · next q hq =>
      exact ⟨q, .of_play (by decide) hplay, of_decide_eq_true hsent, hb', hq,
        of_decide_eq_true hpolicy⟩
  · cases hpolicy

end BookSim
