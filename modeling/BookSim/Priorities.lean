/-
# Priorities — older flits first?

With an age-based priority a flit should win against all that came later.  The priority is a large
number minus a time, and it is stored in an `int`:

    age            `numeric_limits<int>::max() - time`, at creation
    local_age      the same with the time of arrival at a router
    network_age    `numeric_limits<long long>::max() - _time`, at injection
    sequence       `numeric_limits<int>::max() - _packet_seq_no[source]`, at creation

So what counts is the time modulo 2^32.  The first two are right for times from 0 to 2^31 - 1; a
packet that has waited longer than the simulation runs has an earlier one.  The third starts right
only at time 2^31, and the fourth compares numbers that never change.
-/
import BookSim.Injection
import BookSim.InputBuffer

namespace BookSim

/-! ## In an `int` -/

theorem toInt_max_sub (t : ℤ) : toInt (2 ^ 31 - 1 - t) = 2 ^ 31 - 1 - t % 2 ^ 32 := by
  unfold toInt Int.bmod
  dsimp only
  split <;> omega

theorem toInt_longMax_sub (t : ℤ) : toInt (2 ^ 63 - 1 - t) =
    if 2 ^ 31 ≤ t % 2 ^ 32 then 2 ^ 32 - 1 - t % 2 ^ 32 else -1 - t % 2 ^ 32 := by
  unfold toInt Int.bmod
  dsimp only
  split <;> split <;> omega

/-- Both priorities are assigned, none is negative, and the first is the higher one. -/
def HigherFirst (x y : Except Fault ℤ) : Prop :=
  ∃ p q, x = .ok p ∧ y = .ok q ∧ 0 ≤ p ∧ 0 ≤ q ∧ q < p

theorem higherFirst_iff {x y : Except Fault ℤ} {p q : ℤ} (hx : ∀ p', x = .ok p' ↔ 0 ≤ p ∧ p' = p)
    (hy : ∀ q', y = .ok q' ↔ 0 ≤ q ∧ q' = q) : HigherFirst x y ↔ 0 ≤ q ∧ q < p := by
  constructor
  · rintro ⟨p', q', hp', hq', -, hnonneg, hlt⟩
    obtain ⟨-, rfl⟩ := (hx p').mp hp'
    obtain ⟨-, rfl⟩ := (hy q').mp hq'
    exact ⟨hnonneg, hlt⟩
  · rintro ⟨hq, hlt⟩
    have hp := hq.trans hlt.le
    exact ⟨p, q, (hx p).mpr ⟨hp, rfl⟩, (hy q).mpr ⟨hq, rfl⟩, hp, hq, hlt⟩

theorem checked_eq_ok {e : Fault} {p p' : ℤ} :
    (do require e (0 ≤ p); return p) = .ok p' ↔ 0 ≤ p ∧ p' = p := by
  rw [require_ok]
  exact and_congr_right fun _ => return_ok.trans eq_comm

/-! ## Each of the four -/

/-- `AddFlit`, and the priority of the flit that was added. -/
def VC.addedPri (cfg : VCConfig) (now : ℤ) (v : VC) (f : Flit) : Except Fault ℤ := do
  let v ← v.addFlit cfg now f
  return (v.buffer.getLast?.map Flit.pri).getD 0

theorem VC.addedPri_eq_ok {cfg : VCConfig} {now p : ℤ} {v : VC} {f : Flit}
    (hpri : cfg.priType = .local_age_based)
    (hexpected : 0 ≤ v.expectedPid → (f.pid : ℤ) = v.expectedPid) :
    v.addedPri cfg now f = .ok p ↔
      0 ≤ 2 ^ 31 - 1 - now % 2 ^ 32 ∧ p = 2 ^ 31 - 1 - now % 2 ^ 32 := by
  have harrival : arrivalPri cfg now f = 2 ^ 31 - 1 - now % 2 ^ 32 := by
    rw [arrivalPri, hpri]
    exact toInt_max_sub now
  have hlast : ∀ e pid pri, ((updatePriority cfg { v with
      expectedPid := pid, buffer := v.buffer ++ [{ f with pri := pri }], entered :=
        e }).buffer.getLast?.map Flit.pri).getD 0 = pri := by
    intro e pid pri
    simp [updatePriority]
  unfold addedPri addFlit
  rw [require_bind hexpected, harrival]
  constructor
  · intro h
    obtain ⟨v', hv', h⟩ := bind_ok.mp h
    obtain ⟨hnonneg, rfl⟩ := require_return_ok.mp hv'
    exact ⟨hnonneg hpri, (return_ok.mp h).symm.trans (hlast _ _ _)⟩
  · rintro ⟨hnonneg, rfl⟩
    refine bind_ok.mpr ⟨_, require_bind (fun _ => hnonneg) _, ?_⟩
    exact congrArg Except.ok (hlast _ _ _)

namespace TrafficManager

variable {cfg : TrafficConfig} {tm : TrafficManager} {source cl : ℕ} {t p : ℤ} {f : Flit}

theorem packetPri_age (hpri : cfg.priType = .age_based) : packetPri cfg tm source cl t = .ok p ↔
      0 ≤ 2 ^ 31 - 1 - t % 2 ^ 32 ∧ p = 2 ^ 31 - 1 - t % 2 ^ 32 := by
  rw [packetPri, hpri]
  dsimp only
  rw [toInt_max_sub]
  exact checked_eq_ok

theorem injectedPri_network (hpri : cfg.priType = .network_age_based) :
    injectedPri cfg t f = .ok p ↔ 0 ≤ toInt (2 ^ 63 - 1 - t) ∧ p = toInt (2 ^ 63 - 1 - t) := by
  rw [injectedPri, if_pos hpri, hpri]
  simp only [forall_const]
  exact checked_eq_ok

theorem packetPri_sequence (hpri : cfg.priType = .sequence_based) (hseq : tm.packetSeqNo source = 0)
    (h : packetPri cfg tm source cl t = .ok p) : p = 2 ^ 31 - 1 := by
  rw [packetPri, hpri] at h
  dsimp only at h
  rw [hseq] at h
  exact (checked_eq_ok.mp h).2

/-! ## Runs -/

/-- The states that are reached by any calls, in any order. -/
inductive Reached (cfg : TrafficConfig) (actualNode : ℕ → ℕ) : TrafficManager → Prop
  | new (bufs : ℕ → ℕ → BufferState) (gEndVCs : ℕ → ℤ) : Reached cfg actualNode (new bufs gEndVCs)
  | generate {tm tm' : TrafficManager} {source size cl : ℕ} {dest time : ℤ} {pid : Option ℕ} :
      Reached cfg actualNode tm → generatePacket cfg tm source dest size cl time = .ok (tm', pid) →
      Reached cfg actualNode tm'
  | retire {tm : TrafficManager} : Reached cfg actualNode tm →
      Reached cfg actualNode (retirePacket cfg actualNode tm).1
  | step {tm tm' : TrafficManager} {net : NetworkSide} {sent : List (ℕ × ℕ × Flit)} :
      Reached cfg actualNode tm → step cfg actualNode net tm = .ok (tm', sent) →
      Reached cfg actualNode tm'

theorem injectAt_packetSeqNo {net : NetworkSide} {s s' : TrafficManager × List (ℕ × ℕ × Flit)}
    {place : ℕ × ℕ} (h : injectAt cfg net s place = .ok s') :
    s'.1.packetSeqNo = s.1.packetSeqNo := by
  obtain ⟨⟨queues, best⟩, -, h⟩ := bind_ok.mp h
  cases best with
  | none =>
    obtain rfl := return_ok.mp h
    rfl
  | some f =>
    obtain ⟨⟨tm', g⟩, hsend, h⟩ := bind_ok.mp h
    obtain rfl := return_ok.mp h
    obtain ⟨-, -, -, -, -, rfl, -⟩ := sendFlit_eq_ok hsend
    rfl

theorem step_packetSeqNo {actualNode : ℕ → ℕ} {net : NetworkSide} {tm' : TrafficManager}
    {sent : List (ℕ × ℕ × Flit)} (h : step cfg actualNode net tm = .ok (tm', sent)) :
    tm'.packetSeqNo = tm.packetSeqNo := by
  obtain ⟨received, hreceive, h⟩ := bind_ok.mp h
  obtain ⟨injected, hinject, h⟩ := bind_ok.mp h
  obtain ⟨retired, hretire, h⟩ := bind_ok.mp h
  cases return_ok.mp h
  have hinjected : injected.1.packetSeqNo = received.packetSeqNo :=
    inv_of_foldlM_eq_ok (I := fun s => s.1.packetSeqNo = received.packetSeqNo) hinject
      (fun _ _ _ _ hs hsame => (injectAt_packetSeqNo hs).trans hsame) rfl
  have hretired : retired.packetSeqNo = injected.1.packetSeqNo :=
    inv_of_foldlM_eq_ok (I := fun tm => tm.packetSeqNo = injected.1.packetSeqNo) hretire
      (fun _ _ _ _ hu hsame => (congrArg packetSeqNo (retireFlit_frame hu)).trans hsame) rfl
  have hreceived : received.packetSeqNo = tm.packetSeqNo := by rw [receiveCredits_frame hreceive]
  exact hretired.trans (hinjected.trans hreceived)

theorem Reached.packetSeqNo {actualNode : ℕ → ℕ} (h : Reached cfg actualNode tm) :
    ∀ source, tm.packetSeqNo source = 0 := by
  induction h with
  | new bufs gEndVCs => exact fun _ => rfl
  | generate _ hgen ih =>
    rcases generatePacket_eq_ok hgen with ⟨-, rfl⟩ | ⟨-, pri, rfl⟩
    · exact ih
    · exact ih
  | retire _ ih =>
    rwa [retirePacket_frame]
  | step _ hstep ih =>
    rwa [step_packetSeqNo hstep]

/-- **Older flits first**: of two flits with times `t₁` and `t₂` (of creation, of arrival at a
router, of injection) both get a priority that is not negative, and the first the higher one, if and
only if `t₁` comes first modulo 2^32 and both are in the half of the range where the result is not
negative. Sequence numbers never put one packet before another, whenever they are generated. -/
theorem older_first_iff (t₁ t₂ : ℤ) :
    (∀ (cfg : TrafficConfig) (tm₁ tm₂ : TrafficManager) (source₁ source₂ cl₁ cl₂ : ℕ),
      cfg.priType = .age_based →
      (HigherFirst (packetPri cfg tm₁ source₁ cl₁ t₁) (packetPri cfg tm₂ source₂ cl₂ t₂) ↔
        t₁ % 2 ^ 32 < t₂ % 2 ^ 32 ∧ t₂ % 2 ^ 32 < 2 ^ 31)) ∧
    (∀ (cfg : VCConfig) (v₁ v₂ : VC) (f₁ f₂ : Flit), cfg.priType = .local_age_based →
      (0 ≤ v₁.expectedPid → (f₁.pid : ℤ) = v₁.expectedPid) →
      (0 ≤ v₂.expectedPid → (f₂.pid : ℤ) = v₂.expectedPid) →
      (HigherFirst (v₁.addedPri cfg t₁ f₁) (v₂.addedPri cfg t₂ f₂) ↔
        t₁ % 2 ^ 32 < t₂ % 2 ^ 32 ∧ t₂ % 2 ^ 32 < 2 ^ 31)) ∧
    (∀ (cfg : TrafficConfig) (f₁ f₂ : Flit), cfg.priType = .network_age_based →
      (HigherFirst (injectedPri cfg t₁ f₁) (injectedPri cfg t₂ f₂) ↔
        2 ^ 31 ≤ t₁ % 2 ^ 32 ∧ t₁ % 2 ^ 32 < t₂ % 2 ^ 32)) ∧
    ∀ (cfg : TrafficConfig) (actualNode : ℕ → ℕ) (tm₁ tm₂ : TrafficManager)
      (source₁ source₂ cl₁ cl₂ : ℕ), cfg.priType = .sequence_based → Reached cfg actualNode tm₁ →
      Reached cfg actualNode tm₂ →
      ¬ HigherFirst (packetPri cfg tm₁ source₁ cl₁ t₁) (packetPri cfg tm₂ source₂ cl₂ t₂) := by
  refine ⟨fun cfg tm₁ tm₂ source₁ source₂ cl₁ cl₂ hpri => ?_, fun cfg v₁ v₂ f₁ f₂ hpri h₁ h₂ => ?_,
    fun cfg f₁ f₂ hpri => ?_, fun cfg actualNode tm₁ tm₂ source₁ source₂ cl₁ cl₂ hpri h₁ h₂ => ?_⟩
  · rw [higherFirst_iff (fun p => packetPri_age hpri) fun p => packetPri_age hpri]
    omega
  · rw [higherFirst_iff (fun p => VC.addedPri_eq_ok hpri h₁) fun p => VC.addedPri_eq_ok hpri h₂]
    omega
  · rw [higherFirst_iff (fun p => injectedPri_network hpri) fun p => injectedPri_network hpri,
      toInt_longMax_sub, toInt_longMax_sub]
    have hrange₁ := Int.emod_nonneg t₁ (b := 2 ^ 32) (by decide)
    have hrange₂ := Int.emod_lt_of_pos t₂ (b := 2 ^ 32) (by decide)
    split <;> split <;> omega
  · rintro ⟨p, q, hp, hq, -, -, hlt⟩
    rw [packetPri_sequence hpri (h₁.packetSeqNo source₁) hp,
      packetPri_sequence hpri (h₂.packetSeqNo source₂) hq] at hlt
    exact lt_irrefl _ hlt

/-- One node; priorities of the given type. -/
def prioritized (priType : PriorityType) : TrafficConfig := { sharedVC with priType := priType }

/-- A packet created at time 3 goes before one created at time 5. -/
theorem older_first_early :
    let tm := new (fun _ _ => fourSlots) fun _ => 0
    HigherFirst (packetPri (prioritized .age_based) tm 0 0 3)
      (packetPri (prioritized .age_based) tm 0 0 5) :=
  ((older_first_iff 3 5).1 _ _ _ 0 0 0 0 rfl).mpr (by decide)

/-- At time 0 a packet that has waited for one cycle fails the assertion, and so does every
injection with `network_age`; at time 2^31 so does an arrival with `local_age`.  At time 2^32 a
packet gets a higher priority than one of time 1, and the second packet with `sequence` the same as
the first. -/
theorem older_first_fails :
    let tm := new (fun _ _ => fourSlots) fun _ => 0
    let f : Flit := { id := 0, pid := 0, cl := 0, src := 0, dest := 0 }
    let failed : Except Fault ℤ := .error (.assertion "f->pri >= 0")
    packetPri (prioritized .age_based) tm 0 0 (0 - 1) = failed ∧
    injectedPri (prioritized .network_age_based) 0 f = failed ∧
    VC.addedPri { priType := .local_age_based } (2 ^ 31) {} f = failed ∧
    (packetPri (prioritized .age_based) tm 0 0 1 = .ok (2 ^ 31 - 2) ∧
      packetPri (prioritized .age_based) tm 0 0 (2 ^ 32) = .ok (2 ^ 31 - 1)) ∧
    ∃ tm', generatePacket (prioritized .sequence_based) tm 0 0 1 0 0 = .ok (tm', some 0) ∧
      packetPri (prioritized .sequence_based) tm 0 0 0 = .ok (2 ^ 31 - 1) ∧
      packetPri (prioritized .sequence_based) tm' 0 0 0 = .ok (2 ^ 31 - 1) :=
  ⟨rfl, rfl, rfl, ⟨rfl, rfl⟩, _, rfl, rfl, rfl⟩

end TrafficManager

end BookSim
