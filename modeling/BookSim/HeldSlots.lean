/-
# HeldSlots — limits that depend on the number of VCs in use

Under the dynamic and the shifting policy no VC may hold more than `_max_held_slots` slots, which
is computed anew whenever a VC is taken or left:

    dynamic      the buffer divided by the number of VCs in use
    shifting     the buffer halved once for each binary digit of that number less one

Both are shares: as many as there are VCs in use fit into the buffer.  The even share is at least
one slot as long as there are no more VCs than slots; the shifted one need not be, since the halving
rounds the number of VCs up to a power of two.
-/
import BookSim.BufferUse
import Mathlib.Algebra.Order.Ring.Int
import Mathlib.Data.Nat.Size
import Mathlib.Tactic.Positivity

namespace BookSim

open Function (update)

/-! ## The shares -/

namespace LimitedBuffer

theorem halved_eq (fuel : ℕ) :
    ∀ (i : ℕ) (slots : ℤ), i ≤ fuel → halved fuel i slots = slots / 2 ^ i.size := by
  induction fuel with
  | zero =>
    intro i slots hi
    rw [Nat.le_zero.mp hi, Nat.size_zero, pow_zero, Int.ediv_one]
    rfl
  | succ fuel ih =>
    intro i slots hi
    rw [halved]
    split
    · next hzero => rw [hzero, Nat.size_zero, pow_zero, Int.ediv_one]
    · next hpos =>
        have hsize : i.size = (i / 2).size + 1 := by
          have hbit : Nat.bit i.bodd i.div2 ≠ 0 := by rwa [Nat.bit_bodd_div2]
          have hsize := Nat.size_bit hbit
          rwa [Nat.bit_bodd_div2, Nat.div2_val] at hsize
        rw [ih (i / 2) (slots / 2) (by omega), hsize, pow_succ',
          Int.ediv_ediv_of_nonneg (by decide)]

/-- A rule for the limit, from the slots and the number of VCs in use. -/
inductive Share where
  | even | shifted
  deriving DecidableEq, Repr

/-- The share of each of `active` VCs in a buffer with `size` slots. -/
def Share.of (size : ℤ) (active : ℕ) : Share → ℤ
  | even => size / active
  | shifted => size / 2 ^ (active - 1).size

theorem evenShare_eq {p : LimitedBuffer} {active : ℕ} (h : p.activeVCs = active) :
    p.evenShare = Share.even.of p.bufSize active := by
  rw [evenShare, h]
  rfl

theorem shiftedShare_eq {p : LimitedBuffer} {active : ℕ} (h : p.activeVCs = active) :
    p.shiftedShare = Share.shifted.of p.bufSize active := by
  rw [shiftedShare, halved_eq _ _ _ le_rfl, h]
  congr 3
  omega

theorem Share.of_mul_le {size : ℤ} (hsize : 0 ≤ size) {active : ℕ} (hactive : active ≠ 0)
    (share : Share) : share.of size active * active ≤ size := by
  cases share with
  | even => exact Int.ediv_mul_le size (by omega)
  | shifted =>
    have hpow : (active : ℤ) ≤ 2 ^ (active - 1).size := by
      have := Nat.lt_size_self (active - 1)
      exact_mod_cast (by omega : active ≤ 2 ^ (active - 1).size)
    calc size / 2 ^ (active - 1).size * active
        ≤ size / 2 ^ (active - 1).size * 2 ^ (active - 1).size :=
          mul_le_mul_of_nonneg_left hpow (Int.ediv_nonneg hsize (by positivity))
      _ ≤ size := Int.ediv_mul_le size (by positivity)

/-- The slots suffice for a share of `active` VCs each. -/
def Share.Suffices (size : ℤ) (active : ℕ) : Share → Prop
  | even => active ≤ size
  | shifted => 2 ^ (active - 1).size ≤ size

theorem Share.of_pos {size : ℤ} {active : ℕ} (hactive : active ≠ 0) (share : Share) :
    0 < share.of size active ↔ share.Suffices size active := by
  cases share with
  | even =>
    rw [of, Int.lt_iff_add_one_le, Int.le_ediv_iff_mul_le (by omega)]
    simp [Suffices]
  | shifted =>
    rw [of, Int.lt_iff_add_one_le, Int.le_ediv_iff_mul_le (by positivity)]
    simp [Suffices]

theorem Share.Suffices.mono {size : ℤ} {active active' : ℕ} {share : Share}
    (h : share.Suffices size active) (hle : active' ≤ active) : share.Suffices size active' := by
  cases share with
  | even =>
    have : (active : ℤ) ≤ size := h
    show (active' : ℤ) ≤ size
    omega
  | shifted =>
    refine le_trans ?_ h
    exact pow_le_pow_right₀ (by decide) (Nat.size_le_size (Nat.sub_le_sub_right hle 1))

end LimitedBuffer

/-! ## The two policies as one -/

open LimitedBuffer (Share)

/-- How a policy computes the share. -/
def LimitedBuffer.Share.rule : Share → LimitedBuffer → ℤ
  | even => evenShare
  | shifted => shiftedShare

theorem LimitedBuffer.Share.rule_eq (share : Share) {p : LimitedBuffer} {active : ℕ}
    (h : p.activeVCs = active) : share.rule p = share.of p.bufSize active := by
  cases share with
  | even => exact evenShare_eq h
  | shifted => exact shiftedShare_eq h

def LimitedBuffer.Share.text : Share → String
  | even => "_active_vcs > 0"
  | shifted => "_active_vcs"

def LimitedBuffer.Share.kind : Share → BufferPolicy
  | even => .dynamic
  | shifted => .shifting

namespace Policy

/-- The policy with a changing limit. -/
def ration : Share → LimitedBuffer → Policy
  | .even => dynamic
  | .shifted => shifting

variable (share : Share) (q : LimitedBuffer)

theorem new_ration {cfg : BufferConfig} (hkind : cfg.bufferPolicy = share.kind) (minLatency : ℤ) :
    new cfg minLatency = do return ration share (← LimitedBuffer.new cfg (-1)) := by
  unfold new
  rw [hkind]
  cases share with
  | even | shifted => rfl

theorem takeBuffer_ration :
    (ration share q).takeBuffer =
      do return ration share (← q.takeBufferWith share.text share.rule) := by
  cases share with
  | even | shifted => rfl

theorem sendingFlit_ration (now : ℤ) (f : Flit) (occupancy : ℤ) :
    (ration share q).sendingFlit now f occupancy =
      do return ration share (← q.sendingFlitWith share.rule f) := by
  cases share with
  | even | shifted => rfl

theorem freeSlotFor_ration (now vc : ℤ) (available empty : Bool) :
    (ration share q).freeSlotFor now vc available empty = do
      let freed ← q.toSharedBuffer.freeSlotFor vc available empty
      return ration share { q with toSharedBuffer := freed } := by
  cases share with
  | even | shifted => rfl

end Policy

/-- The faults of the limits. -/
def Fault.OfLimit (e : Fault) : Prop :=
  e = .tooManyActiveVCs ∨ e = .activeVCsBelowZero ∨ e = .assertion "_active_vcs > 0" ∨
    e = .assertion "_max_held_slots > 0"

theorem Fault.OfSlots.not_ofLimit {e : Fault} (h : e.OfSlots) : ¬ e.OfLimit := by
  rintro (rfl | rfl | rfl | rfl)
  all_goals exact h.elim

/-! ## In every run -/

namespace SharedBuffer

variable {p p' : SharedBuffer} {vc : ℤ}

theorem processFreeSlot_bufSize (h : p.processFreeSlot vc = .ok p') : p'.bufSize = p.bufSize := by
  rcases ite_ok.mp h with ⟨-, h⟩ | ⟨-, h⟩
  · cases h
  · grind

theorem freeSlotFor_bufSize {available empty : Bool}
    (h : p.freeSlotFor vc available empty = .ok p') : p'.bufSize = p.bufSize := by
  rcases ite_ok.mp h with ⟨-, h⟩ | ⟨-, h⟩
  · cases h
    rfl
  · exact processFreeSlot_bufSize h

theorem takeSlot_bufSize (h : p.takeSlot vc = .ok p') : p'.bufSize = p.bufSize := by
  rcases ite_ok.mp h with ⟨-, h⟩ | ⟨-, h⟩
  · cases h
    rfl
  · grind

theorem releaseReserved_bufSize {n : ℕ} :
    ∀ {p : SharedBuffer}, releaseReserved vc n p = .ok p' → p'.bufSize = p.bufSize := by
  induction n with
  | zero =>
    intro p h
    cases h
    rfl
  | succ n ih =>
    intro p h
    obtain ⟨p₁, hp₁, h⟩ := bind_ok.mp h
    have hfreed := processFreeSlot_bufSize hp₁
    exact (ih h).trans hfreed

theorem sendingFlit_bufSize {f : Flit} (h : p.sendingFlit f = .ok p') : p'.bufSize = p.bufSize := by
  obtain ⟨p₁, hp₁, h⟩ := bind_ok.mp h
  rcases ite_ok.mp h with ⟨-, h⟩ | ⟨-, h⟩
  · exact (releaseReserved_bufSize h).trans (takeSlot_bufSize hp₁)
  · obtain rfl := return_ok.mp h
    exact takeSlot_bufSize hp₁

end SharedBuffer

/-- The limit is the share of the VCs that are held; when none is, it is what it was before. -/
structure Rationed (cfg : BufferConfig) (share : Share) (q : LimitedBuffer) (u : Usage) : Prop where
  bufSize : q.bufSize = cfg.size
  vcs : q.vcs = cfg.numVCs
  active : q.activeVCs = u.held.card
  limit_pos : 0 < q.maxHeldSlots
  limit : u.held.card ≠ 0 → q.maxHeldSlots = share.of cfg.size u.held.card

namespace Rationed

variable {cfg : BufferConfig} {share : Share} {q q' : LimitedBuffer} {u : Usage}

theorem new (hsize : 0 < cfg.size) (h : LimitedBuffer.new cfg (-1) = .ok q) :
    Rationed cfg share q {} := by
  obtain ⟨p, hp, rfl⟩ := LimitedBuffer.new_eq_ok h
  have hbuf := SharedBuffer.new_bufSize hp
  exact ⟨hbuf, rfl, rfl, hbuf.symm ▸ hsize, fun hheld => absurd Finset.card_empty hheld⟩

theorem take (h : Rationed cfg share q u) {vc tag : ℤ} (hvc : vc ∉ u.held)
    (htake : q.takeBufferWith share.text share.rule = .ok q') :
    Rationed cfg share q' ((BufferOp.take vc tag).record u) := by
  obtain ⟨hpos, rfl⟩ := LimitedBuffer.takeBufferWith_eq_ok htake
  have hcard : (insert vc u.held).card = u.held.card + 1 := Finset.card_insert_of_notMem hvc
  have hactive : q.activeVCs + 1 = ((insert vc u.held).card : ℕ) := by
    rw [hcard, h.active]
    rfl
  refine ⟨h.bufSize, h.vcs, hactive, hpos, fun _ => ?_⟩
  exact (share.rule_eq hactive).trans (congrArg (share.of · _) h.bufSize)

theorem send (h : Rationed cfg share q u) {now : ℤ} {f : Flit} (hheld : f.vc ∈ u.held)
    (hsend : q.sendingFlitWith share.rule f = .ok q') :
    Rationed cfg share q' ((BufferOp.send now f).record u) := by
  obtain ⟨q₁, hq₁, hpos, rfl⟩ := LimitedBuffer.sendingFlitWith_eq_ok hsend
  obtain ⟨sent, hsent, rfl⟩ := LimitedBuffer.sendingFlit_eq_ok hq₁
  have hbuf : sent.bufSize = cfg.size := (SharedBuffer.sendingFlit_bufSize hsent).trans h.bufSize
  by_cases htail : f.tail = true
  · have hcard : (u.held.erase f.vc).card + 1 = u.held.card := Finset.card_erase_add_one hheld
    have hactive : q.activeVCs - 1 = ((u.held.erase f.vc).card : ℕ) := by
      rw [h.active]
      omega
    have hrecord : ((BufferOp.send now f).record u).held = u.held.erase f.vc := if_pos htail
    refine ⟨hbuf, h.vcs, ?_, hpos, fun hne => ?_⟩
    · rw [hrecord]
      exact (if_pos htail).trans hactive
    · rw [hrecord] at hne ⊢
      have hopen : (if f.tail = true then q.activeVCs - 1 else q.activeVCs) ≠ 0 := by
        rw [if_pos htail, hactive]
        exact Int.natCast_ne_zero.mpr hne
      refine (if_pos ⟨htail, hopen⟩).trans ((share.rule_eq ((if_pos htail).trans hactive)).trans ?_)
      exact congrArg (share.of · _) hbuf
  · have hrecord : ((BufferOp.send now f).record u).held = u.held := if_neg htail
    refine ⟨hbuf, h.vcs, ?_, hpos, fun hne => ?_⟩
    · rw [hrecord]
      exact (if_neg htail).trans h.active
    · rw [hrecord] at hne ⊢
      exact (if_neg fun hopen => htail hopen.1).trans (h.limit hne)

theorem credit (h : Rationed cfg share q u) {now vc : ℤ} {available empty : Bool}
    {freed : SharedBuffer} (hfreed : q.toSharedBuffer.freeSlotFor vc available empty = .ok freed) :
    Rationed cfg share { q with toSharedBuffer := freed } ((BufferOp.credit now vc).record u) where
  bufSize := (SharedBuffer.freeSlotFor_bufSize hfreed).trans h.bufSize
  vcs := h.vcs
  active := h.active
  limit_pos := h.limit_pos
  limit := h.limit

theorem fair (h : Rationed cfg share q u) (hsize : 0 ≤ cfg.size) (hactive : 0 < q.activeVCs) :
    q.maxHeldSlots * q.activeVCs ≤ cfg.size := by
  have hne : u.held.card ≠ 0 := by
    have := h.active
    omega
  rw [h.limit hne, h.active]
  exact share.of_mul_le hsize hne

end Rationed

/-- The policy of `b` has a limit as it should be. -/
def BufferState.Rations (cfg : BufferConfig) (share : Share) (b : BufferState) (u : Usage) : Prop :=
  ∃ q, b.policy = .ration share q ∧ Rationed cfg share q u

theorem LegalUse.rations {cfg : BufferConfig} {share : Share} {b : BufferState} {u : Usage}
    (hkind : cfg.bufferPolicy = share.kind) (hsize : 0 < cfg.size) (h : LegalUse cfg b u) :
    b.Rations cfg share u := by
  refine h.inv (fun minLatency b hb => ?_) fun b b' u o ⟨q, hq, hration⟩ hlegal hrun => ?_
  · obtain ⟨policy, hpolicy, rfl⟩ := bind_return_ok.mp hb
    rw [Policy.new_ration share hkind] at hpolicy
    obtain ⟨q, hq, hpolicy⟩ := bind_ok.mp hpolicy
    exact ⟨q, (return_ok.mp hpolicy).symm, .new hsize hq⟩
  · cases o with
    | take vc tag =>
      obtain ⟨-, -, policy, hpolicy, rfl⟩ := BufferState.takeBuffer_eq_ok hrun
      rw [hq, Policy.takeBuffer_ration] at hpolicy
      obtain ⟨q', hq', hpolicy⟩ := bind_ok.mp hpolicy
      exact ⟨q', (return_ok.mp hpolicy).symm, hration.take hlegal.2.2 hq'⟩
    | send now f =>
      obtain ⟨-, -, policy, hpolicy, rfl⟩ := BufferState.sendingFlit_eq_ok hrun
      rw [hq, Policy.sendingFlit_ration] at hpolicy
      obtain ⟨q', hq', hpolicy⟩ := bind_ok.mp hpolicy
      exact ⟨q', (return_ok.mp hpolicy).symm, hration.send hlegal.1 hq'⟩
    | credit now vc =>
      obtain ⟨-, -, -, -, -, -, -, -, -, hpolicy⟩ := BufferState.processCreditFor_eq_ok hrun
      rw [hq, Policy.freeSlotFor_ration] at hpolicy
      obtain ⟨freed, hfreed, hpolicy⟩ := bind_ok.mp hpolicy
      exact ⟨_, (return_ok.mp hpolicy).symm, hration.credit hfreed⟩

/-! ## The assertions -/

namespace Rationed

variable {cfg : BufferConfig} {share : Share} {q : LimitedBuffer} {u : Usage}

theorem held_suffices (h : Rationed cfg share q u) (hne : u.held.card ≠ 0) :
    share.Suffices cfg.size u.held.card :=
  (share.of_pos hne).mp (h.limit hne ▸ h.limit_pos)

theorem shares_iff (h : Rationed cfg share q u) :
    (Policy.ration share q).Shares ↔ share.Suffices cfg.size (u.held.card + 1) := by
  have hactive : ({ q with activeVCs := q.activeVCs + 1 } : LimitedBuffer).activeVCs =
      ((u.held.card + 1 : ℕ) : ℤ) := by
    rw [Nat.cast_succ, ← h.active]
  rw [← share.of_pos (Nat.succ_ne_zero _), ← h.bufSize]
  cases share with
  | even => exact (congrArg (0 < ·) (LimitedBuffer.evenShare_eq hactive)).to_iff
  | shifted => exact (congrArg (0 < ·) (LimitedBuffer.shiftedShare_eq hactive)).to_iff

theorem take_ends (h : Rationed cfg share q u) (hroom : u.held.card + 1 ≤ cfg.numVCs) :
    Ends (fun _ => True) (fun e => e = .assertion "_max_held_slots > 0" ∧
      ¬ share.Suffices cfg.size (u.held.card + 1)) (Policy.ration share q).takeBuffer := by
  have hcounter : (Policy.ration share q).counter = some (q.activeVCs, q.vcs) := by
    cases share with
    | even | shifted => rfl
  refine (Policy.takeBuffer_of_counter fun c hc => ?_).mono (fun _ => id) fun e he =>
    ⟨he.1, fun hsuff => he.2 (h.shares_iff.mpr hsuff)⟩
  obtain rfl := Option.some.inj (hcounter.symm.trans hc)
  simp only [h.active, h.vcs]
  omega

theorem send_ends (h : Rationed cfg share q u) {f : Flit} (hheld : f.vc ∈ u.held) :
    Ends (fun _ => True) (fun e => ¬ e.OfLimit) (q.sendingFlitWith share.rule f) := by
  have hpos : 0 < u.held.card := Finset.card_pos.mpr ⟨_, hheld⟩
  unfold LimitedBuffer.sendingFlitWith
  have hsent : Ends (fun q₁ => q.sendingFlit f = .ok q₁) (fun e => ¬ e.OfLimit)
      (q.sendingFlit f) := by
    refine Ends.eq_ok (P := fun _ => True) ?_
    refine ((q.toSharedBuffer.sendingFlit_counts f).mono (fun _ => id)
      fun _ => Fault.OfSlots.not_ofLimit).bind fun sent _ => .ite (fun _ => ?_) fun _ => .returns _
    exact .ite (fun hneg => absurd (h.active ▸ hneg) (by omega)) fun _ => .returns _
  refine hsent.bind fun q₁ hq₁ => .require (fun _ => .returns _) fun hlimit => absurd ?_ hlimit
  obtain ⟨sent, hslots, rfl⟩ := LimitedBuffer.sendingFlit_eq_ok hq₁
  by_cases hopen : f.tail = true ∧ (if f.tail = true then q.activeVCs - 1 else q.activeVCs) ≠ 0
  · rw [if_pos hopen]
    have hactive : (if f.tail = true then q.activeVCs - 1 else q.activeVCs) =
        ((u.held.card - 1 : ℕ) : ℤ) := by
      rw [if_pos hopen.1, h.active]
      omega
    have hne : u.held.card - 1 ≠ 0 := fun hzero => hopen.2 (by rw [hactive, hzero]; rfl)
    rw [share.rule_eq hactive, share.of_pos hne, SharedBuffer.sendingFlit_bufSize hslots, h.bufSize]
    exact (h.held_suffices hpos.ne').mono (Nat.sub_le _ _)
  · rw [if_neg hopen]
    exact h.limit_pos

end Rationed
section Limits

variable {cfg : BufferConfig} {share : Share} {b : BufferState} {u : Usage}

theorem Accounts.card_held_lt (h : Accounts cfg b u) {vc : ℤ} (hvc : vc ∈ below cfg.numVCs)
    (hheld : vc ∉ u.held) : u.held.card + 1 ≤ cfg.numVCs := by
  rw [← Finset.card_insert_of_notMem hheld, ← card_below cfg.numVCs]
  refine Finset.card_le_card fun v hv => ?_
  rcases Finset.mem_insert.mp hv with rfl | hv
  · exact hvc
  · exact h.held v hv

theorem LegalUse.take_ends (h : LegalUse cfg b u) (hkind : cfg.bufferPolicy = share.kind)
    (hsize : 0 < cfg.size) {vc tag : ℤ} (hlegal : (BufferOp.take vc tag).Legal b u) :
    Ends (fun _ => True) (fun e => e = .assertion "_max_held_slots > 0" ∧
      ¬ share.Suffices cfg.size (u.held.card + 1)) (b.takeBuffer vc tag) := by
  obtain ⟨q, hq, hration⟩ := h.rations hkind hsize
  have hroom := h.accounts.card_held_lt (h.accounts.isVC.mp hlegal.1) hlegal.2.2
  refine .require (fun _ => ?_) fun hvc => absurd hlegal.1 hvc
  refine .require (fun _ => ?_) fun hused => absurd (of_decide_eq_true hlegal.2.1) hused
  rw [hq]
  exact (hration.take_ends hroom).map _

theorem LegalUse.limit_ends (h : LegalUse cfg b u) (hkind : cfg.bufferPolicy = share.kind)
    (hsize : 0 < cfg.size) (hsuff : share.Suffices cfg.size cfg.numVCs) {o : BufferOp}
    (hlegal : o.Legal b u) : Ends (fun _ => True) (fun e => ¬ e.OfLimit) (o.run b) := by
  obtain ⟨q, hq, hration⟩ := h.rations hkind hsize
  cases o with
  | take vc tag =>
    refine (h.take_ends hkind hsize hlegal).mono (fun _ => id) fun e he => absurd ?_ he.2
    exact hsuff.mono (h.accounts.card_held_lt (h.accounts.isVC.mp hlegal.1) hlegal.2.2)
  | send now f =>
    refine .require (fun _ => .require (fun _ => ?_) fun _ => by simp [Fault.OfLimit])
      fun _ => by simp [Fault.OfLimit]
    rw [hq, Policy.sendingFlit_ration]
    exact ((hration.send_ends hlegal.1).map _).map _
  | credit now vc =>
    refine .require (fun _ => .require (fun _ => .require (fun _ => .require (fun _ => ?_)
      fun _ => ?_) fun _ => ?_) fun _ => ?_) fun _ => ?_
    · extract_lets releases freed
      rw [hq, Policy.freeSlotFor_ration]
      refine Ends.map (Ends.map (Ends.mono (q.toSharedBuffer.freeSlotFor_counts vc _ _)
        (fun _ => id) fun _ => Fault.OfSlots.not_ofLimit) _) _
    all_goals simp [Fault.OfLimit]

theorem exists_all_held (hkind : cfg.bufferPolicy = share.kind) (hsize : 0 < cfg.size)
    {minLatency : ℤ} (hmin : 0 ≤ minLatency) (hnew : Returns (BufferState.new cfg minLatency))
    (hall : ∀ b u, LegalUse cfg b u → ∀ o : BufferOp, o.Legal b u →
      Ends (fun _ => True) (fun e => ¬ e.OfLimit) (o.run b)) (k : ℕ) (hk : k ≤ cfg.numVCs) :
    ∃ b u, LegalUse cfg b u ∧ u.held = below k ∧ ∀ vc : ℤ, k ≤ vc → b.inUseBy vc < 0 := by
  induction k with
  | zero =>
    obtain ⟨b, hb, -⟩ := hnew.exists_ok
    refine ⟨b, {}, .new hmin hb, rfl, fun vc _ => ?_⟩
    obtain ⟨policy, -, rfl⟩ := bind_return_ok.mp hb
    exact neg_one_lt_zero
  | succ k ih =>
    obtain ⟨b, u, huse, hheld, hfree⟩ := ih (by omega)
    have hlegal : (BufferOp.take k 0).Legal b u := by
      refine ⟨huse.accounts.isVC.mpr (mem_below.mpr ⟨by omega, by omega⟩), ?_, ?_⟩
      · exact decide_eq_true (hfree k le_rfl)
      · rw [hheld, mem_below]
        omega
    have hboth : Ends (fun _ => True) (fun _ => False) (b.takeBuffer k 0) := by
      cases htake : b.takeBuffer k 0 with
      | ok b' => exact .returns b'
      | error e =>
        have he := ((huse.take_ends hkind hsize hlegal).of_eq_error htake).1
        exact absurd (.inr (.inr (.inr he))) ((hall b u huse _ hlegal).of_eq_error htake)
    obtain ⟨b', hb', -⟩ := hboth.exists_ok
    refine ⟨b', _, huse.op hlegal hb', ?_, fun vc hvc => ?_⟩
    · ext v
      rw [BufferOp.record, Finset.mem_insert, hheld, mem_below, mem_below]
      omega
    · obtain ⟨-, -, policy, -, rfl⟩ := BufferState.takeBuffer_eq_ok hb'
      exact (congrArg (· < 0) (Function.update_of_ne (by omega) ..)).mpr (hfree vc (by omega))

end Limits
/-- The limit is at least one slot, and those of the VCs in use fit into the buffer. -/
def LimitedBuffer.Usable (cfg : BufferConfig) (q : LimitedBuffer) (u : Usage) : Prop :=
  1 ≤ q.maxHeldSlots ∧ q.activeVCs = u.held.card ∧
    (0 < q.activeVCs → q.maxHeldSlots * q.activeVCs ≤ cfg.size)

/-- The limits of the two policies are usable in every run, and their assertions hold, exactly when
the halving of the shifting policy leaves a slot to as many VCs as there are. -/
theorem heldSlots_usable_iff {cfg : BufferConfig}
    (hpolicy : cfg.bufferPolicy = .dynamic ∨ cfg.bufferPolicy = .shifting)
    (hvcs : 1 ≤ cfg.numVCs) (hsize : cfg.numVCs ≤ cfg.size) {minLatency : ℤ} (hmin : 0 ≤ minLatency)
    (hnew : Returns (BufferState.new cfg minLatency)) :
    (∀ b u, LegalUse cfg b u →
      (∃ q, (b.policy = .dynamic q ∨ b.policy = .shifting q) ∧ q.Usable cfg u) ∧
      ∀ o : BufferOp, o.Legal b u → Ends (fun _ => True) (fun e => ¬ e.OfLimit) (o.run b)) ↔
    cfg.bufferPolicy = .dynamic ∨ 2 ^ (cfg.numVCs - 1).size ≤ cfg.size := by
  obtain ⟨share, hkind⟩ : ∃ share : Share, cfg.bufferPolicy = share.kind := by
    rcases hpolicy with hpolicy | hpolicy
    · exact ⟨.even, hpolicy⟩
    · exact ⟨.shifted, hpolicy⟩
  have hpos : 0 < cfg.size := by omega
  have hsuff : share.Suffices cfg.size cfg.numVCs ↔
      cfg.bufferPolicy = .dynamic ∨ 2 ^ (cfg.numVCs - 1).size ≤ cfg.size := by
    rw [hkind]
    cases share with
    | even => exact ⟨fun _ => .inl rfl, fun _ => hsize⟩
    | shifted => exact ⟨.inr, fun h => h.resolve_left (by decide)⟩
  rw [← hsuff]
  constructor
  · intro hall
    obtain ⟨b, u, huse, hheld, -⟩ := exists_all_held hkind hpos hmin hnew
      (fun b u huse => (hall b u huse).2) cfg.numVCs le_rfl
    obtain ⟨q, -, hration⟩ := huse.rations hkind hpos
    have hcard : u.held.card = cfg.numVCs := by rw [hheld, card_below]
    exact hcard ▸ hration.held_suffices (by omega)
  · intro hsuff b u huse
    obtain ⟨q, hq, hration⟩ := huse.rations hkind hpos
    refine ⟨⟨q, ?_, hration.limit_pos, hration.active, hration.fair hpos.le⟩,
      fun o => huse.limit_ends hkind hpos hsuff⟩
    cases share with
    | even => exact .inl hq
    | shifted => exact .inr hq

theorem heldSlots_usable_four :
    let cfg : BufferConfig := { numVCs := 3, bufSize := 4, bufferPolicy := .shifting }
    ∀ b u, LegalUse cfg b u →
      (∃ q, (b.policy = .dynamic q ∨ b.policy = .shifting q) ∧ q.Usable cfg u) ∧
      ∀ o : BufferOp, o.Legal b u → Ends (fun _ => True) (fun e => ¬ e.OfLimit) (o.run b) := by
  intro cfg
  obtain ⟨b, hb, -⟩ := exists_of_returns (p := fun _ => true) (x := BufferState.new cfg 0)
    (by decide +kernel)
  refine (heldSlots_usable_iff (.inr rfl) ?_ ?_ le_rfl (hb ▸ .returns b)).mpr (.inr ?_)
  · decide
  · decide
  · decide

/-- Three VCs and three slots: with the third VC the limit of the shifting policy is zero. -/
theorem shiftedShare_of_three :
    let cfg : BufferConfig := { numVCs := 3, bufSize := 3, bufferPolicy := .shifting }
    ∃ b u, LegalUse cfg b u ∧ (BufferOp.take 2 9).Legal b u ∧
      b.takeBuffer 2 9 = .error (.assertion "_max_held_slots > 0") := by
  intro cfg
  exact LegalUse.exists_stop (o := .take 2 9) le_rfl
    (by decide +kernel : returns _ (BufferOp.play cfg 0 [.take 0 7, .take 1 8]) = true)

end BookSim
