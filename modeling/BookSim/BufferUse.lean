/-
# BufferUse — how a sender may use a buffer state

A sender takes a VC that is free, sends flits on a VC it has taken while that is not full, and
leaves the VC with a tail flit; for each flit it has sent, one credit comes back.

    take      TakeBuffer      the VC is free and nobody is still sending on it
    send      SendingFlit     the VC was taken and is not full
    credit    ProcessCredit   a flit of the VC is still out; one VC of the credit

`Usage` remembers what was done: which VCs are held, and when the flits were sent that are still
out.  A state a sender can get to is a `LegalUse`; what all three operations keep, holds there.
-/
import BookSim.BufferPolicies
import BookSim.Lib.Pool
import BookSim.Lib.Table

namespace BookSim

open Function (update update_of_ne update_self)

/-! ## The operations -/

structure Usage where
  /-- The VCs whose taker has not sent its tail yet. -/
  held : Finset ℤ := ∅
  /-- When the flits of a VC were sent whose credits have not come back, the oldest first. -/
  sent : ℤ → List ℤ := fun _ => []

inductive BufferOp where
  | take (vc tag : ℤ)
  | send (now : ℤ) (f : Flit)
  | credit (now vc : ℤ)

namespace BufferOp

def run (b : BufferState) : BufferOp → Except Fault BufferState
  | take vc tag => b.takeBuffer vc tag
  | send now f => b.sendingFlit now f
  | credit now vc => b.processCreditFor now vc

def Legal (b : BufferState) (u : Usage) : BufferOp → Prop
  | take vc _ => b.IsVC vc ∧ b.isAvailableFor vc = true ∧ vc ∉ u.held
  | send now f => f.vc ∈ u.held ∧ b.isFullFor now f.vc = false
  | credit _ vc => u.sent vc ≠ []

instance (b : BufferState) (u : Usage) : (o : BufferOp) → Decidable (o.Legal b u)
  | take _ _ => inferInstanceAs (Decidable (_ ∧ _ ∧ _))
  | send _ _ => inferInstanceAs (Decidable (_ ∧ _))
  | credit _ vc => inferInstanceAs (Decidable (u.sent vc ≠ []))

def record (u : Usage) : BufferOp → Usage
  | take vc _ => { u with held := insert vc u.held }
  | send now f => {
      held := if f.tail then u.held.erase f.vc else u.held
      sent := update u.sent f.vc (u.sent f.vc ++ [now]) }
  | credit _ vc => { u with sent := update u.sent vc (u.sent vc).tail }

/-- A new buffer state and the operations `ops`, as long as they are legal. -/
def play (cfg : BufferConfig) (minLatency : ℤ) (ops : List BufferOp) :
    Except Fault (BufferState × Usage) := do
  let b ← BufferState.new cfg minLatency
  ops.foldlM (fun s o => do
    require (.assertion "legal") (o.Legal s.1 s.2)
    return (← o.run s.1, o.record s.2)) (b, {})

end BufferOp

/-- The states of a buffer in legal use.  `SetMinLatency` is called with a sum of delays. -/
inductive LegalUse (cfg : BufferConfig) : BufferState → Usage → Prop
  | new {minLatency : ℤ} {b : BufferState} : 0 ≤ minLatency →
      BufferState.new cfg minLatency = .ok b → LegalUse cfg b {}
  | op {b b' : BufferState} {u : Usage} {o : BufferOp} : LegalUse cfg b u → o.Legal b u →
      o.run b = .ok b' → LegalUse cfg b' (o.record u)

namespace LegalUse

variable {cfg : BufferConfig} {b b' : BufferState} {u : Usage}

theorem inv {I : BufferState → Usage → Prop} (h : LegalUse cfg b u)
    (hnew : ∀ minLatency b, BufferState.new cfg minLatency = .ok b → I b {})
    (hop : ∀ b b' u (o : BufferOp), I b u → o.Legal b u → o.run b = .ok b' → I b' (o.record u)) :
    I b u := by
  induction h with
  | new _ hb => exact hnew _ _ hb
  | op _ hlegal hrun ih => exact hop _ _ _ _ ih hlegal hrun

theorem of_play {minLatency : ℤ} {ops : List BufferOp} {s : BufferState × Usage}
    (hmin : 0 ≤ minLatency) (h : BufferOp.play cfg minLatency ops = .ok s) :
    LegalUse cfg s.1 s.2 := by
  obtain ⟨b, hb, h⟩ := bind_ok.mp h
  refine inv_of_foldlM_eq_ok (I := fun s => LegalUse cfg s.1 s.2) h (fun s t o _ hstep hs => ?_)
    (.new hmin hb)
  obtain ⟨hlegal, hstep⟩ := require_ok.mp hstep
  obtain ⟨b', hb', rfl⟩ := bind_return_ok.mp hstep
  exact hs.op hlegal hb'

theorem exists_stop {minLatency : ℤ} {ops : List BufferOp} {o : BufferOp} {fault : Fault}
    (hmin : 0 ≤ minLatency) (h : returns (fun s => decide (o.Legal s.1 s.2) &&
      stops (fun e => decide (e = fault)) (o.run s.1)) (BufferOp.play cfg minLatency ops) = true) :
    ∃ b u, LegalUse cfg b u ∧ o.Legal b u ∧ o.run b = .error fault := by
  obtain ⟨⟨b, u⟩, hplay, hnext⟩ := exists_of_returns h
  obtain ⟨hlegal, hstops⟩ := Bool.and_eq_true_iff.mp hnext
  obtain ⟨e, he, hfault⟩ := exists_of_stops hstops
  rw [of_decide_eq_true hfault] at he
  exact ⟨b, u, .of_play hmin hplay, of_decide_eq_true hlegal, he⟩

end LegalUse

/-! ## What every policy counts -/

/-- The occupancies count the flits that are out. -/
structure Accounts (cfg : BufferConfig) (b : BufferState) (u : Usage) : Prop where
  vcs : b.vcs = cfg.numVCs
  size : b.size = cfg.size
  kind : b.policy.kind = cfg.bufferPolicy
  held : ∀ vc ∈ u.held, vc ∈ below cfg.numVCs
  sent : ∀ vc, u.sent vc ≠ [] → vc ∈ below cfg.numVCs
  vcOccupancy : ∀ vc, b.vcOccupancy vc = (u.sent vc).length
  occupancy : b.occupancy = ∑ vc ∈ below cfg.numVCs, b.vcOccupancy vc

namespace Accounts

variable {cfg : BufferConfig} {b b' : BufferState} {u : Usage}

theorem isVC (h : Accounts cfg b u) {vc : ℤ} : b.IsVC vc ↔ vc ∈ below cfg.numVCs := by
  rw [mem_below, ← h.vcs]
  rfl

theorem vcOccupancy_nonneg (h : Accounts cfg b u) (vc : ℤ) : 0 ≤ b.vcOccupancy vc := by
  rw [h.vcOccupancy]
  exact Int.natCast_nonneg _

theorem new {minLatency : ℤ} (h : BufferState.new cfg minLatency = .ok b) : Accounts cfg b {} := by
  obtain ⟨policy, hpolicy, rfl⟩ := bind_return_ok.mp h
  refine ⟨rfl, rfl, (Policy.new_eq_ok hpolicy).2.2, fun vc hvc => ?_,
    fun vc hvc => absurd rfl hvc, fun vc => rfl, ?_⟩
  · exact absurd hvc (Finset.notMem_empty vc)
  · exact Finset.sum_const_zero.symm

theorem changed (h : Accounts cfg b u) {vc : ℤ} {sent : List ℤ} {held : Finset ℤ}
    (hheld : held ⊆ u.held) (hvc : vc ∈ below cfg.numVCs) (hvcs : b'.vcs = b.vcs)
    (hsize : b'.size = b.size) (hkind : b'.policy.kind = b.policy.kind)
    (hocc : b'.vcOccupancy = update b.vcOccupancy vc sent.length)
    (htotal : b'.occupancy = b.occupancy + (sent.length - b.vcOccupancy vc)) :
    Accounts cfg b' { held := held, sent := update u.sent vc sent } := by
  refine ⟨hvcs.trans h.vcs, hsize.trans h.size, hkind.trans h.kind, fun v hv => h.held v (hheld hv),
    fun v hv => ?_, fun v => ?_, ?_⟩
  · by_cases hne : v = vc
    · exact hne ▸ hvc
    · exact h.sent v fun hnil => hv ((update_of_ne hne ..).trans hnil)
  · show b'.vcOccupancy v = (update u.sent vc sent v).length
    rw [hocc]
    by_cases hne : v = vc
    · rw [hne, update_self, update_self]
    · rw [update_of_ne hne, update_of_ne hne, h.vcOccupancy v]
  · rw [htotal, h.occupancy, hocc, sum_comp_update hvc fun _ n => n]

theorem op (h : Accounts cfg b u) {o : BufferOp} (hlegal : o.Legal b u) (hrun : o.run b = .ok b') :
    Accounts cfg b' (o.record u) := by
  cases o with
  | take vc tag =>
    obtain ⟨hvc, -, policy, hpolicy, rfl⟩ := BufferState.takeBuffer_eq_ok hrun
    refine ⟨h.vcs, h.size, (Policy.takeBuffer_eq_ok hpolicy).2.2.trans h.kind, fun v hv => ?_,
      h.sent, h.vcOccupancy, h.occupancy⟩
    rcases Finset.mem_insert.mp hv with rfl | hv
    · exact h.isVC.mp hvc
    · exact h.held v hv
  | send now f =>
    obtain ⟨hvc, -, policy, hpolicy, rfl⟩ := BufferState.sendingFlit_eq_ok hrun
    refine h.changed ?_ (h.isVC.mp hvc) rfl rfl (Policy.sendingFlit_eq_ok hpolicy).2.2 ?_ ?_
    · split
      · exact Finset.erase_subset _ _
      · exact subset_rfl
    · simp [h.vcOccupancy]
    · simp [h.vcOccupancy]
  | credit now vc =>
    obtain ⟨hvc, hpos, hocc, hvcOcc, -, -, hvcs, hsize, -, hpolicy⟩ :=
      BufferState.processCreditFor_eq_ok hrun
    have hlen : ((u.sent vc).tail.length : ℤ) = b.vcOccupancy vc - 1 := by
      have := h.vcOccupancy vc
      rw [List.length_tail]
      omega
    refine h.changed subset_rfl (h.isVC.mp hvc) hvcs hsize (Policy.freeSlotFor_eq_ok hpolicy).2.2
      ?_ ?_
    · rw [hvcOcc, hlen]
    · rw [hocc, hlen]
      omega

end Accounts

theorem LegalUse.accounts {cfg : BufferConfig} {b : BufferState} {u : Usage}
    (h : LegalUse cfg b u) : Accounts cfg b u :=
  h.inv (fun _ _ => Accounts.new) fun _ _ _ _ h => h.op

end BookSim
