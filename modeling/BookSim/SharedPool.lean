/-
# SharedPool — the slots of the shared policies

Under the shared policies a VC claims the slots of its flits, and the slot that is kept for it
while its packet is under way and none of its flits is there.  The private buffers are quotas of
groups of VCs, and the shared buffer takes what goes beyond them:

    privateBufOccupancy i     the load of group `i`
    sharedBufOccupancy        what is spilled

Both are kept by each operation, so that no policy runs over or under, and the three answers to
"how much room is there" (`IsFullFor`, `AvailableFor`, `LimitFor`) fit together.  A private buffer
size must not be negative; the constructor does not look at that.
-/
import BookSim.BufferUse
import Mathlib.Algebra.BigOperators.Fin

namespace BookSim

open Function (update update_of_ne update_self)

/-! ## Which private buffer a VC has -/

/-- No explicit ranges of VCs are configured for the private buffers. -/
def BufferConfig.DefaultMapping (cfg : BufferConfig) : Prop :=
  cfg.privateBufStartVC = [] ∧ cfg.privateBufEndVC = []

variable {cfg : BufferConfig}

theorem numVCs_of_no_bufs (h : cfg.numPrivateBufs = 0) : cfg.numVCs = 0 := by
  unfold BufferConfig.numPrivateBufs at h
  split at h
  · exact h
  · split at h
    · exact absurd h one_ne_zero
    · omega

namespace SharedBuffer

theorem assignVCs_eq_ok {i : ℕ} {map map' : ℤ → ℤ} (h : assignVCs cfg map i = .ok map') :
    cfg.startVC i ≤ cfg.endVC i ∧
      ∀ v, map' v = if cfg.startVC i ≤ v ∧ v ≤ cfg.endVC i then (i : ℤ) else map v := by
  obtain ⟨hle, h⟩ := require_ok.mp h
  have hfold : ∀ (vcs : List ℤ) (map : ℤ → ℤ), vcs.foldlM (fun map v => do
      require (Fault.assertion "_private_buf_vc_map[v] < 0") (map v < 0)
      return update map v i) map = .ok map' → ∀ v, map' v = if v ∈ vcs then (i : ℤ) else map v := by
    intro vcs
    induction vcs with
    | nil =>
      intro map h v
      cases h
      rfl
    | cons w vcs ih =>
      intro map h v
      obtain ⟨map₁, hmap₁, h⟩ := bind_ok.mp ((List.foldlM_cons ..).symm.trans h)
      obtain ⟨-, rfl⟩ := require_return_ok.mp hmap₁
      rw [ih _ h v]
      by_cases hmem : v ∈ vcs
      · simp [hmem]
      · by_cases hw : v = w
        · simp [hw]
        · simp [hmem, hw]
  refine ⟨hle, fun v => (hfold _ _ h v).trans (if_congr ?_ rfl rfl)⟩
  simp only [List.mem_map, List.mem_range]
  exact ⟨fun ⟨k, hk, hv⟩ => by omega, fun hv => ⟨(v - cfg.startVC i).toNat, by omega, by omega⟩⟩

theorem mapped_of_new {p : SharedBuffer} (hmap : cfg.DefaultMapping) (h : new cfg = .ok p) :
    ∀ vc ∈ below cfg.numVCs, p.privateBufVCMap vc ∈ below cfg.numPrivateBufs := by
  obtain ⟨map, hfold, h⟩ := bind_ok.mp h
  obtain ⟨-, rfl⟩ := require_return_ok.mp h
  -- the ranges of the first `k` private buffers are the VCs up to the start of the next one
  have hrange : ∀ vc : ℤ, 0 ≤ vc → vc < (cfg.numPrivateBufs * cfg.numVCs / cfg.numPrivateBufs : ℕ) →
      map vc ∈ below cfg.numPrivateBufs := by
    refine inv_of_foldlM_range_eq_ok (I := fun k map => ∀ vc : ℤ, 0 ≤ vc →
      vc < (k * cfg.numVCs / cfg.numPrivateBufs : ℕ) → map vc ∈ below cfg.numPrivateBufs)
      hfold (fun k map₁ map₂ hk hround ih vc hvc hlt => ?_) fun vc hvc hlt => ?_
    · obtain ⟨-, hmap₂⟩ := assignVCs_eq_ok hround
      rw [hmap₂ vc, BufferConfig.startVC, BufferConfig.endVC, if_pos hmap.1, if_pos hmap.2]
      split
      · exact mem_below.mpr ⟨by omega, by omega⟩
      · exact ih vc hvc (by omega)
    · rw [Nat.zero_mul, Nat.zero_div] at hlt
      omega
  intro vc hvc
  obtain ⟨hnonneg, hlt⟩ := mem_below.mp hvc
  refine hrange vc hnonneg (hlt.trans_le ?_)
  by_cases hbufs : cfg.numPrivateBufs = 0
  · rw [numVCs_of_no_bufs hbufs]
    exact Int.natCast_nonneg _
  · rw [Nat.mul_div_cancel_left _ (Nat.pos_of_ne_zero hbufs)]

/-! ## Claims and quotas -/

theorem sum_privateSizes (cfg : BufferConfig) :
    ∑ i ∈ below cfg.numPrivateBufs, cfg.privateSizes.getD i.toNat 0 = cfg.privateSizes.sum := by
  have hlength : cfg.privateSizes.length = cfg.numPrivateBufs := by
    rw [BufferConfig.privateSizes, List.length_map, List.length_range]
  rw [below, Finset.sum_image fun a _ b _ h => Int.ofNat_inj.mp h, ← hlength, Finset.sum_range,
    ← Fin.sum_univ_getElem]
  exact Finset.sum_congr rfl fun k _ => by simp

/-- The slots a VC claims: those of its flits, and those kept for it. -/
def claims (p : SharedBuffer) (occupancy : ℤ → ℤ) (vc : ℤ) : ℤ := occupancy vc + p.reservedSlots vc

/-- The VCs as members of a pool in which each private buffer is the quota of its VCs. -/
def pool (cfg : BufferConfig) (p : SharedBuffer)
    (h : ∀ vc ∈ below cfg.numVCs, p.privateBufVCMap vc ∈ below cfg.numPrivateBufs) : Pool ℤ ℤ where
  members := below cfg.numVCs
  groups := below cfg.numPrivateBufs
  group := p.privateBufVCMap
  quota := p.privateBufSize
  group_mem := h

/-- The counters are exact: they are the loads of the private buffers and what is spilled. -/
structure Exact (cfg : BufferConfig) (p : SharedBuffer) (occupancy inUseBy : ℤ → ℤ) : Prop where
  mapped : ∀ vc ∈ below cfg.numVCs, p.privateBufVCMap vc ∈ below cfg.numPrivateBufs
  load : p.privateBufOccupancy = (p.pool cfg mapped).load (p.claims occupancy)
  spill : p.sharedBufOccupancy = (p.pool cfg mapped).spill p.privateBufOccupancy
  shared_le : p.sharedBufOccupancy ≤ p.sharedBufSize
  reserved : ∀ vc, p.reservedSlots vc = 0 ∨
    p.reservedSlots vc = 1 ∧ 0 ≤ inUseBy vc ∧ occupancy vc = 0
  total : ∑ i ∈ below cfg.numPrivateBufs, p.privateBufSize i + p.sharedBufSize = cfg.size

namespace Exact

variable {p : SharedBuffer} {occupancy inUseBy inUseBy' : ℤ → ℤ} {vc : ℤ}

theorem reserved_nonneg (h : Exact cfg p occupancy inUseBy) (vc : ℤ) : 0 ≤ p.reservedSlots vc := by
  rcases h.reserved vc with hres | ⟨hres, -⟩
  · exact hres.ge
  · omega

theorem reserved_eq_zero (h : Exact cfg p occupancy inUseBy) (hocc : occupancy vc ≠ 0) :
    p.reservedSlots vc = 0 :=
  (h.reserved vc).resolve_right fun hres => hocc hres.2.2

theorem claims_nonneg (h : Exact cfg p occupancy inUseBy) (hocc : ∀ vc, 0 ≤ occupancy vc) (vc : ℤ) :
    0 ≤ p.claims occupancy vc :=
  add_nonneg (hocc vc) (h.reserved_nonneg vc)

theorem claims_le (h : Exact cfg p occupancy inUseBy) (hocc : ∀ vc, 0 ≤ occupancy vc)
    (hvc : vc ∈ below cfg.numVCs) :
    occupancy vc + p.reservedSlots vc ≤ p.privateBufOccupancy (p.privateBufVCMap vc) := by
  rw [h.load]
  exact Pool.claim_le_load (P := p.pool cfg h.mapped) (fun m _ => h.claims_nonneg hocc m) hvc

theorem excess_le (h : Exact cfg p occupancy inUseBy) (hvc : vc ∈ below cfg.numVCs) :
    p.privateBufOccupancy (p.privateBufVCMap vc) - p.privateBufSize (p.privateBufVCMap vc) ≤
      p.sharedBufOccupancy := by
  rw [h.spill]
  exact Pool.excess_le_spill (P := p.pool cfg h.mapped) (h.mapped vc hvc)

theorem shared_nonneg (h : Exact cfg p occupancy inUseBy) : 0 ≤ p.sharedBufOccupancy := by
  rw [h.spill]
  exact Finset.sum_nonneg fun _ _ => le_max_left 0 _

theorem sum_le_size (h : Exact cfg p occupancy inUseBy) :
    ∑ vc ∈ below cfg.numVCs, occupancy vc ≤ cfg.size := by
  have hclaims := Pool.sum_claims_le (P := p.pool cfg h.mapped) (p.claims occupancy)
  rw [← h.load, ← h.spill] at hclaims
  have hle : ∑ vc ∈ below cfg.numVCs, occupancy vc ≤ ∑ vc ∈ below cfg.numVCs,
      p.claims occupancy vc :=
    Finset.sum_le_sum fun vc _ => le_add_of_nonneg_right (h.reserved_nonneg vc)
  exact (hle.trans hclaims).trans ((add_le_add_right h.shared_le _).trans h.total.le)

theorem changed (h : Exact cfg p occupancy inUseBy) (hvc : vc ∈ below cfg.numVCs)
    (huse : ∀ v, v ≠ vc → inUseBy' v = inUseBy v) {n x shared : ℤ} {res : ℤ → ℤ}
    (hclaim : x + res vc = occupancy vc + p.reservedSlots vc + n)
    (hshared : shared = p.sharedBufOccupancy +
      (max 0 (p.privateBufOccupancy (p.privateBufVCMap vc) + n -
        p.privateBufSize (p.privateBufVCMap vc)) -
      max 0 (p.privateBufOccupancy (p.privateBufVCMap vc) - p.privateBufSize
        (p.privateBufVCMap vc))))
    (hle : shared ≤ p.sharedBufSize) (hres : res vc = 0 ∨ res vc = 1 ∧ 0 ≤ inUseBy' vc ∧ x = 0)
    (hother : ∀ v, v ≠ vc → res v = p.reservedSlots v) :
    Exact cfg { p with
      privateBufOccupancy := update p.privateBufOccupancy (p.privateBufVCMap vc)
        (p.privateBufOccupancy (p.privateBufVCMap vc) + n)
      sharedBufOccupancy := shared
      reservedSlots := res } (update occupancy vc x) inUseBy' where
  mapped := h.mapped
  load := by
    have hload := Pool.load_update_eq (P := p.pool cfg h.mapped) (p.claims occupancy) hvc
      (p.claims occupancy vc + n)
    rw [← h.load, add_sub_cancel_left] at hload
    refine hload.symm.trans (congrArg _ (funext fun v => ?_))
    show _ = update occupancy vc x v + res v
    by_cases hv : v = vc
    · subst hv
      rw [update_self, update_self, claims, hclaim]
    · rw [update_of_ne hv, update_of_ne hv, claims, hother v hv]
  spill := by
    rw [hshared, h.spill]
    exact (Pool.spill_update (P := p.pool cfg h.mapped) (h.mapped vc hvc) _).symm
  shared_le := hle
  reserved := by
    intro v
    by_cases hv : v = vc
    · subst hv
      rwa [update_self]
    · rw [huse v hv, update_of_ne hv]
      have hkept := h.reserved v
      rwa [← hother v hv] at hkept
  total := h.total

theorem processFreeSlot (h : Exact cfg p occupancy inUseBy) (hvc : vc ∈ below cfg.numVCs)
    (hocc : ∀ vc, 0 ≤ occupancy vc) (hpos : 1 ≤ occupancy vc)
    (huse : ∀ v, v ≠ vc → inUseBy' v = inUseBy v) :
    ∃ p', p.processFreeSlot vc = .ok p' ∧
      Exact cfg p' (update occupancy vc (occupancy vc - 1)) inUseBy' := by
  have hload := h.claims_le hocc hvc
  have hexcess := h.excess_le hvc
  have hzero : p.reservedSlots vc = 0 := h.reserved_eq_zero (by omega)
  have hclaim : occupancy vc - 1 + p.reservedSlots vc = occupancy vc + p.reservedSlots vc + -1 := by
    omega
  unfold SharedBuffer.processFreeSlot
  rw [if_neg (by omega)]
  by_cases hspilled : p.privateBufOccupancy (p.privateBufVCMap vc) - 1 ≥
      p.privateBufSize (p.privateBufVCMap vc)
  · rw [if_pos hspilled, if_neg (by omega)]
    have hle := h.shared_le
    exact ⟨_, rfl, h.changed hvc huse hclaim (by omega) (by omega) (.inl hzero) fun _ _ => rfl⟩
  · rw [if_neg hspilled]
    exact ⟨_, rfl, h.changed hvc huse hclaim (by omega) h.shared_le (.inl hzero) fun _ _ => rfl⟩

theorem swapped (h : Exact cfg p occupancy inUseBy) (hvc : vc ∈ below cfg.numVCs) {n : ℤ}
    (hres : p.reservedSlots vc + n = 0 ∨
      p.reservedSlots vc + n = 1 ∧ 0 ≤ inUseBy' vc ∧ occupancy vc - n = 0)
    (huse : ∀ v, v ≠ vc → inUseBy' v = inUseBy v) :
    Exact cfg { p with reservedSlots := update p.reservedSlots vc (p.reservedSlots vc + n) }
      (update occupancy vc (occupancy vc - n)) inUseBy' := by
  have hself : update p.reservedSlots vc (p.reservedSlots vc + n) vc = p.reservedSlots vc + n :=
    update_self ..
  have hchanged := h.changed (n := 0) (x := occupancy vc - n) hvc huse (by rw [hself]; omega) rfl
    (by simpa using h.shared_le) (hself.symm ▸ hres) fun v hv => update_of_ne hv ..
  simpa using hchanged

theorem takeSlot (h : Exact cfg p occupancy inUseBy) (hvc : vc ∈ below cfg.numVCs)
    (hfull : p.isFullFor vc = false) (huse : ∀ v, v ≠ vc → inUseBy' v = inUseBy v) :
    ∃ p', p.takeSlot vc = .ok p' ∧ p'.reservedSlots vc = 0 ∧
      Exact cfg p' (update occupancy vc (occupancy vc + 1)) inUseBy' := by
  unfold SharedBuffer.takeSlot
  by_cases hres : p.reservedSlots vc > 0
  · rw [if_pos hres]
    have hone : p.reservedSlots vc + -1 = 0 := by
      rcases h.reserved vc with hzero | ⟨hone, -⟩
      · omega
      · omega
    have hswap := h.swapped (n := -1) hvc (.inl hone) huse
    rw [sub_neg_eq_add] at hswap
    exact ⟨_, rfl, (update_self ..).trans hone, hswap⟩
  · rw [if_neg hres]
    have hzero : p.reservedSlots vc = 0 := le_antisymm (not_lt.mp hres) (h.reserved_nonneg vc)
    have hclaim : occupancy vc + 1 + p.reservedSlots vc =
        occupancy vc + p.reservedSlots vc + 1 := by
      omega
    by_cases hspilled : p.privateBufOccupancy (p.privateBufVCMap vc) + 1 >
        p.privateBufSize (p.privateBufVCMap vc)
    · have hroom : p.sharedBufOccupancy < p.sharedBufSize := by
        simp [isFullFor, hzero] at hfull
        omega
      rw [if_pos hspilled, if_neg (by omega)]
      exact ⟨_, rfl, hzero, h.changed hvc huse hclaim (by omega) (by omega) (.inl hzero)
        fun _ _ => rfl⟩
    · rw [if_neg hspilled]
      exact ⟨_, rfl, hzero, h.changed hvc huse hclaim (by omega) h.shared_le (.inl hzero)
        fun _ _ => rfl⟩

theorem sendingFlit {f : Flit} (h : Exact cfg p occupancy inUseBy) (hvc : f.vc ∈ below cfg.numVCs)
    (hfull : p.isFullFor f.vc = false) (huse : ∀ v, v ≠ f.vc → inUseBy' v = inUseBy v) :
    ∃ p', p.sendingFlit f = .ok p' ∧
      Exact cfg p' (update occupancy f.vc (occupancy f.vc + 1)) inUseBy' := by
  obtain ⟨p', hp', hres, hexact⟩ := h.takeSlot hvc hfull huse
  refine ⟨p', bind_ok.mpr ⟨p', hp', ?_⟩, hexact⟩
  -- no slot is kept for the VC after this, and the loop for the tail does nothing
  rw [hres]
  split
  · rfl
  · rfl

theorem freeSlotFor (h : Exact cfg p occupancy inUseBy) (hvc : vc ∈ below cfg.numVCs)
    (hocc : ∀ vc, 0 ≤ occupancy vc) (hpos : 1 ≤ occupancy vc) {available empty : Bool}
    (havailable : available = false → 0 ≤ inUseBy' vc) (hempty : empty = true → occupancy vc = 1)
    (huse : ∀ v, v ≠ vc → inUseBy' v = inUseBy v) :
    ∃ p', p.freeSlotFor vc available empty = .ok p' ∧
      Exact cfg p' (update occupancy vc (occupancy vc - 1)) inUseBy' := by
  unfold SharedBuffer.freeSlotFor
  by_cases hkept : (!available && empty) = true
  · rw [if_pos hkept]
    rw [Bool.and_eq_true, Bool.not_eq_true'] at hkept
    have hzero : p.reservedSlots vc = 0 := h.reserved_eq_zero (by omega)
    refine ⟨_, rfl, h.swapped hvc (.inr ⟨by omega, havailable hkept.1, ?_⟩) huse⟩
    have := hempty hkept.2
    omega
  · rw [if_neg hkept]
    exact h.processFreeSlot hvc hocc hpos huse

theorem taken (h : Exact cfg p occupancy inUseBy) (hfree : inUseBy vc < 0) (tag : ℤ) :
    Exact cfg p occupancy (update inUseBy vc tag) := by
  refine { h with reserved := fun v => ?_ }
  by_cases hv : v = vc
  · refine .inl ((h.reserved v).resolve_right fun hres => ?_)
    rw [hv] at hres
    omega
  · rw [update_of_ne hv]
    exact h.reserved v

theorem of_new (hmap : cfg.DefaultMapping) (hsizes : ∀ size ∈ cfg.privateSizes, 0 ≤ size)
    (h : SharedBuffer.new cfg = .ok p) : Exact cfg p (fun _ => 0) fun _ => -1 := by
  have hmapped := mapped_of_new hmap h
  obtain ⟨map, -, h⟩ := bind_ok.mp h
  obtain ⟨hshared, rfl⟩ := require_return_ok.mp h
  have hnonneg : ∀ i, 0 ≤ cfg.privateSizes.getD i 0 := by
    intro i
    rw [List.getD_eq_getElem?_getD]
    cases hi : cfg.privateSizes[i]? with
    | none => exact le_rfl
    | some size => exact hsizes size (List.mem_of_getElem? hi)
  refine ⟨hmapped, ?_, ?_, hshared, fun vc => .inl rfl, ?_⟩
  · funext i
    refine (Finset.sum_eq_zero fun vc _ => ?_).symm
    split
    · rfl
    · rfl
  · refine (Finset.sum_eq_zero fun i _ => max_eq_left ?_).symm
    have := hnonneg i.toNat
    simp only [pool]
    omega
  · rw [sum_privateSizes]
    exact add_sub_cancel _ _

end Exact
end SharedBuffer

/-! ## In every run -/

theorem Policy.isFullFor_sharedBuffer {p : Policy} {q : SharedBuffer} {now vc occupancy : ℤ}
    (hq : p.sharedBuffer = some q) (h : p.isFullFor now vc occupancy = false) :
    q.isFullFor vc = false := by
  cases p with
  | private_ size => cases hq
  | shared p =>
    cases hq
    exact h
  | _ p =>
    cases hq
    exact (Bool.or_eq_false_iff.mp h).1

namespace BufferState

variable {cfg : BufferConfig} {b b' : BufferState} {u : Usage}

/-- The slots of the policy are counted exactly, if it has any. -/
def SlotsExact (cfg : BufferConfig) (b : BufferState) : Prop :=
  ∀ q ∈ b.policy.sharedBuffer, q.Exact cfg b.vcOccupancy b.inUseBy

theorem slotsExact_new {minLatency : ℤ} (hmap : cfg.DefaultMapping)
    (hsizes : ∀ size ∈ cfg.privateSizes, 0 ≤ size) (h : BufferState.new cfg minLatency = .ok b) :
    SlotsExact cfg b := by
  obtain ⟨policy, hpolicy, rfl⟩ := bind_return_ok.mp h
  exact fun q hq => .of_new hmap hsizes ((Policy.new_eq_ok hpolicy).2.1 q hq)

theorem slotsExact_take {vc tag : ℤ} (hb : SlotsExact cfg b) (h : b.takeBuffer vc tag = .ok b') :
    SlotsExact cfg b' := by
  obtain ⟨-, hfree, policy, hpolicy, rfl⟩ := takeBuffer_eq_ok h
  intro q hq
  rw [Option.mem_def, (Policy.takeBuffer_eq_ok hpolicy).2.1] at hq
  exact (hb q hq).taken hfree _

theorem slotsExact_send {now : ℤ} {f : Flit} (hacc : Accounts cfg b u) (hb : SlotsExact cfg b)
    (hfull : b.isFullFor now f.vc = false) (h : b.sendingFlit now f = .ok b') :
    SlotsExact cfg b' := by
  obtain ⟨hvc, -, policy, hpolicy, rfl⟩ := sendingFlit_eq_ok h
  intro q' hq'
  have hsent := (Policy.sendingFlit_eq_ok hpolicy).2.1.trans (congrArg _ hq')
  obtain ⟨q, hq, hq'⟩ := Option.map_eq_some_iff.mp hsent
  have huse : ∀ v, v ≠ f.vc → (if f.tail ∧ b.waitForTailCredit = false
      then update b.inUseBy f.vc (-1) else b.inUseBy) v = b.inUseBy v := by
    intro v hv
    split
    · exact update_of_ne hv ..
    · rfl
  obtain ⟨q₁, hq₁, hexact⟩ := (hb q hq).sendingFlit (hacc.isVC.mp hvc)
    (Policy.isFullFor_sharedBuffer hq hfull) huse
  obtain rfl : q₁ = q' := Except.ok.inj (hq₁.symm.trans hq')
  exact hexact

theorem slotsExact_credit {now vc : ℤ} (hacc : Accounts cfg b u) (hb : SlotsExact cfg b)
    (h : b.processCreditFor now vc = .ok b') : SlotsExact cfg b' := by
  obtain ⟨hvc, hpos, -, hocc, hin, -, -, -, -, hpolicy⟩ := processCreditFor_eq_ok h
  intro q' hq'
  have hfreed := (Policy.freeSlotFor_eq_ok hpolicy).2.1.trans (congrArg _ hq')
  obtain ⟨q, hq, hq'⟩ := Option.map_eq_some_iff.mp hfreed
  have havailable : b'.isAvailableFor vc = false → 0 ≤ b'.inUseBy vc := by
    simp [isAvailableFor]
  have hempty : b'.isEmptyFor vc = true → b.vcOccupancy vc = 1 := by
    rw [isEmptyFor, hocc, update_self, decide_eq_true_eq]
    omega
  have huse : ∀ v, v ≠ vc → b'.inUseBy v = b.inUseBy v := by
    intro v hv
    rcases hin with hin | ⟨-, hin⟩
    · rw [hin]
    · rw [hin, update_of_ne hv]
  obtain ⟨q₁, hq₁, hexact⟩ :=
    (hb q hq).freeSlotFor (hacc.isVC.mp hvc) hacc.vcOccupancy_nonneg hpos havailable hempty huse
  obtain rfl : q₁ = q' := Except.ok.inj (hq₁.symm.trans hq')
  rwa [hocc]

end BufferState

variable {cfg : BufferConfig}

theorem LegalUse.slotsExact {b : BufferState} {u : Usage}
    (hmap : cfg.DefaultMapping) (hsizes : ∀ size ∈ cfg.privateSizes, 0 ≤ size)
    (h : LegalUse cfg b u) : b.SlotsExact cfg := by
  refine (h.inv (I := fun b u => Accounts cfg b u ∧ b.SlotsExact cfg) (fun _ b hb => ?_)
    fun b b' u o hI hlegal hrun => ⟨hI.1.op hlegal hrun, ?_⟩).2
  · exact ⟨Accounts.new hb, BufferState.slotsExact_new hmap hsizes hb⟩
  · cases o with
    | take vc tag => exact BufferState.slotsExact_take hI.2 hrun
    | send now f => exact BufferState.slotsExact_send hI.1 hI.2 hlegal.2 hrun
    | credit now vc => exact BufferState.slotsExact_credit hI.1 hI.2 hrun

/-! ## The shared policy -/

/-- The counters of the shared policy `p` of `b`. -/
structure SharedAccounting (cfg : BufferConfig) (b : BufferState) (p : SharedBuffer) : Prop where
  privateBufOccupancy : ∀ i ∈ below cfg.numPrivateBufs, p.privateBufOccupancy i =
    ∑ vc ∈ below cfg.numVCs, if p.privateBufVCMap vc = i then b.vcOccupancy vc + p.reservedSlots vc
      else 0
  sharedBufOccupancy : p.sharedBufOccupancy =
    ∑ i ∈ below cfg.numPrivateBufs, max 0 (p.privateBufOccupancy i - p.privateBufSize i)
  shared_le : p.sharedBufOccupancy ≤ p.sharedBufSize
  reservedSlots : ∀ vc ∈ below cfg.numVCs, p.reservedSlots vc = 0 ∨
    p.reservedSlots vc = 1 ∧ b.isAvailableFor vc = false ∧ b.isEmptyFor vc = true
  occupancy_le : b.occupancy ≤ cfg.size

/-- A credit for a VC that nobody has: its taker's number is negative as an `int`. -/
def Fault.IsIdleCredit (fault : Fault) : Prop := ∃ vc, fault = .idleCredit vc

namespace SharedBuffer.Exact

variable {cfg : BufferConfig} {b : BufferState} {u : Usage} {p : SharedBuffer}

theorem sharedAccounting (hacc : Accounts cfg b u) (h : p.Exact cfg b.vcOccupancy b.inUseBy) :
    SharedAccounting cfg b p where
  privateBufOccupancy i _ := congrFun h.load i
  sharedBufOccupancy := h.spill
  shared_le := h.shared_le
  reservedSlots vc _ := by
    refine (h.reserved vc).imp_right fun ⟨hone, hused, hempty⟩ => ⟨hone, ?_, ?_⟩
    · exact decide_eq_false (not_lt.mpr hused)
    · exact decide_eq_true hempty
  occupancy_le := hacc.occupancy ▸ h.sum_le_size

theorem take_returns (hb : b.policy = .shared p) {vc tag : ℤ}
    (hlegal : (BufferOp.take vc tag).Legal b u) :
    Ends (fun _ => True) Fault.IsIdleCredit (b.takeBuffer vc tag) := by
  refine .require (fun _ => ?_) fun hvc => absurd hlegal.1 hvc
  refine .require (fun _ => ?_) fun hused => absurd (of_decide_eq_true hlegal.2.1) hused
  rw [hb]
  exact .returns _

theorem send_returns (hacc : Accounts cfg b u) (hb : b.policy = .shared p)
    (h : p.Exact cfg b.vcOccupancy b.inUseBy) {now : ℤ} {f : Flit}
    (hlegal : (BufferOp.send now f).Legal b u) :
    Ends (fun _ => True) Fault.IsIdleCredit (b.sendingFlit now f) := by
  have hvc := hacc.held f.vc hlegal.1
  have hfull : p.isFullFor f.vc = false := by
    refine Policy.isFullFor_sharedBuffer (p := b.policy) ?_ hlegal.2
    rw [hb]
    rfl
  obtain ⟨p', hp', hexact⟩ := h.sendingFlit hvc hfull fun _ _ => rfl
  -- the flit is still within the buffer when it has been counted
  have hroom : b.occupancy + 1 ≤ b.size := by
    have hsum := hexact.sum_le_size
    rw [sum_comp_update hvc fun _ n => n, ← hacc.occupancy, ← hacc.size] at hsum
    omega
  refine .require (fun _ => ?_) fun hnot => absurd (hacc.isVC.mpr hvc) hnot
  refine .require (fun _ => ?_) fun hover => absurd hroom hover
  rw [hb, Policy.sendingFlit, hp']
  exact .returns _

theorem credit_returns (hacc : Accounts cfg b u) (hb : b.policy = .shared p)
    (h : p.Exact cfg b.vcOccupancy b.inUseBy) {now vc : ℤ}
    (hlegal : (BufferOp.credit now vc).Legal b u) :
    Ends (fun _ => True) Fault.IsIdleCredit (b.processCreditFor now vc) := by
  have hvc := hacc.sent vc hlegal
  have hpos : 1 ≤ b.vcOccupancy vc := by
    rw [hacc.vcOccupancy]
    exact Int.ofNat_le.mpr (List.length_pos_iff.mpr hlegal)
  have hone : b.vcOccupancy vc ≤ b.occupancy := by
    rw [hacc.occupancy]
    exact Finset.single_le_sum (f := b.vcOccupancy) (fun v _ => hacc.vcOccupancy_nonneg v) hvc
  refine .require (fun _ => ?_) fun hnot => absurd (hacc.isVC.mpr hvc) hnot
  refine .require (fun _ => ?_) fun _ => ⟨vc, rfl⟩
  refine .require (fun _ => ?_) fun hneg => absurd (by omega) hneg
  refine .require (fun _ => ?_) fun hneg => absurd (by omega) hneg
  extract_lets releases freed
  have havailable : freed.isAvailableFor vc = false → 0 ≤ freed.inUseBy vc := by
    simp [BufferState.isAvailableFor]
  have hempty : freed.isEmptyFor vc = true → b.vcOccupancy vc = 1 := by
    simp only [BufferState.isEmptyFor, freed, update_self, decide_eq_true_eq]
    omega
  have huse : ∀ v, v ≠ vc → freed.inUseBy v = b.inUseBy v := by
    intro v hv
    simp only [freed]
    split
    · exact update_of_ne hv ..
    · rfl
  obtain ⟨p', hp', -⟩ := h.freeSlotFor hvc hacc.vcOccupancy_nonneg hpos havailable hempty huse
  rw [hb, Policy.freeSlotFor, hp']
  exact .returns _

end SharedBuffer.Exact
theorem LegalUse.shared {b : BufferState} {u : Usage} (h : LegalUse cfg b u)
    (hpolicy : cfg.bufferPolicy = .shared) : ∃ p, b.policy = .shared p := by
  have hkind := h.accounts.kind.trans hpolicy
  cases hb : b.policy with
  | shared p => exact ⟨p, rfl⟩
  | _ p =>
    rw [hb] at hkind
    cases hkind

/-- The accounts are exact when the buffer is empty only if no private buffer is smaller than
nothing. -/
theorem nonneg_of_sharedAccounting {minLatency : ℤ} {b : BufferState}
    {p : SharedBuffer} (h : BufferState.new cfg minLatency = .ok b) (hb : b.policy = .shared p)
    (hacc : SharedAccounting cfg b p) : ∀ size ∈ cfg.privateSizes, 0 ≤ size := by
  obtain ⟨policy, hpolicy, rfl⟩ := bind_return_ok.mp h
  obtain rfl : policy = .shared p := hb
  obtain ⟨map, -, hnew⟩ := bind_ok.mp ((Policy.new_eq_ok hpolicy).2.1 p rfl)
  obtain ⟨-, rfl⟩ := require_return_ok.mp hnew
  intro size hsize
  obtain ⟨k, hk, rfl⟩ := List.getElem_of_mem hsize
  have hlength : k < cfg.numPrivateBufs := by
    rwa [BufferConfig.privateSizes, List.length_map, List.length_range] at hk
  have hterm := (Finset.sum_eq_zero_iff_of_nonneg fun i _ => le_max_left 0 _).mp
    hacc.sharedBufOccupancy.symm k (mem_below.mpr ⟨Int.natCast_nonneg k, Int.ofNat_lt.mpr hlength⟩)
  have hle : 0 - cfg.privateSizes.getD (k : ℤ).toNat 0 ≤ 0 := max_eq_left_iff.mp hterm
  rw [Int.toNat_natCast, List.getD_eq_getElem?_getD, List.getElem?_eq_getElem hk] at hle
  exact sub_nonpos.mp hle

/-- The accounts of the shared policy are exact, and none of its errors occurs, in every run and
only if no private buffer is smaller than nothing. -/
theorem sharedAccounting_iff {cfg : BufferConfig} (hpolicy : cfg.bufferPolicy = .shared)
    (hmap : cfg.DefaultMapping) {minLatency : ℤ} (hmin : 0 ≤ minLatency)
    (hnew : Returns (BufferState.new cfg minLatency)) :
    (∀ b u, LegalUse cfg b u → ∃ p, b.policy = .shared p ∧ SharedAccounting cfg b p ∧
      ∀ o : BufferOp, o.Legal b u → Ends (fun _ => True) Fault.IsIdleCredit (o.run b)) ↔
    ∀ size ∈ cfg.privateSizes, 0 ≤ size := by
  constructor
  · intro hall
    obtain ⟨b, hb, -⟩ := hnew.exists_ok
    obtain ⟨p, hp, hacc, -⟩ := hall b {} (.new hmin hb)
    exact nonneg_of_sharedAccounting hb hp hacc
  · intro hsizes b u h
    obtain ⟨p, hp⟩ := h.shared hpolicy
    have hexact : p.Exact cfg b.vcOccupancy b.inUseBy := by
      refine h.slotsExact hmap hsizes p ?_
      rw [hp]
      rfl
    refine ⟨p, hp, hexact.sharedAccounting h.accounts, fun o hlegal => ?_⟩
    cases o with
    | take vc tag => exact SharedBuffer.Exact.take_returns hp hlegal
    | send now f => exact hexact.send_returns h.accounts hp hlegal
    | credit now vc => exact hexact.credit_returns h.accounts hp hlegal

theorem sharedAccounting_iff_two :
    let cfg : BufferConfig := { numVCs := 2, bufSize := 4, bufferPolicy := .shared }
    ∀ b u, LegalUse cfg b u → ∃ p, b.policy = .shared p ∧ SharedAccounting cfg b p ∧
      ∀ o : BufferOp, o.Legal b u → Ends (fun _ => True) Fault.IsIdleCredit (o.run b) := by
  intro cfg
  obtain ⟨b, hb, -⟩ := exists_of_returns (p := fun _ => true) (x := BufferState.new cfg 0)
    (by decide +kernel)
  refine (sharedAccounting_iff rfl ⟨rfl, rfl⟩ le_rfl (hb ▸ .returns b)).mpr ?_
  decide

/-- With a private buffer of size `-1` the shared buffer is larger than the whole, and a VC that is
not full runs over. -/
theorem overflow_of_negative_size :
    let cfg : BufferConfig :=
      { numVCs := 1, bufSize := 1, bufferPolicy := .shared, privateBufSize := [-1] }
    let f : Flit := { id := 0, pid := 0, cl := 0, src := 0, dest := 0, vc := 0 }
    ∃ b u, LegalUse cfg b u ∧ (BufferOp.send 1 f).Legal b u ∧
      b.sendingFlit 1 f = .error .bufferOverflow := by
  intro cfg f
  exact LegalUse.exists_stop (o := .send 1 f) le_rfl
    (by decide +kernel : returns _ (BufferOp.play cfg 0 [.take 0 7, .send 0 f]) = true)

/-! ## How much room there is -/

/-- The answers of `IsFullFor`, `AvailableFor` and `LimitFor` fit together. -/
def BufferState.ViewsAgree (b : BufferState) (now vc : ℤ) : Prop :=
  (b.isFullFor now vc = true ↔ b.availableFor now vc ≤ 0) ∧
    b.availableFor now vc + b.vcOccupancy vc ≤ b.limitFor now vc

instance (b : BufferState) (now vc : ℤ) : Decidable (b.ViewsAgree now vc) :=
  inferInstanceAs (Decidable (_ ∧ _))

theorem SharedBuffer.Exact.views {p : SharedBuffer}
    {occupancy inUseBy : ℤ → ℤ} {vc : ℤ} (h : p.Exact cfg occupancy inUseBy)
    (hocc : ∀ vc, 0 ≤ occupancy vc) (hvc : vc ∈ below cfg.numVCs) :
    (p.isFullFor vc = true ↔ p.availableFor vc ≤ 0) ∧
      p.availableFor vc + occupancy vc ≤ p.limitFor vc := by
  have hres := h.reserved_nonneg vc
  have hshared := h.shared_nonneg
  have hle := h.shared_le
  have hload := h.claims_le hocc hvc
  have hexcess := h.excess_le hvc
  simp only [isFullFor, availableFor, limitFor, Bool.and_eq_true, beq_iff_eq, decide_eq_true_eq]
  constructor
  · constructor
    · intro hfull
      omega
    · intro hroom
      omega
  · omega

theorem views_limited {full : Bool} {available occupancy limit slots : ℤ}
    (h : (full = true ↔ available ≤ 0) ∧ available + occupancy ≤ limit) :
    ((full || decide (occupancy ≥ slots)) = true ↔ min available (slots - occupancy) ≤ 0) ∧
      min available (slots - occupancy) + occupancy ≤ min limit slots := by
  rw [Bool.or_eq_true, h.1, decide_eq_true_eq]
  omega

theorem LegalUse.viewsAgree {cfg : BufferConfig} {b : BufferState} {u : Usage}
    (h : LegalUse cfg b u) (hmap : cfg.DefaultMapping)
    (hsizes : cfg.bufferPolicy = .private_ ∨ ∀ size ∈ cfg.privateSizes, 0 ≤ size) {vc : ℤ}
    (hvc : b.IsVC vc) (now : ℤ) : b.ViewsAgree now vc := by
  have hkind := h.accounts.kind
  have hviews : ∀ q ∈ b.policy.sharedBuffer, (q.isFullFor vc = true ↔ q.availableFor vc ≤ 0) ∧
      q.availableFor vc + b.vcOccupancy vc ≤ q.limitFor vc := by
    rcases hsizes with hprivate | hsizes
    · rw [hprivate] at hkind
      cases hb : b.policy with
      | private_ size => exact nofun
      | _ p =>
        rw [hb] at hkind
        cases hkind
    · intro q hq
      exact (h.slotsExact hmap hsizes q hq).views h.accounts.vcOccupancy_nonneg
        (h.accounts.isVC.mp hvc)
  unfold BufferState.ViewsAgree BufferState.isFullFor BufferState.availableFor BufferState.limitFor
  cases hb : b.policy with
  | private_ size =>
    simp only [Policy.isFullFor, Policy.availableFor, Policy.limitFor, decide_eq_true_eq]
    omega
  | shared p => exact hviews p (hb ▸ rfl)
  | _ p => exact views_limited (hviews _ (hb ▸ rfl))

theorem viewsAgree_limited_two :
    let cfg : BufferConfig :=
      { numVCs := 2, bufSize := 4, bufferPolicy := .limited, maxHeldSlots := 3 }
    ∃ b u, LegalUse cfg b u ∧ u.sent 0 = [2] ∧ b.ViewsAgree 4 0 := by
  intro cfg
  let f : Flit := { id := 0, pid := 0, cl := 0, src := 0, dest := 0, vc := 0 }
  obtain ⟨⟨b, u⟩, hplay, hrun⟩ := exists_of_returns
    (x := BufferOp.play cfg 0 [.take 0 7, .send 1 f, .send 2 f, .credit 3 0])
    (p := fun s : BufferState × Usage => decide (s.1.IsVC 0 ∧ s.2.sent 0 = [2])) (by decide +kernel)
  obtain ⟨hvc, hsent⟩ := of_decide_eq_true hrun
  have huse : LegalUse cfg b u := .of_play le_rfl hplay
  exact ⟨b, u, huse, hsent, huse.viewsAgree ⟨rfl, rfl⟩ (.inr (by decide)) hvc 4⟩

/-- With a private buffer of size `-1` there is more room than the limit allows. -/
theorem not_viewsAgree_of_negative_size :
    let cfg : BufferConfig :=
      { numVCs := 1, bufSize := 1, bufferPolicy := .shared, privateBufSize := [-1] }
    ∃ b u, LegalUse cfg b u ∧ b.IsVC 0 ∧ ¬ b.ViewsAgree 0 0 := by
  intro cfg
  obtain ⟨⟨b, u⟩, hplay, h⟩ := exists_of_returns (x := BufferOp.play cfg 0 [])
    (p := fun s : BufferState × Usage => decide (s.1.IsVC 0 ∧ ¬ s.1.ViewsAgree 0 0))
    (by decide +kernel)
  exact ⟨b, u, .of_play le_rfl hplay, of_decide_eq_true h⟩

end BookSim
