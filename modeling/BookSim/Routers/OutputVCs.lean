/-
# OutputVCs — who has an output VC

A packet takes an output VC (`TakeBuffer`), sends its flits there (`SendingFlit`) and, with its
tail, leaves it; the VC is given free then, or when the last credit has come back.  Of a router
this sees the output VC that each input VC has, and the buffer states of the outputs:

    credit    an input VC keeps what it has
    take      an input VC that had none has one
    send      an input VC keeps what it has, or has none any more

The buffer state knows the input VC that a VC is in use by, so no two input VCs have the same
one.
-/
import BookSim.BufferPolicies
import BookSim.Routers.Queues
import Mathlib.Data.Finset.Card

namespace BookSim

open Function (update update_apply update_of_ne update_self)

/-! ## Open VCs -/

namespace BufferState

variable {now : ℤ} {b b' : BufferState} {w : ℤ}

/-- A packet has the VC, and its tail has not been sent. -/
def IsOpen (b : BufferState) (w : ℤ) : Prop := 0 ≤ b.inUseBy w ∧ b.tailSent w = false

instance (b : BufferState) (w : ℤ) : Decidable (b.IsOpen w) := inferInstanceAs (Decidable (_ ∧ _))

def openVCs (b : BufferState) : Finset ℤ :=
  {w ∈ (Finset.range b.vcs).image fun k : ℕ => (k : ℤ) | b.IsOpen w}

/-- What the policy counts are the open VCs. -/
def Counted (b : BufferState) : Prop := ∀ c ∈ b.policy.counter, c = ((b.openVCs.card : ℤ), b.vcs)

theorem mem_allVCs {v : ℤ} : v ∈ (Finset.range b.vcs).image (fun k : ℕ => (k : ℤ)) ↔ b.IsVC v :=
  mem_below

theorem mem_openVCs {v : ℤ} : v ∈ b.openVCs ↔ b.IsVC v ∧ b.IsOpen v := by
  rw [openVCs, Finset.mem_filter, mem_allVCs]

theorem Counted.of_openVCs {g : ℤ → ℤ} (hb : b.Counted)
    (hcounter : b'.policy.counter = b.policy.counter.map fun c => (g c.1, c.2))
    (hopen : (b'.openVCs.card : ℤ) = g b.openVCs.card) (hvcs : b'.vcs = b.vcs) : b'.Counted := by
  intro c hc
  rw [hcounter] at hc
  obtain ⟨c₀, hc₀, rfl⟩ := Option.mem_map.mp hc
  rw [hb c₀ hc₀, hopen, hvcs]

theorem takeBuffer_counted {tag : ℤ} (h : b.takeBuffer w tag = .ok b') (htag : 0 ≤ toInt tag)
    (hb : b.Counted) : b'.Counted := by
  obtain ⟨hw, hfree, policy, hpolicy, rfl⟩ := takeBuffer_eq_ok h
  have hclosed : w ∉ b.openVCs := fun hopen => absurd (mem_openVCs.mp hopen).2.1 (not_le.mpr hfree)
  have hopen : openVCs { b with
      inUseBy := update b.inUseBy w (toInt tag)
      tailSent := update b.tailSent w false
      policy := policy } = insert w b.openVCs := by
    ext v
    rw [Finset.mem_insert, mem_openVCs, mem_openVCs]
    unfold IsOpen IsVC
    by_cases hv : v = w
    · subst hv
      simpa only [update_self, true_or, iff_true, and_true] using ⟨hw, htag⟩
    · simp only [update_of_ne hv, hv, false_or]
  refine hb.of_openVCs (g := (· + 1)) (Policy.takeBuffer_eq_ok hpolicy).1 ?_ rfl
  rw [hopen, Finset.card_insert_of_notMem hclosed, Nat.cast_succ]

theorem sendingFlit_counted {f : Flit} (h : b.sendingFlit now f = .ok b') (hopen : b.IsOpen f.vc)
    (hb : b.Counted) : b'.Counted := by
  obtain ⟨hw, -, policy, hpolicy, rfl⟩ := sendingFlit_eq_ok h
  refine hb.of_openVCs (g := fun n => if f.tail then n - 1 else n)
    (Policy.sendingFlit_eq_ok hpolicy).1 ?_ rfl
  have hmem : f.vc ∈ b.openVCs := mem_openVCs.mpr ⟨hw, hopen⟩
  by_cases htail : f.tail = true
  · have herase : openVCs { b with
        occupancy := b.occupancy + 1
        vcOccupancy := update b.vcOccupancy f.vc (b.vcOccupancy f.vc + 1)
        policy := policy
        tailSent := if f.tail then update b.tailSent f.vc true else b.tailSent
        inUseBy := if f.tail ∧ b.waitForTailCredit = false then update b.inUseBy f.vc (-1)
          else b.inUseBy } = b.openVCs.erase f.vc := by
      ext v
      rw [Finset.mem_erase, mem_openVCs, mem_openVCs]
      unfold IsOpen IsVC
      simp only [if_pos htail]
      by_cases hv : v = f.vc
      · subst hv
        simp only [update_self, Bool.true_eq_false, and_false, ne_eq, not_true_eq_false, false_and]
      · grind
    rw [herase, Finset.card_erase_of_mem hmem, if_pos htail,
      Nat.cast_pred (Finset.card_pos.mpr ⟨_, hmem⟩)]
  · refine Eq.trans (congrArg (fun s : Finset ℤ => (s.card : ℤ)) ?_) (if_neg htail).symm
    ext v
    rw [mem_openVCs, mem_openVCs]
    unfold IsOpen IsVC
    simp only [htail, Bool.false_eq_true, false_and, reduceIte]

theorem sendingFlit_holder {f : Flit} (h : b.sendingFlit now f = .ok b') {w : ℤ}
    (hw : f.tail = true → w ≠ f.vc) :
    b'.inUseBy w = b.inUseBy w ∧ b'.tailSent w = b.tailSent w := by
  obtain ⟨-, -, policy, -, rfl⟩ := sendingFlit_eq_ok h
  by_cases htail : f.tail = true
  · constructor
    · dsimp only
      split_ifs
      · exact update_of_ne (hw htail) ..
      · rfl
    · simp only [if_pos htail, update_of_ne (hw htail)]
  · simp only [htail, Bool.false_eq_true, false_and, reduceIte, and_self]

/-- What a credit leaves alone. -/
structure Credited (b b' : BufferState) : Prop where
  vcs : b'.vcs = b.vcs
  tailSent : b'.tailSent = b.tailSent
  inUseBy : ∀ w, b.tailSent w = false → b'.inUseBy w = b.inUseBy w
  counter : b'.policy.counter = b.policy.counter

theorem Credited.refl (b : BufferState) : Credited b b := ⟨rfl, rfl, fun _ _ => rfl, rfl⟩

theorem Credited.trans {b'' : BufferState} (h : Credited b b') (h' : Credited b' b'') :
    Credited b b'' where
  vcs := h'.vcs.trans h.vcs
  tailSent := h'.tailSent.trans h.tailSent
  inUseBy w hw := (h'.inUseBy w (h.tailSent ▸ hw)).trans (h.inUseBy w hw)
  counter := h'.counter.trans h.counter

theorem processCredit_credited {c : Credit} (h : b.processCredit now c = .ok b') :
    Credited b b' := by
  refine rel_of_foldlM_eq_ok Credited.refl Credited.trans (fun b₁ b₂ vc _ hstep => ?_) h
  obtain ⟨-, -, -, -, hin, htail, hvcs, -, -, hpolicy⟩ := processCreditFor_eq_ok hstep
  refine ⟨hvcs, htail, fun w hw => ?_, (Policy.freeSlotFor_eq_ok hpolicy).1⟩
  rcases hin with hin | ⟨⟨-, -, hsent⟩, hin⟩
  · rw [hin]
  · have hne : w ≠ vc := by
      rintro rfl
      exact absurd (hsent.symm.trans hw) (by decide)
    rw [hin, update_of_ne hne]

theorem Credited.counted (h : Credited b b') (hb : b.Counted) : b'.Counted := by
  have hopen : b'.openVCs = b.openVCs := by
    ext v
    rw [mem_openVCs, mem_openVCs]
    unfold IsOpen IsVC
    rw [h.vcs, h.tailSent]
    refine and_congr_right fun _ => and_congr_left fun hsent => ?_
    rw [h.inUseBy v hsent]
  intro c hc
  rw [h.counter] at hc
  rw [hb c hc, hopen, h.vcs]

theorem takeBuffer_ends {tag : ℤ} (hb : b.Counted) (hw : b.IsVC w)
    (hfree : b.isAvailableFor w = true) :
    Ends (fun _ => True) (fun fault => fault = .assertion "_max_held_slots > 0" ∧ ¬ b.policy.Shares)
      (b.takeBuffer w tag) := by
  have hfree : b.inUseBy w < 0 := of_decide_eq_true hfree
  refine .require (fun _ => .require (fun _ => ?_) fun h => absurd hfree h) fun h => absurd hw h
  refine Ends.map (Policy.takeBuffer_of_counter fun c hc => ?_) _
  rw [hb c hc]
  refine ⟨Int.natCast_nonneg _, ?_⟩
  -- the VC that is taken is not among the open ones
  have hsub : b.openVCs ⊂ (Finset.range b.vcs).image fun k : ℕ => (k : ℤ) := by
    refine Finset.ssubset_iff_of_subset (Finset.filter_subset _ _) |>.mpr ⟨w, ?_, fun hopen => ?_⟩
    · exact mem_allVCs.mpr hw
    · exact absurd (mem_openVCs.mp hopen).2.1 (not_le.mpr hfree)
  have hcard := (Finset.card_lt_card hsub).trans_le Finset.card_image_le
  rw [Finset.card_range] at hcard
  dsimp only
  omega

theorem new_eq_ok {bufCfg : BufferConfig} {minLatency : ℤ}
    (h : BufferState.new bufCfg minLatency = .ok b) :
    b.vcs = bufCfg.numVCs ∧ b.Counted := by
  obtain ⟨policy, hpolicy, rfl⟩ := bind_return_ok.mp h
  refine ⟨rfl, fun c hc => ?_⟩
  rw [(Policy.new_eq_ok hpolicy).1 c hc]
  refine Prod.ext (Nat.cast_eq_zero.mpr (Finset.card_eq_zero.mpr ?_)).symm rfl
  exact Finset.filter_eq_empty_iff.mpr fun w _ hopen =>
    absurd (show (0 : ℤ) ≤ -1 from hopen.1) (by decide)

end BufferState

/-! ## Assignments -/

/-- The output VC that a VC has: an active one has it until its tail has been sent. -/
def VC.assigned (w : VC) : Option (ℤ × ℤ) :=
  if w.state = .active then some (w.outPort, w.outVC) else none

/-- The output VCs that the input VCs have, and the buffer states of the outputs. -/
@[ext] structure Assignments where
  of : ℤ → ℤ → Option (ℤ × ℤ)
  dest : ℤ → BufferState

namespace Assignments

/-- What happens to output VCs. -/
inductive Move (cfg : RouterConfig) (a : Assignments) : Assignments → Prop
  | credit {o now : ℤ} {c : Credit} {b : BufferState}
      (h : (a.dest o).processCredit now c = .ok b) : Move cfg a { a with dest := update a.dest o b }
  | take {i v o w : ℤ} {b : BufferState} (hi : cfg.IsInput i) (hv : cfg.IsVC v)
      (hnone : a.of i v = none) (h : (a.dest o).takeBuffer w (i * cfg.vcs + v) = .ok b) :
      Move cfg a { of := update₂ a.of i v (some (o, w)), dest := update a.dest o b }
  | send {i v o now : ℤ} {f : Flit} {b : BufferState} (hi : cfg.IsInput i) (hv : cfg.IsVC v)
      (hsome : a.of i v = some (o, f.vc)) (h : (a.dest o).sendingFlit now f = .ok b) :
      Move cfg a { of := if f.tail then update₂ a.of i v none else a.of, dest := update a.dest o b }

/-- The buffer states know who has a VC. -/
structure Owned (cfg : RouterConfig) (a : Assignments) : Prop where
  vcs : ∀ o, (a.dest o).vcs = cfg.vcs
  held : ∀ i v o w, cfg.IsInput i → cfg.IsVC v → a.of i v = some (o, w) →
    (a.dest o).inUseBy w = i * cfg.vcs + v ∧ (a.dest o).tailSent w = false
  counted : ∀ o, (a.dest o).Counted

variable {cfg : RouterConfig} {a a' : Assignments} {i v i' v' o w : ℤ}

theorem div_mod_of_digit {n a b : ℤ} (hb : 0 ≤ b ∧ b < n) :
    (a * n + b) / n = a ∧ (a * n + b) % n = b := by
  have hpos : n ≠ 0 := (lt_of_le_of_lt hb.1 hb.2).ne'
  rw [Int.mul_add_emod_self_right, Int.emod_eq_of_lt hb.1 hb.2, Int.mul_add_ediv_right _ _ hpos,
    Int.ediv_eq_zero_of_lt hb.1 hb.2, add_zero]
  exact ⟨rfl, rfl⟩

theorem digit_inj {n a a' b b' : ℤ} (hb : 0 ≤ b ∧ b < n) (hb' : 0 ≤ b' ∧ b' < n)
    (h : a * n + b = a' * n + b') : a = a' ∧ b = b' := by
  obtain ⟨hdiv, hmod⟩ := div_mod_of_digit (a := a) hb
  rw [h, (div_mod_of_digit hb').1] at hdiv
  rw [h, (div_mod_of_digit hb').2] at hmod
  exact ⟨hdiv.symm, hmod.symm⟩

theorem tag_nonneg (hi : cfg.IsInput i) (hv : cfg.IsVC v) : 0 ≤ i * (cfg.vcs : ℤ) + v :=
  Int.add_nonneg (Int.mul_nonneg hi.1 (Int.natCast_nonneg _)) hv.1

theorem tag_lt (hi : cfg.IsInput i) (hv : cfg.IsVC v) :
    i * (cfg.vcs : ℤ) + v < cfg.inputs * cfg.vcs := by
  have hmul : (i + 1) * (cfg.vcs : ℤ) ≤ cfg.inputs * cfg.vcs :=
    Int.mul_le_mul_of_nonneg_right hi.2 (Int.natCast_nonneg _)
  have hlt := hv.2
  rw [add_mul, one_mul] at hmul
  omega

theorem Owned.exclusive (h : Owned cfg a) (hi : cfg.IsInput i) (hv : cfg.IsVC v)
    (hi' : cfg.IsInput i') (hv' : cfg.IsVC v') (hof : a.of i v = some (o, w))
    (hof' : a.of i' v' = some (o, w)) : i = i' ∧ v = v' :=
  digit_inj hv hv' ((h.held i v o w hi hv hof).1.symm.trans (h.held i' v' o w hi' hv' hof').1)

theorem Owned.of_dest {b : BufferState} (h : Owned cfg a) (hdest : a'.dest = update a.dest o b)
    (hvcs : b.vcs = (a.dest o).vcs) (hcounted : b.Counted)
    (hheld : ∀ i v o' w, cfg.IsInput i → cfg.IsVC v → a'.of i v = some (o', w) →
      (update a.dest o b o').inUseBy w = i * cfg.vcs + v ∧
        (update a.dest o b o').tailSent w = false) : Owned cfg a' := by
  refine ⟨fun o' => ?_, fun i v o' w hi hv hof => ?_, fun o' => ?_⟩
  · rw [hdest, update_apply]
    split_ifs
    · exact hvcs.trans (h.vcs o)
    · exact h.vcs o'
  · rw [hdest]
    exact hheld i v o' w hi hv hof
  · rw [hdest, update_apply]
    split_ifs
    · exact hcounted
    · exact h.counted o'

theorem Move.owned (hrange : cfg.inputs * cfg.vcs ≤ 2 ^ 31) (hmove : Move cfg a a')
    (h : Owned cfg a) : Owned cfg a' := by
  cases hmove with
  | @credit o now c b hcredit =>
    have hb := BufferState.processCredit_credited hcredit
    refine h.of_dest rfl hb.vcs (hb.counted (h.counted o)) fun i v o' w hi hv hof => ?_
    obtain ⟨htag, hsent⟩ := h.held i v o' w hi hv hof
    rw [update_apply]
    split_ifs with ho
    · subst ho
      rw [hb.inUseBy w hsent, hb.tailSent]
      exact ⟨htag, hsent⟩
    · exact ⟨htag, hsent⟩
  | @take i v o w b hi hv hnone htake =>
    have hlt := tag_lt hi hv
    have htoInt : toInt (i * cfg.vcs + v) = i * cfg.vcs + v :=
      toInt_eq (tag_nonneg hi hv) (by omega)
    have hcounted := BufferState.takeBuffer_counted htake
      (htoInt.symm ▸ tag_nonneg hi hv) (h.counted o)
    obtain ⟨-, hfree, policy, -, rfl⟩ := BufferState.takeBuffer_eq_ok htake
    refine h.of_dest rfl rfl hcounted fun i' v' o' w' hi' hv' hof => ?_
    change update₂ a.of i v (some (o, w)) i' v' = _ at hof
    rw [update₂_apply] at hof
    split_ifs at hof with hplace
    · cases hof
      rw [update_self, hplace.1, hplace.2]
      exact ⟨(update_self ..).trans htoInt, update_self ..⟩
    · obtain ⟨htag, hsent⟩ := h.held i' v' o' w' hi' hv' hof
      rw [update_apply]
      split_ifs with ho
      · subst ho
        have hne : w' ≠ w := by
          rintro rfl
          exact absurd (htag ▸ hfree) (not_lt.mpr (tag_nonneg hi' hv'))
        exact ⟨(update_of_ne hne ..).trans htag, (update_of_ne hne ..).trans hsent⟩
      · exact ⟨htag, hsent⟩
  | @send i v o now f b hi hv hsome hsend =>
    obtain ⟨htag, hsent⟩ := h.held i v o f.vc hi hv hsome
    have hcounted := BufferState.sendingFlit_counted hsend
      ⟨htag.symm ▸ tag_nonneg hi hv, hsent⟩ (h.counted o)
    have hvcs : b.vcs = (a.dest o).vcs := by
      obtain ⟨-, -, policy, -, rfl⟩ := BufferState.sendingFlit_eq_ok hsend
      rfl
    refine h.of_dest rfl hvcs hcounted fun i' v' o' w' hi' hv' hof => ?_
    have hold : a.of i' v' = some (o', w') ∧ (f.tail = true → ¬ (i' = i ∧ v' = v)) := by
      change (if f.tail then update₂ a.of i v none else a.of) i' v' = _ at hof
      split_ifs at hof with htail
      · rw [update₂_apply] at hof
        split_ifs at hof with hplace
        exact ⟨hof, fun _ => hplace⟩
      · exact ⟨hof, fun h => absurd h htail⟩
    obtain ⟨htag', hsent'⟩ := h.held i' v' o' w' hi' hv' hold.1
    rw [update_apply]
    split_ifs with ho
    · subst ho
      -- the packet whose tail is sent was the only one to have its VC
      have hholder := BufferState.sendingFlit_holder hsend (w := w') fun htail => by
        rintro rfl
        exact hold.2 htail (h.exclusive hi' hv' hi hv hold.1 hsome)
      exact ⟨hholder.1.trans htag', hholder.2.trans hsent'⟩
    · exact ⟨htag', hsent'⟩

end Assignments

/-! ## The rounds of a router -/

namespace Router

/-- The output VCs as the router has them. -/
def assignments (r : Router) : Assignments where
  of i v := (r.vcAt i v).assigned
  dest := r.nextBuf

variable {cfg : RouterConfig} {env : RouterEnv} {r r' : Router} {i v i' v' : ℤ}

theorem assigned_of_state {w : VC} (h : w.state ≠ .active) : w.assigned = none := if_neg h

theorem assigned_of_active {w : VC} (h : w.state = .active) :
    w.assigned = some (w.outPort, w.outVC) := if_pos h

theorem assigned_setVC (w : VC) : ((r.setVC i v w).vcAt i' v').assigned =
    if i' = i ∧ v' = v then w.assigned else (r.vcAt i' v').assigned := by
  rw [show (r.setVC i v w).vcAt i' v' = _ from vcAt_of_buf rfl rfl, apply_ite VC.assigned]

theorem assigned_begun (routeSet : OutputSet) : ((r.begun cfg i v routeSet).vcAt i' v').assigned =
    if i' = i ∧ v' = v then none else (r.vcAt i' v').assigned := by
  unfold begun
  by_cases hrouting : cfg.routingDelay ≠ 0
  · rw [if_pos hrouting]
    exact assigned_setVC (r := r) _
  · rw [if_neg hrouting]
    exact assigned_setVC (r := r) _

theorem enterFlit_assignments {f : Flit} (h : enterFlit cfg env r i f = .ok r') :
    r'.assignments = r.assignments := by
  obtain ⟨-, b, hb, -, hcore⟩ := enterFlit_core h
  obtain ⟨-, w, hw, hbvc⟩ := Buffer.addFlit_eq_ok hb
  obtain ⟨-, fpri, pri, rfl⟩ := VC.addFlit_eq_ok hw
  have hadded : ∀ {s : Router}, s.buf = update r.buf i b → ∀ i' v',
      (s.vcAt i' v').assigned = (r.vcAt i' v').assigned := fun {s} hs i' v' => by
    rw [vcAt_of_buf (v := f.vc) hs (by rw [hbvc]; rfl)]
    split_ifs with hplace
    · rw [hplace.1, hplace.2]
      rfl
    · rfl
  rw [show r'.assignments = (r.entered cfg i f b (env.route i f)).assignments from
    (congrArg assignments hcore :)]
  refine Assignments.ext (funext fun i' => funext fun v' => ?_) ?_
  · change ((r.entered cfg i f b (env.route i f)).vcAt i' v').assigned = _
    unfold entered
    split
    · rename_i hidle
      rw [assigned_begun, hadded rfl]
      split_ifs with hplace
      · rw [hplace.1, hplace.2]
        exact (assigned_of_state (by rw [hidle]; decide)).symm
      · rfl
    · split_ifs
      · exact hadded rfl i' v'
      · exact hadded rfl i' v'
      · exact hadded rfl i' v'
    · exact hadded rfl i' v'
  · change (r.entered cfg i f b (env.route i f)).nextBuf = r.nextBuf
    unfold entered
    split
    · exact congrArg Backdrop.nextBuf (backdrop_begun _ _ _)
    · split_ifs
      · rfl
      · rfl
      · rfl
    · rfl

theorem Sent.move {x : ℤ} {done stay : Router → Router} {f : Flit} {rest : List Flit}
    {dest : BufferState} (h : Sent cfg r i v x done stay f rest dest r') (hi : cfg.IsInput i)
    (hv : cfg.IsVC v) (hactive : (r.vcAt i v).state = .active)
    (hport : (r.vcAt i v).outPort = x / cfg.outputSpeedup)
    (hdone : ∀ r, (done r).buf = r.buf ∧ (done r).backdrop = r.backdrop)
    (hstay : ∀ r, (stay r).buf = r.buf ∧ (stay r).backdrop = r.backdrop) :
    r.assignments.Move cfg r'.assignments := by
  have hnext : r'.nextBuf = update r.nextBuf (x / cfg.outputSpeedup) dest :=
    congrArg Backdrop.nextBuf (h.backdrop_eq (fun r => (hdone r).2) fun r => (hstay r).2)
  obtain ⟨now, hdest⟩ := h.dest_eq
  obtain ⟨b, routeSet, hremoved, hcore⟩ := h.core_eq
  obtain ⟨rest', pri, -, hb⟩ := Buffer.removeFlit_eq_ok hremoved
  have hsent : ∀ {s : Router}, s.buf = update r.buf i b → ∀ i' v',
      (s.vcAt i' v').assigned = (r.vcAt i' v').assigned := fun {s} hs i' v' => by
    rw [vcAt_of_buf (v := v) hs (by rw [hb]; rfl)]
    split_ifs with hplace
    · rw [hplace.1, hplace.2]
      rfl
    · rfl
  have hof : r'.assignments.of =
      if (r.leaving i v f).tail then update₂ r.assignments.of i v none else r.assignments.of := by
    rw [show r'.assignments.of = ((r.sent cfg i v x f b dest).concluded cfg i v f rest routeSet
      done stay).assignments.of from (congrArg (fun s => s.assignments.of) hcore :)]
    funext i' v'
    change ((concluded cfg _ i v f rest routeSet done stay).vcAt i' v').assigned =
      (if f.tail then update₂ r.assignments.of i v none else r.assignments.of) i' v'
    unfold concluded
    split_ifs with htail hrest hrest
    · rw [setState, assigned_setVC, update₂_apply, hsent (hdone _).1]
      rfl
    · rw [assigned_begun, update₂_apply, hsent (hdone _).1]
      rfl
    · exact hsent (hdone _).1 i' v'
    · exact hsent (hstay _).1 i' v'
  have hassigned : r.assignments.of i v = some (x / cfg.outputSpeedup, (r.leaving i v f).vc) :=
    (assigned_of_active hactive).trans (by rw [hport]; rfl)
  have hr' : r'.assignments = {
      of := if (r.leaving i v f).tail then update₂ r.assignments.of i v none
        else r.assignments.of
      dest := update r.assignments.dest (x / cfg.outputSpeedup) dest } :=
    Assignments.ext hof hnext
  rw [hr']
  exact .send hi hv hassigned hdest

theorem taken_move {o w : ℤ} {dest : BufferState} (hi : cfg.IsInput i) (hv : cfg.IsVC v)
    (hstate : (r.vcAt i v).state = .vc_alloc)
    (hdest : (r.nextBuf o).takeBuffer w (i * cfg.vcs + v) = .ok dest)
    (hof : r'.vcAt = (r.taken i v o w dest).vcAt) (hnext : r'.nextBuf = update r.nextBuf o dest) :
    r.assignments.Move cfg r'.assignments := by
  have hr' : r'.assignments = {
      of := update₂ r.assignments.of i v (some (o, w))
      dest := update r.assignments.dest o dest } := by
    refine Assignments.ext (funext fun i' => funext fun v' => ?_) hnext
    change (r'.vcAt i' v').assigned = update₂ r.assignments.of i v (some (o, w)) i' v'
    rw [hof, update₂_apply]
    exact assigned_setVC (r := r) _
  rw [hr']
  exact .take hi hv (assigned_of_state (by rw [hstate]; decide)) hdest

theorem Equipped.active {e : Entry} {r₀ r₁ : Router} {o : ℤ}
    (h : Equipped cfg r₀ e.input e.vc o r₁) (htidy : Tidy cfg r) (hr₀ : r₀.vcAt = r.vcAt)
    (hready : (r.vcAt e.input e.vc).state = .active ∨
      cfg.speculative ∧ (r.vcAt e.input e.vc).state = .vc_alloc)
    (ho : cfg.IsOutput o) (hport : (r₁.vcAt e.input e.vc).outPort = o) :
    (r₁.vcAt e.input e.vc).state = .active := by
  cases h with
  | already h₁ =>
    rw [h₁, hr₀] at hport ⊢
    refine hready.resolve_right fun hvc => ?_
    have hnone : (r.vcAt e.input e.vc).outPort = -1 := (htidy e.input e.vc).2 hvc.2
    exact absurd ho.1 (by rw [← hport, hnone]; decide)
  | @piggyback w dest _ _ _ hcore =>
    rw [show r₁.vcAt = (r₀.taken e.input e.vc o w dest).vcAt from (congrArg vcAt hcore :)]
    exact congrArg VC.state (show (r₀.taken e.input e.vc o w dest).vcAt e.input e.vc = _ from
      (vcAt_of_buf (r := r₀) rfl rfl).trans (if_pos ⟨rfl, rfl⟩))

theorem moves_kept {J : Assignments → Prop}
    (hJ : ∀ {a a' : Assignments}, a.Move cfg a' → J a → J a') :
    Kept cfg env (fun r => J r.assignments) (Tidy cfg) where
  enter _ _ hitem _ h := (enterFlit_assignments hitem).symm ▸ h
  credit _ hitem _ h := by
    obtain ⟨-, dest, hdest, rfl⟩ := creditItem_eq_ok hitem
    exact hJ (.credit hdest) h
  evaluate hevaluate _ h := by
    rwa [(evaluateStages_ends.of_eq_ok hevaluate).same]
  route {r r' e q} _ _ hitem _ h := by
    obtain ⟨-, -, hstate, routeSet, rfl⟩ := routeItem_eq_ok hitem
    have hsame : (r.routed cfg e.input e.vc routeSet).assignments = r.assignments := by
      refine Assignments.ext (funext fun i' => funext fun v' => ?_) rfl
      refine (assigned_setVC (r := r) _).trans ?_
      split_ifs with hplace
      · rw [hplace.1, hplace.2]
        exact (assigned_of_state (by rw [hstate]; decide)).symm
      · rfl
    exact hsame.symm ▸ h
  vcAlloc {r r' e q} _ _ hitem _ h := by
    obtain ⟨-, ⟨f, rest, hfront⟩, hstate, hcases⟩ := vcAllocItem_eq_ok hitem
    rcases hcases with ⟨-, rfl⟩ | ⟨-, o, w, dest, -, hdest, rfl⟩
    · exact h
    · refine hJ (taken_move hfront.input hfront.vc hstate hdest ?_ ?_) h
      · rw [allocated_eq]
        rfl
      · rw [allocated_eq]
        rfl
  swHold {r r' e q} _ _ hitem _ h := by
    obtain ⟨-, ⟨f, rest, hfront⟩, hactive, -, hcases⟩ := swHoldItem_core hitem
    rcases hcases with ⟨-, -, -, -, hport, -, f, rest, dest, hsent⟩ | ⟨-, rfl⟩
    · exact hJ (hsent.move hfront.input hfront.vc hactive hport (fun _ => ⟨rfl, rfl⟩)
        fun _ => ⟨rfl, rfl⟩) h
    · exact h
  swAlloc {r r' e q} _ _ hitem htidy h := by
    obtain ⟨-, ⟨f, rest, hfront⟩, hready, hcases⟩ := swAllocItem_core hitem
    rcases hcases with ⟨-, rfl⟩ | ⟨-, ho, -, -, -, r₁, hequipped, hport, -, f, rest, dest, hsent⟩
    · exact h
    · have hactive := hequipped.active htidy rfl hready ho hport
      have h₁ : J r₁.assignments := by
        cases hequipped with
        | already h₁ => exact h₁.symm ▸ h
        | piggyback _ hstate hdest hcore =>
          exact hJ (taken_move hfront.input hfront.vc hstate hdest (congrArg vcAt hcore :)
            (congrArg nextBuf hcore :)) h
      refine hJ (hsent.move hfront.input hfront.vc hactive hport (fun _ => ⟨rfl, rfl⟩) ?_) h₁
      refine fun s => ⟨?_, backdrop_stays _ _ _ _⟩
      unfold stays
      split <;> rfl
  switch _ _ hitem _ h := by
    obtain ⟨-, -, rfl⟩ := switchItem_eq_ok hitem
    exact h
  flush hflush _ h := by
    obtain rfl := outputQueuing_eq_ok hflush
    exact h
  active _ h := h

variable {bufCfg : BufferConfig} {C : RouterEnv → Router → Prop} {now : ℤ}

theorem owned_kept (hrange : cfg.inputs * cfg.vcs ≤ 2 ^ 31) :
    Kept cfg env (fun r => Tidy cfg r ∧ r.assignments.Owned cfg) :=
  tidy_kept.and (moves_kept (Assignments.Move.owned hrange))

theorem owned_reached (hrange : cfg.inputs * cfg.vcs ≤ 2 ^ 31)
    (h : Reached cfg bufCfg C now r) : Tidy cfg r ∧ r.assignments.Owned cfg := by
  refine Kept.reached h (fun _ => owned_kept hrange) (fun next hvcs hnext => ?_) ?_ ?_
  · refine ⟨tidy_new next, fun o => ?_, fun i v o w _ _ hof => ?_, fun o => ?_⟩
    · obtain ⟨minLatency, hnew⟩ := hnext o
      exact (BufferState.new_eq_ok hnew).1.trans hvcs
    · cases hof
    · obtain ⟨minLatency, hnew⟩ := hnext o
      exact (BufferState.new_eq_ok hnew).2
  · exact fun ⟨htidy, howned⟩ => ⟨tidy_of_filing rfl htidy, howned⟩
  · exact fun ⟨htidy, howned⟩ => ⟨tidy_of_filing rfl htidy, howned⟩

end Router

end BookSim
