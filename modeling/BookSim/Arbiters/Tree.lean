/-
# Tree — arbiters for groups, and one for the groups

The inputs of a tree arbiter are divided into groups of the same size.  Each group has an arbiter,
and the requests that these select go to the global arbiter, which selects a group.  All of them are
of the same kind, which may itself be a tree.

    part        the requests of a group, as its arbiter sees them
    Consulted   what is true when some groups have passed their requests on
-/
import BookSim.Arbiters.Matrix
import BookSim.Arbiters.RoundRobin

namespace BookSim

open Function (update update_apply update_of_ne update_self)

structure TreeState (σ : Type) where
  base : ArbiterBase
  groupSize : ℕ
  groups : ℕ
  groupArbiters : ℤ → σ
  groupReqs : ℤ → ℕ := fun _ => 0
  globalArbiter : σ

namespace TreeState

section Functions

variable (sub : Arbiter)

def new (groups size : ℕ) : Except Fault (TreeState sub.State) := do
  require (.assertion "size % groups == 0") (size % groups = 0)
  let groupArb ← sub.new (size / groups)
  let globalArb ← sub.new groups
  return {
    base := { size := size }
    groupSize := size / groups
    groups := groups
    groupArbiters := fun _ => groupArb
    globalArbiter := globalArb }

def addRequest (s : TreeState sub.State) (input : ℤ) (e : ArbEntry) :
    Except Fault (TreeState sub.State) := do
  let base ← s.base.addRequest input e
  let group := input / s.groupSize
  let arb ← sub.addRequest (s.groupArbiters group) (input % s.groupSize) e
  return { s with
    base := base
    groupArbiters := update s.groupArbiters group arb
    groupReqs := update s.groupReqs group (s.groupReqs group + 1) }

/-- The turn of a group in `Arbitrate`.  `group_id` and `group_pri` have no value before. -/
def consult (s : TreeState sub.State) (i : ℤ) : Except Fault (TreeState sub.State) :=
  if s.groupReqs i ≠ 0 then do
    let (arb, _, entry) ← sub.arbitrate (s.groupArbiters i)
    let globalArb ← sub.addRequest s.globalArbiter i (entry.getD ⟨0, 0⟩)
    return { s with groupArbiters := update s.groupArbiters i arb, globalArbiter := globalArb }
  else return s

def arbitrate (s : TreeState sub.State) :
    Except Fault (TreeState sub.State × ℤ × Option ArbEntry) :=
  if s.base.numReqs = 0 then return (s, -1, none)
  else do
    let s₁ ← (indices s.groups).foldlM (consult sub) s
    let (globalArb, group, _) ← sub.arbitrate s₁.globalArbiter
    require (.assertion "group >= 0 && group < (int)_group_arbiters.size()")
      (0 ≤ group ∧ group < s₁.groups)
    let groupSel := sub.lastWinner (s₁.groupArbiters group)
    require (.assertion "group_sel >= 0 && group_sel < _group_size")
      (0 ≤ groupSel ∧ groupSel < s₁.groupSize)
    let selected := group * s₁.groupSize + groupSel
    require (.assertion "_selected >= 0 && _selected < _size")
      (0 ≤ selected ∧ selected < s₁.base.size)
    let s₂ : TreeState sub.State :=
      { s₁ with globalArbiter := globalArb, base := { s₁.base with selected := selected } }
    let (input, entry) ← s₂.base.arbitrate
    return (s₂, input, entry)

def updateState (s : TreeState sub.State) : Except Fault (TreeState sub.State) :=
  if s.base.selected > -1 then do
    let lastWinner := sub.lastWinner s.globalArbiter
    require (.assertion "last_winner >= 0 && last_winner < (int)_group_arbiters.size()")
      (0 ≤ lastWinner ∧ lastWinner < s.groups)
    let arb ← sub.updateState (s.groupArbiters lastWinner)
    let globalArb ← sub.updateState s.globalArbiter
    return { s with
      groupArbiters := update s.groupArbiters lastWinner arb
      globalArbiter := globalArb }
  else return s

def clear (s : TreeState sub.State) : TreeState sub.State :=
  if s.base.numReqs = 0 then s
  else { s with
    groupArbiters := fun i =>
      if 0 ≤ i ∧ i < s.groups then sub.clear (s.groupArbiters i) else s.groupArbiters i
    groupReqs := fun _ => 0
    globalArbiter := sub.clear s.globalArbiter
    base := s.base.clear }

/-- What the arbiters inside remember: those of the groups, and the global one. -/
def memory (s : TreeState sub.State) : (ℤ × sub.Part) ⊕ sub.Part → Memory
  | .inl (i, p) => sub.memory (s.groupArbiters i) p
  | .inr p => sub.memory s.globalArbiter p

/-- The input that the selection of an arbiter inside stands for. -/
def choice (s : TreeState sub.State) : (ℤ × sub.Part) ⊕ sub.Part → ℤ
  | .inl (i, p) =>
    let sel := sub.choice (s.groupArbiters i) p
    if sel = -1 then -1 else i * s.groupSize + sel
  | .inr p =>
    let group := sub.choice s.globalArbiter p
    if group = -1 then -1 else group * s.groupSize + sub.lastWinner (s.groupArbiters group)

end Functions

/-! ## The requests of a group -/

/-- The requests of group `k`, by their places in the group. -/
def part (r : Entries) (size : ℕ) (k : ℤ) : Entries := fun j =>
  if j ∈ below size then r (k * size + j) else none

section Part

variable {r : Entries} {size groups : ℕ} {i j k : ℤ} {e : ArbEntry}

theorem part_eq_some : part r size k j = some e ↔ j ∈ below size ∧ r (k * size + j) = some e := by
  unfold part
  split
  · next hj => simp [hj]
  · next hj => simp [hj]

theorem part_none : part (fun _ => none) size k = fun _ => none := by
  funext j
  exact ite_self _

theorem div_of_place (hj : j ∈ below size) : (k * size + j) / size = k ∧
    (k * size + j) % size = j := by
  rw [mem_below] at hj
  have hpos : (size : ℤ) ≠ 0 := by omega
  constructor
  · rw [add_comm, Int.add_mul_ediv_right _ _ hpos, Int.ediv_eq_zero_of_lt hj.1 hj.2, zero_add]
  · rw [add_comm, Int.add_mul_emod_self_right, Int.emod_eq_of_lt hj.1 hj.2]

theorem place_of_mem (hi : i ∈ below (groups * size)) :
    i / size ∈ below groups ∧ i % size ∈ below size ∧ i / size * size + i % size = i := by
  rw [mem_below] at hi
  push_cast at hi
  have hpos : (0 : ℤ) < size := by
    rcases Nat.eq_zero_or_pos size with rfl | hpos
    · simp at hi
      omega
    · exact_mod_cast hpos
  refine ⟨mem_below.mpr ⟨Int.ediv_nonneg hi.1 hpos.le, Int.ediv_lt_of_lt_mul hpos hi.2⟩,
    mem_below.mpr ⟨Int.emod_nonneg _ hpos.ne', Int.emod_lt_of_pos _ hpos⟩, ?_⟩
  rw [mul_comm]
  exact Int.mul_ediv_add_emod i size

theorem part_place (hi : i ∈ below (groups * size)) : part r size (i / size) (i % size) = r i := by
  obtain ⟨-, hj, heq⟩ := place_of_mem hi
  rw [part, if_pos hj, heq]

theorem part_update_self (hi : i ∈ below (groups * size)) :
    part (update r i (some e)) size (i / size) =
      update (part r size (i / size)) (i % size) (some e) := by
  obtain ⟨-, hj, heq⟩ := place_of_mem hi
  funext j'
  rw [update_apply]
  split
  · next hj' => rw [hj', part, if_pos hj, heq, update_self]
  · next hne =>
      unfold part
      split
      · next hj' =>
          refine update_of_ne (fun heq' => hne ?_) ..
          rw [← heq', (div_of_place hj').2]
      · rfl

theorem part_update_ne (hk : k ≠ i / size) : part (update r i (some e)) size k = part r size k := by
  funext j
  unfold part
  split
  · next hj =>
      refine update_of_ne (fun heq => hk ?_) ..
      rw [← heq, (div_of_place hj).1]
  · rfl

end Part

/-! ## The tree keeps the laws -/

section Laws

variable {sub : Arbiter} (L : sub.Laws)

structure Gathers (n : ℕ) (r : Entries) (s : TreeState sub.State) : Prop where
  holds : s.base.Holds n r
  selected : s.base.selected = -1
  size : n = s.groups * s.groupSize
  group : ∀ k ∈ below s.groups, L.Gathers s.groupSize (part r s.groupSize k) (s.groupArbiters k)
  reqs : ∀ k ∈ below s.groups, s.groupReqs k = 0 ↔ ∀ j, part r s.groupSize k j = none
  global : L.Gathers s.groups (fun _ => none) s.globalArbiter

/-- What the global arbiter has selected, and the arbiter of that group. -/
def Elected (r : Entries) (w : ℤ) (s : TreeState sub.State) : Prop :=
  (w = -1 ∧ L.Gathers s.groups (fun _ => none) s.globalArbiter) ∨
    ∃ k ∈ below s.groups, ∃ j ∈ below s.groupSize, ∃ champions, w = k * s.groupSize + j ∧
      L.Decided s.groups champions k s.globalArbiter ∧
      L.Decided s.groupSize (part r s.groupSize k) j (s.groupArbiters k)

structure Decided (n : ℕ) (r : Entries) (w : ℤ) (s : TreeState sub.State) : Prop where
  holds : s.base.Holds n r
  selected : s.base.selected = w
  size : n = s.groups * s.groupSize
  group : ∀ k ∈ below s.groups, L.Gathers s.groupSize (part r s.groupSize k) (s.groupArbiters k) ∨
      ∃ j, L.Decided s.groupSize (part r s.groupSize k) j (s.groupArbiters k)
  reqs : ∀ k ∈ below s.groups, s.groupReqs k = 0 ↔ ∀ j, part r s.groupSize k j = none
  elected : Elected L r w s
  winner : Winner r w

variable {L} {n : ℕ} {r : Entries} {s : TreeState sub.State} {i w : ℤ}

theorem memory_congr {s' : TreeState sub.State} {k : ℤ} {arb : sub.State}
    (hgroups : s'.groupArbiters = update s.groupArbiters k arb)
    (hgroup : sub.memory arb = sub.memory (s.groupArbiters k))
    (hglobal : sub.memory s'.globalArbiter = sub.memory s.globalArbiter) :
    s'.memory sub = s.memory sub := by
  funext p
  cases p with
  | inl p =>
    show sub.memory (s'.groupArbiters p.1) p.2 = sub.memory (s.groupArbiters p.1) p.2
    rw [hgroups, update_apply]
    split
    · next hp => rw [hp, hgroup]
    · rfl
  | inr p => exact congrFun hglobal p

theorem Gathers.of_new {groups size : ℕ} (h : TreeState.new sub groups size = .ok s) :
    Gathers L size (fun _ => none) s := by
  obtain ⟨hdvd, h⟩ := require_ok.mp h
  obtain ⟨groupArb, hgroup, h⟩ := bind_ok.mp h
  obtain ⟨globalArb, hglobal, rfl⟩ := bind_return_ok.mp h
  refine ⟨.new size, rfl, ?_, fun k _ => ?_, fun k _ => ?_, L.new hglobal⟩
  · exact (Nat.mul_div_cancel' (Nat.dvd_of_mod_eq_zero hdvd)).symm
  · rw [part_none]
    exact L.new hgroup
  · rw [part_none]
    exact iff_of_true rfl fun _ => rfl

theorem Gathers.addRequest (h : Gathers L n r s) (hi : i ∈ below n) (hfree : r i = none)
    (e : ArbEntry) : ∃ s', TreeState.addRequest sub s i e = .ok s' ∧
      Gathers L n (update r i (some e)) s' ∧ s'.memory sub = s.memory sub := by
  obtain ⟨base, hbase, hholds, hselected, -⟩ := h.holds.addRequest hi hfree e
  rw [h.size] at hi
  obtain ⟨hk, hj, hplace⟩ := place_of_mem hi
  obtain ⟨arb, harb, hgathers, hmemory⟩ := L.addRequest e (h.group _ hk) hj
    ((part_place hi).trans hfree)
  refine ⟨_, bind_ok.mpr ⟨base, hbase, bind_ok.mpr ⟨arb, harb, rfl⟩⟩,
    ⟨hholds, hselected.trans h.selected, h.size, fun k hk' => ?_, fun k hk' => ?_, h.global⟩, ?_⟩
  · show L.Gathers s.groupSize (part _ s.groupSize k) (update s.groupArbiters _ arb k)
    by_cases hkk : k = i / s.groupSize
    · rwa [hkk, part_update_self hi, update_self]
    · rw [part_update_ne hkk, update_of_ne hkk]
      exact h.group k hk'
  · show update s.groupReqs _ _ k = 0 ↔ ∀ j, part _ s.groupSize k j = none
    by_cases hkk : k = i / s.groupSize
    · rw [hkk, update_self, part_update_self hi]
      refine iff_of_false (Nat.succ_ne_zero _) fun hnone => ?_
      have := hnone (i % s.groupSize)
      rw [update_self] at this
      cases this
    · rw [part_update_ne hkk, update_of_ne hkk]
      exact h.reqs k hk'
  · exact memory_congr rfl hmemory rfl

/-- The groups in `seen` have been consulted; the global arbiter has a request for each that has
any. It began with `s₀`. -/
structure Consulted (L : sub.Laws) (r : Entries) (s₀ : TreeState sub.State) (seen : List ℤ)
    (s : TreeState sub.State) : Prop where
  base : s.base = s₀.base
  groupSize : s.groupSize = s₀.groupSize
  groups : s.groups = s₀.groups
  groupReqs : s.groupReqs = s₀.groupReqs
  rest : ∀ k, k ∉ seen → s.groupArbiters k = s₀.groupArbiters k
  memory : s.memory sub = s₀.memory sub
  champions : ∃ champions, L.Gathers s₀.groups champions s.globalArbiter ∧
    (∀ k, k ∉ seen → champions k = none) ∧
    ∀ k ∈ seen, (s.groupArbiters k = s₀.groupArbiters k ∧ champions k = none ∧
        ∀ j, part r s₀.groupSize k j = none) ∨
      ∃ j e, L.Decided s₀.groupSize (part r s₀.groupSize k) j (s.groupArbiters k) ∧
        part r s₀.groupSize k j = some e ∧ champions k = some e ∧
        ∀ j' e', part r s₀.groupSize k j' = some e' → e'.pri ≤ e.pri

theorem Gathers.consulted (h : Gathers L n r s) : Consulted L r s [] s where
  base := rfl
  groupSize := rfl
  groups := rfl
  groupReqs := rfl
  rest _ _ := rfl
  memory := rfl
  champions := ⟨fun _ => none, h.global, fun _ _ => rfl, nofun⟩

theorem Consulted.consult {s₀ : TreeState sub.State} {seen : List ℤ} {k : ℤ}
    (h : Consulted L r s₀ seen s) (h₀ : Gathers L n r s₀) (hk : k ∈ below s₀.groups)
    (hseen : k ∉ seen) :
    ∃ s', TreeState.consult sub s k = .ok s' ∧ Consulted L r s₀ (seen ++ [k]) s' := by
  obtain ⟨champions, hglobal, hnone, hchampions⟩ := h.champions
  have hgroup := h₀.group k hk
  rw [← h.rest k hseen] at hgroup
  by_cases hreqs : s.groupReqs k = 0
  · refine ⟨s, if_neg (not_not.mpr hreqs), h.base, h.groupSize, h.groups, h.groupReqs,
      fun k' hk' => h.rest k' fun mem_snoc' => hk' (mem_snoc.mpr (.inl mem_snoc')), h.memory,
      champions, hglobal, fun k' hk' => hnone k' fun mem_snoc' =>
      hk' (mem_snoc.mpr (.inl mem_snoc')), fun k' hk' => ?_⟩
    rcases mem_snoc.mp hk' with hk' | rfl
    · exact hchampions k' hk'
    · rw [h.groupReqs] at hreqs
      exact .inl ⟨h.rest k' hseen, hnone k' hseen, (h₀.reqs k' hk).mp hreqs⟩
  · obtain ⟨arb, j, harb, hdecided, hwinner, hmemory⟩ := L.arbitrate hgroup
    obtain ⟨e, he, hbest⟩ : ∃ e, part r s₀.groupSize k j = some e ∧
        ∀ j' e', part r s₀.groupSize k j' = some e' → e'.pri ≤ e.pri := by
      rcases hwinner with ⟨-, hempty⟩ | hsome
      · rw [h.groupReqs] at hreqs
        exact absurd ((h₀.reqs k hk).mpr hempty) hreqs
      · exact hsome
    obtain ⟨globalArb, hadd, hgathers, hmemory'⟩ := L.addRequest e hglobal hk (hnone k hseen)
    have hconsult : TreeState.consult sub s k = .ok { s with
        groupArbiters := update s.groupArbiters k arb, globalArbiter := globalArb } := by
      unfold TreeState.consult
      rw [if_pos hreqs]
      refine bind_ok.mpr ⟨_, harb, bind_ok.mpr ⟨globalArb, ?_, rfl⟩⟩
      rwa [he]
    refine ⟨_, hconsult, h.base, h.groupSize, h.groups, h.groupReqs, fun k' hk' => ?_, ?_,
      update champions k (some e), hgathers, fun k' hk' => ?_, fun k' hk' => ?_⟩
    · obtain ⟨hk', hne⟩ := not_or.mp (mem_snoc.not.mp hk')
      exact (update_of_ne hne ..).trans (h.rest k' hk')
    · exact (memory_congr rfl hmemory hmemory').trans h.memory
    · obtain ⟨hk', hne⟩ := not_or.mp (mem_snoc.not.mp hk')
      exact (update_of_ne hne ..).trans (hnone k' hk')
    · grind

theorem Consulted.elect {s₀ : TreeState sub.State} (h : Consulted L r s₀ (indices s₀.groups) s)
    (h₀ : Gathers L n r s₀) (hsome : ∃ i, r i ≠ none) :
    ∃ globalArb champions k j e, sub.arbitrate s.globalArbiter = .ok (globalArb, k, champions k) ∧
      L.Decided s₀.groups champions k globalArb ∧
      sub.memory globalArb = sub.memory s.globalArbiter ∧
      k ∈ below s₀.groups ∧ j ∈ below s₀.groupSize ∧
      L.Decided s₀.groupSize (part r s₀.groupSize k) j (s.groupArbiters k) ∧
      r (k * s₀.groupSize + j) = some e ∧ ∀ i e', r i = some e' → e'.pri ≤ e.pri := by
  obtain ⟨champions, hglobal, hnone, hchampions⟩ := h.champions
  -- every request is at most as good as the champion of its group
  have hgroup : ∀ {i e'}, r i = some e' → ∃ k e, champions k = some e ∧ e'.pri ≤ e.pri := by
    intro i e' hi
    have hplace := h₀.holds.within i (by rw [hi]; rfl)
    rw [h₀.size] at hplace
    have hpart := (part_place hplace).trans hi
    rcases hchampions _ (mem_indices.mpr (place_of_mem hplace).1) with ⟨-, -, hempty⟩ |
      ⟨j, e, -, -, he, hbest⟩
    · rw [hempty] at hpart
      cases hpart
    · exact ⟨_, e, he, hbest _ e' hpart⟩
  obtain ⟨globalArb, k, harb, hdecided, hwinner, hmemory⟩ := L.arbitrate hglobal
  obtain ⟨e, he, hbest⟩ : ∃ e, champions k = some e ∧
      ∀ i e', champions i = some e' → e'.pri ≤ e.pri := by
    rcases hwinner with ⟨-, hempty⟩ | hsome'
    · obtain ⟨i, hi⟩ := hsome
      obtain ⟨e', he'⟩ := Option.ne_none_iff_exists'.mp hi
      obtain ⟨k', e, hk', -⟩ := hgroup he'
      rw [hempty k'] at hk'
      cases hk'
    · exact hsome'
  have hk : k ∈ indices s₀.groups := by
    by_contra hk
    rw [hnone k hk] at he
    cases he
  rcases hchampions k hk with ⟨-, hempty, -⟩ | ⟨j, e₀, hgroupDecided, hpart, he₀, -⟩
  · rw [hempty] at he
    cases he
  · obtain rfl := Option.some.inj (he₀.symm.trans he)
    obtain ⟨hj, hr⟩ := part_eq_some.mp hpart
    refine ⟨globalArb, champions, k, j, e₀, harb, hdecided, hmemory, mem_indices.mp hk, hj,
      hgroupDecided, hr, fun i e' hi => ?_⟩
    obtain ⟨k', e, hk', hle⟩ := hgroup hi
    exact hle.trans (hbest k' e hk')

theorem Gathers.arbitrate (h : Gathers L n r s) :
    ∃ s' w, TreeState.arbitrate sub s = .ok (s', w, r w) ∧ Decided L n r w s' ∧
      s'.memory sub = s.memory sub := by
  by_cases hcount : s.base.numReqs = 0
  · have hempty := h.holds.numReqs_eq_zero.mp hcount
    refine ⟨s, -1, ?_, ⟨h.holds, h.selected, h.size, fun k hk => .inl (h.group k hk), h.reqs,
      .inl ⟨rfl, h.global⟩, .inl ⟨rfl, hempty⟩⟩, rfl⟩
    rw [TreeState.arbitrate, if_pos hcount, hempty]
    rfl
  · obtain ⟨s₁, hfold, hs₁⟩ :=
      exists_foldlM_seen (f := TreeState.consult sub) (l := indices s.groups)
      (I := fun seen s' => Consulted L r s seen s') h.consulted fun seen k rest s' hsplit hs' =>
        hs'.consult h (mem_indices.mp (by rw [hsplit]; simp))
          (not_mem_of_nodup_append (nodup_indices _) hsplit)
    have hsome : ∃ i, r i ≠ none := by
      by_contra hnone
      push Not at hnone
      exact hcount (h.holds.numReqs_eq_zero.mpr hnone)
    obtain ⟨globalArb, champions, k, j, e, harb, hdecided, hmemory, hk, hj, hgroup, hr, hbest⟩ :=
      hs₁.elect h hsome
    have hwinner : Winner r (k * s.groupSize + j) := .inr ⟨e, hr, hbest⟩
    have hplace := mem_below.mp (h.holds.within _ (by rw [hr]; rfl))
    rw [← h.holds.size] at hplace
    have hsel := L.lastWinner hgroup
    obtain ⟨base, groupSize, groups, arbs, reqs, globalArb₀⟩ := s₁
    obtain rfl : base = s.base := hs₁.base
    obtain rfl : groupSize = s.groupSize := hs₁.groupSize
    obtain rfl : groups = s.groups := hs₁.groups
    obtain rfl : reqs = s.groupReqs := hs₁.groupReqs
    refine ⟨⟨{ s.base with selected := k * s.groupSize + j }, s.groupSize, s.groups, arbs,
      s.groupReqs,
      globalArb⟩, k * s.groupSize + j, ?_, ⟨h.holds.select _, rfl, h.size, fun k' hk' => ?_, h.reqs,
      .inr ⟨k, hk, j, hj, champions, rfl, hdecided, hgroup⟩, hwinner⟩, ?_⟩
    · rw [TreeState.arbitrate, if_neg hcount]
      refine bind_ok.mpr ⟨_, hfold, bind_ok.mpr ⟨_, harb, ?_⟩⟩
      simp only [hsel]
      rw [require_bind (mem_below.mp hk), require_bind (mem_below.mp hj), require_bind hplace,
        h.holds.arbitrate hwinner]
      rfl
    · obtain ⟨_, -, -, hgroups⟩ := hs₁.champions
      rcases hgroups k' (mem_indices.mpr hk') with ⟨hsame, -⟩ | ⟨j', _, hdecided', -⟩
      · refine .inl ?_
        rw [hsame]
        exact h.group k' hk'
      · exact .inr ⟨j', hdecided'⟩
    · rw [← hs₁.memory]
      exact memory_congr (Function.update_eq_self k arbs).symm rfl hmemory

theorem Decided.updateState (h : Decided L n r w s) :
    ∃ s', TreeState.updateState sub s = .ok s' ∧ Decided L n r w s' ∧
      ∀ p, s'.memory sub p ≠ s.memory sub p → s'.choice sub p = w := by
  rcases h.elected with ⟨hw, -⟩ | ⟨k, hk, j, hj, champions, hw, hglobal, hgroup⟩
  · refine ⟨s, if_neg ?_, h, fun p hp => absurd rfl hp⟩
    rw [h.selected]
    omega
  · obtain ⟨arb, harb, harb', hmoved⟩ := L.updateState hgroup
    obtain ⟨globalArb, hglobalArb, hglobalArb', hmoved'⟩ := L.updateState hglobal
    have hwin := L.lastWinner hglobal
    rw [mem_below] at hk hj
    have hpos : s.base.selected > -1 := by
      rw [h.selected, hw]
      have := Int.mul_nonneg hk.1 (Int.natCast_nonneg s.groupSize)
      omega
    refine ⟨{ s with
      groupArbiters := update s.groupArbiters k arb
      globalArbiter := globalArb }, ?_, ⟨h.holds, h.selected, h.size, fun k' hk' => ?_, h.reqs,
        .inr ⟨k, mem_below.mpr hk, j, mem_below.mpr hj, champions, hw, hglobalArb', ?_⟩, h.winner⟩,
      fun p hp => ?_⟩
    · rw [TreeState.updateState, if_pos hpos]
      simp only [hwin]
      rw [require_bind hk]
      exact bind_ok.mpr ⟨arb, harb, bind_ok.mpr ⟨globalArb, hglobalArb, rfl⟩⟩
    · show L.Gathers _ _ (update s.groupArbiters k arb k') ∨
        ∃ j, L.Decided _ _ j (update s.groupArbiters k arb k')
      by_cases hkk : k' = k
      · subst hkk
        rw [update_self]
        exact .inr ⟨j, harb'⟩
      · rw [update_of_ne hkk]
        exact h.group k' hk'
    · show L.Decided _ _ j (update s.groupArbiters k arb k)
      rw [update_self]
      exact harb'
    · cases p with
      | inl p =>
        obtain ⟨k', p⟩ := p
        change sub.memory (update s.groupArbiters k arb k') p ≠ sub.memory
          (s.groupArbiters k') p at hp
        show (if sub.choice (update s.groupArbiters k arb k') p = -1 then -1
          else k' * s.groupSize + sub.choice (update s.groupArbiters k arb k') p) = w
        by_cases hkk : k' = k
        · subst hkk
          rw [update_self] at hp ⊢
          rw [hmoved p hp, if_neg (by omega), hw]
        · rw [update_of_ne hkk] at hp
          exact absurd rfl hp
      | inr p =>
        show (if sub.choice globalArb p = -1 then -1 else sub.choice globalArb p * s.groupSize +
          sub.lastWinner (update s.groupArbiters k arb (sub.choice globalArb p))) = w
        rw [hmoved' p hp, if_neg (by omega), update_self, L.lastWinner harb', hw]

theorem Decided.idle (h : Decided L n (fun _ => none) w s) : Gathers L n (fun _ => none) s := by
  have hw := h.winner.eq_neg_one fun _ => rfl
  refine ⟨h.holds, h.selected.trans hw, h.size, fun k hk => ?_, h.reqs, ?_⟩
  · rcases h.group k hk with hgathers | ⟨j, hdecided⟩
    · exact hgathers
    · rw [part_none] at hdecided ⊢
      exact L.idle hdecided
  · rcases h.elected with ⟨-, hglobal⟩ | ⟨k, hk, j, hj, _, hplace, -⟩
    · exact hglobal
    · rw [mem_below] at hk hj
      have := Int.mul_nonneg hk.1 (Int.natCast_nonneg s.groupSize)
      omega

theorem clear_gathers (h : Gathers L n r s ∨ ∃ w, Decided L n r w s) :
    Gathers L n (fun _ => none) (TreeState.clear sub s) ∧
      (TreeState.clear sub s).memory sub = s.memory sub := by
  obtain ⟨hholds, hsize, hgroup, champions, hglobal⟩ : s.base.Holds n r ∧
      n = s.groups * s.groupSize ∧
      (∀ k ∈ below s.groups, L.Gathers s.groupSize (part r s.groupSize k) (s.groupArbiters k) ∨
        ∃ j, L.Decided s.groupSize (part r s.groupSize k) j (s.groupArbiters k)) ∧
      ∃ champions, L.Gathers s.groups champions s.globalArbiter ∨
        ∃ k, L.Decided s.groups champions k s.globalArbiter := by
    rcases h with h | ⟨w, h⟩
    · exact ⟨h.holds, h.size, fun k hk => .inl (h.group k hk), _, .inl h.global⟩
    · refine ⟨h.holds, h.size, h.group, ?_⟩
      rcases h.elected with ⟨-, hglobal⟩ | ⟨k, -, -, -, champions, -, hglobal, -⟩
      · exact ⟨_, .inl hglobal⟩
      · exact ⟨champions, .inr ⟨k, hglobal⟩⟩
  unfold TreeState.clear
  split
  · next hcount =>
      obtain rfl : r = fun _ => none := funext (hholds.numReqs_eq_zero.mp hcount)
      rcases h with h | ⟨w, h⟩
      · exact ⟨h, rfl⟩
      · exact ⟨h.idle, rfl⟩
  · next hcount =>
      obtain ⟨hbase, hselected⟩ := hholds.clear fun hzero => absurd hzero hcount
      refine ⟨⟨hbase, hselected, hsize, fun k hk => ?_, fun k _ => ?_, (L.clear hglobal).1⟩, ?_⟩
      · dsimp only
        rw [part_none, if_pos (mem_below.mp hk)]
        exact (L.clear (hgroup k hk)).1
      · rw [part_none]
        exact iff_of_true rfl fun _ => rfl
      · funext p
        cases p with
        | inl p =>
          show sub.memory (if 0 ≤ p.1 ∧ p.1 < s.groups then _ else _) p.2 = _
          split
          · next hp => exact congrFun (L.clear (hgroup p.1 (mem_below.mpr hp))).2 p.2
          · rfl
        | inr p => exact congrFun (L.clear hglobal).2 p

end Laws

end TreeState

/-- `TreeArbiter`. -/
def Arbiter.tree (groups : ℕ) (sub : Arbiter) : Arbiter where
  State := TreeState sub.State
  new := TreeState.new sub groups
  addRequest := TreeState.addRequest sub
  arbitrate := TreeState.arbitrate sub
  updateState := TreeState.updateState sub
  clear := TreeState.clear sub
  numReqs s := s.base.numReqs
  lastWinner s := s.base.selected
  Part := (ℤ × sub.Part) ⊕ sub.Part
  memory := TreeState.memory sub
  choice := TreeState.choice sub

open TreeState in
def Arbiter.treeLaws (groups : ℕ) {sub : Arbiter} (L : sub.Laws) :
    (Arbiter.tree groups sub).Laws where
  Gathers n r s := TreeState.Gathers L n r s
  Decided n r w s := TreeState.Decided L n r w s
  within h := h.holds.within
  numReqs h := by
    rcases h with h | ⟨w, h⟩
    · exact h.holds.numReqs_eq_zero
    · exact h.holds.numReqs_eq_zero
  new h := Gathers.of_new h
  addRequest e h hi hfree := h.addRequest hi hfree e
  arbitrate h := by
    obtain ⟨s', w, harb, hdecided, hmemory⟩ := h.arbitrate
    exact ⟨s', w, harb, hdecided, hdecided.winner, hmemory⟩
  lastWinner h := h.selected
  updateState h := h.updateState
  clear h := clear_gathers h
  idle h := h.idle

/-- The kinds of arbiters that can be configured. -/
inductive ArbType
  | roundRobin
  | matrix
  | tree (groups : ℕ) (sub : ArbType)

/-- `NewArbiter`. -/
def ArbType.arbiter : ArbType → Arbiter
  | .roundRobin => .roundRobin
  | .matrix => .matrix
  | .tree groups sub => .tree groups sub.arbiter

def ArbType.laws : (a : ArbType) → a.arbiter.Laws
  | .roundRobin => Arbiter.roundRobinLaws
  | .matrix => Arbiter.matrixLaws
  | .tree groups sub => Arbiter.treeLaws groups sub.laws

end BookSim
