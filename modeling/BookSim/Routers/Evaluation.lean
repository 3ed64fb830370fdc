/-
# Evaluation — the Evaluate halves of the stages

An Evaluate half goes through the queue of its stage from the front and ends at the first entry
that it has seen before:

    seen … seen │ new … new          nothing happens
    new … new                        all entries are started, with one time for all of them

The queues keep this shape (`Batched`): the entries that are in progress have all been started
by one call, and those that have come since are behind them.
-/
import BookSim.Routers.Run
import Mathlib.Data.List.DropRight

namespace BookSim

open List

/-! ## Walks -/

section Related

variable {α β : Type} {R : α → β → Prop} {l l₁ l₂ : List α} {l' : List β}

theorem exists_of_mem_related {b : β} (h : List.Forall₂ R l l') (hb : b ∈ l') : ∃ a ∈ l, R a b := by
  induction h with
  | nil => exact absurd hb not_mem_nil
  | cons hab _ ih =>
    rcases mem_cons.mp hb with rfl | hb
    · exact ⟨_, mem_cons_self, hab⟩
    · obtain ⟨a, ha, hR⟩ := ih hb
      exact ⟨a, mem_cons_of_mem _ ha, hR⟩

theorem exists_append_of_related (h : List.Forall₂ R (l₁ ++ l₂) l') :
    ∃ l₁' l₂', l' = l₁' ++ l₂' ∧ List.Forall₂ R l₁ l₁' ∧ List.Forall₂ R l₂ l₂' := by
  induction l₁ generalizing l' with
  | nil => exact ⟨[], l', rfl, .nil, h⟩
  | cons a l₁ ih =>
    obtain ⟨b, l'', hab, hrest, rfl⟩ := forall₂_cons_left_iff.mp h
    obtain ⟨l₁', l₂', rfl, h₁, h₂⟩ := ih hrest
    exact ⟨b :: l₁', l₂', rfl, .cons hab h₁, h₂⟩

theorem related_trans {γ : Type} {S : β → γ → Prop} {l'' : List γ} (h : List.Forall₂ R l l')
    (h' : List.Forall₂ S l' l'') : List.Forall₂ (fun a c => ∃ b, R a b ∧ S b c) l l'' := by
  induction h generalizing l'' with
  | nil =>
    cases h'
    exact .nil
  | cons hab _ ih =>
    obtain ⟨c, l₂, hbc, hrest, rfl⟩ := forall₂_cons_left_iff.mp h'
    exact .cons ⟨_, hab, hbc⟩ (ih hrest)

theorem related_map_eq {γ : Type} {f : α → γ} {g : β → γ} (h : List.Forall₂ R l l')
    (hR : ∀ a b, R a b → g b = f a) : l'.map g = l.map f := by
  induction h with
  | nil => rfl
  | cons hab _ ih => rw [map_cons, map_cons, hR _ _ hab, ih]

end Related

section Walk

variable {σ β : Type} {stop : β → Bool} {f : σ → β → Except Fault (σ × β)} {s s' : σ}
  {q q' : List β}

/-- The rounds of a walk: each entry of `q` has become the one at its place in `q'`. -/
inductive Walked (f : σ → β → Except Fault (σ × β)) : σ → List β → σ → List β → Prop
  | nil {s : σ} : Walked f s [] s []
  | cons {s s₁ s₂ : σ} {e e' : β} {q q' : List β} (h : f s e = .ok (s₁, e'))
      (hrest : Walked f s₁ q s₂ q') : Walked f s (e :: q) s₂ (e' :: q')

theorem walk_eq_ok {t : σ × List β} (h : walk stop f s q = .ok t) :
    ∃ p, Walked f s (q.takeWhile (!stop ·)) t.1 p ∧ t.2 = p ++ q.dropWhile (!stop ·) := by
  induction q generalizing s t with
  | nil =>
    cases h
    exact ⟨[], .nil, rfl⟩
  | cons e q ih =>
    rcases ite_ok.mp h with ⟨hstop, h⟩ | ⟨hgo, h⟩
    · cases h
      rw [takeWhile_cons_of_neg (by simpa using hstop),
        dropWhile_cons_of_neg (by simpa using hstop)]
      exact ⟨[], .nil, rfl⟩
    · obtain ⟨first, hfirst, h⟩ := bind_ok.mp h
      obtain ⟨rest, hrest, rfl⟩ := bind_return_ok.mp h
      obtain ⟨p, hp, hrest⟩ := ih hrest
      rw [takeWhile_cons_of_pos (by simpa using hgo), dropWhile_cons_of_pos (by simpa using hgo)]
      exact ⟨first.2 :: p, .cons hfirst hp, by rw [hrest]; rfl⟩

theorem walk_again_eq_ok {p : List β} {t : σ × List β} (hp : ∀ e ∈ p, stop e = false)
    (h : walk stop f s (p ++ q.dropWhile (!stop ·)) = .ok t) :
    ∃ p', Walked f s p t.1 p' ∧ t.2 = p' ++ q.dropWhile (!stop ·) := by
  have hgo : ∀ e ∈ p, (!stop e) = true := fun e he => by rw [hp e he, Bool.not_false]
  have hrest : (q.dropWhile (!stop ·)).takeWhile (!stop ·) = [] := by
    have hsplit := @List.takeWhile_append_dropWhile _ (!stop ·) (q.dropWhile (!stop ·))
    rw [dropWhile_idempotent] at hsplit
    exact append_left_eq_self.mp hsplit
  obtain ⟨p', hp', ht⟩ := walk_eq_ok h
  rw [takeWhile_append_of_pos hgo, hrest, append_nil] at hp'
  rw [dropWhile_append_of_pos hgo, dropWhile_idempotent] at ht
  exact ⟨p', hp', ht⟩

theorem Walked.rel {I : σ → Prop} {R : β → β → Prop} (h : Walked f s q s' q')
    (hf : ∀ {s s' e e'}, e ∈ q → I s → f s e = .ok (s', e') → I s' ∧ R e e') (hs : I s) :
    I s' ∧ List.Forall₂ R q q' := by
  induction h with
  | nil => exact ⟨hs, .nil⟩
  | cons hround _ ih =>
    obtain ⟨hs₁, he⟩ := hf mem_cons_self hs hround
    obtain ⟨hs', hrest⟩ := ih (fun he => hf (mem_cons_of_mem _ he)) hs₁
    exact ⟨hs', .cons he hrest⟩

/-- Two walks over the same entries, of which the first does not make any entry stop the second. -/
theorem walk_twice_eq_ok {τ : Type} {g : τ → β → Except Fault (τ × β)} {t : τ} {u : σ × List β}
    {u' : τ × List β} {I : σ → Prop} {R S : β → β → Prop} (h : walk stop f s q = .ok u)
    (h' : walk stop g t u.2 = .ok u')
    (hf : ∀ {s s' e e'}, e ∈ q.takeWhile (!stop ·) → I s → f s e = .ok (s', e') → I s' ∧ R e e')
    (hg : ∀ {t t' e e'}, g t e = .ok (t', e') → S e e')
    (hstop : ∀ {e e'}, R e e' → stop e' = stop e) (hs : I s) :
    ∃ p p', u'.2 = p' ++ q.dropWhile (!stop ·) ∧ I u.1 ∧
      List.Forall₂ R (q.takeWhile (!stop ·)) p ∧ List.Forall₂ S p p' := by
  obtain ⟨p, hp, hu⟩ := walk_eq_ok h
  obtain ⟨hI, hR⟩ := hp.rel hf hs
  have hgo : ∀ e ∈ p, stop e = false := by
    intro e' he'
    obtain ⟨e, he, hee'⟩ := exists_of_mem_related hR he'
    rw [hstop hee']
    simpa using mem_takeWhile_imp he
  rw [hu] at h'
  obtain ⟨p', hp', hu'⟩ := walk_again_eq_ok hgo h'
  have hS := hp'.rel (I := fun _ => True) (R := S) (fun _ _ hround => ⟨trivial, hg hround⟩) trivial
  exact ⟨p, p', hu', hI, hR, hS.2⟩

end Walk

theorem Entry.isStarted_congr {e e' : Entry} (h : e'.time = e.time) : e'.isStarted =
    e.isStarted := by
  unfold Entry.isStarted
  rw [h]

/-! ## Batches -/

/-- A second look at an entry: its result may be dropped.  New entries are not looked at. -/
structure Entry.LookedAt (e e' : Entry) : Prop where
  place : e'.place = e.place
  time : e'.time = e.time
  result : e'.result = e.result ∨ e'.result < 0
  fresh : e.IsFresh → e' = e

theorem Entry.LookedAt.refl (e : Entry) : e.LookedAt e := ⟨rfl, rfl, .inl rfl, fun _ => rfl⟩

/-- The entries in progress, with one time for all of them, and behind them those that are new. -/
def Batched (q : List Entry) : Prop :=
  ∃ T seen fresh, q = seen ++ fresh ∧ (∀ e ∈ seen, e.time = T) ∧ ∀ e ∈ fresh, e.IsFresh

namespace Batched

variable {q q' : List Entry} {e : Entry}

theorem nil : Batched [] := ⟨0, [], [], rfl, by simp, by simp⟩

theorem tail (h : Batched q) : Batched q.tail := by
  obtain ⟨T, seen, fresh, rfl, hseen, hfresh⟩ := h
  cases seen with
  | nil => exact ⟨T, [], fresh.tail, rfl, hseen, fun e he => hfresh e (mem_of_mem_tail he)⟩
  | cons e seen => exact ⟨T, seen, fresh, rfl, fun e he => hseen e (mem_cons_of_mem _ he), hfresh⟩

/-- An Evaluate finds a batch in progress, and does nothing, or it starts all entries. -/
theorem cases_front (h : Batched q) :
    q.takeWhile (!Entry.isStarted ·) = [] ∨ q.takeWhile (!Entry.isStarted ·) = q := by
  obtain ⟨T, seen, fresh, rfl, hseen, hfresh⟩ := h
  have hnew : ∀ e ∈ fresh, (!Entry.isStarted e) = true := fun e he => by
    simp [Entry.isStarted, (hfresh e he).1]
  by_cases hT : 0 ≤ T
  · cases seen with
    | nil => exact .inr (takeWhile_eq_self_iff.mpr hnew)
    | cons e seen =>
      refine .inl (takeWhile_cons_of_neg ?_)
      simp [Entry.isStarted, hseen e mem_cons_self, hT]
  · refine .inr (takeWhile_eq_self_iff.mpr fun e he => ?_)
    rcases mem_append.mp he with he | he
    · simp [Entry.isStarted, hseen e he, hT]
    · exact hnew e he

theorem of_time {T : ℤ} (h : ∀ e ∈ q, e.time = T) : Batched q :=
  ⟨T, q, [], (append_nil q).symm, h, by simp⟩

theorem lookedAt (h : Batched q) (hrel : List.Forall₂ Entry.LookedAt q q') : Batched q' := by
  obtain ⟨T, seen, fresh, rfl, hseen, hfresh⟩ := h
  obtain ⟨seen', fresh', rfl, hseen', hfresh'⟩ := exists_append_of_related hrel
  refine ⟨T, seen', fresh', rfl, fun e' he' => ?_, fun e' he' => ?_⟩
  · obtain ⟨e, he, hlook⟩ := exists_of_mem_related hseen' he'
    exact hlook.time.trans (hseen e he)
  · obtain ⟨e, he, hlook⟩ := exists_of_mem_related hfresh' he'
    rw [hlook.fresh (hfresh e he)]
    exact hfresh e he

end Batched

theorem GrowsFresh.batched {q q' : List Entry} (h : GrowsFresh q q') (hq : Batched q) :
    Batched q' := by
  obtain ⟨new, rfl, hnew⟩ := h
  obtain ⟨T, seen, fresh, rfl, hseen, hfresh⟩ := hq
  refine ⟨T, seen, fresh ++ new, append_assoc _ _ _, hseen, fun e he => ?_⟩
  exact (mem_append.mp he).elim (hfresh e) (hnew e)

/-! ## The stages in their order -/

namespace Router

variable {cfg : RouterConfig} {env : RouterEnv} {r r' : Router}

theorem routeStage_eq_ok (h : unlessEmpty routeVCs (routeEvaluate cfg env) r = .ok r') :
    ∃ q, r' = { r with routeVCs := q } := by
  rcases ite_ok.mp h with ⟨-, h⟩ | ⟨-, h⟩
  · cases h
    exact ⟨r.routeVCs, rfl⟩
  · obtain ⟨-, h⟩ := require_ok.mp h
    obtain ⟨walked, -, h⟩ := bind_ok.mp h
    exact ⟨_, (return_ok.mp h).symm⟩

theorem vcAllocStage_eq_ok {allocated : Matching × Router}
    (h : (if cfg.hasVCAllocator ∧ ¬ r.vcAllocVCs.isEmpty
      then r.vcAllocEvaluate cfg env else .ok ({}, r)) = .ok allocated) :
    ∃ q, allocated.2 = { r with vcAllocVCs := q } := by
  rcases ite_ok.mp h with ⟨-, h⟩ | ⟨-, h⟩
  · obtain ⟨requested, -, h⟩ := bind_ok.mp h
    obtain ⟨granted, -, h⟩ := bind_ok.mp h
    rcases ite_ok.mp h with ⟨-, h⟩ | ⟨-, h⟩
    · obtain rfl := return_ok.mp h
      exact ⟨_, rfl⟩
    · obtain ⟨checked, -, rfl⟩ := bind_return_ok.mp h
      exact ⟨_, rfl⟩
  · cases h
    exact ⟨r.vcAllocVCs, rfl⟩

theorem swHoldStage_eq_ok (h : (if cfg.holdSwitchForPacket
      then unlessEmpty swHoldVCs (swHoldEvaluate cfg env) r else .ok r) = .ok r') :
    ∃ q, r' = { r with swHoldVCs := q } := by
  rcases ite_ok.mp h with ⟨-, h⟩ | ⟨-, h⟩
  · rcases ite_ok.mp h with ⟨-, h⟩ | ⟨-, h⟩
    · cases h
      exact ⟨r.swHoldVCs, rfl⟩
    · obtain ⟨-, h⟩ := require_ok.mp h
      obtain ⟨walked, -, h⟩ := bind_ok.mp h
      exact ⟨_, (return_ok.mp h).symm⟩
  · cases h
    exact ⟨r.swHoldVCs, rfl⟩

theorem swAllocStage_eq_ok {vcGrants : Matching}
    (h : unlessEmpty swAllocVCs (swAllocEvaluate cfg env · vcGrants) r = .ok r') :
    ∃ q offset, r' = { r with swAllocVCs := q, swRROffset := offset } := by
  rcases ite_ok.mp h with ⟨-, h⟩ | ⟨-, h⟩
  · cases h
    exact ⟨_, _, rfl⟩
  · obtain ⟨requested, -, h⟩ := bind_ok.mp h
    obtain ⟨granted, -, h⟩ := bind_ok.mp h
    rcases ite_ok.mp h with ⟨-, h⟩ | ⟨-, h⟩
    · obtain rfl := return_ok.mp h
      exact ⟨_, _, rfl⟩
    · obtain ⟨checked, -, rfl⟩ := bind_return_ok.mp h
      exact ⟨_, _, rfl⟩

/-- Each stage changes its own queue; they all see the same VCs, buffer states and held
connections. -/
theorem evaluateStages_eq_ok (h : evaluateStages cfg env r = .ok r') :
    ∃ (q₁ q₂ q₃ q₄ : List Entry) (vcGrants : Matching) (offset : ℤ → ℤ),
      unlessEmpty routeVCs (routeEvaluate cfg env) r = .ok { r with routeVCs := q₁ } ∧
      (if cfg.hasVCAllocator ∧ ¬ r.vcAllocVCs.isEmpty
        then vcAllocEvaluate cfg env { r with routeVCs := q₁ }
        else .ok ({}, { r with routeVCs := q₁ })) =
          .ok (vcGrants, { r with routeVCs := q₁, vcAllocVCs := q₂ }) ∧
      (if cfg.holdSwitchForPacket then unlessEmpty swHoldVCs (swHoldEvaluate cfg env)
          { r with routeVCs := q₁, vcAllocVCs := q₂ }
        else .ok { r with routeVCs := q₁, vcAllocVCs := q₂ }) =
          .ok { r with routeVCs := q₁, vcAllocVCs := q₂, swHoldVCs := q₃ } ∧
      unlessEmpty swAllocVCs (swAllocEvaluate cfg env · vcGrants)
        { r with routeVCs := q₁, vcAllocVCs := q₂, swHoldVCs := q₃ } = .ok { r with
            routeVCs := q₁, vcAllocVCs := q₂, swHoldVCs := q₃, swAllocVCs := q₄
            swRROffset := offset } ∧
      r' = switchEvaluate cfg env { r with
        routeVCs := q₁, vcAllocVCs := q₂, swHoldVCs := q₃, swAllocVCs := q₄
        swRROffset := offset } := by
  obtain ⟨r₁, h₁, h⟩ := bind_ok.mp h
  obtain ⟨allocated, h₂, h⟩ := bind_ok.mp h
  obtain ⟨r₃, h₃, h⟩ := bind_ok.mp h
  obtain ⟨r₄, h₄, rfl⟩ := bind_return_ok.mp h
  obtain ⟨q₁, rfl⟩ := routeStage_eq_ok h₁
  obtain ⟨vcGrants, r₂⟩ := allocated
  obtain ⟨q₂, rfl⟩ := vcAllocStage_eq_ok h₂
  obtain ⟨q₃, rfl⟩ := swHoldStage_eq_ok h₃
  obtain ⟨q₄, offset, rfl⟩ := swAllocStage_eq_ok h₄
  exact ⟨q₁, q₂, q₃, q₄, vcGrants, offset, h₁, h₂, h₃, h₄, rfl⟩

end Router

end BookSim
