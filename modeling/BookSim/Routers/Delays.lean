/-
# Delays — how long an entry stays in a stage

An entry waits in the queue of its stage for the next Evaluate, which gives it the time of its
completion; the Update of that cycle takes it off.  Of a queue this sees the times only:

    −1, …, −1            all entries are new:       Evaluate starts them
    T, …, T              all are in progress:       Evaluate leaves them
    T, …, T, −1, …, −1   some came in meanwhile:    Evaluate stops at the first and starts none

All entries that are in progress have one time, which has not passed (`Paced`), so they are
completed on time.  In the third case those that came in meanwhile are late, and where the
grants are looked at again the assertion that every entry has been started may fail.
-/
import BookSim.Routers.Rechecks
import BookSim.Routers.VCAllocation

namespace BookSim

open List

/-! ## The times of a queue -/

/-- What an Evaluate makes of the times: those before the first entry in progress are set. -/
def stamp (T : ℤ) (ts : List ℤ) : List ℤ :=
  (ts.takeWhile (· < 0)).map (fun _ => T) ++ ts.dropWhile (· < 0)

/-- Entries may have been put at the end. -/
def Grown (ts ts' : List ℤ) : Prop := ∃ n, ts' = ts ++ List.replicate n (-1)

/-- No entry is still there after the time of its completion. -/
def Later (now : ℤ) (ts : List ℤ) : Prop := ∀ t ∈ ts, 0 ≤ t → now < t

/-- The entries are all new, or all in progress. -/
def Uniform (ts : List ℤ) : Prop := (∀ t ∈ ts, t < 0) ∨ ∀ t ∈ ts, 0 ≤ t

/-- The entries in progress end at one time, which is not over and at most `delay` away; behind
them are those that are new. -/
def Paced (now delay : ℤ) (ts : List ℤ) : Prop :=
  ∃ T m n, ts = List.replicate m T ++ List.replicate n (-1) ∧ now ≤ T ∧ T < now + delay

section Times

variable {now delay t : ℤ} {ts ts' ts'' : List ℤ}

theorem Grown.refl (ts : List ℤ) : Grown ts ts := ⟨0, (append_nil ts).symm⟩

theorem Grown.trans (h : Grown ts ts') (h' : Grown ts' ts'') : Grown ts ts'' := by
  obtain ⟨m, rfl⟩ := h
  obtain ⟨n, rfl⟩ := h'
  exact ⟨m + n, by rw [append_assoc, replicate_append_replicate]⟩

theorem Grows.grown_map {α : Type} {P : α → Prop} {q q' : List α} {g : α → ℤ} (h : Grows P q q')
    (hg : ∀ c, P c → g c = -1) : Grown (q.map g) (q'.map g) := by
  obtain ⟨new, rfl, hnew⟩ := h
  refine ⟨new.length, ?_⟩
  rw [map_append, map_congr_left fun c hc => hg c (hnew c hc), map_const']

theorem Later.tail (h : Later now ts) : Later now ts.tail :=
  fun t ht => h t (mem_of_mem_tail ht)

theorem later_replicate (n : ℕ) : Later now (List.replicate n (-1)) := by
  intro t ht hnonneg
  rw [eq_of_mem_replicate ht] at hnonneg
  exact absurd hnonneg (by decide)

theorem Later.grown (hgrown : Grown ts ts') (h : Later now ts) : Later now ts' := by
  obtain ⟨n, rfl⟩ := hgrown
  intro t ht
  rcases mem_append.mp ht with ht | ht
  · exact h t ht
  · exact later_replicate n t ht

namespace Paced

theorem nil (hdelay : 0 < delay) : Paced now delay [] :=
  ⟨now, 0, 0, rfl, le_rfl, Int.lt_add_of_pos_right now hdelay⟩

theorem tail (h : Paced now delay ts) : Paced now delay ts.tail := by
  obtain ⟨T, m, n, rfl, hT⟩ := h
  cases m with
  | zero => exact ⟨T, 0, n - 1, by simp, hT⟩
  | succ m => exact ⟨T, m, n, rfl, hT⟩

theorem grown (hgrown : Grown ts ts') (h : Paced now delay ts) : Paced now delay ts' := by
  obtain ⟨k, rfl⟩ := hgrown
  obtain ⟨T, m, n, rfl, hT⟩ := h
  exact ⟨T, m, n + k, by rw [append_assoc, replicate_append_replicate], hT⟩

theorem stamp_cases (hnow : 0 ≤ now) (T : ℤ) (h : Paced now delay ts) :
    (ts = List.replicate ts.length (-1) ∧ stamp T ts = List.replicate ts.length T) ∨
      stamp T ts = ts := by
  obtain ⟨T', m, n, rfl, hle, -⟩ := h
  cases m with
  | zero => exact .inl (by simp [stamp])
  | succ m =>
    have hseen : ¬ T' < 0 := not_lt.mpr (hnow.trans hle)
    exact .inr (by simp [stamp, replicate_succ, hseen])

theorem stamp (hnow : 0 ≤ now) (hdelay : 0 < delay) (h : Paced now delay ts) :
    Paced now delay (stamp (now + delay - 1) ts) := by
  rcases h.stamp_cases hnow (now + delay - 1) with ⟨-, hstamp⟩ | hstamp
  · exact ⟨now + delay - 1, ts.length, 0, by rw [hstamp]; simp, by omega, by omega⟩
  · rwa [hstamp]

theorem due (h : Paced now delay (t :: ts)) (hstarted : 0 ≤ t) (hdue : t ≤ now) : t = now := by
  obtain ⟨T, m, n, heq, hle, -⟩ := h
  have hmem : t ∈ List.replicate m T ++ List.replicate n (-1) := heq ▸ mem_cons_self
  rcases mem_append.mp hmem with ht | ht
  · have := eq_of_mem_replicate ht
    omega
  · have := eq_of_mem_replicate ht
    omega

theorem next (hnow : 0 ≤ now) (h : Paced now delay ts) (hlater : Later now ts)
    (hdelay : 0 < delay) : Paced (now + 1) delay ts := by
  obtain ⟨T, m, n, rfl, hle, hlt⟩ := h
  cases m with
  | zero => exact ⟨now + 1, 0, n, rfl, le_rfl, by omega⟩
  | succ m =>
    have hmem : T ∈ List.replicate (m + 1) T ++ List.replicate n (-1) :=
      mem_append_left _ (mem_replicate.mpr ⟨Nat.succ_ne_zero m, rfl⟩)
    exact ⟨T, m + 1, n, rfl, hlater T hmem (hnow.trans hle), by omega⟩

theorem later_dropWhile (hnow : 0 ≤ now) (h : Paced now delay ts) :
    Later now (ts.dropWhile fun t => 0 ≤ t && t ≤ now) := by
  obtain ⟨T, m, n, rfl, hle, -⟩ := h
  by_cases hT : T ≤ now
  · have hall : ∀ t ∈ List.replicate m T, (decide (0 ≤ t) && decide (t ≤ now)) = true := by
      intro t ht
      rw [eq_of_mem_replicate ht]
      simp [hT, hnow.trans hle]
    rw [dropWhile_append_of_pos hall]
    exact fun t ht => later_replicate n t (dropWhile_subset _ ht)
  · intro t ht hnonneg
    rcases mem_append.mp (dropWhile_subset _ ht) with ht | ht
    · rw [eq_of_mem_replicate ht]
      exact not_le.mp hT
    · exact later_replicate n t ht hnonneg

/-- Every entry is in progress after an Evaluate if and only if none came in while others were. -/
theorem stamp_eq_iff (hnow : 0 ≤ now) (hdelay : 0 < delay) (h : Paced now delay ts) :
    BookSim.stamp (now + delay - 1) ts = ts.map (fun t => if t < 0 then now + delay - 1 else t) ↔
      Uniform ts := by
  constructor
  · intro hall
    rcases h.stamp_cases hnow (now + delay - 1) with ⟨hts, -⟩ | hsame
    · refine .inl fun t ht => ?_
      rw [hts] at ht
      rw [eq_of_mem_replicate ht]
      decide
    · refine .inr fun t ht => ?_
      rw [hsame] at hall
      rw [hall] at ht
      obtain ⟨t', -, rfl⟩ := mem_map.mp ht
      split <;> omega
  · rintro (hnew | hseen)
    · have hts : ts.takeWhile (· < 0) = ts := takeWhile_eq_self_iff.mpr fun t ht => by
        simpa using hnew t ht
      have hrest : ts.dropWhile (· < 0) = [] := dropWhile_eq_nil_iff.mpr fun t ht => by
        simpa using hnew t ht
      rw [BookSim.stamp, hts, hrest, append_nil]
      exact map_congr_left fun t ht => (if_pos (hnew t ht)).symm
    · have hts : ts.map (fun t => if t < 0 then now + delay - 1 else t) = ts :=
        (map_congr_left fun t ht => if_neg (not_lt.mpr (hseen t ht))).trans (map_id' ts)
      rw [hts]
      cases ts with
      | nil => rfl
      | cons t ts =>
        have ht : ¬ t < 0 := not_lt.mpr (hseen t mem_cons_self)
        simp [BookSim.stamp, ht]

theorem nonneg_of_uniform (hnow : 0 ≤ now) (hdelay : 0 < delay) (h : Paced now delay ts)
    (huniform : Uniform ts) (ht : t ∈ BookSim.stamp (now + delay - 1) ts) : 0 ≤ t := by
  rw [(h.stamp_eq_iff hnow hdelay).mpr huniform] at ht
  obtain ⟨t', -, rfl⟩ := mem_map.mp ht
  split <;> omega

theorem lt_of_mem (hnow : 0 ≤ now) (hdelay : 0 < delay) (h : Paced now delay ts) (ht : t ∈ ts) :
    t < now + delay := by
  obtain ⟨T, m, n, rfl, -, hlt⟩ := h
  rcases mem_append.mp ht with ht | ht
  · rwa [eq_of_mem_replicate ht]
  · rw [eq_of_mem_replicate ht]
    omega

end Paced

end Times

/-! ## The stages -/

inductive Stage where
  | route | vcAlloc | swAlloc | crossbar
  deriving DecidableEq

def Stage.delay (cfg : RouterConfig) : Stage → ℤ
  | .route => cfg.routingDelay
  | .vcAlloc => cfg.vcAllocDelay
  | .swAlloc => cfg.swAllocDelay
  | .crossbar => cfg.crossbarDelay

namespace Router

variable {cfg : RouterConfig} {env : RouterEnv} {r r' : Router} {e : Entry}

def times (r : Router) : Stage → List ℤ
  | .route => r.routeVCs.map Entry.time
  | .vcAlloc => r.vcAllocVCs.map Entry.time
  | .swAlloc => r.swAllocVCs.map Entry.time
  | .crossbar => r.crossbarFlits.map Crossing.time

/-- Entries may have been put at the end of any queue. -/
def TimesGrow (r r' : Router) : Prop := ∀ st, Grown (r.times st) (r'.times st)

theorem TimesGrow.refl (r : Router) : TimesGrow r r := fun _ => .refl _

theorem TimesGrow.trans {r'' : Router} (h : TimesGrow r r') (h' : TimesGrow r' r'') :
    TimesGrow r r'' :=
  fun st => (h st).trans (h' st)

theorem RoundOf.timesGrow {i v : ℤ} (h : RoundOf i v r r') : TimesGrow r r' := by
  intro st
  cases st with
  | route => exact h.route.grown_map fun e he => he.1
  | vcAlloc => exact h.vcAlloc.grown_map fun e he => he.1
  | swAlloc => exact h.swAlloc.grown_map fun e he => he.1
  | crossbar => exact h.crossbar.grown_map fun c hc => hc

/-! ## Rounds -/

/-- The router without the first entry of a queue. -/
def popped (r : Router) : Stage → Router
  | .route => { r with routeVCs := r.routeVCs.tail }
  | .vcAlloc => { r with vcAllocVCs := r.vcAllocVCs.tail }
  | .swAlloc => { r with swAllocVCs := r.swAllocVCs.tail }
  | .crossbar => { r with crossbarFlits := r.crossbarFlits.tail }

theorem times_popped (st st' : Stage) :
    (r.popped st).times st' = if st' = st then (r.times st').tail else r.times st' := by
  cases st <;> cases st' <;> first | rfl | exact map_tail

theorem routeItem_times (h : routeItem cfg env r e = .ok r') : TimesGrow (r.popped .route) r' :=
  (routeItem_roundOf h).timesGrow

theorem vcAllocItem_times (h : vcAllocItem cfg env r e = .ok r') :
    TimesGrow (r.popped .vcAlloc) r' :=
  (vcAllocItem_roundOf h).timesGrow

theorem swAllocItem_times (h : swAllocItem cfg env r e = .ok r') :
    TimesGrow (r.popped .swAlloc) r' :=
  (swAllocItem_roundOf h).timesGrow

theorem switchItem_times {c : Crossing} (h : switchItem cfg env r c = .ok r') :
    TimesGrow (r.popped .crossbar) r' := by
  obtain ⟨-, -, rfl⟩ := switchItem_eq_ok h
  exact .refl _

/-- What a property of the times has to allow for in order to be kept by the rounds. -/
structure KeptTimes (P : Stage → List ℤ → Prop) : Prop where
  tail : ∀ {st ts}, P st ts → P st ts.tail
  grown : ∀ {st ts ts'}, Grown ts ts' → P st ts → P st ts'

variable {P : Stage → List ℤ → Prop}

theorem KeptTimes.grow (hP : KeptTimes P) (h : TimesGrow r r') (hr : ∀ st, P st (r.times st)) :
    ∀ st, P st (r'.times st) :=
  fun st => hP.grown (h st) (hr st)

theorem KeptTimes.pop (hP : KeptTimes P) {st : Stage} (h : TimesGrow (r.popped st) r')
    (hr : ∀ st, P st (r.times st)) : ∀ st, P st (r'.times st) := by
  refine hP.grow h fun st' => ?_
  rw [times_popped]
  split
  · exact hP.tail (hr st')
  · exact hr st'

theorem KeptTimes.keptByUpdates {A : Router → Prop} (hP : KeptTimes P) :
    KeptByUpdates cfg env (fun r => ∀ st, P st (r.times st)) A where
  route _ _ hitem _ h := hP.pop (routeItem_times hitem) h
  vcAlloc _ _ hitem _ h := hP.pop (vcAllocItem_times hitem) h
  swHold _ _ hitem _ h := hP.grow (swHoldItem_roundOf hitem).timesGrow h
  swAlloc _ _ hitem _ h := hP.pop (swAllocItem_times hitem) h
  switch _ _ hitem _ h := hP.pop (switchItem_times hitem) h

/-! ## Evaluate -/

theorem map_time_stamp {β : Type} {time : β → ℤ} {started : β → Bool} {T : ℤ}
    {q p p' rest : List β} (hstarted : ∀ c, started c = decide (0 ≤ time c))
    (hp : p = q.takeWhile (!started ·)) (hq : q = p ++ rest)
    (h : List.Forall₂ (fun _ c => time c = T) p p') :
    (p' ++ rest).map time = stamp T (q.map time) := by
  have hnew : (fun t : ℤ => decide (t < 0)) ∘ time = fun c => !started c := by
    funext c
    rw [hstarted, ← decide_not]
    simp
  have hrest : rest = q.dropWhile (!started ·) := by
    refine append_cancel_left (hq.symm.trans ?_)
    rw [hp, takeWhile_append_dropWhile]
  rw [stamp, takeWhile_map, dropWhile_map, hnew, ← hp, ← hrest, map_append, map_map]
  exact congrArg (· ++ _) (related_map_eq h fun _ _ hc => hc)

theorem routeEvaluate_times (h : r.routeEvaluate cfg env = .ok r') :
    r'.times .route = stamp (env.now + cfg.routingDelay - 1) (r.times .route) := by
  obtain ⟨-, h⟩ := require_ok.mp h
  obtain ⟨walked, hwalked, rfl⟩ := bind_return_ok.mp h
  obtain ⟨p, hp, hqueue⟩ := walk_eq_ok hwalked
  have hrel := hp.rel (I := fun _ => True)
    (R := fun _ e' => e'.time = env.now + cfg.routingDelay - 1)
    (fun _ _ hround => by
      obtain ⟨-, -, hround⟩ := bind_ok.mp hround
      obtain ⟨-, rfl⟩ := Prod.mk.injEq .. ▸ (return_ok.mp hround)
      exact ⟨trivial, rfl⟩) trivial
  exact (congrArg (·.map Entry.time) hqueue).trans
    (map_time_stamp (fun _ => rfl) rfl takeWhile_append_dropWhile.symm hrel.2)

theorem vcAllocEvaluate_times {grants : Matching}
    (h : r.vcAllocEvaluate cfg env = .ok (grants, r')) :
    r'.times .vcAlloc = stamp (env.now + cfg.vcAllocDelay - 1) (r.times .vcAlloc) := by
  obtain ⟨requests, p, p₁, p₂, rest, -, hev, -⟩ := vcAllocEvaluate_eq_ok h
  have hlooked : r'.times .vcAlloc = (p₂ ++ rest).map Entry.time :=
    related_map_eq hev.lookedAt fun _ _ hlook => hlook.time
  rw [hlooked]
  refine map_time_stamp (fun _ => rfl) hev.started hev.queue ?_
  exact (related_trans hev.requested hev.granted).imp fun _ _ ⟨_, _, hgrant⟩ => hgrant.time

theorem SWGranted.time {requests : SWRequests} {grants specGrants : Matching} {e e' : Entry}
    (h : SWGranted cfg env requests grants specGrants e e') :
    e'.time = env.now + cfg.swAllocDelay - 1 := by
  cases h with
  | stalled _ he' | nonspec _ _ _ _ _ he' | spec _ _ _ _ _ _ _ _ he' => rw [he']
  | conflict _ _ _ he' => rw [he']

theorem swAllocEvaluate_times {vcGrants : Matching}
    (h : r.swAllocEvaluate cfg env vcGrants = .ok r') :
    r'.times .swAlloc = stamp (env.now + cfg.swAllocDelay - 1) (r.times .swAlloc) := by
  obtain ⟨requests, p, p₁, p₂, rest, hev⟩ := swAllocEvaluate_eq_ok h
  have hlooked : r'.times .swAlloc = (p₂ ++ rest).map Entry.time :=
    related_map_eq hev.lookedAt fun _ _ hlook => hlook.time
  rw [hlooked]
  refine map_time_stamp (fun _ => rfl) hev.started hev.queue ?_
  exact (related_trans hev.requested hev.granted).imp fun _ _ ⟨_, _, hgrant⟩ => hgrant.time

theorem switchEvaluate_times : (r.switchEvaluate cfg env).times .crossbar =
      stamp (env.now + cfg.crossbarDelay - 1) (r.times .crossbar) := by
  refine map_time_stamp (fun _ => rfl) rfl takeWhile_append_dropWhile.symm ?_
  exact forall₂_map_right_iff.mpr (forall₂_same.mpr fun _ _ => rfl)

theorem evaluateStages_times (hvcs : cfg.hasVCAllocator = false → r.vcAllocVCs = [])
    (h : evaluateStages cfg env r = .ok r') (st : Stage) :
    r'.times st = stamp (env.now + st.delay cfg - 1) (r.times st) := by
  obtain ⟨q₁, q₂, q₃, q₄, vcGrants, offset, h₁, h₂, -, h₄, rfl⟩ := evaluateStages_eq_ok h
  have hnil : ∀ (q q' : List Entry) (T : ℤ), q' = q → q = [] →
      q'.map Entry.time = stamp T (q.map Entry.time) := by
    rintro q q' T rfl rfl
    rfl
  cases st with
  | route =>
    rcases ite_ok.mp h₁ with ⟨hempty, h₁⟩ | ⟨-, h₁⟩
    · exact hnil _ _ _ (congrArg routeVCs (Except.ok.inj h₁)).symm (List.isEmpty_iff.mp hempty)
    · exact (routeEvaluate_times h₁ :)
  | vcAlloc =>
    rcases ite_ok.mp h₂ with ⟨-, h₂⟩ | ⟨hno, h₂⟩
    · exact (vcAllocEvaluate_times h₂ :)
    · refine hnil _ _ _ (congrArg (·.2.vcAllocVCs) (Except.ok.inj h₂)).symm ?_
      cases hcfg : cfg.hasVCAllocator with
      | false => exact hvcs hcfg
      | true =>
        rw [hcfg] at hno
        simpa using hno
  | swAlloc =>
    rcases ite_ok.mp h₄ with ⟨hempty, h₄⟩ | ⟨-, h₄⟩
    · exact hnil _ _ _ (congrArg swAllocVCs (Except.ok.inj h₄)).symm (List.isEmpty_iff.mp hempty)
    · exact (swAllocEvaluate_times h₄ :)
  | crossbar => exact switchEvaluate_times

/-! ## Steps -/

/-- What the delays have to be. -/
def Delayed (cfg : RouterConfig) : Prop := ∀ st : Stage, 0 < st.delay cfg

theorem keptTimes_paced (now : ℤ) : KeptTimes fun st => Paced now (st.delay cfg) where
  tail := Paced.tail
  grown := Paced.grown

theorem paced_kept (hnow : 0 ≤ env.now) (hdelay : Delayed cfg) :
    Kept cfg env (fun r => ∀ st, Paced env.now (st.delay cfg) (r.times st)) (Tidy cfg) where
  toKeptByUpdates := (keptTimes_paced env.now).keptByUpdates
  enter _ _ hf _ h := (keptTimes_paced env.now).grow (enterFlit_roundOf hf).timesGrow h
  credit _ hitem _ h := by
    obtain ⟨-, dest, -, rfl⟩ := creditItem_eq_ok hitem
    exact h
  evaluate hstages htidy h st := by
    rw [evaluateStages_times htidy.vcAllocVCs_eq_nil hstages st]
    exact (h st).stamp hnow (hdelay st)
  flush hflush _ h := by
    obtain rfl := outputQueuing_eq_ok hflush
    exact h
  active _ h := h

theorem later_of_drain {β : Type} {queue : Router → List β} {time : β → ℤ} {p : β → Bool}
    {f : Router → β → Except Fault Router} {st : Stage} {now delay : ℤ}
    (htimes : ∀ r : Router, r.times st = (queue r).map time)
    (hp : ∀ c, p c = (decide (0 ≤ time c) && decide (time c ≤ now)))
    (hround : ∀ {r r' : Router} {c : β}, f r c = .ok r' → TimesGrow (r.popped st) r')
    (hqueue : ∀ {r r' : Router} {c : β} {q : List β}, queue r = c :: q → f r c = .ok r' →
      ∃ new, queue r' = q ++ new)
    (hnow : 0 ≤ now) (hr : Paced now delay (r.times st))
    (h : ((queue r).takeWhile p).foldlM f r = .ok r') : Later now (r'.times st) := by
  have hrest : Later now (((queue r).dropWhile p).map time) := by
    have hcomp : (fun t : ℤ => decide (0 ≤ t) && decide (t ≤ now)) ∘ time = p :=
      funext fun c => (hp c).symm
    rw [← hcomp, ← dropWhile_map, ← htimes]
    exact hr.later_dropWhile hnow
  have hsplit := @List.takeWhile_append_dropWhile _ p (queue r)
  generalize (queue r).takeWhile p = xs at h hsplit
  generalize (queue r).dropWhile p = ys at hrest hsplit
  clear hr
  -- the entries that are due, and behind them those that are later
  induction xs generalizing r ys with
  | nil =>
    cases h
    rwa [htimes, ← hsplit]
  | cons c xs ih =>
    rw [foldlM_cons] at h
    obtain ⟨r₁, hr₁, h⟩ := bind_ok.mp h
    obtain ⟨new, hnew⟩ := hqueue hsplit.symm hr₁
    obtain ⟨n, hgrown⟩ := hround hr₁ st
    rw [times_popped, if_pos rfl, htimes, htimes, ← hsplit, hnew] at hgrown
    have hfresh : new.map time = List.replicate n (-1) := by
      rw [map_append] at hgrown
      exact append_cancel_left hgrown
    refine ih h (ys ++ new) (Later.grown ⟨n, ?_⟩ hrest) ?_
    · rw [map_append, hfresh]
    · rw [hnew]
      exact (append_assoc _ _ _).symm

/-- The queues within a step, of the stages in `Q`; those in `S` have been gone through. -/
def CaughtUp (cfg : RouterConfig) (now : ℤ) (Q S : Stage → Prop) (r : Router) : Prop :=
  ∀ st, Q st → Paced now (st.delay cfg) (r.times st) ∧ (S st → Later now (r.times st))

theorem keptTimes_caughtUp (now : ℤ) (Q S : Stage → Prop) :
    KeptTimes fun st ts => Q st → Paced now (st.delay cfg) ts ∧ (S st → Later now ts) where
  tail h hQ := ⟨(h hQ).1.tail, fun hst => ((h hQ).2 hst).tail⟩
  grown hgrown h hQ := ⟨(h hQ).1.grown hgrown, fun hst => ((h hQ).2 hst).grown hgrown⟩

theorem caughtUp_kept {Q S : Stage → Prop} : KeptByUpdates cfg env (CaughtUp cfg env.now Q S) :=
  (keptTimes_caughtUp env.now Q S).keptByUpdates

theorem updateStage_caughtUp {β : Type} {queue : Router → List β} {time : β → ℤ}
    {stage : Router → Except Fault Router} {now : ℤ} {Q S : Stage → Prop} {s s' : Bool × Router}
    (st : Stage) (htimes : ∀ r : Router, r.times st = (queue r).map time)
    (hkept : ∀ {r r' : Router}, stage r = .ok r' → CaughtUp cfg now Q S r → CaughtUp cfg now Q S r')
    (hlater : ∀ {r r' : Router}, stage r = .ok r' → Paced now (st.delay cfg) (r.times st) →
      Later now (r'.times st))
    (h : updateStage queue stage s = .ok s') (hs : CaughtUp cfg now Q S s.2) :
    CaughtUp cfg now Q (fun st' => S st' ∨ st' = st) s'.2 := by
  rcases ite_ok.mp h with ⟨hempty, h⟩ | ⟨-, h⟩
  · cases h
    refine fun st' hQ => ⟨(hs st' hQ).1, ?_⟩
    rintro (hst | rfl)
    · exact (hs st' hQ).2 hst
    · rw [htimes, List.isEmpty_iff.mp hempty]
      exact fun t ht => absurd ht not_mem_nil
  · obtain ⟨r, hr, rfl⟩ := bind_return_ok.mp h
    refine fun st' hQ => ⟨(hkept hr hs st' hQ).1, ?_⟩
    rintro (hst | rfl)
    · exact (hkept hr hs st' hQ).2 hst
    · exact hlater hr (hs st' hQ).1

theorem vcAllocUpdate_caughtUp {Q : Stage → Prop} {s s₁ s₂ : Bool × Router} (hnow : 0 ≤ env.now)
    (h₁ : updateStage routeVCs (routeUpdate cfg env) s = .ok s₁)
    (h₂ : updateStage vcAllocVCs (vcAllocUpdate cfg env) s₁ = .ok s₂)
    (hs : ∀ st, Q st → Paced env.now (st.delay cfg) (s.2.times st)) :
    CaughtUp cfg env.now Q (fun st => (False ∨ st = .route) ∨ st = .vcAlloc) s₂.2 := by
  have hs₀ : CaughtUp cfg env.now Q (fun _ => False) s.2 := fun st hQ => ⟨hs st hQ, False.elim⟩
  have hs₁ := updateStage_caughtUp .route (fun _ => rfl) caughtUp_kept.routeUpdate
    (fun hr hpaced => later_of_drain (fun _ => rfl) (fun _ => rfl) routeItem_times routeItem_queue
      hnow hpaced (require_ok.mp hr).2) h₁ hs₀
  exact updateStage_caughtUp .vcAlloc (fun _ => rfl) caughtUp_kept.vcAllocUpdate
    (fun hr hpaced => later_of_drain (fun _ => rfl) (fun _ => rfl) vcAllocItem_times
      vcAllocItem_queue hnow hpaced (require_ok.mp hr).2) h₂ hs₁

theorem swHoldStage_kept {I : Router → Prop} {s s' : Bool × Router} (hI : KeptByUpdates cfg env I)
    (h : (if cfg.holdSwitchForPacket then updateStage swHoldVCs (swHoldUpdate cfg env) s
      else .ok s) = .ok s') (hs : I s.2) : I s'.2 := by
  rcases ite_ok.mp h with ⟨-, h⟩ | ⟨-, h⟩
  · exact KeptByUpdates.updateStage hI.swHoldUpdate h hs
  · cases h
    exact hs

theorem updateStages_later {Q : Stage → Prop} {s s' : Bool × Router} (hnow : 0 ≤ env.now)
    (h : updateStages cfg env s = .ok s')
    (hs : ∀ st, Q st → Paced env.now (st.delay cfg) (s.2.times st)) (st : Stage) (hst : Q st) :
    Paced env.now (st.delay cfg) (s'.2.times st) ∧ Later env.now (s'.2.times st) := by
  obtain ⟨s₁, h₁, h⟩ := bind_ok.mp h
  obtain ⟨s₂, h₂, h⟩ := bind_ok.mp h
  obtain ⟨s₃, h₃, h⟩ := bind_ok.mp h
  obtain ⟨s₄, h₄, h₅⟩ := bind_ok.mp h
  have hs₃ := swHoldStage_kept caughtUp_kept h₃ (vcAllocUpdate_caughtUp hnow h₁ h₂ hs)
  have hs₄ := updateStage_caughtUp .swAlloc (fun _ => rfl) caughtUp_kept.swAllocUpdate
    (fun hr hpaced => later_of_drain (fun _ => rfl) (fun _ => rfl) swAllocItem_times
      swAllocItem_queue hnow hpaced hr) h₄ hs₃
  have hs₅ := updateStage_caughtUp .crossbar (fun _ => rfl) caughtUp_kept.switchUpdate
    (fun hr hpaced => later_of_drain (fun _ => rfl) (fun _ => rfl) switchItem_times
      switchItem_queue hnow hpaced hr) h₅ hs₄
  refine ⟨(hs₅ st hst).1, (hs₅ st hst).2 ?_⟩
  cases st <;> simp

theorem times_of_done (h : Done r) (st : Stage) : r.times st = [] := by
  cases st with
  | route => exact congrArg (·.map Entry.time) h.route
  | vcAlloc => exact congrArg (·.map Entry.time) h.vcAlloc
  | swAlloc => exact congrArg (·.map Entry.time) h.swAlloc
  | crossbar => exact congrArg (·.map Crossing.time) h.crossbar

/-- The queues at the start of a step. -/
structure OnTime (cfg : RouterConfig) (now : ℤ) (r : Router) : Prop where
  tidy : Tidy cfg r
  paced : ∀ st, Paced now (st.delay cfg) (r.times st)

theorem onTime_kept (hnow : 0 ≤ env.now) (hdelay : Delayed cfg) :
    Kept cfg env (fun r => Tidy cfg r ∧ ∀ st, Paced env.now (st.delay cfg) (r.times st)) :=
  tidy_kept.and (paced_kept hnow hdelay)

theorem internalStep_later (hnow : 0 ≤ env.now) (hdelay : Delayed cfg)
    (hidle : r.active = false → Done r) (hr : OnTime cfg env.now r)
    (h : internalStep cfg env r = .ok r') (st : Stage) : Later env.now (r'.times st) := by
  rcases ite_ok.mp h with ⟨-, h⟩ | ⟨hinactive, h⟩
  · obtain ⟨r₁, h₁, h⟩ := bind_ok.mp h
    obtain ⟨r₂, h₂, h⟩ := bind_ok.mp h
    obtain ⟨s, h₃, h⟩ := bind_ok.mp h
    obtain rfl := outputQueuing_eq_ok h
    have hkept := onTime_kept hnow hdelay
    have hr₂ := hkept.evaluate h₂ trivial (hkept.inputQueuing h₁ ⟨hr.tidy, hr.paced⟩)
    exact (updateStages_later (Q := fun _ => True) hnow h₃ (fun st _ => hr₂.2 st) st trivial).2
  · cases h
    rw [times_of_done (hidle (by simpa using hinactive))]
    exact fun t ht => absurd ht not_mem_nil

variable {bufCfg : BufferConfig}

theorem Cycled.onTime {s : ℤ × Router} (h : Cycled cfg bufCfg s) (hdelay : Delayed cfg) :
    OnTime cfg s.1 s.2 := by
  have hnow := h.now_nonneg
  induction h with
  | new _ _ _ => exact ⟨tidy_new _, fun st => by cases st <;> exact .nil (hdelay _)⟩
  | @cycle s s' c h hcycle ih =>
    have hread : OnTime cfg s.1 (s.2.readInputs cfg s.1 c.flits c.credits) :=
      ⟨tidy_of_filing rfl (ih h.now_nonneg).tidy, (ih h.now_nonneg).paced⟩
    have hidle := done_reached (.receive c.flits c.credits h.reached)
    obtain ⟨r', hr', rfl⟩ := bind_return_ok.mp hcycle
    have hkept := (@onTime_kept cfg (c.envAt s.1) h.now_nonneg hdelay).internalStep hr'
      ⟨hread.tidy, hread.paced⟩
    have hlater := @internalStep_later cfg (c.envAt s.1) _ _ h.now_nonneg hdelay hidle hread hr'
    exact ⟨tidy_of_filing rfl hkept.1,
      fun st => (hkept.2 st).next h.now_nonneg (hlater st) (hdelay st)⟩

/-! ## Stages that take one step -/

/-- No Evaluate has seen the entries of a stage. -/
def Unstarted (st : Stage) (r : Router) : Prop := ∀ t ∈ r.times st, t < 0

/-- What comes to the queue within a step of a stage that takes no more is there at its end. -/
theorem neg_of_later {now : ℤ} {ts : List ℤ} (hpaced : Paced now 1 ts) (hlater : Later now ts) :
    ∀ t ∈ ts, t < 0 := by
  obtain ⟨T, m, n, rfl, hle, hlt⟩ := hpaced
  intro t ht
  by_contra hnonneg
  have hbeyond := hlater t ht (not_lt.mp hnonneg)
  rcases mem_append.mp ht with ht | ht
  · rw [eq_of_mem_replicate ht] at hbeyond
    omega
  · rw [eq_of_mem_replicate ht] at hnonneg
    exact hnonneg (by decide)

theorem Unstarted.grow {st : Stage} (h : Unstarted st r) (hgrow : TimesGrow r r') :
    Unstarted st r' := by
  obtain ⟨n, heq⟩ := hgrow st
  intro t ht
  rw [heq] at ht
  rcases mem_append.mp ht with ht | ht
  · exact h t ht
  · rw [eq_of_mem_replicate ht]
    decide

theorem inputQueuing_times (h : inputQueuing cfg env r = .ok r') : TimesGrow r r' := by
  refine inv_inputQueuing (I := fun s => TimesGrow r s)
    (fun _ _ hitem hs => hs.trans (enterFlit_roundOf hitem).timesGrow) (fun _ hitem hs => ?_) h
      (.refl r)
  obtain ⟨-, dest, -, rfl⟩ := creditItem_eq_ok hitem
  exact hs

theorem evaluateStages_started (st : Stage) (hdelay : st.delay cfg = 1) (htidy : Tidy cfg r)
    (hstages : evaluateStages cfg env r = .ok r') (h : Unstarted st r) :
    r'.times st = List.replicate (r.times st).length env.now := by
  rw [evaluateStages_times htidy.vcAllocVCs_eq_nil hstages st, hdelay, stamp,
    takeWhile_eq_self_iff.mpr fun t ht => decide_eq_true (h t ht),
    dropWhile_eq_nil_iff.mpr fun t ht => decide_eq_true (h t ht), append_nil,
    map_const', Int.add_sub_cancel]

theorem paced_replicate (now : ℤ) (n : ℕ) : Paced now 1 (List.replicate n now) :=
  ⟨now, n, 0, (append_nil _).symm, le_rfl, Int.lt_succ now⟩

theorem internalStep_unstarted {st : Stage} (hdelay : st.delay cfg = 1) (hnow : 0 ≤ env.now)
    (htidy : Tidy cfg r) (hstep : internalStep cfg env r = .ok r') (h : Unstarted st r) :
    Unstarted st r' := by
  rcases ite_ok.mp hstep with ⟨-, hstep⟩ | ⟨-, hstep⟩
  · obtain ⟨r₁, h₁, hstep⟩ := bind_ok.mp hstep
    obtain ⟨r₂, h₂, hstep⟩ := bind_ok.mp hstep
    obtain ⟨s, h₃, hstep⟩ := bind_ok.mp hstep
    obtain rfl := outputQueuing_eq_ok hstep
    have hstarted := evaluateStages_started st hdelay (tidy_kept.inputQueuing h₁ htidy) h₂
      (h.grow (inputQueuing_times h₁))
    obtain ⟨hpaced, hlater⟩ := updateStages_later (Q := (· = st)) hnow h₃ (fun st' hst' => by
      rw [hst', hdelay, hstarted]
      exact paced_replicate _ _) st rfl
    exact neg_of_later (hdelay ▸ hpaced) hlater
  · cases hstep
    exact h

theorem unstarted_reached {C : RouterEnv → Router → Prop} {now : ℤ} (st : Stage)
    (hdelay : st.delay cfg = 1) (h : Reached cfg bufCfg C now r) : Unstarted st r := by
  induction h with
  | new _ _ _ => cases st <;> exact fun t ht => absurd ht not_mem_nil
  | receive _ _ _ ih => cases st <;> exact ih
  | step hnow _ h hstep ih =>
    exact internalStep_unstarted hdelay (hnow ▸ h.now_nonneg) (tidy_reached h) hstep ih
  | write _ ih => cases st <;> exact ih
  | wait _ _ ih => exact ih

/-! ## Entries that are looked at again -/

theorem VCRechecks.started (hnow : 0 ≤ env.now) (hdelay : 0 < cfg.vcAllocDelay)
    (hpaced : Paced env.now cfg.vcAllocDelay (r.times .vcAlloc))
    (huniform : Uniform (r.times .vcAlloc)) (h : VCRechecks cfg env r e) : 0 ≤ e.time := by
  obtain ⟨asked, granted, hasked, hgranted, he⟩ := h
  obtain ⟨p₁, p₂, hqueue, hpassed⟩ := vcAllocPasses_eq_ok hasked hgranted
  have htimes : granted.2.map Entry.time =
      stamp (env.now + cfg.vcAllocDelay - 1) (r.vcAllocVCs.map Entry.time) := by
    rw [hqueue]
    refine map_time_stamp (fun _ => rfl) rfl takeWhile_append_dropWhile.symm ?_
    exact (related_trans hpassed.requested hpassed.granted).imp fun _ _ ⟨_, _, hgrant⟩ =>
      hgrant.time
  refine hpaced.nonneg_of_uniform hnow hdelay huniform ?_
  exact htimes ▸ mem_map_of_mem (takeWhile_subset _ he)

theorem SWRechecks.started (hnow : 0 ≤ env.now) (hdelay : 0 < cfg.swAllocDelay)
    (hrange : env.now + cfg.swAllocDelay ≤ 2 ^ 31)
    (hpaced : Paced env.now cfg.swAllocDelay (r.times .swAlloc))
    (huniform : Uniform (r.times .swAlloc)) (h : SWRechecks cfg env r e) : 0 ≤ toInt e.time := by
  obtain ⟨asked, granted, hasked, hgranted, he⟩ := h
  obtain ⟨p₁, p₂, hqueue, hpassed⟩ := swAllocPasses_eq_ok hasked hgranted
  have htimes : granted.2.map Entry.time =
      stamp (env.now + cfg.swAllocDelay - 1) (r.swAllocVCs.map Entry.time) := by
    rw [hqueue]
    refine map_time_stamp (fun _ => rfl) rfl takeWhile_append_dropWhile.symm ?_
    exact (related_trans hpassed.requested hpassed.granted).imp fun _ _ ⟨_, _, hgrant⟩ =>
      hgrant.time
  have hmem : e.time ∈ stamp (env.now + cfg.swAllocDelay - 1) (r.times .swAlloc) :=
    htimes ▸ mem_map_of_mem (takeWhile_subset _ he)
  have hnonneg := hpaced.nonneg_of_uniform hnow hdelay huniform hmem
  have hlt := (hpaced.stamp hnow hdelay).lt_of_mem hnow hdelay hmem
  -- this pass keeps the time in an `int`
  rwa [toInt_eq hnonneg (by omega)]

/-! ## Exact delays -/

/-- Every entry that waits is started, and those in progress are left as they are. -/
def StartsAll (cfg : RouterConfig) (env : RouterEnv) (r r' : Router) : Prop :=
  ∀ st, r'.times st = (r.times st).map fun t => if t < 0 then env.now + st.delay cfg - 1 else t

/-- No queue holds entries in progress together with new ones. -/
def Separate (r : Router) : Prop := ∀ st, Uniform (r.times st)

/-- The step of `r` keeps to the configured delays: it starts all entries that wait, takes off
those whose time it is and no other, and leaves none of them behind. -/
structure ExactDelays (cfg : RouterConfig) (env : RouterEnv) (r : Router) : Prop where
  starts : ∀ r₁ r₂, inputQueuing cfg env r = .ok r₁ → evaluateStages cfg env r₁ = .ok r₂ →
    StartsAll cfg env r₁ r₂
  rechecks : ∀ r₁, inputQueuing cfg env r = .ok r₁ →
    evaluateStages cfg env r₁ ≠ .error (.assertion "time >= 0")
  route : ∀ r' e, RouteRound cfg env r r' e → e.time = env.now
  vcAlloc : ∀ r' e, VCAllocRound cfg env r r' e → e.time = env.now
  swAlloc : ∀ r' e, SWAllocRound cfg env r r' e → e.time = env.now
  crossbar : ∀ r' c, SwitchRound cfg env r r' c → c.time = env.now
  done : ∀ r', internalStep cfg env r = .ok r' → ∀ st, Later env.now (r'.times st)

theorem OnTime.startsAll_iff (hnow : 0 ≤ env.now) (hdelay : Delayed cfg) (h : OnTime cfg env.now r)
    (hstages : evaluateStages cfg env r = .ok r') : StartsAll cfg env r r' ↔ Separate r := by
  refine forall_congr' fun st => ?_
  rw [evaluateStages_times h.tidy.vcAllocVCs_eq_nil hstages st]
  exact (h.paced st).stamp_eq_iff hnow (hdelay st)

theorem OnTime.rechecks (hnow : 0 ≤ env.now) (hdelay : Delayed cfg) (h : OnTime cfg env.now r)
    (hrange : env.now + cfg.swAllocDelay ≤ 2 ^ 31) (hseparate : Separate r) :
    evaluateStages cfg env r ≠ .error (.assertion "time >= 0") := by
  have hF : ∀ fault : Fault, fault.IsEarly → fault ≠ .assertion "time >= 0" := fun _ h => h.1
  refine fun herror => (evaluateStages_stops hF (fun q₁ => ?_) (fun q₁ q₂ q₃ vcGrants _ => ?_)
    |>.of_eq_error herror) rfl
  · refine vcAllocEvaluate_stops hF fun e he => vcAllocRecheck_ends hF fun hno => absurd ?_ hno
    exact he.started hnow (hdelay .vcAlloc) (h.paced .vcAlloc) (hseparate .vcAlloc)
  · refine swAllocEvaluate_stops hF fun e _ _ he =>
      swAllocRecheck_ends hF (fun hno => absurd ?_ hno) fun _ _ _ => by decide
    exact he.started hnow (hdelay .swAlloc) hrange (h.paced .swAlloc) (hseparate .swAlloc)

/-- A step keeps to the delays when no queue holds entries in progress together with new ones at
its Evaluate; and where it does and the Evaluate returns, that was so.  The times have to fit
into the `int` of the last pass of switch allocation. -/
theorem delays_exact {s : ℤ × Router} (h : Cycled cfg bufCfg s) (hdelay : Delayed cfg) (c : Cycle)
    (hrange : s.1 + cfg.swAllocDelay ≤ 2 ^ 31) :
    let env := c.envAt s.1
    let r := s.2.readInputs cfg s.1 c.flits c.credits
    ((∀ r₁, inputQueuing cfg env r = .ok r₁ → Separate r₁) → ExactDelays cfg env r) ∧
    (ExactDelays cfg env r → ∀ r₁ r₂, inputQueuing cfg env r = .ok r₁ →
      evaluateStages cfg env r₁ = .ok r₂ → Separate r₁) := by
  intro env r
  have hnow : 0 ≤ env.now := h.now_nonneg
  have hr : Tidy cfg r ∧ ∀ st, Paced env.now (st.delay cfg) (r.times st) :=
    ⟨tidy_of_filing rfl (h.onTime hdelay).tidy, (h.onTime hdelay).paced⟩
  have hidle := done_reached (.receive c.flits c.credits h.reached)
  have hkept := onTime_kept hnow hdelay
  have hqueued : ∀ r₁, inputQueuing cfg env r = .ok r₁ → OnTime cfg env.now r₁ := fun r₁ hr₁ =>
    ⟨(hkept.inputQueuing hr₁ hr).1, (hkept.inputQueuing hr₁ hr).2⟩
  have hentry : ∀ {st : Stage} {r' : Router} {t : ℤ} {ts : List ℤ},
      (∀ st, Paced env.now (st.delay cfg) (r'.times st)) → r'.times st = t :: ts →
      (decide (0 ≤ t) && decide (t ≤ env.now)) = true → t = env.now := by
    intro st r' t ts hpaced htimes hdue
    simp only [Bool.and_eq_true, decide_eq_true_eq] at hdue
    exact (htimes ▸ hpaced st).due hdue.1 hdue.2
  refine ⟨fun hseparate =>
    ⟨fun r₁ r₂ h₁ h₂ => ?_, fun r₁ h₁ => ?_, ?_, ?_, ?_, ?_, fun r' hr' => ?_⟩,
    fun hexact r₁ r₂ h₁ h₂ => ?_⟩
  · exact ((hqueued r₁ h₁).startsAll_iff hnow hdelay h₂).mpr (hseparate r₁ h₁)
  · exact (hqueued r₁ h₁).rechecks hnow hdelay hrange (hseparate r₁ h₁)
  · intro r' e hround
    obtain ⟨hr', hdue, q, hq⟩ := hkept.routeRound hround hr
    exact hentry hr'.2 (congrArg (·.map Entry.time) hq : r'.times .route = _) hdue
  · intro r' e hround
    obtain ⟨hr', hdue, q, hq⟩ := hkept.vcAllocRound hround hr
    exact hentry hr'.2 (congrArg (·.map Entry.time) hq : r'.times .vcAlloc = _) hdue
  · intro r' e hround
    obtain ⟨hr', hdue, q, hq⟩ := hkept.swAllocRound hround hr
    exact hentry hr'.2 (congrArg (·.map Entry.time) hq : r'.times .swAlloc = _) hdue
  · intro r' c hround
    obtain ⟨hr', hdue, q, hq⟩ := hkept.switchRound hround hr
    exact hentry hr'.2 (congrArg (·.map Crossing.time) hq : r'.times .crossbar = _) hdue
  · exact internalStep_later hnow hdelay hidle ⟨hr.1, hr.2⟩ hr'
  · exact ((hqueued r₁ h₁).startsAll_iff hnow hdelay h₂).mp (hexact.starts r₁ r₂ h₁ h₂)

/-- … as here, in the step in which two requests for the switch are through. -/
theorem delays_exact_pair :
    let cfg : RouterConfig :=
      { inputs := 2, outputs := 2, vcs := 1, classes := 1, vcAllocDelay := 2, swAllocDelay := 3 }
    let env := RouterEnv.greedy cfg fun i _ => OutputSet.clear.addRange i 0 0 0
    let f : Flit :=
      { id := 0, pid := 0, cl := 0, src := 0, dest := 0, vc := 0, head := true, tail := true }
    ∃ s, play cfg { numVCs := 1 }
        ({ flits := fun _ => some f, env } :: List.replicate 4 { env := env }) = .ok s ∧
      s.2.times .swAlloc = [5, 5] ∧
      ExactDelays cfg { env with now := s.1 }
        (s.2.readInputs cfg s.1 (fun _ => none) fun _ => none) := by
  intro cfg env f
  obtain ⟨s, hs, hrun⟩ := exists_of_returns (p := fun s => s.1 = 5 ∧ s.2.times .swAlloc = [5, 5] ∧
      returns (fun r₁ => r₁.times .route = [] ∧ r₁.times .vcAlloc = [] ∧
        r₁.times .swAlloc = [5, 5] ∧ r₁.times .crossbar = [])
      (inputQueuing cfg { env with now := s.1 }
        (s.2.readInputs cfg s.1 (fun _ => none) fun _ => none)))
    (x := play cfg { numVCs := 1 }
      ({ flits := fun _ => some f, env } :: List.replicate 4 { env := env })) (by decide +kernel)
  obtain ⟨hnow, hqueue, hrun⟩ := of_decide_eq_true hrun
  have hdelay : Delayed cfg := fun st => by cases st <;> decide
  refine ⟨s, hs, hqueue,
    (delays_exact (cycled_of_play (by decide) rfl hs) hdelay { env := env } ?_).1 fun r₁ hr₁ => ?_⟩
  · rw [hnow]
    decide
  · obtain ⟨r₂, hr₂, htimes⟩ := exists_of_returns hrun
    obtain rfl := Except.ok.inj (hr₁.symm.trans hr₂)
    obtain ⟨hroute, hvc, hsw, hcrossbar⟩ := of_decide_eq_true htimes
    intro st
    cases st with
    | route => exact .inl (by simp [hroute])
    | vcAlloc => exact .inl (by simp [hvc])
    | swAlloc => exact .inr (by simp [hsw])
    | crossbar => exact .inl (by simp [hcrossbar])

/-- A packet asks for the switch while the request of another is in progress.  The next Evaluate
does not start it, and finds in its last pass that it has not been started. -/
theorem entry_not_started :
    let cfg : RouterConfig :=
      { inputs := 2, outputs := 2, vcs := 1, classes := 1, swAllocDelay := 2 }
    let env := RouterEnv.greedy cfg fun i _ => OutputSet.clear.addRange i 0 0 0
    let f : Flit :=
      { id := 0, pid := 0, cl := 0, src := 0, dest := 0, vc := 0, head := true, tail := true }
    let cycles : List Cycle := [{ flits := fun i => if i = 0 then some f else none, env },
      { flits := fun i => if i = 1 then some f else none, env }, { env := env }]
    (∃ s, play cfg { numVCs := 1 } cycles = .ok s ∧ s.2.times .swAlloc = [3, -1]) ∧
      play cfg { numVCs := 1 } (cycles ++ [{ env := env }]) = .error (.assertion "time >= 0") := by
  intro cfg env f cycles
  obtain ⟨s, hs, hqueue⟩ := exists_of_returns (p := fun s => s.2.times .swAlloc = [3, -1])
    (x := play cfg { numVCs := 1 } cycles) (by decide +kernel)
  exact ⟨⟨s, hs, of_decide_eq_true hqueue⟩, eq_error_of_stops (by decide +kernel)⟩

end Router

end BookSim
