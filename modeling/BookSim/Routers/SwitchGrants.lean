/-
# SwitchGrants — the switch is never double-booked

The grants that `_SWAllocEvaluate` keeps come from one or two matchings and from the masking of
one of them by the other, over requests that leave held connections out.  Any two of them differ
at both sides of the switch:

    the same input       the grant names one VC only, and each VC is queued once
    the same output      one matching does not give it twice, and of two matchings the
                         speculative one is masked

With a delay, grants are used in a later step than they are made in.  They stay apart from each
other and from all held connections in the meantime (`Booked`), as a new batch is only started
when the last one is done.
-/
import BookSim.Routers.SwitchAllocation

namespace BookSim

open List
open Function (update update_apply update_of_ne)

/-- A passage through the switch that has been granted to a VC. -/
structure SWGrant where
  input : ℤ
  vc : ℤ
  expandedOutput : ℤ

def Entry.swGrant? (e : Entry) : Option SWGrant :=
  if 0 ≤ e.result then some ⟨e.input, e.vc, e.result⟩ else none

/-- The grants among the entries of a queue. -/
def swGrants (q : List Entry) : List SWGrant := q.filterMap Entry.swGrant?

/-- The two passages have neither side of the switch in common. -/
def SWGrant.Apart (cfg : RouterConfig) (g g' : SWGrant) : Prop :=
  cfg.expandedInput g.input g.vc ≠ cfg.expandedInput g'.input g'.vc ∧
    g.expandedOutput ≠ g'.expandedOutput

theorem Entry.swGrant?_eq_some {e : Entry} {g : SWGrant} :
    e.swGrant? = some g ↔ 0 ≤ e.result ∧ g = ⟨e.input, e.vc, e.result⟩ := by
  unfold Entry.swGrant?
  split_ifs with h
  · simp [h, eq_comm]
  · simp [h]

theorem mem_swGrants {q : List Entry} {g : SWGrant} :
    g ∈ swGrants q ↔ ∃ e ∈ q, 0 ≤ e.result ∧ g = ⟨e.input, e.vc, e.result⟩ := by
  simp only [swGrants, mem_filterMap, Entry.swGrant?_eq_some]

theorem swGrants_append (q q' : List Entry) : swGrants (q ++ q') = swGrants q ++ swGrants q' :=
  filterMap_append

theorem GrowsFresh.swGrants_eq {q q' : List Entry} (h : GrowsFresh q q') :
    swGrants q' = swGrants q := by
  obtain ⟨new, rfl, hfresh⟩ := h
  have hnone : swGrants new = [] := filterMap_eq_nil_iff.mpr fun e he => by
    rw [Entry.swGrant?, (hfresh e he).2]
    rfl
  rw [swGrants_append, hnone, append_nil]

theorem swGrants_tail (q : List Entry) : (swGrants q.tail).Sublist (swGrants q) :=
  (tail_sublist q).filterMap _

theorem swGrants_lookedAt {q q' : List Entry} (h : List.Forall₂ Entry.LookedAt q q') :
    (swGrants q').Sublist (swGrants q) := by
  induction h with
  | nil => exact .slnil
  | @cons e e' q q' hentry _ ih =>
    obtain ⟨hplace, -, hresult, -⟩ := hentry
    have hgrant : e'.swGrant? = none ∨ e'.swGrant? = e.swGrant? := by
      unfold Entry.place at hplace
      rw [Prod.mk.injEq] at hplace
      rcases hresult with hresult | hresult
      · right
        unfold Entry.swGrant?
        rw [hresult, hplace.1, hplace.2]
      · left
        exact if_neg (not_le.mpr hresult)
    rcases hgrant with hgrant | hgrant
    · rw [swGrants, filterMap_cons_none hgrant]
      exact ih.trans ((sublist_cons_self e q).filterMap _)
    · unfold swGrants at ih ⊢
      rw [filterMap_cons, filterMap_cons, hgrant]
      cases e.swGrant? with
      | none => exact ih
      | some g => exact ih.cons_cons g

namespace Router

variable {cfg : RouterConfig} {env : RouterEnv} {r r' : Router} {e e' : Entry}

theorem expandedInput_inj {i i' v : ℤ} (hcfg : cfg.Accepted)
    (h : cfg.expandedInput i v = cfg.expandedInput i' v) : i = i' := by
  unfold RouterConfig.expandedInput at h
  exact Int.eq_of_mul_eq_mul_right hcfg.inputSpeedup.ne' (by omega)

theorem expandedInput_range {i v : ℤ} (hcfg : cfg.Accepted) (hi : cfg.IsInput i) :
    0 ≤ cfg.expandedInput i v ∧ cfg.expandedInput i v < cfg.inputs * cfg.inputSpeedup := by
  unfold RouterConfig.expandedInput
  have hmod := Int.emod_nonneg v hcfg.inputSpeedup.ne'
  have hlt := Int.emod_lt_of_pos v hcfg.inputSpeedup
  have hlow : 0 ≤ i * cfg.inputSpeedup := Int.mul_nonneg hi.1 hcfg.inputSpeedup.le
  have hhigh : (i + 1) * cfg.inputSpeedup ≤ cfg.inputs * cfg.inputSpeedup :=
    Int.mul_le_mul_of_nonneg_right hi.2 hcfg.inputSpeedup.le
  rw [Int.add_mul, Int.one_mul] at hhigh
  omega

/-- Where a grant comes from: one of the matchings. -/
structure GrantedBy (cfg : RouterConfig) (requests : SWRequests) (grants specGrants : Matching)
    (x v y : ℤ) (spec : Bool) : Prop where
  nonneg : 0 ≤ y
  match_eq : (if spec then specGrants else grants).outputAssigned x = y
  read_eq : (if spec then requests.spec else requests.nonspec).read x y = v
  masked : spec = true → grants.outputAssigned x < 0 ∧ specMasked cfg requests grants y = false

theorem read_isSome {t : Requests} {x y v : ℤ} (h : (t x y).isSome = true)
    (hread : t.read x y = v) : ∃ q, t x y = some q ∧ q.label = v := by
  obtain ⟨q, hq⟩ := Option.isSome_iff_exists.mp h
  refine ⟨q, hq, ?_⟩
  rw [← hread, Requests.read, hq]
  rfl

variable {requests : SWRequests} {grants specGrants : Matching}

theorem SWGranted.grantedBy
    (h : SWGranted cfg env requests grants specGrants e e') (hkept : 0 ≤ e'.result) :
    e'.result % cfg.outputSpeedup = e'.input % cfg.outputSpeedup ∧
      ∃ spec, GrantedBy cfg requests grants specGrants (cfg.expandedInput e'.input e'.vc) e'.vc
        e'.result spec := by
  cases h with
  | stalled hstall he' =>
    rw [he'] at hkept
    exact absurd (le_trans hkept hstall.le) (by decide)
  | nonspec _ hy hgrant hread haligned he' =>
    rw [he']
    exact ⟨haligned, false, hy, hgrant, hread, nofun⟩
  | spec _ _ hy hno hgrant hread hmask haligned he' =>
    rw [he']
    exact ⟨haligned, true, hy, hgrant, hread, fun _ => ⟨hno, hmask⟩⟩
  | conflict _ _ _ he' =>
    rw [he'] at hkept
    exact absurd hkept (show ¬ 0 ≤ STALL_CROSSBAR_CONFLICT by decide)

/-- The matchings and the requests of one call. -/
structure Answered (requests : SWRequests) (grants specGrants : Matching) : Prop where
  nonspec : IsAnswer requests.nonspec grants
  spec : IsAnswer requests.spec specGrants

theorem Answered.isAnswer (h : Answered requests grants specGrants) (spec : Bool) :
    IsAnswer (if spec then requests.spec else requests.nonspec)
      (if spec then specGrants else grants) := by
  cases spec with
  | true => exact h.spec
  | false => exact h.nonspec

theorem GrantedBy.request {x v y : ℤ}
    {spec : Bool} (h : GrantedBy cfg requests grants specGrants x v y spec)
    (hanswered : Answered requests grants specGrants) {P : Bool → ℤ → ℤ → ℤ → Prop}
    (honly : requests.Only P) : P spec x y v := by
  obtain ⟨q, hq, rfl⟩ := read_isSome ((hanswered.isAnswer spec).requested x y h.nonneg h.match_eq)
    h.read_eq
  cases spec with
  | true => exact honly true x y q hq
  | false => exact honly false x y q hq

/-- A grant that an entry has after the second pass is for an output its VC asks for. -/
theorem SWPassed.asks
    {p p₁ p₂ : List Entry} (h : SWPassed cfg env r requests grants specGrants p p₁ p₂)
    (hcfg : cfg.Accepted) (hanswered : Answered requests grants specGrants) (he' : e' ∈ p₂)
    (hresult : 0 ≤ e'.result) :
    ∃ e ∈ p, e'.place = e.place ∧ ∃ o, Asks cfg env r e o ∧
      e'.result = cfg.expandedOutput o e.input := by
  obtain ⟨e₁, -, hgrant⟩ := exists_of_mem_related h.granted he'
  obtain ⟨-, spec, hby⟩ := hgrant.grantedBy hresult
  obtain ⟨e, he, o, hasks, -, hinput, houtput, hvc, -⟩ := hby.request hanswered h.only
  rw [hvc] at hinput
  exact ⟨e, he, Prod.ext (expandedInput_inj hcfg hinput) hvc, o, hasks, houtput⟩

theorem GrantedBy.vc_eq {x v v' y y' : ℤ}
    {spec spec' : Bool} (h : GrantedBy cfg requests grants specGrants x v y spec)
    (h' : GrantedBy cfg requests grants specGrants x v' y' spec') : v = v' := by
  have hspec : spec = spec' := by
    cases spec with
    | true =>
      cases spec' with
      | true => rfl
      | false => exact absurd (h.masked rfl).1 (not_lt.mpr (h'.match_eq ▸ h'.nonneg))
    | false =>
      cases spec' with
      | true => exact absurd (h'.masked rfl).1 (not_lt.mpr (h.match_eq ▸ h.nonneg))
      | false => rfl
  subst hspec
  rw [← h.read_eq, ← h'.read_eq, ← h.match_eq, ← h'.match_eq]

theorem specMasked_of_grant {x v y : ℤ} (h : GrantedBy cfg requests grants specGrants x v y false)
    (hanswered : Answered requests grants specGrants) (hx : 0 ≤ x)
    (hlt : x < cfg.inputs * cfg.inputSpeedup) : specMasked cfg requests grants y = true := by
  unfold specMasked
  split_ifs with hreqs
  · refine any_eq_true.mpr ⟨x.toNat, mem_range.mpr ?_, ?_⟩
    · omega
    · rw [Int.toNat_of_nonneg hx]
      exact hanswered.nonspec.requested x y h.nonneg h.match_eq
  · rwa [decide_eq_true_eq, hanswered.nonspec.noted x y hx h.nonneg h.match_eq]

theorem GrantedBy.input_eq
    {x x' v v' y : ℤ} {spec spec' : Bool} (h : GrantedBy cfg requests grants specGrants x v y spec)
    (h' : GrantedBy cfg requests grants specGrants x' v' y spec')
    (hanswered : Answered requests grants specGrants)
    (hx : 0 ≤ x ∧ x < cfg.inputs * cfg.inputSpeedup)
    (hx' : 0 ≤ x' ∧ x' < cfg.inputs * cfg.inputSpeedup) : x = x' := by
  have hspec : spec = spec' := by
    cases spec with
    | true =>
      cases spec' with
      | true => rfl
      | false =>
        have hmask := specMasked_of_grant h' hanswered hx'.1 hx'.2
        exact absurd (hmask.symm.trans (h.masked rfl).2) (by decide)
    | false =>
      cases spec' with
      | true =>
        have hmask := specMasked_of_grant h hanswered hx.1 hx.2
        exact absurd (hmask.symm.trans (h'.masked rfl).2) (by decide)
      | false => rfl
  subst hspec
  have hanswer := hanswered.isAnswer spec
  exact (hanswer.noted _ _ hx.1 h.nonneg h.match_eq).symm.trans
    (hanswer.noted _ _ hx'.1 h'.nonneg h'.match_eq)

/-! ## One call -/

/-- The grants among the entries, and what is known of them. -/
structure Booked (cfg : RouterConfig) (r : Router) (q : List Entry) : Prop where
  apart : (swGrants q).Pairwise (SWGrant.Apart cfg)
  free : ∀ g ∈ swGrants q, IsFree r (cfg.expandedInput g.input g.vc) g.expandedOutput

theorem Booked.sublist {q q' : List Entry} (h : Booked cfg r q)
    (hsub : (swGrants q').Sublist (swGrants q)) : Booked cfg r q' :=
  ⟨h.apart.sublist hsub, fun g hg => h.free g (hsub.subset hg)⟩

theorem SWEvaluated.booked {vcGrants : Matching}
    {p p₁ p₂ rest : List Entry} (h : SWEvaluated cfg env r vcGrants requests p p₁ p₂ rest r')
    (hcfg : cfg.Accepted) (hanswers : env.Answers) (hnodup : (p.map Entry.place).Nodup) :
    Booked cfg r p₂ := by
  have hanswered : Answered requests (env.swAllocate requests.nonspec)
      (env.specSWAllocate requests.spec) := ⟨hanswers.swAllocate _, hanswers.specSWAllocate _⟩
  -- what is known of each entry that has a grant
  have hkept : ∀ e ∈ p₂, 0 ≤ e.result → cfg.IsInput e.input ∧ ∃ spec,
      GrantedBy cfg requests (env.swAllocate requests.nonspec) (env.specSWAllocate requests.spec)
        (cfg.expandedInput e.input e.vc) e.vc e.result spec := by
    intro e₂ he₂ hresult
    obtain ⟨e, -, e₁, ⟨t, t', hreq⟩, hgrant⟩ := exists_of_mem_related h.passed he₂
    obtain ⟨f, flits, hfront⟩ := hreq.front
    refine ⟨?_, (hgrant.grantedBy hresult).2⟩
    have hplace : e₂.place = e.place := hgrant.entry_eq.1.trans (by rw [hreq.entry]; rfl)
    have hinput : e₂.input = e.input := congrArg Prod.fst hplace
    rw [hinput]
    exact hfront.input
  refine ⟨?_, fun g hg => ?_⟩
  · have hplaces : p₂.map Entry.place = p.map Entry.place :=
      related_map_eq h.passed fun e e₂ ⟨e₁, ⟨t, t', hreq⟩, hgrant⟩ =>
        hgrant.entry_eq.1.trans (by rw [hreq.entry]; rfl)
    rw [← hplaces, nodup_iff_pairwise_ne, pairwise_map] at hnodup
    refine pairwise_filterMap.mpr (hnodup.imp_of_mem fun {e e'} he he' hne => ?_)
    intro g hg g' hg'
    obtain ⟨hresult, rfl⟩ := Entry.swGrant?_eq_some.mp hg
    obtain ⟨hresult', rfl⟩ := Entry.swGrant?_eq_some.mp hg'
    obtain ⟨hi, spec, hby⟩ := hkept e he hresult
    obtain ⟨hi', spec', hby'⟩ := hkept e' he' hresult'
    have hinputs : cfg.expandedInput e.input e.vc ≠ cfg.expandedInput e'.input e'.vc := by
      intro hsame
      rw [hsame] at hby
      have hvc : e.vc = e'.vc := hby.vc_eq hby'
      rw [hvc] at hsame
      exact hne (Prod.ext (expandedInput_inj hcfg hsame) hvc)
    refine ⟨hinputs, fun hsame => hinputs ?_⟩
    change e.result = e'.result at hsame
    rw [hsame] at hby
    exact hby.input_eq hby' hanswered (expandedInput_range hcfg hi) (expandedInput_range hcfg hi')
  · obtain ⟨e, he, hresult, rfl⟩ := mem_swGrants.mp hg
    obtain ⟨-, spec, hby⟩ := hkept e he hresult
    obtain ⟨-, -, -, -, -, -, -, -, hfree⟩ := hby.request hanswered h.only
    exact hfree

theorem SWEvaluated.cases_batch {vcGrants : Matching}
    {p p₁ p₂ rest : List Entry} (h : SWEvaluated cfg env r vcGrants requests p p₁ p₂ rest r')
    (hbatch : Batched r.swAllocVCs) : p₂ ++ rest = r.swAllocVCs ∨ p = r.swAllocVCs ∧ rest = [] := by
  have hstarted := h.started
  have hqueue := h.queue
  rcases hbatch.cases_front with hnone | hall
  · rw [hnone] at hstarted
    subst hstarted
    obtain rfl : p₂ = [] := forall₂_nil_left_iff.mp h.passed
    exact .inl hqueue.symm
  · rw [hall] at hstarted
    rw [hstarted] at hqueue
    exact .inr ⟨hstarted, append_right_eq_self.mp hqueue.symm⟩

theorem SWEvaluated.keeps {vcGrants : Matching}
    {p p₁ p₂ rest : List Entry} (h : SWEvaluated cfg env r vcGrants requests p p₁ p₂ rest r')
    (hcfg : cfg.Accepted) (hanswers : env.Answers) (hnodup : (r.swAllocVCs.map Entry.place).Nodup)
    (hbatch : Batched r.swAllocVCs) (hbooked : Booked cfg r r.swAllocVCs) :
    Batched r'.swAllocVCs ∧ Booked cfg r r'.swAllocVCs := by
  suffices hpassed : Batched (p₂ ++ rest) ∧ Booked cfg r (p₂ ++ rest) from
    ⟨hpassed.1.lookedAt h.lookedAt, hpassed.2.sublist (swGrants_lookedAt h.lookedAt)⟩
  rcases h.cases_batch hbatch with hsame | ⟨hall, rfl⟩
  · rw [hsame]
    exact ⟨hbatch, hbooked⟩
  · rw [append_nil]
    refine ⟨.of_time (T := env.now + cfg.swAllocDelay - 1) fun e₂ he₂ => ?_,
      h.booked hcfg hanswers (hall ▸ hnodup)⟩
    obtain ⟨e, -, e₁, -, hgrant⟩ := exists_of_mem_related h.passed he₂
    exact hgrant.entry_eq.2

/-! ## All rounds -/

/-- The router's batch, and its grants. -/
def SwitchBooked (cfg : RouterConfig) (r : Router) : Prop :=
  Batched r.swAllocVCs ∧ Booked cfg r r.swAllocVCs

theorem SwitchBooked.of_growsFresh (h : SwitchBooked cfg r)
    (hqueue : GrowsFresh r.swAllocVCs r'.swAllocVCs)
    (hfree : ∀ x y, IsFree r x y → IsFree r' x y) : SwitchBooked cfg r' := by
  refine ⟨hqueue.batched h.1, ?_⟩
  have hgrants := hqueue.swGrants_eq
  refine ⟨hgrants ▸ h.2.apart, fun g hg => ?_⟩
  rw [hgrants] at hg
  exact hfree _ _ (h.2.free g hg)

/-- What a flit that is sent leaves of the queue and of the held connections: that of `done`, to
which a packet that starts may have been added, or that of `stay`. -/
theorem Sent.switch {i v x : ℤ} {done stay : Router → Router} {f : Flit} {rest : List Flit}
    {dest : BufferState} (h : Sent cfg r i v x done stay f rest dest r') :
    ∃ b s, (s = done (r.sent cfg i v x f b dest) ∨ s = stay (r.sent cfg i v x f b dest)) ∧
      GrowsFresh s.swAllocVCs r'.swAllocVCs ∧ r'.holds = s.holds := by
  obtain ⟨b, routeSet, -, hcore⟩ := h.core_eq
  have hqueue : r'.swAllocVCs =
      ((r.sent cfg i v x f b dest).concluded cfg i v f rest routeSet done stay).swAllocVCs :=
    (congrArg swAllocVCs hcore :)
  have hholds : r'.holds =
      ((r.sent cfg i v x f b dest).concluded cfg i v f rest routeSet done stay).holds :=
    (congrArg holds hcore :)
  refine ⟨b, ?_⟩
  rw [hqueue, hholds]
  unfold concluded
  split_ifs
  · exact ⟨_, .inl rfl, .refl _, rfl⟩
  · exact ⟨_, .inl rfl, (RoundOf.begun _).swAlloc, holds_begun _ _ _⟩
  · exact ⟨_, .inl rfl, .refl _, rfl⟩
  · exact ⟨_, .inr rfl, .refl _, rfl⟩

theorem isFree_of_holds {s : Router} {x y : ℤ} (hholds : r'.holds = s.holds) (h : IsFree s x y) :
    IsFree r' x y := by
  unfold IsFree
  rw [show r'.switchHoldIn = s.switchHoldIn from congrArg Holds.switchHoldIn hholds,
    show r'.switchHoldOut = s.switchHoldOut from congrArg Holds.switchHoldOut hholds]
  exact h

theorem isFree_releaseSwitch {x y : ℤ} (a b : ℤ) (h : IsFree r x y) :
    IsFree (releaseSwitch a b r) x y := by
  unfold IsFree releaseSwitch
  dsimp only
  rw [update_apply, update_apply]
  constructor
  · split
    · decide
    · exact h.1
  · split
    · decide
    · exact h.2

theorem SwitchBooked.tail (h : SwitchBooked cfg r) :
    SwitchBooked cfg { r with swAllocVCs := r.swAllocVCs.tail } := by
  have htail := h.2.sublist (swGrants_tail r.swAllocVCs)
  exact ⟨h.1.tail, htail.apart, htail.free⟩

/-- A grant that is used may become a held connection; the other grants are apart from it. -/
theorem swAllocItem_booked {q : List Entry} (hq : r.swAllocVCs = e :: q)
    (hitem : swAllocItem cfg env r e = .ok r') (h : SwitchBooked cfg r) : SwitchBooked cfg r' := by
  obtain ⟨-, -, -, hcases⟩ := swAllocItem_core hitem
  rcases hcases with ⟨-, rfl⟩ | ⟨hresult, -, -, -, -, r₁, hequipped, -, -, f, rest, dest, hsent⟩
  · exact h.tail.of_growsFresh (.push _ _ _) fun _ _ => id
  · have hr₁ : r₁.swAllocVCs = r.swAllocVCs.tail ∧ r₁.holds = r.holds :=
      ⟨hequipped.same.swAlloc, hequipped.same.holds⟩
    obtain ⟨b, s, hs, hgrows, hholds⟩ := hsent.switch
    refine SwitchBooked.of_growsFresh ?_ hgrows fun x y => isFree_of_holds hholds
    have hsentBooked : SwitchBooked cfg (r₁.sent cfg e.input e.vc e.result f b dest) := by
      have htail := h.2.sublist (swGrants_tail r.swAllocVCs)
      refine ⟨hr₁.1 ▸ h.1.tail, hr₁.1 ▸ htail.apart, fun g hg => ?_⟩
      change g ∈ swGrants r₁.swAllocVCs at hg
      rw [hr₁.1] at hg
      exact isFree_of_holds hr₁.2 (htail.free g hg)
    rcases hs with rfl | rfl
    · exact hsentBooked
    · unfold stays
      split_ifs
      · refine ⟨hsentBooked.1, hsentBooked.2.apart, fun g hg => ?_⟩
        obtain ⟨hfreeIn, hfreeOut⟩ := hsentBooked.2.free g hg
        change g ∈ swGrants r₁.swAllocVCs at hg
        rw [hr₁.1, hq, tail_cons] at hg
        have hapart := h.2.apart
        have hgrant : e.swGrant? = some ⟨e.input, e.vc, e.result⟩ :=
          Entry.swGrant?_eq_some.mpr ⟨hresult, rfl⟩
        rw [hq, swGrants, filterMap_cons_some hgrant] at hapart
        obtain ⟨hinput, houtput⟩ := rel_of_pairwise_cons hapart hg
        unfold IsFree pushSWHold holdSwitch
        dsimp only
        rw [update_of_ne hinput.symm, update_of_ne houtput.symm]
        exact ⟨hfreeIn, hfreeOut⟩
      · exact hsentBooked.of_growsFresh (.push _ _ _) fun _ _ => id

theorem swHoldItem_booked (hitem : swHoldItem cfg env r e = .ok r') (h : SwitchBooked cfg r) :
    SwitchBooked cfg r' := by
  obtain ⟨-, -, -, -, hcases⟩ := swHoldItem_core hitem
  rcases hcases with ⟨-, -, -, -, -, -, f, rest, dest, hsent⟩ | ⟨-, rfl⟩
  · obtain ⟨b, s, hs, hgrows, hholds⟩ := hsent.switch
    rcases hs with rfl | rfl
    · exact h.of_growsFresh hgrows fun x y hfree =>
        isFree_of_holds hholds (isFree_releaseSwitch _ _ hfree)
    · exact h.of_growsFresh hgrows fun x y hfree => isFree_of_holds hholds hfree
  · exact h.of_growsFresh (.push _ _ _) fun x y hfree => isFree_releaseSwitch _ _ hfree

theorem evaluateStages_booked (hcfg : cfg.Accepted) (hanswers : env.Answers) (htidy : Tidy cfg r)
    (hstages : evaluateStages cfg env r = .ok r') (h : SwitchBooked cfg r) :
      SwitchBooked cfg r' := by
  obtain ⟨q₁, q₂, q₃, q₄, vcGrants, offset, -, -, -, hswitch, rfl⟩ := evaluateStages_eq_ok hstages
  rcases ite_ok.mp hswitch with ⟨-, hswitch⟩ | ⟨-, hswitch⟩
  · cases hswitch
    exact ⟨h.1, h.2.apart, h.2.free⟩
  · obtain ⟨requests, p, p₁, p₂, rest, hevaluated⟩ := swAllocEvaluate_eq_ok hswitch
    obtain ⟨hbatch, hbooked⟩ := hevaluated.keeps hcfg hanswers htidy.nodup_swAlloc h.1
      ⟨h.2.apart, h.2.free⟩
    exact ⟨hbatch, hbooked.apart, hbooked.free⟩

theorem switchBooked_kept (hcfg : cfg.Accepted) (hanswers : env.Answers) :
    Kept cfg env (SwitchBooked cfg) (Tidy cfg) where
  enter _ _ hitem _ h := by
    obtain ⟨-, b, -, -, hcore⟩ := enterFlit_core hitem
    have hholds : _ = (entered _ _ _ _ _ _).holds := (congrArg holds hcore :)
    exact h.of_growsFresh (enterFlit_roundOf hitem).swAlloc fun x y =>
      isFree_of_holds (hholds.trans (holds_entered _ _ _ _))
  credit _ hitem _ h := by
    obtain ⟨-, dest, -, rfl⟩ := creditItem_eq_ok hitem
    exact h.of_growsFresh (.refl _) fun _ _ => id
  evaluate hstages htidy h := evaluateStages_booked hcfg hanswers htidy hstages h
  route _ _ hitem _ h := by
    have hgrows := (routeItem_roundOf hitem).swAlloc
    obtain ⟨-, -, -, routeSet, rfl⟩ := routeItem_eq_ok hitem
    exact h.of_growsFresh hgrows fun _ _ => id
  vcAlloc _ _ hitem _ h := by
    refine h.of_growsFresh (vcAllocItem_roundOf hitem).swAlloc fun x y => isFree_of_holds ?_
    obtain ⟨-, -, -, ⟨-, rfl⟩ | ⟨-, o, w, dest, -, -, rfl⟩⟩ := vcAllocItem_eq_ok hitem
    · rfl
    · rw [allocated_eq]
      rfl
  swHold _ _ hitem _ h := swHoldItem_booked hitem h
  swAlloc hq _ hitem _ h := swAllocItem_booked hq hitem h
  switch _ _ hitem _ h := by
    obtain ⟨-, -, rfl⟩ := switchItem_eq_ok hitem
    exact h.of_growsFresh (.refl _) fun _ _ => id
  flush hflush _ h := by
    obtain rfl := outputQueuing_eq_ok hflush
    exact h.of_growsFresh (.refl _) fun _ _ => id
  active _ h := h.of_growsFresh (.refl _) fun _ _ => id

variable {bufCfg : BufferConfig} {C : RouterEnv → Router → Prop} {now : ℤ}

theorem switchBooked_reached (hC : ∀ {env r}, C env r → env.Answers)
    (h : Reached cfg bufCfg C now r) : Tidy cfg r ∧ SwitchBooked cfg r := by
  refine Kept.reached h (fun hc => tidy_kept.and (switchBooked_kept h.accepted (hC hc)))
    (fun next _ _ => ⟨tidy_new next, .nil, .nil, nofun⟩) ?_ ?_
  · exact fun ⟨htidy, hbooked⟩ =>
      ⟨tidy_of_filing rfl htidy, hbooked.of_growsFresh (.refl _) fun _ _ => id⟩
  · exact fun ⟨htidy, hbooked⟩ =>
      ⟨tidy_of_filing rfl htidy, hbooked.of_growsFresh (.refl _) fun _ _ => id⟩

/-- The switch is never double-booked: when the Evaluate halves have run, any two grants of
passages through the switch differ in their expanded inputs and outputs, and no grant is for an
expanded input or output that is held. -/
theorem switch_not_double_booked {r₁ r₂ : Router}
    (h : Reached cfg bufCfg (fun env _ => env.Matches) now r) (hmatch : env.Matches)
    (hqueuing : inputQueuing cfg env r = .ok r₁) (hevaluate : evaluateStages cfg env r₁ = .ok r₂) :
    (swGrants r₂.swAllocVCs).Pairwise (SWGrant.Apart cfg) ∧
      ∀ g ∈ swGrants r₂.swAllocVCs,
      IsFree r₂ (cfg.expandedInput g.input g.vc) g.expandedOutput := by
  have hkept := tidy_kept.and (switchBooked_kept h.accepted hmatch.answers)
  have hr₁ := hkept.inputQueuing hqueuing (switchBooked_reached (fun h => h.answers) h)
  have hr₂ := hkept.evaluate hevaluate trivial hr₁
  exact ⟨hr₂.2.2.apart, hr₂.2.2.free⟩

/-- … as here, where two packets are granted the switch at the same time. -/
theorem switch_not_double_booked_pair :
    let cfg : RouterConfig := { inputs := 2, outputs := 2, vcs := 1, classes := 1 }
    let env := RouterEnv.greedy cfg fun i _ => OutputSet.clear.addRange i 0 0 0
    let f : Flit := { id := 0, pid := 0, cl := 0, src := 0, dest := 0, vc := 0, head := true }
    ∃ s r₁ r₂, play cfg { numVCs := 1 } [{ flits := fun _ => some f, env }, { env }] = .ok s ∧
      inputQueuing cfg { env with now := 2 } s.2 = .ok r₁ ∧
      evaluateStages cfg { env with now := 2 } r₁ = .ok r₂ ∧ (swGrants r₂.swAllocVCs).length = 2 ∧
      (swGrants r₂.swAllocVCs).Pairwise (SWGrant.Apart cfg) := by
  intro cfg env f
  have hmatch : env.Matches := RouterEnv.matches_greedy _ _
  obtain ⟨s, hs, hrun, hreached⟩ := @exists_reached cfg { numVCs := 1 } (fun env _ => env.Matches)
    env [{ flits := fun _ => some f, env }, { env }] (fun s => returns (fun r₁ => returns (fun r₂ =>
      (swGrants r₂.swAllocVCs).length = 2) (evaluateStages cfg { env with now := 2 } r₁))
      (inputQueuing cfg { env with now := 2 } s.2)) (by decide) rfl (by simp)
    (fun now _ => hmatch.at now) (by decide +kernel)
  obtain ⟨r₁, hr₁, hrun⟩ := exists_of_returns hrun
  obtain ⟨r₂, hr₂, hlength⟩ := exists_of_returns hrun
  exact ⟨s, r₁, r₂, hs, hr₁, hr₂, of_decide_eq_true hlength,
    (switch_not_double_booked hreached (hmatch.at 2) hr₁ hr₂).1⟩

end Router

end BookSim
