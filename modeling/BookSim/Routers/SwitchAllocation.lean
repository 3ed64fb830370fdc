/-
# SwitchAllocation — what `_SWAllocEvaluate` does with a queue

One call has up to four passes over the entries it starts:

    request     a VC asks for the outputs it can use (`Asks`), or notes why it cannot (a stall)
    allocate    the allocators answer, one of them for the speculative requests
    grant       a VC without a stall notes the grant that names it, or a conflict
    recheck     a grant that is due is dropped if it cannot be used any more

A grant is kept if it is left after that: its entry has a result of at least zero.
-/
import BookSim.Routers.Evaluation
import BookSim.Routers.Queues

namespace BookSim

open List

/-- The test at which the third pass ends. -/
def Entry.isLater (now : ℤ) (e : Entry) : Bool := now < toInt e.time

namespace Requests

variable {P : ℤ → ℤ → ℤ → Prop} {t t' : Requests}

/-- All requests are among those of `P`, which is told input, output and label. -/
def Only (P : ℤ → ℤ → ℤ → Prop) (t : Requests) : Prop := ∀ a b q, t a b = some q → P a b q.label

theorem only_clear : Only P clear := fun _ _ _ h => nomatch h

theorem add_eq_ok {a b : ℤ} {q : Request} (h : t.add a b q = .ok t') :
    t a b = none ∧ t' = update₂ t a b (some q) := by
  obtain ⟨hnone, h⟩ := require_ok.mp h
  exact ⟨Option.isNone_iff_eq_none.mp hnone, (return_ok.mp h).symm⟩

theorem addOrReplace_eq_ok {a b vc pri offset vcs : ℤ}
    (h : t.addOrReplace a b vc pri offset vcs = .ok t') :
    t' = update₂ t a b (some ⟨vc, pri, pri⟩) ∨ (t a b).isSome = true ∧ t' = t := by
  unfold addOrReplace at h
  cases hab : t a b with
  | none =>
    rw [hab] at h
    exact .inl (add_eq_ok h).2
  | some q =>
    rw [hab] at h
    rcases ite_ok.mp h with ⟨-, h⟩ | ⟨-, h⟩
    · refine .inl ((add_eq_ok h).2.trans ?_)
      funext a' b'
      rw [remove, update₂_apply, update₂_apply, update₂_apply]
      split_ifs
      · rfl
      · rfl
    · cases h
      exact .inr ⟨rfl, rfl⟩

theorem only_update {a b : ℤ} {q : Request} (ht : Only P t) (hab : P a b q.label) :
    Only P (update₂ t a b (some q)) := by
  intro a' b' q' hq'
  rw [update₂_apply] at hq'
  split_ifs at hq' with hplace
  · cases hq'
    rwa [hplace.1, hplace.2]
  · exact ht a' b' q' hq'

theorem only_addOrReplace {a b vc pri offset vcs : ℤ}
    (h : t.addOrReplace a b vc pri offset vcs = .ok t') (ht : Only P t) (hab : P a b vc) :
    Only P t' := by
  rcases addOrReplace_eq_ok h with rfl | ⟨-, rfl⟩
  · exact only_update ht hab
  · exact ht

end Requests

namespace Router

/-- The requests of one of the two allocators. -/
def SWRequests.table (t : SWRequests) (spec : Bool) : Requests := if spec then t.spec else t.nonspec

/-- All requests for the switch. -/
def SWRequests.Only (P : Bool → ℤ → ℤ → ℤ → Prop) (t : SWRequests) : Prop :=
  ∀ spec, (t.table spec).Only (P spec)

/-- The requests of a VC go to the speculative allocator. -/
def bidsSpeculatively (cfg : RouterConfig) (r : Router) (i v : ℤ) : Bool :=
  cfg.speculative && decide ((r.vcAt i v).state = .vc_alloc) && cfg.hasSpecSWAllocator

variable {cfg : RouterConfig} {env : RouterEnv} {r r' : Router} {e e' : Entry}

/-! ## Requests -/

/-- An element of a route set passes the checks that are made for speculative requests. -/
def Passes (cfg : RouterConfig) (env : RouterEnv) (r : Router) (e : Entry) (se : SetElement) :
    Prop :=
  if cfg.specCheckElig = true then
    ∃ outVCs, r.vcRange cfg e.input e.vc se = .ok outVCs ∧ r.hasRoom cfg se.outputPort = true ∧
      ∃ w ∈ outVCs, (r.nextBuf se.outputPort).isAvailableFor w = true ∧
        (cfg.specCheckCred = true → (r.nextBuf se.outputPort).isFullFor env.now w = false)
  else cfg.specCheckCred = false

/-- The outputs a VC asks for. -/
inductive Asks (cfg : RouterConfig) (env : RouterEnv) (r : Router) (e : Entry) : ℤ → Prop
  | active (hstate : (r.vcAt e.input e.vc).state = .active)
      (hfull : (r.nextBuf (r.vcAt e.input e.vc).outPort).isFullFor env.now
        (r.vcAt e.input e.vc).outVC = false)
      (hroom : r.hasRoom cfg (r.vcAt e.input e.vc).outPort = true) :
      Asks cfg env r e (r.vcAt e.input e.vc).outPort
  | speculative {routeSet : OutputSet} {se : SetElement}
      (hstate : (r.vcAt e.input e.vc).state = .vc_alloc)
      (hroute : (r.vcAt e.input e.vc).routeSet = some routeSet) (hse : se ∈ routeSet.getSet)
      (hpass : Passes cfg env r e se) : Asks cfg env r e se.outputPort

/-- Nothing stands in the way of a VC: an active one has a slot, and one without an output VC
passes all checks. -/
def Unstalled (cfg : RouterConfig) (env : RouterEnv) (r : Router) (e : Entry) : Prop :=
  if (r.vcAt e.input e.vc).state = .active then
    (r.nextBuf (r.vcAt e.input e.vc).outPort).isFullFor env.now (r.vcAt e.input e.vc).outVC =
      false ∧ r.hasRoom cfg (r.vcAt e.input e.vc).outPort = true
  else ∃ routeSet, (r.vcAt e.input e.vc).routeSet = some routeSet ∧
    ∀ se ∈ routeSet.getSet, Passes cfg env r e se

/-- The switch is not held at either side. -/
def IsFree (r : Router) (x y : ℤ) : Prop := r.switchHoldIn x < 0 ∧ r.switchHoldOut y < 0

theorem fullStall_lt (o : ℤ) : r.fullStall o < -1 := by
  unfold fullStall
  split
  · decide
  · decide

theorem swAllocAddReq_eq_ok {t t' : SWRequests} {i v o : ℤ}
    (h : r.swAllocAddReq cfg t i v o = .ok t') :
    ¬ IsFree r (cfg.expandedInput i v) (cfg.expandedOutput o i) ∧ t' = t ∨
    IsFree r (cfg.expandedInput i v) (cfg.expandedOutput o i) ∧ ∃ pri offset,
      (t.table (r.bidsSpeculatively cfg i v)).addOrReplace (cfg.expandedInput i v)
        (cfg.expandedOutput o i) v pri offset cfg.vcs =
          .ok (t'.table (r.bidsSpeculatively cfg i v)) ∧
      t'.table (!r.bidsSpeculatively cfg i v) = t.table (!r.bidsSpeculatively cfg i v) := by
  unfold bidsSpeculatively
  rcases ite_ok.mp h with ⟨hfree, h⟩ | ⟨hheld, h⟩
  · refine .inr ⟨hfree, ?_⟩
    rcases ite_ok.mp h with ⟨hspec, h⟩ | ⟨hactive, h⟩
    · rw [hspec.1, decide_eq_true hspec.2]
      rcases ite_ok.mp h with ⟨hallocator, h⟩ | ⟨hallocator, h⟩
      · obtain ⟨spec, hadd, rfl⟩ := bind_return_ok.mp h
        rw [hallocator]
        exact ⟨_, _, hadd, rfl⟩
      · obtain ⟨pri, -, h⟩ := bind_ok.mp h
        obtain ⟨nonspec, hadd, rfl⟩ := bind_return_ok.mp h
        rw [eq_false_of_ne_true hallocator]
        exact ⟨_, _, hadd, rfl⟩
    · obtain ⟨nonspec, hadd, rfl⟩ := bind_return_ok.mp h
      have hnospec : (cfg.speculative && decide ((r.vcAt i v).state = .vc_alloc)) = false := by
        simpa using hactive
      rw [hnospec]
      exact ⟨_, _, hadd, rfl⟩
  · exact .inl ⟨hheld, (return_ok.mp h).symm⟩

theorem swAllocAddReq_only {P : Bool → ℤ → ℤ → ℤ → Prop} {t t' : SWRequests} {i v o : ℤ}
    (h : r.swAllocAddReq cfg t i v o = .ok t') (ht : t.Only P)
    (hP : IsFree r (cfg.expandedInput i v) (cfg.expandedOutput o i) →
      P (r.bidsSpeculatively cfg i v) (cfg.expandedInput i v) (cfg.expandedOutput o i) v) :
    t'.Only P := by
  rcases swAllocAddReq_eq_ok h with ⟨-, rfl⟩ | ⟨hfree, pri, offset, hadd, hsame⟩
  · exact ht
  · intro spec
    by_cases hspec : spec = r.bidsSpeculatively cfg i v
    · rw [hspec]
      exact Requests.only_addOrReplace hadd (ht _) (hP hfree)
    · rw [Bool.eq_not.mpr hspec, hsame]
      exact ht _

theorem swAllocSpeculate_eq_ok {acc acc' : SWRequests × ℤ} {se : SetElement}
    (h : r.swAllocSpeculate cfg env e acc se = .ok acc') :
    cfg.IsOutput se.outputPort ∧
      (Passes cfg env r e se ∧ r.swAllocAddReq cfg acc.1 e.input e.vc se.outputPort = .ok acc'.1 ∧
          acc'.2 = acc.2 ∨
        ¬ Passes cfg env r e se ∧ acc'.1 = acc.1 ∧ acc'.2 < -1) := by
  obtain ⟨hout, h⟩ := require_ok.mp h
  refine ⟨hout, ?_⟩
  obtain ⟨outVCs, hrange, h⟩ := bind_ok.mp h
  unfold Passes
  rcases ite_ok.mp h with ⟨hbusy, h⟩ | ⟨helig, h⟩
  · obtain rfl := return_ok.mp h
    simp only [Bool.and_eq_true, Bool.not_not, List.isEmpty_iff, filter_eq_nil_iff] at hbusy
    rw [if_pos hbusy.1] at hrange ⊢
    refine .inr ⟨?_, rfl, show STALL_BUFFER_BUSY < -1 by decide⟩
    rintro ⟨outVCs', hrange', hroom, w, hw, havailable, -⟩
    obtain rfl : outVCs = outVCs' := Except.ok.inj (hrange.symm.trans hrange')
    exact hbusy.2 w hw ⟨havailable, hroom⟩
  · rcases ite_ok.mp h with ⟨hfull, h⟩ | ⟨hcred, h⟩
    · obtain rfl := return_ok.mp h
      refine .inr ⟨?_, rfl, fullStall_lt _⟩
      simp only [Bool.and_eq_true, Bool.not_eq_true', any_eq_false, mem_filter] at hfull
      split_ifs with hcheck
      · grind
      · rw [hfull.1]
        exact Bool.noConfusion
    · obtain ⟨requests, hrequests, rfl⟩ := bind_return_ok.mp h
      refine .inl ⟨?_, hrequests, rfl⟩
      simp only [Bool.and_eq_true, Bool.not_not, not_and, Bool.not_eq_true', List.isEmpty_iff,
        any_eq_false, mem_filter] at helig hcred
      split_ifs with hcheck
      · rw [if_pos hcheck] at hrange
        cases hcheckCred : cfg.specCheckCred with
        | false =>
          obtain ⟨w, hw⟩ := exists_mem_of_ne_nil _ (helig hcheck)
          simp only [mem_filter, Bool.and_eq_true] at hw
          exact ⟨outVCs, hrange, hw.2.2, w, hw.1, hw.2.1, nofun⟩
        | true =>
          grind
      · grind

theorem speculate_eq_ok {setlist : List SetElement} {acc asked : SWRequests × ℤ}
    (h : setlist.foldlM (r.swAllocSpeculate cfg env e) acc = .ok asked) :
    (∀ se ∈ setlist, cfg.IsOutput se.outputPort) ∧
      ((∀ se ∈ setlist, Passes cfg env r e se) ∧ asked.2 = acc.2 ∨
        (∃ se ∈ setlist, ¬ Passes cfg env r e se) ∧ asked.2 < -1) := by
  induction setlist generalizing acc with
  | nil =>
    cases h
    exact ⟨by simp, .inl ⟨by simp, rfl⟩⟩
  | cons se setlist ih =>
    rw [foldlM_cons] at h
    obtain ⟨acc₁, hround, h⟩ := bind_ok.mp h
    obtain ⟨hout, hround⟩ := swAllocSpeculate_eq_ok hround
    obtain ⟨houts, hrest⟩ := ih h
    refine ⟨forall_mem_cons.mpr ⟨hout, houts⟩, ?_⟩
    rcases hrest with ⟨hpass, hsame⟩ | ⟨⟨se', hse', hfail⟩, hstall⟩
    · grind
    · exact .inr ⟨⟨se', mem_cons_of_mem _ hse', hfail⟩, hstall⟩

theorem setList_eq_ok {i v : ℤ} {setlist : List SetElement} (h : r.setList cfg i v = .ok setlist) :
    ∃ routeSet, (r.vcAt i v).routeSet = some routeSet ∧ setlist = routeSet.getSet := by
  unfold setList at h
  cases hroute : (r.vcAt i v).routeSet with
  | none =>
    rw [hroute] at h
    cases h
  | some routeSet =>
    rw [hroute] at h
    obtain ⟨-, h⟩ := require_ok.mp h
    exact ⟨routeSet, rfl, (return_ok.mp h).symm⟩

/-- What the first pass makes of an entry. -/
structure SWRequested (cfg : RouterConfig) (env : RouterEnv) (r : Router) (e : Entry)
    (requests requests' : SWRequests) (e' : Entry) : Prop where
  run : r.swAllocRequest cfg env requests e = .ok (requests', e')
  result : e.result = -1
  notHeld : r.switchHoldVC (cfg.expandedInput e.input e.vc) ≠ e.vc
  front : ∃ f rest, AtFront cfg r e.input e.vc f rest
  state : (r.vcAt e.input e.vc).state = .active ∨
    cfg.speculative = true ∧ (r.vcAt e.input e.vc).state = .vc_alloc
  outputs : ∀ o, Asks cfg env r e o → cfg.IsOutput o
  entry : e' = { e with result := e'.result }
  outcome : e'.result = -1 ∧ Unstalled cfg env r e ∨ e'.result < -1 ∧ ¬ Unstalled cfg env r e
  only : ∀ P, (∀ o, Asks cfg env r e o →
      IsFree r (cfg.expandedInput e.input e.vc) (cfg.expandedOutput o e.input) →
      P (r.bidsSpeculatively cfg e.input e.vc) (cfg.expandedInput e.input e.vc)
        (cfg.expandedOutput o e.input) e.vc) →
    requests.Only P → requests'.Only P

variable {requests : SWRequests} {grants specGrants : Matching} {vcGrants : Matching}

theorem swAllocRequest_eq_ok {t : SWRequests × Entry}
    (h : r.swAllocRequest cfg env requests e = .ok t) :
    SWRequested cfg env r e requests t.1 t.2 := by
  have hrun := h
  obtain ⟨hresult, h⟩ := require_ok.mp h
  obtain ⟨hheld, h⟩ := require_ok.mp h
  obtain ⟨f, hf, h⟩ := bind_ok.mp h
  obtain ⟨⟨rest, hfront⟩, hstate⟩ := frontForSwitch_eq_ok hf
  rcases ite_ok.mp h with ⟨hactive, h⟩ | ⟨hinactive, h⟩
  · obtain ⟨hout, h⟩ := require_ok.mp h
    obtain ⟨-, h⟩ := require_ok.mp h
    have houts : ∀ o, Asks cfg env r e o → cfg.IsOutput o := by
      intro o ho
      cases ho with
      | active => exact hout
      | speculative hspec => exact absurd (hactive.symm.trans hspec) (by decide)
    rcases ite_ok.mp h with ⟨hstall, h⟩ | ⟨hgo, h⟩
    · obtain rfl := return_ok.mp h
      refine ⟨hrun, hresult, hheld, ⟨f, rest, hfront⟩, hstate, houts, rfl,
        .inr ⟨fullStall_lt _, ?_⟩, fun P _ hreq => hreq⟩
      rw [Unstalled, if_pos hactive]
      rintro ⟨hfull, hroom⟩
      rw [hfull, hroom] at hstall
      exact absurd hstall (by decide)
    · obtain ⟨requests', hrequests', rfl⟩ := bind_return_ok.mp h
      rw [Bool.not_eq_true, Bool.or_eq_false_iff, Bool.not_eq_false'] at hgo
      have hasks : Asks cfg env r e (r.vcAt e.input e.vc).outPort := .active hactive hgo.1 hgo.2
      refine ⟨hrun, hresult, hheld, ⟨f, rest, hfront⟩, hstate, houts, rfl, .inl ⟨hresult, ?_⟩,
        fun P hP hreq => swAllocAddReq_only hrequests' hreq (hP _ hasks)⟩
      rwa [Unstalled, if_pos hactive]
  · have hspec : (r.vcAt e.input e.vc).state = .vc_alloc := (hstate.resolve_left hinactive).2
    obtain ⟨-, h⟩ := require_ok.mp h
    obtain ⟨setlist, hsetlist, h⟩ := bind_ok.mp h
    obtain ⟨routeSet, hroute, rfl⟩ := setList_eq_ok hsetlist
    obtain ⟨asked, hasked, rfl⟩ := bind_return_ok.mp h
    obtain ⟨houts, houtcome⟩ := speculate_eq_ok hasked
    refine ⟨hrun, hresult, hheld, ⟨f, rest, hfront⟩, hstate, fun o ho => ?_, rfl, ?_,
      fun P hP hreq => ?_⟩
    · cases ho with
      | active hactive => exact absurd hactive hinactive
      | speculative _ hroute' hse _ =>
        rw [hroute] at hroute'
        cases hroute'
        exact houts _ hse
    · rw [Unstalled, if_neg hinactive]
      rcases houtcome with ⟨hpass, hsame⟩ | ⟨⟨se, hse, hfail⟩, hstall⟩
      · exact .inl ⟨hsame.trans hresult, routeSet, hroute, hpass⟩
      · refine .inr ⟨hstall, ?_⟩
        rintro ⟨routeSet', hroute', hpass⟩
        rw [hroute] at hroute'
        cases hroute'
        exact hfail (hpass se hse)
    · refine inv_of_foldlM_eq_ok (I := fun acc : SWRequests × ℤ => acc.1.Only P) hasked
        (fun acc acc' se hse hround hacc => ?_) hreq
      rcases (swAllocSpeculate_eq_ok hround).2 with ⟨hpass, hadd, -⟩ | ⟨-, hsame, -⟩
      · exact swAllocAddReq_only hadd hacc (hP _ (.speculative hspec hroute hse hpass))
      · rwa [hsame]

/-! ## Grants -/

/-- A speculative grant of an output gives way to the non-speculative requests, or grants. -/
def specMasked (cfg : RouterConfig) (requests : SWRequests) (grants : Matching) (y : ℤ) : Bool :=
  if cfg.specMaskByReqs
  then requests.nonspec.outputHasRequests (cfg.inputs * cfg.inputSpeedup).toNat y
  else 0 ≤ grants.inputAssigned y

/-- What the second pass makes of an entry. -/
inductive SWGranted (cfg : RouterConfig) (env : RouterEnv) (requests : SWRequests)
    (grants specGrants : Matching) (e e' : Entry) : Prop
  | stalled (hstall : e.result < -1)
      (he' : e' = { e with time := env.now + cfg.swAllocDelay - 1 })
  | nonspec {y : ℤ} (hresult : e.result = -1) (hy : 0 ≤ y)
      (hgrant : grants.outputAssigned (cfg.expandedInput e.input e.vc) = y)
      (hread : requests.nonspec.read (cfg.expandedInput e.input e.vc) y = e.vc)
      (haligned : y % cfg.outputSpeedup = e.input % cfg.outputSpeedup)
      (he' : e' = { e with time := env.now + cfg.swAllocDelay - 1, result := y })
  | spec {y : ℤ} (hresult : e.result = -1) (hallocator : cfg.hasSpecSWAllocator = true) (hy : 0 ≤ y)
      (hno : grants.outputAssigned (cfg.expandedInput e.input e.vc) < 0)
      (hgrant : specGrants.outputAssigned (cfg.expandedInput e.input e.vc) = y)
      (hread : requests.spec.read (cfg.expandedInput e.input e.vc) y = e.vc)
      (hmask : specMasked cfg requests grants y = false)
      (haligned : y % cfg.outputSpeedup = e.input % cfg.outputSpeedup)
      (he' : e' = { e with time := env.now + cfg.swAllocDelay - 1, result := y })
  | conflict (hresult : e.result = -1)
      (hnonspec : ∀ y, 0 ≤ y → grants.outputAssigned (cfg.expandedInput e.input e.vc) = y →
        requests.nonspec.read (cfg.expandedInput e.input e.vc) y ≠ e.vc)
      (hspec : cfg.hasSpecSWAllocator = true →
        grants.outputAssigned (cfg.expandedInput e.input e.vc) < 0 →
        ∀ y, 0 ≤ y → specGrants.outputAssigned (cfg.expandedInput e.input e.vc) = y →
          requests.spec.read (cfg.expandedInput e.input e.vc) y = e.vc →
          specMasked cfg requests grants y = true)
      (he' : e' = { e with
        time := env.now + cfg.swAllocDelay - 1, result := STALL_CROSSBAR_CONFLICT })

theorem swAllocGrant_eq_ok {offset : ℤ → ℤ} {t : (ℤ → ℤ) × Entry}
    (h : r.swAllocGrant cfg env requests grants specGrants offset e = .ok t) :
    SWGranted cfg env requests grants specGrants e t.2 := by
  rcases ite_ok.mp h with ⟨hstall, h⟩ | ⟨-, h⟩
  · obtain rfl := return_ok.mp h
    exact .stalled hstall rfl
  obtain ⟨hresult, h⟩ := require_ok.mp h
  obtain ⟨f, -, h⟩ := bind_ok.mp h
  rcases ite_ok.mp h with ⟨hy, h⟩ | ⟨hno, h⟩
  · obtain ⟨haligned, h⟩ := require_ok.mp h
    rcases ite_ok.mp h with ⟨hread, h⟩ | ⟨hread, h⟩
    · obtain rfl := return_ok.mp h
      exact .nonspec hresult hy rfl hread haligned rfl
    · obtain rfl := return_ok.mp h
      refine .conflict hresult (fun y _ hgrant => ?_) (fun _ hno => ?_) rfl
      · rwa [← hgrant]
      · exact absurd hy (not_le.mpr hno)
  · have hnonspec : ∀ y, 0 ≤ y → grants.outputAssigned (cfg.expandedInput e.input e.vc) = y →
        requests.nonspec.read (cfg.expandedInput e.input e.vc) y ≠ e.vc :=
      fun y hy hgrant => absurd (hgrant ▸ hy) hno
    rcases ite_ok.mp h with ⟨⟨hallocator, hy⟩, h⟩ | ⟨hnone, h⟩
    · obtain ⟨haligned, h⟩ := require_ok.mp h
      rcases ite_ok.mp h with ⟨hgo, h⟩ | ⟨hmasked, h⟩
      · obtain rfl := return_ok.mp h
        rw [Bool.and_eq_true, Bool.not_eq_true', decide_eq_true_eq] at hgo
        exact .spec hresult hallocator hy (not_le.mp hno) rfl hgo.2 hgo.1 haligned rfl
      · obtain rfl := return_ok.mp h
        refine .conflict hresult hnonspec (fun _ _ y _ hgrant hread => ?_) rfl
        rw [Bool.and_eq_true, Bool.not_eq_true', decide_eq_true_eq, hgrant, not_and_or,
          Bool.not_eq_false] at hmasked
        exact hmasked.resolve_right (not_not_intro hread)
    · obtain rfl := return_ok.mp h
      refine .conflict hresult hnonspec (fun hallocator _ y hy hgrant _ => ?_) rfl
      exact absurd ⟨hallocator, hgrant ▸ hy⟩ hnone

theorem SWGranted.entry_eq (h : SWGranted cfg env requests grants specGrants e e') :
    e'.place = e.place ∧ e'.time = env.now + cfg.swAllocDelay - 1 := by
  cases h with
  | stalled _ he' | nonspec _ _ _ _ _ he' | spec _ _ _ _ _ _ _ _ he' | conflict _ _ _ he' =>
    rw [he']
    exact ⟨rfl, rfl⟩

/-! ## The second look -/

/-- A grant of the output `o` can be used: the VC has or gets an output VC there, and a slot. -/
inductive Usable (cfg : RouterConfig) (env : RouterEnv) (r : Router) (vcGrants : Matching)
    (e : Entry) (o : ℤ) : Prop
  | assigned (hspec : cfg.speculative = true)
      (hstate : (r.vcAt e.input e.vc).state = .vc_alloc) (hallocator : cfg.hasVCAllocator = true)
      (hz : 0 ≤ vcGrants.outputAssigned (cfg.inputAndVC e.input e.vc))
      (hport : (vcGrants.outputAssigned (cfg.inputAndVC e.input e.vc)).tdiv cfg.vcs = o)
      (hslot : (r.nextBuf o).isFullFor env.now
        ((vcGrants.outputAssigned (cfg.inputAndVC e.input e.vc)).tmod cfg.vcs) = false)
  | piggyback (hspec : cfg.speculative = true)
      (hstate : (r.vcAt e.input e.vc).state = .vc_alloc) (hallocator : cfg.hasVCAllocator = false)
      (hstall : r.piggybackStall cfg env e o = .ok e.result)
  | active (hstate : (r.vcAt e.input e.vc).state = .active)
      (hport : (r.vcAt e.input e.vc).outPort = o) (hvc : cfg.IsVC (r.vcAt e.input e.vc).outVC)
      (hslot : (r.nextBuf o).isFullFor env.now (r.vcAt e.input e.vc).outVC = false)

/-- What the third pass makes of an entry. -/
inductive SWRechecked (cfg : RouterConfig) (env : RouterEnv) (r : Router) (vcGrants : Matching)
    (e e' : Entry) : Prop
  | stalled (hresult : e.result < 0) (he' : e' = e)
  | dropped {result : ℤ} (hresult : 0 ≤ e.result) (hstall : result < 0)
      (he' : e' = { e with result := result })
  | kept (hresult : 0 ≤ e.result) (hout : cfg.IsOutput (e.result / cfg.outputSpeedup))
      (haligned : e.input % cfg.outputSpeedup = e.result % cfg.outputSpeedup)
      (hfree : IsFree r (cfg.expandedInput e.input e.vc) e.result)
      (husable : Usable cfg env r vcGrants e (e.result / cfg.outputSpeedup)) (he' : e' = e)

theorem SWRechecked.lookedAt (h : SWRechecked cfg env r vcGrants e e')
    (htime : 0 ≤ toInt e.time) : e.LookedAt e' := by
  have hstarted : ¬ e.IsFresh := fun hfresh => by
    rw [hfresh.1] at htime
    exact absurd htime (by decide)
  cases h with
  | stalled _ he' =>
    rw [he']
    exact .refl e
  | dropped _ hstall he' =>
    rw [he']
    exact ⟨rfl, rfl, .inr hstall, fun hfresh => absurd hfresh hstarted⟩
  | kept _ _ _ _ _ he' =>
    rw [he']
    exact .refl e

theorem piggybackStall_eq_ok {o result : ℤ} (h : r.piggybackStall cfg env e o = .ok result) :
    result < 0 ∨ result = e.result := by
  obtain ⟨setlist, -, h⟩ := bind_ok.mp h
  obtain ⟨found, -, rfl⟩ := bind_return_ok.mp h
  split_ifs
  · exact .inl (by decide)
  · exact .inl (by decide)
  · exact .inl (by decide)
  · exact .inr rfl

theorem swAllocRecheck_eq_ok {t : Unit × Entry}
    (h : r.swAllocRecheck cfg env vcGrants () e = .ok t) :
    0 ≤ toInt e.time ∧ e.result ≠ -1 ∧ SWRechecked cfg env r vcGrants e t.2 := by
  obtain ⟨htime, h⟩ := require_ok.mp h
  obtain ⟨hresult, h⟩ := require_ok.mp h
  refine ⟨htime, hresult, ?_⟩
  rcases ite_ok.mp h with ⟨hgrant, h⟩ | ⟨hstall, h⟩
  · obtain ⟨hout, h⟩ := require_ok.mp h
    obtain ⟨haligned, h⟩ := require_ok.mp h
    obtain ⟨-, h⟩ := require_ok.mp h
    obtain ⟨f, hf, h⟩ := bind_ok.mp h
    obtain ⟨-, hstate⟩ := frontForSwitch_eq_ok hf
    rcases ite_ok.mp h with ⟨-, h⟩ | ⟨hheld, h⟩
    · obtain rfl := return_ok.mp h
      exact .dropped hgrant (show STALL_CROSSBAR_CONFLICT < 0 by decide) rfl
    rw [not_or, not_le, not_le] at hheld
    rcases ite_ok.mp h with ⟨hspec, h⟩ | ⟨hnospec, h⟩
    · obtain ⟨-, h⟩ := require_ok.mp h
      rcases ite_ok.mp h with ⟨hallocator, h⟩ | ⟨hallocator, h⟩
      · obtain rfl := return_ok.mp h
        split_ifs with hz hport hslot
        · exact .dropped hgrant (by decide) rfl
        · exact .dropped hgrant (show STALL_BUFFER_CONFLICT < 0 by decide) rfl
        · exact .dropped hgrant (lt_trans (fullStall_lt _) (by decide)) rfl
        · exact .kept hgrant hout haligned hheld (.assigned hspec.1 hspec.2 hallocator
            (not_lt.mp hz) (not_not.mp hport) (Bool.not_eq_true _ ▸ hslot)) rfl
      · obtain ⟨result, hpiggyback, rfl⟩ := bind_return_ok.mp h
        rcases piggybackStall_eq_ok hpiggyback with hstall | rfl
        · exact .dropped hgrant hstall rfl
        · exact .kept hgrant hout haligned hheld
            (.piggyback hspec.1 hspec.2 (Bool.not_eq_true _ ▸ hallocator) hpiggyback) rfl
    · obtain ⟨hport, h⟩ := require_ok.mp h
      obtain ⟨hvc, h⟩ := require_ok.mp h
      rcases ite_ok.mp h with ⟨-, h⟩ | ⟨hslot, h⟩
      · obtain rfl := return_ok.mp h
        exact .dropped hgrant (lt_trans (fullStall_lt _) (by decide)) rfl
      · obtain rfl := return_ok.mp h
        exact .kept hgrant hout haligned hheld (.active (hstate.resolve_right hnospec) hport hvc
          (Bool.not_eq_true _ ▸ hslot)) rfl
  · obtain rfl := return_ok.mp h
    exact .stalled (not_le.mp hstall) rfl

/-! ## The whole call -/

/-- The requests of the VCs of `p`, by allocator, input and output of the switch, and label. -/
def Asked (cfg : RouterConfig) (env : RouterEnv) (r : Router) (p : List Entry) (spec : Bool)
    (a b label : ℤ) : Prop :=
  ∃ e ∈ p, ∃ o, Asks cfg env r e o ∧ spec = r.bidsSpeculatively cfg e.input e.vc ∧
    a = cfg.expandedInput e.input e.vc ∧ b = cfg.expandedOutput o e.input ∧ label = e.vc ∧
    IsFree r a b

/-- The first two passes of `_SWAllocEvaluate` over the entries `p` it starts. -/
structure SWPassed (cfg : RouterConfig) (env : RouterEnv) (r : Router) (requests : SWRequests)
    (grants specGrants : Matching) (p p₁ p₂ : List Entry) : Prop where
  only : requests.Only (Asked cfg env r p)
  requested : List.Forall₂ (fun e e₁ => ∃ t t', SWRequested cfg env r e t t' e₁) p p₁
  granted : List.Forall₂ (SWGranted cfg env requests grants specGrants) p₁ p₂

theorem swAllocPasses_eq_ok {q : List Entry} {asked : SWRequests × List Entry}
    {offset : ℤ → ℤ} {granted : (ℤ → ℤ) × List Entry}
    (hasked : walk Entry.isStarted (r.swAllocRequest cfg env) {} q = .ok asked)
    (hgranted : walk Entry.isStarted (r.swAllocGrant cfg env asked.1 grants specGrants) offset
      asked.2 = .ok granted) : ∃ p₁ p₂, granted.2 = p₂ ++ q.dropWhile (!Entry.isStarted ·) ∧
      SWPassed cfg env r asked.1 grants specGrants (q.takeWhile (!Entry.isStarted ·)) p₁ p₂ := by
  obtain ⟨p₁, p₂, hq₂, honly, hrequested, hgrants⟩ := walk_twice_eq_ok hasked hgranted
    (I := fun t => t.Only (Asked cfg env r (q.takeWhile (!Entry.isStarted ·))))
    (R := fun e e₁ => ∃ t t', SWRequested cfg env r e t t' e₁)
    (S := SWGranted cfg env asked.1 grants specGrants)
    (fun he ht hround => by
      have hreq := swAllocRequest_eq_ok hround
      exact ⟨hreq.only _ (fun o ho hfree => ⟨_, he, o, ho, rfl, rfl, rfl, rfl, hfree⟩) ht,
        _, _, hreq⟩)
    (fun hround => swAllocGrant_eq_ok hround)
    (fun ⟨t, t', hreq⟩ => Entry.isStarted_congr (by rw [hreq.entry]))
    (fun spec => by cases spec <;> exact Requests.only_clear)
  exact ⟨p₁, p₂, hq₂, honly, hrequested, hgrants⟩

/-- The passes of `_SWAllocEvaluate` over the entries `p` it starts; `rest` are those behind. -/
structure SWEvaluated (cfg : RouterConfig) (env : RouterEnv) (r : Router) (vcGrants : Matching)
    (requests : SWRequests) (p p₁ p₂ rest : List Entry) (r' : Router) : Prop
    extends SWPassed cfg env r requests (env.swAllocate requests.nonspec)
      (env.specSWAllocate requests.spec) p p₁ p₂ where
  started : p = r.swAllocVCs.takeWhile (!Entry.isStarted ·)
  queue : r.swAllocVCs = p ++ rest
  rechecked : if cfg.speculative = false ∧ cfg.swAllocDelay ≤ 1 then r'.swAllocVCs = p₂ ++ rest
    else ∃ c, r'.swAllocVCs = c ++ (p₂ ++ rest).dropWhile (!Entry.isLater env.now ·) ∧
      List.Forall₂ (fun e e' => 0 ≤ toInt e.time ∧ e.result ≠ -1 ∧
        SWRechecked cfg env r vcGrants e e')
        ((p₂ ++ rest).takeWhile (!Entry.isLater env.now ·)) c

theorem swAllocEvaluate_eq_ok (h : r.swAllocEvaluate cfg env vcGrants = .ok r') :
    ∃ requests p p₁ p₂ rest, SWEvaluated cfg env r vcGrants requests p p₁ p₂ rest r' := by
  obtain ⟨asked, hasked, h⟩ := bind_ok.mp h
  obtain ⟨granted, hgranted, h⟩ := bind_ok.mp h
  obtain ⟨p₁, p₂, hq₂, hpassed⟩ := swAllocPasses_eq_ok hasked hgranted
  dsimp only at h
  refine ⟨asked.1, _, p₁, p₂, r.swAllocVCs.dropWhile (!Entry.isStarted ·), hpassed, rfl,
    takeWhile_append_dropWhile.symm, ?_⟩
  rcases ite_ok.mp h with ⟨hno, h⟩ | ⟨hyes, h⟩
  · obtain rfl := return_ok.mp h
    rwa [if_pos (by simpa using hno)]
  · obtain ⟨checked, hchecked, rfl⟩ := bind_return_ok.mp h
    rw [if_neg (by simpa using hyes)]
    obtain ⟨c, hc, hq₃⟩ := walk_eq_ok hchecked
    rw [hq₂] at hc hq₃
    exact ⟨c, hq₃, (hc.rel (I := fun _ => True) (R := fun e e' => 0 ≤ toInt e.time ∧
      e.result ≠ -1 ∧ SWRechecked cfg env r vcGrants e e')
      (fun _ _ hround => ⟨trivial, @swAllocRecheck_eq_ok cfg env r _ vcGrants _ hround⟩)
      trivial).2⟩

theorem SWEvaluated.lookedAt
    {p p₁ p₂ rest : List Entry} (h : SWEvaluated cfg env r vcGrants requests p p₁ p₂ rest r') :
    List.Forall₂ Entry.LookedAt (p₂ ++ rest) r'.swAllocVCs := by
  have hrefl : ∀ q : List Entry, List.Forall₂ Entry.LookedAt q q := fun q =>
    forall₂_same.mpr fun e _ => .refl e
  have hrechecked := h.rechecked
  split_ifs at hrechecked with hno
  · rw [hrechecked]
    exact hrefl _
  · obtain ⟨c, hqueue, hc⟩ := hrechecked
    rw [hqueue]
    have hall := rel_append (hc.imp fun e e' he => he.2.2.lookedAt he.1)
      (hrefl ((p₂ ++ rest).dropWhile (!Entry.isLater env.now ·)))
    beta_reduce at hall
    rwa [takeWhile_append_dropWhile] at hall

theorem SWEvaluated.passed
    {p p₁ p₂ rest : List Entry} (h : SWEvaluated cfg env r vcGrants requests p p₁ p₂ rest r') :
    List.Forall₂ (fun e e₂ => ∃ e₁, (∃ t t', SWRequested cfg env r e t t' e₁) ∧
      SWGranted cfg env requests (env.swAllocate requests.nonspec)
        (env.specSWAllocate requests.spec) e₁ e₂) p p₂ :=
  related_trans h.requested h.granted

end Router

end BookSim
