/-
# SwitchOutcomes — what becomes of a grant of the switch

A VC that has no output VC yet asks for every output in its route set that passes the checks; an
element that does not pass writes its stall into the outcome of the VC.  The second pass of
`_SWAllocEvaluate` looks for a grant only where the outcome is still open:

    all elements pass         the grant goes into the outcome
    no element passes         nothing has been asked for
    some pass, some do not    the request is made, and its grant is not looked at
-/
import BookSim.Routers.SwitchHold

namespace BookSim

namespace Router

variable {cfg : RouterConfig} {env : RouterEnv} {r r' : Router} {e e' : Entry}
  {Answer : Requests → Matching → Prop}

/-! ## Grants and outcomes -/

/-- The allocator that got the requests `t` has granted the switch to a request of this VC. -/
structure GrantedTo (cfg : RouterConfig) (t : Requests) (m : Matching) (e : Entry) (y : ℤ) :
    Prop where
  nonneg : 0 ≤ y
  assigned : m.outputAssigned (cfg.expandedInput e.input e.vc) = y
  request : t.read (cfg.expandedInput e.input e.vc) y = e.vc

/-- The outcome `e'` of an entry is its grant; a speculative one gives way to a non-speculative
grant of the same input, and to the requests or grants for the same output. -/
structure Recorded (cfg : RouterConfig) (requests : SWRequests) (grants specGrants : Matching)
    (e e' : Entry) : Prop where
  nonspec : ∀ y, GrantedTo cfg requests.nonspec grants e y → e'.result = y
  spec : cfg.hasSpecSWAllocator = true → ∀ y, GrantedTo cfg requests.spec specGrants e y →
    e'.result = y ∨ e'.result = STALL_CROSSBAR_CONFLICT ∧
      (0 ≤ grants.outputAssigned (cfg.expandedInput e.input e.vc) ∨
        specMasked cfg requests grants y = true)

/-- Whatever else is in the queue and whatever the allocators answer, as far as it is an `Answer`,
the first two passes of `_SWAllocEvaluate` record a grant to the VC of the entry `e`. -/
def RecordsGrants (cfg : RouterConfig) (env : RouterEnv) (Answer : Requests → Matching → Prop)
    (r : Router) (e : Entry) : Prop :=
  ∀ (front back front' back' : List Entry) (e' : Entry)
    (swAllocate specSWAllocate : Requests → Matching) (asked : SWRequests × List Entry)
    (granted : (ℤ → ℤ) × List Entry),
    (∀ t, Answer t (swAllocate t)) → (∀ t, Answer t (specSWAllocate t)) →
    (∀ f ∈ front, f.isStarted = false) → e.isStarted = false →
    walk Entry.isStarted (r.swAllocRequest cfg env) {} (front ++ e :: back) = .ok asked →
    walk Entry.isStarted (r.swAllocGrant cfg env asked.1 (swAllocate asked.1.nonspec)
      (specSWAllocate asked.1.spec)) r.swRROffset asked.2 = .ok granted →
    granted.2 = front' ++ e' :: back' → front'.length = front.length →
    Recorded cfg asked.1 (swAllocate asked.1.nonspec) (specSWAllocate asked.1.spec) e e'

/-- The first pass can ask for the outputs of a VC that has no output VC yet. -/
structure Speculates (cfg : RouterConfig) (r : Router) (e : Entry) (routeSet : OutputSet) :
    Prop where
  speculative : cfg.speculative = true
  result : e.result = -1
  notHeld : r.switchHoldVC (cfg.expandedInput e.input e.vc) ≠ e.vc
  front : ∃ f rest, AtFront cfg r e.input e.vc f rest ∧ f.head = true
  state : (r.vcAt e.input e.vc).state = .vc_alloc
  route : (r.vcAt e.input e.vc).routeSet = some routeSet
  noq : cfg.noq = true → routeSet.getSet.length = 1
  outputs : ∀ se ∈ routeSet.getSet, cfg.IsOutput se.outputPort
  ranges : cfg.specCheckElig = true →
    ∀ se ∈ routeSet.getSet, ∃ outVCs, r.vcRange cfg e.input e.vc se = .ok outVCs

/-- The VC asks for an output at which an element of its route set passes, while another element
does not pass. -/
structure Overwrites (cfg : RouterConfig) (env : RouterEnv) (r : Router) (e : Entry)
    (routeSet : OutputSet) : Prop extends Speculates cfg r e routeSet where
  new : e.isStarted = false
  pri : cfg.hasSpecSWAllocator = false → 0 ≤ (r.vcAt e.input e.vc).pri
  passes : ∃ se ∈ routeSet.getSet, Passes cfg env r e se ∧
    IsFree r (cfg.expandedInput e.input e.vc) (cfg.expandedOutput se.outputPort e.input)
  stalls : ∃ se ∈ routeSet.getSet, ¬ Passes cfg env r e se

/-! ## The first pass -/

theorem swAllocRequest_speculates {t : SWRequests} {u : SWRequests × Entry}
    (h : r.swAllocRequest cfg env t e = .ok u) (hstate : (r.vcAt e.input e.vc).state = .vc_alloc) :
    ∃ routeSet, Speculates cfg r e routeSet ∧ ∀ se ∈ routeSet.getSet, Passes cfg env r e se →
        IsFree r (cfg.expandedInput e.input e.vc) (cfg.expandedOutput se.outputPort e.input) →
        cfg.hasSpecSWAllocator = false → 0 ≤ (r.vcAt e.input e.vc).pri := by
  obtain ⟨hresult, h⟩ := require_ok.mp h
  obtain ⟨hheld, h⟩ := require_ok.mp h
  obtain ⟨f, hf, h⟩ := bind_ok.mp h
  obtain ⟨⟨rest, hfront⟩, hready⟩ := frontForSwitch_eq_ok hf
  have hinactive : (r.vcAt e.input e.vc).state ≠ .active := by
    rw [hstate]
    decide
  rcases ite_ok.mp h with ⟨hactive, -⟩ | ⟨-, h⟩
  · exact absurd hactive hinactive
  obtain ⟨hhead, h⟩ := require_ok.mp h
  obtain ⟨setlist, hsetlist, h⟩ := bind_ok.mp h
  obtain ⟨routeSet, hroute, rfl⟩ := setList_eq_ok hsetlist
  obtain ⟨asked, hasked, -⟩ := bind_ok.mp h
  have hspec := (hready.resolve_left hinactive).1
  refine ⟨routeSet, ⟨hspec, hresult, hheld, ⟨f, rest, hfront, hhead⟩, hstate, hroute,
    fun hnoq => ?_, (speculate_eq_ok hasked).1, fun helig se hse => ?_⟩,
    fun se hse hpass hfree hallocator => ?_⟩
  · unfold setList at hsetlist
    rw [hroute] at hsetlist
    exact (require_ok.mp hsetlist).1 hnoq
  · obtain ⟨acc, acc', hround⟩ := exists_round_of_foldlM_eq_ok hasked hse
    obtain ⟨-, hround⟩ := require_ok.mp hround
    obtain ⟨outVCs, hrange, -⟩ := bind_ok.mp hround
    rw [if_pos helig] at hrange
    exact ⟨outVCs, hrange⟩
  · obtain ⟨acc, acc', hround⟩ := exists_round_of_foldlM_eq_ok hasked hse
    rcases (swAllocSpeculate_eq_ok hround).2 with ⟨-, hadd, -⟩ | ⟨hfail, -⟩
    · rcases ite_ok.mp hadd with ⟨-, hadd⟩ | ⟨hheld, -⟩
      · rcases ite_ok.mp hadd with ⟨-, hadd⟩ | ⟨hno, -⟩
        · rcases ite_ok.mp hadd with ⟨hyes, -⟩ | ⟨-, hadd⟩
          · exact absurd hyes (by rw [hallocator]; decide)
          · obtain ⟨pri, hpri, -⟩ := bind_ok.mp hadd
            exact (require_ok.mp hpri).1
        · exact absurd ⟨hspec, hstate⟩ hno
      · exact absurd hfree hheld
    · exact absurd hpass hfail

theorem addOrReplace_returns (t : Requests) (a b vc pri offset vcs : ℤ) :
    Returns (t.addOrReplace a b vc pri offset vcs) := by
  unfold Requests.addOrReplace
  cases hab : t a b with
  | none => exact .require (fun _ => .returns _) fun h => h (by rw [hab]; rfl)
  | some q =>
    refine .ite (fun _ => .require (fun _ => .returns _) fun h => h ?_) fun _ => .returns _
    rw [Requests.remove, update₂_apply, if_pos ⟨rfl, rfl⟩]
    rfl

theorem addReq_returns (hpri : cfg.hasSpecSWAllocator = false → 0 ≤ (r.vcAt e.input e.vc).pri)
    (t : SWRequests) (o : ℤ) : Returns (r.swAllocAddReq cfg t e.input e.vc o) := by
  refine .ite (fun _ => .ite (fun _ => .ite (fun _ => ?_) fun hno => ?_) fun _ => ?_)
    fun _ => .returns _
  · exact (addOrReplace_returns ..).map _
  · refine Ends.bind (P := fun _ => True) (.require (fun _ => .returns _) fun hneg => ?_)
      fun _ _ => (addOrReplace_returns ..).map _
    exact hneg (hpri (Bool.not_eq_true _ ▸ hno))
  · exact (addOrReplace_returns ..).map _

variable {routeSet : OutputSet}

theorem Speculates.speculate_returns (h : Speculates cfg r e routeSet)
    (hpri : cfg.hasSpecSWAllocator = false → 0 ≤ (r.vcAt e.input e.vc).pri)
    {se : SetElement} (hse : se ∈ routeSet.getSet) (acc : SWRequests × ℤ) :
    Returns (r.swAllocSpeculate cfg env e acc se) := by
  refine .require (fun _ => ?_) fun hno => hno (h.outputs se hse)
  refine Ends.bind (P := fun _ => True) (.ite (fun helig => ?_) fun _ => .returns _) fun _ _ =>
    .ite (fun _ => .returns _) fun _ => .ite (fun _ => .returns _) fun _ => ?_
  · obtain ⟨outVCs, hrange⟩ := h.ranges helig se hse
    rw [hrange]
    exact .returns _
  · exact (addReq_returns hpri _ _).map _

theorem Speculates.request_returns (h : Speculates cfg r e routeSet)
    (hpri : cfg.hasSpecSWAllocator = false → 0 ≤ (r.vcAt e.input e.vc).pri) (t : SWRequests) :
    Returns (r.swAllocRequest cfg env t e) := by
  obtain ⟨f, rest, hfront, hhead⟩ := h.front
  have hinactive : (r.vcAt e.input e.vc).state ≠ .active := by
    rw [h.state]
    decide
  have hready : r.frontForSwitch cfg e = .ok f := by
    unfold frontForSwitch Router.front
    rw [require_bind hfront.input, require_bind hfront.vc, hfront.buffer]
    dsimp only
    rw [require_bind hfront.own]
    exact require_bind (.inr ⟨h.speculative, h.state⟩) _
  have hsetlist : r.setList cfg e.input e.vc = .ok routeSet.getSet := by
    unfold setList
    rw [h.route]
    exact require_bind h.noq _
  unfold swAllocRequest
  rw [require_bind h.result, require_bind h.notHeld, hready]
  refine .ite (fun hactive => absurd hactive hinactive) fun _ => ?_
  refine .require (fun _ => ?_) fun hno => hno hhead
  rw [hsetlist]
  exact Ends.map (.foldlM (fun acc se hse _ => h.speculate_returns hpri hse acc) trivial) _

/-! ## The table of requests -/

theorem addOrReplace_isSome {t t' : Requests} {a b a' b' vc pri offset vcs : ℤ}
    (h : t.addOrReplace a b vc pri offset vcs = .ok t')
    (hsome : (t a' b').isSome = true ∨ a' = a ∧ b' = b) : (t' a' b').isSome = true := by
  rcases Requests.addOrReplace_eq_ok h with rfl | ⟨hab, rfl⟩
  · rw [update₂_apply]
    split_ifs with hplace
    · rfl
    · exact hsome.resolve_right hplace
  · rcases hsome with hsome | ⟨rfl, rfl⟩
    · exact hsome
    · exact hab

theorem swAllocAddReq_isSome {t t' : SWRequests} {i v o a b : ℤ} {spec : Bool}
    (h : r.swAllocAddReq cfg t i v o = .ok t') (hsome : (t.table spec a b).isSome = true) :
    (t'.table spec a b).isSome = true := by
  rcases swAllocAddReq_eq_ok h with ⟨-, rfl⟩ | ⟨-, pri, offset, hadd, hsame⟩
  · exact hsome
  · by_cases hspec : spec = r.bidsSpeculatively cfg i v
    · rw [hspec] at hsome ⊢
      exact addOrReplace_isSome hadd (.inl hsome)
    · rw [Bool.eq_not.mpr hspec] at hsome ⊢
      rwa [hsame]

theorem speculate_isSome {se : SetElement} {setlist : List SetElement} {acc asked : SWRequests × ℤ}
    (h : setlist.foldlM (r.swAllocSpeculate cfg env e) acc = .ok asked) (hse : se ∈ setlist)
    (hpass : Passes cfg env r e se) (hfree : IsFree r (cfg.expandedInput e.input e.vc)
      (cfg.expandedOutput se.outputPort e.input)) :
    (asked.1.table (r.bidsSpeculatively cfg e.input e.vc) (cfg.expandedInput e.input e.vc)
      (cfg.expandedOutput se.outputPort e.input)).isSome = true := by
  obtain ⟨front, back, rfl⟩ := List.append_of_mem hse
  rw [List.foldlM_append] at h
  obtain ⟨acc₁, -, h⟩ := bind_ok.mp h
  rw [List.foldlM_cons] at h
  obtain ⟨acc₂, hround, h⟩ := bind_ok.mp h
  refine inv_of_foldlM_eq_ok (I := fun acc : SWRequests × ℤ => (acc.1.table
    (r.bidsSpeculatively cfg e.input e.vc) (cfg.expandedInput e.input e.vc)
      (cfg.expandedOutput se.outputPort e.input)).isSome = true) h
    (fun acc acc' se' _ hround hsome => ?_) ?_
  · rcases (swAllocSpeculate_eq_ok hround).2 with ⟨-, hadd, -⟩ | ⟨-, hsame, -⟩
    · exact swAllocAddReq_isSome hadd hsome
    · rwa [hsame]
  · rcases (swAllocSpeculate_eq_ok hround).2 with ⟨-, hadd, -⟩ | ⟨hfail, -⟩
    · rcases swAllocAddReq_eq_ok hadd with ⟨hheld, -⟩ | ⟨-, pri, offset, hadd, -⟩
      · exact absurd hfree hheld
      · exact addOrReplace_isSome hadd (.inr ⟨rfl, rfl⟩)
    · exact absurd hpass hfail

theorem Overwrites.request (hcfg : cfg.Accepted) (h : Overwrites cfg env r e routeSet) :
    ∃ (u : SWRequests × Entry) (y : ℤ), r.swAllocRequest cfg env {} e = .ok u ∧
      u.2 = { e with result := u.2.result } ∧ u.2.result < -1 ∧ 0 ≤ y ∧
      (u.1.table (r.bidsSpeculatively cfg e.input e.vc) (cfg.expandedInput e.input e.vc) y).isSome ∧
      u.1.Only fun spec _ _ label => spec = r.bidsSpeculatively cfg e.input e.vc ∧
        label = e.vc := by
  have hreturns : Returns (r.swAllocRequest cfg env {} e) := h.request_returns h.pri {}
  obtain ⟨u, hu, -⟩ := hreturns.exists_ok
  have hreq := swAllocRequest_eq_ok hu
  have hinactive : (r.vcAt e.input e.vc).state ≠ .active := by
    rw [h.state]
    decide
  obtain ⟨se, hse, hpass, hfree⟩ := h.passes
  refine ⟨u, cfg.expandedOutput se.outputPort e.input, hu, hreq.entry, ?_, ?_, ?_, ?_⟩
  · refine (hreq.outcome.resolve_left fun hopen => ?_).1
    obtain ⟨se', hse', hfail⟩ := h.stalls
    have hall := hopen.2
    rw [Unstalled, if_neg hinactive] at hall
    obtain ⟨routeSet', hroute, hall⟩ := hall
    cases h.route.symm.trans hroute
    exact hfail (hall se' hse')
  · exact expandedOutput_nonneg hcfg (h.outputs se hse) _
  · obtain ⟨-, hu⟩ := require_ok.mp hu
    obtain ⟨-, hu⟩ := require_ok.mp hu
    obtain ⟨f, -, hu⟩ := bind_ok.mp hu
    rcases ite_ok.mp hu with ⟨hactive, -⟩ | ⟨-, hu⟩
    · exact absurd hactive hinactive
    · obtain ⟨-, hu⟩ := require_ok.mp hu
      obtain ⟨setlist, hsetlist, hu⟩ := bind_ok.mp hu
      obtain ⟨routeSet', hroute, rfl⟩ := setList_eq_ok hsetlist
      cases h.route.symm.trans hroute
      obtain ⟨asked, hasked, rfl⟩ := bind_return_ok.mp hu
      exact speculate_isSome hasked hse hpass hfree
  · exact hreq.only _ (fun o _ _ => ⟨rfl, rfl⟩) fun spec =>
      by cases spec <;> exact Requests.only_clear

/-! ## When a grant is recorded -/

/-- An allocator that answers one request. -/
def answerTo (x y : ℤ) (t : Requests) : Matching := Matching.grant t {} x y

theorem isMatching_answerTo (x y : ℤ) (t : Requests) : IsMatching t (answerTo x y t) :=
  Matching.isMatching_grant x y (Matching.isMatching_empty t)

theorem answerTo_assigned {x y : ℤ} {t : Requests} (h : (t x y).isSome = true) :
    (answerTo x y t).outputAssigned x = y := by
  unfold answerTo Matching.grant
  rw [if_pos ⟨h, show (-1 : ℤ) < 0 by decide, show (-1 : ℤ) < 0 by decide⟩]
  exact Function.update_self ..

theorem answerTo_of_none {x y : ℤ} {t : Requests} (h : t x y = none) : answerTo x y t = {} := by
  unfold answerTo Matching.grant
  rw [if_neg fun hsome => ?_]
  rw [h] at hsome
  exact absurd hsome.1 (by decide)

theorem walk_singleton {σ β : Type} {stop : β → Bool} {f : σ → β → Except Fault (σ × β)} {s s' : σ}
    {a a' : β} (hstop : stop a = false) (h : f s a = .ok (s', a')) :
    walk stop f s [a] = .ok (s', [a']) := by
  unfold walk
  rw [hstop, h]
  rfl

theorem Overwrites.not_recordsGrants (hcfg : cfg.Accepted)
    (hanswer : ∀ t m, IsMatching t m → Answer t m) (h : Overwrites cfg env r e routeSet) :
    ¬ RecordsGrants cfg env Answer r e := by
  intro hrecords
  obtain ⟨⟨t, e₁⟩, y, hrequest, hentry, hstall, hy, hsome, honly⟩ := h.request hcfg
  dsimp only at hentry hstall hsome honly
  set x := cfg.expandedInput e.input e.vc with hx
  have hread : ∀ spec, (t.table spec x y).isSome = true → (t.table spec).read x y = e.vc := by
    intro spec hsome
    obtain ⟨q, hq⟩ := Option.isSome_iff_exists.mp hsome
    rw [Requests.read, hq]
    exact (honly spec x y q hq).2
  have hnew : e₁.isStarted = false := by
    rw [hentry]
    exact h.new
  have hgrant : r.swAllocGrant cfg env t (answerTo x y t.nonspec)
      (answerTo x y t.spec) r.swRROffset e₁ =
      .ok (r.swRROffset, { e₁ with time := env.now + cfg.swAllocDelay - 1 }) :=
    ite_ok.mpr (.inl ⟨hstall, rfl⟩)
  have hrecorded := hrecords [] [] [] [] _ (answerTo x y) (answerTo x y) _ _
    (fun t => hanswer _ _ (isMatching_answerTo x y t))
    (fun t => hanswer _ _ (isMatching_answerTo x y t)) (by simp) h.new
    (walk_singleton h.new hrequest) (walk_singleton hnew hgrant) rfl rfl
  cases hspec : r.bidsSpeculatively cfg e.input e.vc with
  | false =>
    rw [hspec] at hsome
    have hresult := hrecorded.nonspec y ⟨hy, answerTo_assigned hsome, hread false hsome⟩
    change e₁.result = y at hresult
    omega
  | true =>
    rw [hspec] at hsome honly
    have hallocator : cfg.hasSpecSWAllocator = true := by
      unfold bidsSpeculatively at hspec
      exact (Bool.and_eq_true _ _ ▸ hspec).2
    -- there are no non-speculative requests that could mask the grant
    have hnone : ∀ a b, t.nonspec a b = none := by
      intro a b
      cases hab : t.nonspec a b with
      | none => rfl
      | some q => exact absurd (honly false a b q hab).1 (by decide)
    have hempty : answerTo x y t.nonspec = {} := answerTo_of_none (hnone x y)
    rcases hrecorded.spec hallocator y ⟨hy, answerTo_assigned hsome, hread true hsome⟩ with
      hresult | ⟨-, hgrant | hmasked⟩
    · change e₁.result = y at hresult
      omega
    · rw [hempty] at hgrant
      exact absurd (show (0 : ℤ) ≤ -1 from hgrant) (by decide)
    · rw [hempty] at hmasked
      unfold specMasked at hmasked
      split_ifs at hmasked
      · simp [Requests.outputHasRequests, hnone] at hmasked
      · exact absurd (show decide ((0 : ℤ) ≤ -1) = true from hmasked) (by decide)

theorem Asks.of_place {o : ℤ} (h : Asks cfg env r e' o) (hplace : e'.place = e.place) :
    Asks cfg env r e o := by
  obtain ⟨time, input, vc, result⟩ := e'
  obtain ⟨rfl, rfl⟩ : input = e.input ∧ vc = e.vc := Prod.mk.inj hplace
  cases h with
  | active hstate hfull hroom => exact .active hstate hfull hroom
  | speculative hstate hroute hse hpass => exact .speculative hstate hroute hse hpass

theorem SWRequested.overwrites {t t' : SWRequests} {e₁ : Entry} {o : ℤ}
    (h : SWRequested cfg env r e t t' e₁) (hnew : e.isStarted = false) (hstall : e₁.result < -1)
    (hasks : Asks cfg env r e o)
    (hfree : IsFree r (cfg.expandedInput e.input e.vc) (cfg.expandedOutput o e.input)) :
    ∃ routeSet, Overwrites cfg env r e routeSet := by
  have hstalled : ¬ Unstalled cfg env r e :=
    (h.outcome.resolve_left fun hopen => by have := hopen.1; omega).2
  unfold Unstalled at hstalled
  cases hasks with
  | active hstate hfull hroom =>
    rw [if_pos hstate] at hstalled
    exact absurd ⟨hfull, hroom⟩ hstalled
  | @speculative routeSet se hstate hroute hse hpass =>
    rw [if_neg (by rw [hstate]; decide)] at hstalled
    obtain ⟨routeSet', hspeculates, hpri⟩ := swAllocRequest_speculates h.run hstate
    cases hspeculates.route.symm.trans hroute
    refine ⟨routeSet, hspeculates, hnew, hpri se hse hpass hfree, ⟨se, hse, hpass, hfree⟩, ?_⟩
    by_contra hno
    push Not at hno
    exact hstalled ⟨routeSet, hspeculates.route, hno⟩

theorem GrantedTo.asks {requests : SWRequests} {p : List Entry} {m : Matching} {spec : Bool} {y : ℤ}
    (hcfg : cfg.Accepted) (hv : cfg.IsVC e.vc) (h : GrantedTo cfg (requests.table spec) m e y)
    (honly : requests.Only (Asked cfg env r p)) :
    ∃ o, Asks cfg env r e o ∧ y = cfg.expandedOutput o e.input ∧
      spec = r.bidsSpeculatively cfg e.input e.vc ∧
      IsFree r (cfg.expandedInput e.input e.vc) (cfg.expandedOutput o e.input) := by
  have hread := h.request
  unfold Requests.read at hread
  cases hq : requests.table spec (cfg.expandedInput e.input e.vc) y with
  | none =>
    rw [hq] at hread
    exact absurd hv.1 (by rw [← hread]; decide)
  | some q =>
    rw [hq] at hread
    obtain ⟨e', -, o, hasks, hspec, hinput, houtput, hlabel, hfree⟩ := honly spec _ _ q hq
    have hvc : e'.vc = e.vc := hlabel.symm.trans hread
    rw [hvc] at hinput hspec
    have hi : e.input = e'.input := expandedInput_inj hcfg hinput
    rw [← hi] at houtput hspec
    refine ⟨o, hasks.of_place (Prod.ext hi.symm hvc), houtput, hspec, ?_⟩
    rwa [houtput] at hfree

theorem SWGranted.recorded {requests : SWRequests} {grants specGrants : Matching} {p : List Entry}
    {t t' : SWRequests} {e₁ e₂ : Entry} (hcfg : cfg.Accepted)
    (honly : requests.Only (Asked cfg env r p)) (hreq : SWRequested cfg env r e t t' e₁)
    (hgrant : SWGranted cfg env requests grants specGrants e₁ e₂) (hnew : e.isStarted = false)
    (hno : ¬ ∃ routeSet, Overwrites cfg env r e routeSet) :
    Recorded cfg requests grants specGrants e e₂ := by
  obtain ⟨f, rest, hfront⟩ := hreq.front
  have hplace : e₁.input = e.input ∧ e₁.vc = e.vc := by
    rw [hreq.entry]
    exact ⟨rfl, rfl⟩
  cases hgrant with
  | stalled hstall he₂ =>
    have hnone : ∀ spec m y, ¬ GrantedTo cfg (requests.table spec) m e y := by
      intro spec m y hgranted
      obtain ⟨o, hasks, -, -, hfree⟩ := hgranted.asks hcfg hfront.vc honly
      exact hno (hreq.overwrites hnew hstall hasks hfree)
    exact ⟨fun y hy => absurd hy (hnone false _ y), fun _ y hy => absurd hy (hnone true _ y)⟩
  | @nonspec y _ hy hassigned hread _ he₂ =>
    rw [hplace.1, hplace.2] at hassigned hread
    have hown : GrantedTo cfg (requests.table false) grants e y := ⟨hy, hassigned, hread⟩
    obtain ⟨-, -, -, hspec, -⟩ := hown.asks hcfg hfront.vc honly
    refine ⟨fun y' hy' => ?_, fun _ y' hy' => ?_⟩
    · rw [he₂]
      exact hassigned.symm.trans hy'.assigned
    · -- the requests of a VC all go to one allocator
      have hother : GrantedTo cfg (requests.table true) specGrants e y' := hy'
      obtain ⟨-, -, -, hspec', -⟩ := hother.asks hcfg hfront.vc honly
      exact absurd (hspec.trans hspec'.symm) (by decide)
  | @spec y _ hallocator hy hnogrant hassigned _ _ _ he₂ =>
    rw [hplace.1, hplace.2] at hassigned hnogrant
    refine ⟨fun y' hy' => ?_, fun _ y' hy' => .inl ?_⟩
    · exact absurd hy'.nonneg (by rw [← hy'.assigned]; omega)
    · rw [he₂]
      exact hassigned.symm.trans hy'.assigned
  | conflict _ hnonspec hspec he₂ =>
    rw [hplace.1, hplace.2] at hnonspec hspec
    refine ⟨fun y hy => absurd hy.request (hnonspec y hy.nonneg hy.assigned),
      fun hallocator y hy => .inr ⟨by rw [he₂], ?_⟩⟩
    rcases lt_or_ge (grants.outputAssigned (cfg.expandedInput e.input e.vc)) 0 with hlt | hge
    · exact .inr (hspec hallocator hlt y hy.nonneg hy.assigned hy.request)
    · exact .inl hge

/-- The grants to a VC are recorded if and only if no stall is noted beside a request.  It does not
matter if the allocators answer with matchings only or with anything. -/
theorem recordsGrants_iff (hcfg : cfg.Accepted) (hanswer : ∀ t m, IsMatching t m → Answer t m) :
    RecordsGrants cfg env Answer r e ↔ ¬ ∃ routeSet, Overwrites cfg env r e routeSet := by
  refine ⟨fun hrecords ⟨routeSet, h⟩ => h.not_recordsGrants hcfg hanswer hrecords, fun hno => ?_⟩
  intro front back front' back' e' swAllocate specSWAllocate asked granted _ _ hfront hnew hasked
    hgranted hsplit hlength
  obtain ⟨p₁, p₂, hqueue, honly, hrequested, hgrants⟩ := swAllocPasses_eq_ok hasked hgranted
  have hstarted : (front ++ e :: back).takeWhile (!Entry.isStarted ·) =
      front ++ e :: back.takeWhile (!Entry.isStarted ·) := by
    simp_all
  rw [hstarted] at honly hrequested
  obtain ⟨front₁, back₁, rfl, hfront₁, hback₁⟩ := exists_append_of_related hrequested
  obtain ⟨e₁, back₁, ⟨t, t', hreq⟩, -, rfl⟩ := List.forall₂_cons_left_iff.mp hback₁
  obtain ⟨front₂, back₂, rfl, hfront₂, hback₂⟩ := exists_append_of_related hgrants
  obtain ⟨e₂, back₂, hgrant, -, rfl⟩ := List.forall₂_cons_left_iff.mp hback₂
  -- the outcome of the entry is at its place in the queue
  have hlength₂ : front₂.length = front'.length := by
    rw [hlength, ← hfront₂.length_eq, ← hfront₁.length_eq]
  rw [hqueue, List.append_assoc, List.cons_append] at hsplit
  obtain ⟨rfl, -⟩ := List.cons.inj (List.append_inj hsplit hlength₂).2
  exact hgrant.recorded hcfg honly hreq hnew hno

/-- … as here, where a packet without an output VC asks for two outputs and both can take it. -/
theorem recordsGrants_iff_two_outputs :
    let cfg : RouterConfig :=
      { inputs := 1, outputs := 2, vcs := 1, classes := 1, speculative := true }
    let env := RouterEnv.greedy cfg fun _ _ => (OutputSet.clear.addRange 0 0 0 0).addRange 1 0 0 1
    let f : Flit := { id := 0, pid := 0, cl := 0, src := 0, dest := 0, vc := 0, head := true }
    ∃ s, play cfg { numVCs := 1 } [{ flits := fun _ => some f, env }] = .ok s ∧
      (s.2.vcAt 0 0).state = .vc_alloc ∧
      RecordsGrants cfg env (fun _ _ => True) s.2 { input := 0, vc := 0 } := by
  intro cfg env f
  obtain ⟨s, hs, hrun⟩ := exists_of_returns
    (p := fun s => decide ((s.2.vcAt 0 0).state = .vc_alloc ∧
      ∀ set ∈ (s.2.vcAt 0 0).routeSet, ∀ se ∈ set.getSet,
        returns (fun outVCs => decide (0 ∈ outVCs)) (s.2.vcRange cfg 0 0 se) = true ∧
        s.2.hasRoom cfg se.outputPort = true ∧
        (s.2.nextBuf se.outputPort).isAvailableFor 0 = true ∧
        (s.2.nextBuf se.outputPort).isFullFor env.now 0 = false))
    (x := play cfg { numVCs := 1 } [{ flits := fun _ => some f, env }]) (by decide +kernel)
  obtain ⟨hstate, hchecks⟩ := of_decide_eq_true hrun
  refine ⟨s, hs, hstate, (recordsGrants_iff (by decide) fun _ _ _ => trivial).mpr ?_⟩
  rintro ⟨routeSet, h⟩
  obtain ⟨se, hse, hstall⟩ := h.stalls
  obtain ⟨hrange, hroom, havailable, hfull⟩ := hchecks routeSet h.route se hse
  obtain ⟨outVCs, hrange, hmem⟩ := exists_of_returns hrange
  exact hstall (if_pos rfl |>.mpr
    ⟨outVCs, hrange, hroom, 0, of_decide_eq_true hmem, havailable, fun _ => hfull⟩)

/-- A packet asks for output 0, which is free, while the VC of output 1 is in use.  It is granted
output 0, but what is noted is that output 1 is busy. -/
theorem grant_overwritten :
    let cfg : RouterConfig :=
      { inputs := 2, outputs := 2, vcs := 1, classes := 1, speculative := true }
    let env := RouterEnv.greedy cfg fun i _ =>
      if i = 0 then (OutputSet.clear.addRange 0 0 0 0).addRange 1 0 0 1
      else OutputSet.clear.addRange 1 0 0 0
    let f : Flit := { id := 0, pid := 0, cl := 0, src := 0, dest := 0, vc := 0, head := true }
    ∃ s r₁ asked granted,
      play cfg { numVCs := 1 } [{ flits := fun i => if i = 1 then some f else none, env },
        { flits := fun i => if i = 0 then some f else none, env }] = .ok s ∧
      inputQueuing cfg { env with now := 2 } s.2 = .ok r₁ ∧
      walk Entry.isStarted (r₁.swAllocRequest cfg { env with now := 2 }) {} r₁.swAllocVCs =
      .ok asked ∧ walk Entry.isStarted (r₁.swAllocGrant cfg { env with now := 2 } asked.1
        (env.swAllocate asked.1.nonspec) (env.specSWAllocate asked.1.spec)) r₁.swRROffset asked.2 =
          .ok granted ∧
      GrantedTo cfg asked.1.nonspec (env.swAllocate asked.1.nonspec) { input := 0, vc := 0 } 0 ∧
      granted.2 = [{ time := 2, input := 0, vc := 0, result := STALL_BUFFER_BUSY }] := by
  intro cfg env f
  obtain ⟨s, hs, hrun⟩ := exists_of_returns (p := fun s => returns (fun r₁ => returns (fun asked =>
      returns (fun granted => (env.swAllocate asked.1.nonspec).outputAssigned 0 = 0 ∧
        asked.1.nonspec.read 0 0 = 0 ∧
        granted.2 = [{ time := 2, input := 0, vc := 0, result := STALL_BUFFER_BUSY }])
        (walk Entry.isStarted (r₁.swAllocGrant cfg { env with now := 2 } asked.1
          (env.swAllocate asked.1.nonspec) (env.specSWAllocate asked.1.spec)) r₁.swRROffset
            asked.2))
        (walk Entry.isStarted (r₁.swAllocRequest cfg { env with now := 2 }) {} r₁.swAllocVCs))
      (inputQueuing cfg { env with now := 2 } s.2))
    (x := play cfg { numVCs := 1 } [{ flits := fun i => if i = 1 then some f else none, env },
      { flits := fun i => if i = 0 then some f else none, env }]) (by decide +kernel)
  obtain ⟨r₁, hr₁, hrun⟩ := exists_of_returns hrun
  obtain ⟨asked, hasked, hrun⟩ := exists_of_returns hrun
  obtain ⟨granted, hgranted, hrun⟩ := exists_of_returns hrun
  obtain ⟨hassigned, hread, hresult⟩ := of_decide_eq_true hrun
  exact ⟨s, r₁, asked, granted, hs, hr₁, hasked, hgranted, ⟨le_rfl, hassigned, hread⟩, hresult⟩

end Router

end BookSim
