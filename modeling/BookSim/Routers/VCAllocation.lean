/-
# VCAllocation — the VC allocation stage

`_VCAllocEvaluate` requests the output VCs of a packet's route set that are available, and
`_VCAllocUpdate` gives the packet the one that was granted, in the same step or, with a delay,
some cycles later.  A grant does not lapse in between:

    another grant of the same batch    is for another output VC, as the allocator returns a matching
    a grant of the next batch          is not made before this batch is done
    a flit that is sent, a credit      may give an output VC free, but takes none
-/
import BookSim.Routers.OutputVCs
import BookSim.Routers.SwitchGrants

namespace BookSim

open List
open Function (update update_apply)

namespace Router

variable {cfg : RouterConfig} {env : RouterEnv} {r r' : Router} {e e' : Entry}

/-! ## Requests and grants -/

/-- The packet of an entry has an output VC to ask for. -/
def Wants (cfg : RouterConfig) (env : RouterEnv) (r : Router) (e : Entry) : Prop :=
  ∃ routeSet, (r.vcAt e.input e.vc).routeSet = some routeSet ∧ ∃ se ∈ routeSet.getSet,
    ∃ outVCs, r.vcRange cfg e.input e.vc se = .ok outVCs ∧ ∃ w ∈ outVCs,
      (r.nextBuf se.outputPort).isAvailableFor w = true ∧
        (cfg.vcBusyWhenFull && (r.nextBuf se.outputPort).isFullFor env.now w) = false

/-- The number stands for an output VC that is available. -/
def Offered (cfg : RouterConfig) (next : ℤ → BufferState) (x : ℤ) : Prop :=
  ∃ o w, cfg.IsOutput o ∧ cfg.IsVC w ∧ x = o * cfg.vcs + w ∧ (next o).isAvailableFor w = true

/-- A request is one of an entry in `p`, and for an output VC that is available. -/
def Bid (cfg : RouterConfig) (env : RouterEnv) (r : Router) (p : List Entry) (a b _label : ℤ) :
    Prop :=
  ∃ e ∈ p, a = cfg.inputAndVC e.input e.vc ∧ Wants cfg env r e ∧ Offered cfg r.nextBuf b

theorem vcRange_isVC {i v : ℤ} {se : SetElement} {outVCs : List ℤ}
    (h : r.vcRange cfg i v se = .ok outVCs) : ∀ w ∈ outVCs, cfg.IsVC w := by
  obtain ⟨-, h⟩ := require_ok.mp h
  obtain ⟨hfirst, h⟩ := require_ok.mp h
  obtain ⟨hlast, h⟩ := require_ok.mp h
  obtain ⟨-, rfl⟩ := require_return_ok.mp h
  intro w hw
  simp only [mem_map, bind_eq_flatMap, pure_def, mem_flatMap, mem_singleton, mem_range] at hw
  obtain ⟨_, ⟨n, hn, rfl⟩, rfl⟩ := hw
  have hpos := hfirst.1
  have hlt := hlast.2
  exact ⟨by omega, by omega⟩

/-- An output VC that is available, and has a slot where this is asked for, is requested. -/
theorem bidForVC_eq_ok {se : SetElement} {bid bid' : VCBid} {w : ℤ}
    (h : r.bidForVC cfg env e se bid w = .ok bid') :
    (bid'.requests = bid.requests ∧ bid'.cred = bid.cred ∧ (bid.elig = true → bid'.elig = true) ∧
        ¬ ((r.nextBuf se.outputPort).isAvailableFor w = true ∧
          (cfg.vcBusyWhenFull && (r.nextBuf se.outputPort).isFullFor env.now w) = false)) ∨
      (r.nextBuf se.outputPort).isAvailableFor w = true ∧
        (cfg.vcBusyWhenFull && (r.nextBuf se.outputPort).isFullFor env.now w) = false ∧
        bid'.cred = true ∧ bid'.elig = true ∧
        ∃ q, bid'.requests = update₂ bid.requests (cfg.inputAndVC e.input e.vc)
          (se.outputPort * cfg.vcs + w) (some q) := by
  obtain ⟨pri, -, h⟩ := bind_ok.mp h
  rcases ite_ok.mp h with ⟨hbusy, h⟩ | ⟨havailable, h⟩
  · obtain rfl := return_ok.mp h
    refine .inl ⟨rfl, rfl, id, fun hboth => ?_⟩
    rw [hboth.1] at hbusy
    exact absurd hbusy (by decide)
  · have havailable : (r.nextBuf se.outputPort).isAvailableFor w = true := by simpa using havailable
    rcases ite_ok.mp h with ⟨hfull, h⟩ | ⟨hslot, h⟩
    · obtain rfl := return_ok.mp h
      refine .inl ⟨rfl, rfl, fun _ => rfl, fun hboth => ?_⟩
      rw [hboth.2] at hfull
      exact absurd hfull (by decide)
    · obtain ⟨t, ht, rfl⟩ := bind_return_ok.mp h
      exact .inr ⟨havailable, eq_false_of_ne_true hslot, rfl, rfl, _, (Requests.add_eq_ok ht).2⟩

/-- A request of the packet has been noted. -/
def VCBid.IsMade (bid : VCBid) : Prop := bid.cred = true ∧ bid.elig = true

theorem bidForVC_isMade {se : SetElement} {bid bid' : VCBid} {w : ℤ}
    (h : r.bidForVC cfg env e se bid w = .ok bid') (hbid : bid.IsMade) : bid'.IsMade := by
  rcases bidForVC_eq_ok h with ⟨-, hcred, helig, -⟩ | ⟨-, -, hcred, helig, -⟩
  · exact ⟨hcred.trans hbid.1, helig hbid.2⟩
  · exact ⟨hcred, helig⟩

/-- What the first pass makes of an entry: it has a result if no request was made. -/
structure VCRequested (cfg : RouterConfig) (env : RouterEnv) (r : Router) (e e' : Entry) :
    Prop where
  result : e.result = -1
  front : ∃ f rest, AtFront cfg r e.input e.vc f rest
  state : (r.vcAt e.input e.vc).state = .vc_alloc
  entry : e' = { e with result := e'.result }
  result_le : e'.result ≤ -1
  made : Wants cfg env r e → e'.result = -1

theorem vcAllocRequest_eq_ok {p : List Entry} {t t' : Requests} (he : e ∈ p)
    (ht : t.Only (Bid cfg env r p)) (h : r.vcAllocRequest cfg env t e = .ok (t', e')) :
    t'.Only (Bid cfg env r p) ∧ VCRequested cfg env r e e' := by
  obtain ⟨hresult, h⟩ := require_ok.mp h
  obtain ⟨f, hf, h⟩ := bind_ok.mp h
  obtain ⟨⟨rest, hfront⟩, hstate, -⟩ := frontHead_eq_ok hf
  obtain ⟨setlist, hsetlist, h⟩ := bind_ok.mp h
  obtain ⟨routeSet, hroute, rfl⟩ := setList_eq_ok hsetlist
  obtain ⟨bid, hbid, h⟩ := bind_ok.mp h
  cases return_ok.mp h
  refine ⟨?_, hresult, ⟨f, rest, hfront⟩, hstate, rfl, ?_, ?_⟩
  · refine inv_of_foldlM_eq_ok (I := fun bid : VCBid => bid.requests.Only (Bid cfg env r p)) hbid
      (fun bid bid' se hse hround hbid => ?_) ht
    obtain ⟨ho, hround⟩ := require_ok.mp hround
    obtain ⟨outVCs, hrange, hround⟩ := bind_ok.mp hround
    refine inv_of_foldlM_eq_ok (I := fun bid : VCBid => bid.requests.Only (Bid cfg env r p)) hround
      (fun bid bid' w hw hround hbid => ?_) hbid
    rcases bidForVC_eq_ok hround with ⟨hsame, -⟩ | ⟨havailable, hslot, -, -, q, hadd⟩
    · rwa [hsame]
    · rw [hadd]
      exact Requests.only_update hbid ⟨e, he, rfl,
        ⟨routeSet, hroute, se, hse, outVCs, hrange, w, hw, havailable, hslot⟩, _, w, ho,
        vcRange_isVC hrange w hw, rfl, havailable⟩
  · dsimp only
    split_ifs
    · decide
    · decide
    · decide
    · exact hresult.le
  · rintro ⟨routeSet', hroute', se, hse, outVCs, hrange, w, hw, hboth⟩
    cases hroute.symm.trans hroute'
    have hmade : bid.IsMade := by
      refine of_round_of_foldlM_eq_ok (Q := VCBid.IsMade) hbid hse (fun bid bid' hround => ?_)
        fun bid bid' se' _ hround => ?_
      · obtain ⟨-, hround⟩ := require_ok.mp hround
        obtain ⟨outVCs', hrange', hround⟩ := bind_ok.mp hround
        cases hrange.symm.trans hrange'
        refine of_round_of_foldlM_eq_ok (Q := VCBid.IsMade) hround hw (fun bid bid' hround => ?_)
          fun _ _ _ _ => bidForVC_isMade
        rcases bidForVC_eq_ok hround with ⟨-, -, -, hno⟩ | ⟨-, -, hcred, helig, -⟩
        · exact absurd hboth hno
        · exact ⟨hcred, helig⟩
      · obtain ⟨-, hround⟩ := require_ok.mp hround
        obtain ⟨outVCs', -, hround⟩ := bind_ok.mp hround
        exact inv_of_foldlM_eq_ok hround fun _ _ _ _ => bidForVC_isMade
    dsimp only
    rw [hmade.1, hmade.2]
    simpa using hresult

/-- What the second pass makes of an entry. -/
structure VCGranted (cfg : RouterConfig) (env : RouterEnv) (grants : Matching) (e e' : Entry) :
    Prop where
  place : e'.place = e.place
  time : e'.time = env.now + cfg.vcAllocDelay - 1
  result : e.result < -1 ∧ e'.result = e.result ∨
    e.result = -1 ∧ (0 ≤ grants.outputAssigned (cfg.inputAndVC e.input e.vc) ∧
        e'.result = grants.outputAssigned (cfg.inputAndVC e.input e.vc) ∨
      grants.outputAssigned (cfg.inputAndVC e.input e.vc) < 0 ∧ e'.result = STALL_BUFFER_CONFLICT)

variable {grants : Matching}

theorem vcAllocGrant_eq_ok {t : Unit × Entry}
    (h : r.vcAllocGrant cfg env grants () e = .ok t) : VCGranted cfg env grants e t.2 := by
  rcases ite_ok.mp h with ⟨hstalled, h⟩ | ⟨-, h⟩
  · obtain rfl := return_ok.mp h
    exact ⟨rfl, rfl, .inl ⟨hstalled, rfl⟩⟩
  · obtain ⟨hresult, h⟩ := require_ok.mp h
    obtain ⟨f, -, h⟩ := bind_ok.mp h
    rcases ite_ok.mp h with ⟨hgrant, h⟩ | ⟨hnone, h⟩
    · obtain ⟨m, -, rfl⟩ := bind_return_ok.mp h
      exact ⟨rfl, rfl, .inr ⟨hresult, .inl ⟨hgrant, rfl⟩⟩⟩
    · obtain rfl := return_ok.mp h
      exact ⟨rfl, rfl, .inr ⟨hresult, .inr ⟨not_le.mp hnone, rfl⟩⟩⟩

theorem VCGranted.assigned (h : VCGranted cfg env grants e e') (hkept : 0 ≤ e'.result) :
    grants.outputAssigned (cfg.inputAndVC e'.input e'.vc) = e'.result := by
  have hplace : cfg.inputAndVC e'.input e'.vc = cfg.inputAndVC e.input e.vc :=
    congrArg (fun x : ℤ × ℤ => cfg.inputAndVC x.1 x.2) h.place
  rw [hplace]
  rcases h.result with ⟨hstall, heq⟩ | ⟨-, ⟨-, heq⟩ | ⟨-, heq⟩⟩
  · exact absurd hkept (by rw [heq]; omega)
  · exact heq.symm
  · exact absurd hkept (by rw [heq]; decide)

theorem vcAllocRecheck_eq_ok {t : Unit × Entry} (h : r.vcAllocRecheck cfg env () e = .ok t) :
    e.LookedAt t.2 := by
  obtain ⟨htime, h⟩ := require_ok.mp h
  obtain ⟨-, h⟩ := require_ok.mp h
  have hdropped : ∀ {x : ℤ}, x < 0 → e.LookedAt { e with result := x } := fun hx =>
    ⟨rfl, rfl, .inr hx, fun hfresh => absurd htime (by rw [hfresh.1]; decide)⟩
  rcases ite_ok.mp h with ⟨-, h⟩ | ⟨-, h⟩
  · obtain ⟨m, -, h⟩ := bind_ok.mp h
    obtain ⟨f, -, h⟩ := bind_ok.mp h
    rcases ite_ok.mp h with ⟨-, h⟩ | ⟨-, h⟩
    · obtain rfl := return_ok.mp h
      exact hdropped (by decide)
    · rcases ite_ok.mp h with ⟨-, h⟩ | ⟨-, h⟩
      · obtain rfl := return_ok.mp h
        exact hdropped ((fullStall_lt _).trans (by decide))
      · obtain rfl := return_ok.mp h
        exact .refl e
  · obtain rfl := return_ok.mp h
    exact .refl e

/-- The first two passes over the entries `p`. -/
structure VCPassed (cfg : RouterConfig) (env : RouterEnv) (r : Router) (requests : Requests)
    (grants : Matching) (p p₁ p₂ : List Entry) : Prop where
  only : requests.Only (Bid cfg env r p)
  requested : List.Forall₂ (VCRequested cfg env r) p p₁
  granted : List.Forall₂ (VCGranted cfg env grants) p₁ p₂

theorem vcAllocPasses_eq_ok {q : List Entry} {asked : Requests × List Entry}
    {granted : Unit × List Entry}
    (hasked : walk Entry.isStarted (r.vcAllocRequest cfg env) Requests.clear q = .ok asked)
    (hgranted : walk Entry.isStarted (r.vcAllocGrant cfg env grants) () asked.2 = .ok granted) :
    ∃ p₁ p₂, granted.2 = p₂ ++ q.dropWhile (!Entry.isStarted ·) ∧
      VCPassed cfg env r asked.1 grants (q.takeWhile (!Entry.isStarted ·)) p₁ p₂ := by
  obtain ⟨p₁, p₂, hq₂, honly, hrequested, hgrants⟩ := walk_twice_eq_ok hasked hgranted
    (I := fun t => t.Only (Bid cfg env r (q.takeWhile (!Entry.isStarted ·))))
    (R := VCRequested cfg env r) (S := VCGranted cfg env grants)
    (fun he ht hround => vcAllocRequest_eq_ok he ht hround)
    (fun hround => vcAllocGrant_eq_ok hround)
    (fun hreq => Entry.isStarted_congr (by rw [hreq.entry])) Requests.only_clear
  exact ⟨p₁, p₂, hq₂, honly, hrequested, hgrants⟩

/-- The passes of `_VCAllocEvaluate` over the entries `p` it starts; `rest` are those behind, and
`q` is the queue afterwards. -/
structure VCEvaluated (cfg : RouterConfig) (env : RouterEnv) (r : Router) (requests : Requests)
    (p p₁ p₂ rest q : List Entry) : Prop
    extends VCPassed cfg env r requests (env.vcAllocate requests) p p₁ p₂ where
  started : p = r.vcAllocVCs.takeWhile (!Entry.isStarted ·)
  queue : r.vcAllocVCs = p ++ rest
  lookedAt : List.Forall₂ Entry.LookedAt (p₂ ++ rest) q
  undelayed : cfg.vcAllocDelay ≤ 1 → q = p₂ ++ rest

theorem vcAllocEvaluate_eq_ok (h : r.vcAllocEvaluate cfg env = .ok (grants, r')) :
    ∃ requests p p₁ p₂ rest, grants = env.vcAllocate requests ∧
      VCEvaluated cfg env r requests p p₁ p₂ rest r'.vcAllocVCs ∧
      r' = { r with vcAllocVCs := r'.vcAllocVCs } := by
  obtain ⟨asked, hasked, h⟩ := bind_ok.mp h
  obtain ⟨granted, hgranted, h⟩ := bind_ok.mp h
  obtain ⟨p₁, p₂, hq₂, hpassed⟩ := vcAllocPasses_eq_ok hasked hgranted
  have hrefl : ∀ q : List Entry, List.Forall₂ Entry.LookedAt q q := fun q =>
    forall₂_same.mpr fun e _ => .refl e
  rcases ite_ok.mp h with ⟨hdelay, h⟩ | ⟨hdelay, h⟩
  · cases return_ok.mp h
    refine ⟨asked.1, _, p₁, p₂, _, rfl, ⟨hpassed, rfl, takeWhile_append_dropWhile.symm, ?_,
      fun _ => hq₂⟩, rfl⟩
    rw [hq₂]
    exact hrefl _
  · obtain ⟨checked, hchecked, h⟩ := bind_ok.mp h
    cases return_ok.mp h
    refine ⟨asked.1, _, p₁, p₂, _, rfl, ⟨hpassed, rfl, takeWhile_append_dropWhile.symm, ?_,
      fun hno => absurd hno hdelay⟩, rfl⟩
    obtain ⟨c, hc, hq₃⟩ := walk_eq_ok hchecked
    rw [← hq₂, hq₃]
    have hc := (hc.rel (I := fun _ => True) (R := Entry.LookedAt)
      (fun _ _ hround => ⟨trivial, vcAllocRecheck_eq_ok hround⟩) trivial).2
    have hall := rel_append hc (hrefl (granted.2.dropWhile fun e => !decide (env.now < e.time)))
    beta_reduce at hall
    rwa [takeWhile_append_dropWhile] at hall

/-! ## Grants that wait to be used -/

/-- The output VCs that are granted to the entries of a queue. -/
def vcGrants (q : List Entry) : List ℤ := (swGrants q).map SWGrant.expandedOutput

theorem mem_vcGrants {q : List Entry} {x : ℤ} :
    x ∈ vcGrants q ↔ ∃ e ∈ q, 0 ≤ e.result ∧ e.result = x := by
  simp only [vcGrants, mem_map, mem_swGrants]
  constructor
  · rintro ⟨g, ⟨e, he, hresult, rfl⟩, rfl⟩
    exact ⟨e, he, hresult, rfl⟩
  · rintro ⟨e, he, hresult, rfl⟩
    exact ⟨_, ⟨e, he, hresult, rfl⟩, rfl⟩

/-- The grants are for different output VCs, which are all available. -/
structure VCsBooked (cfg : RouterConfig) (next : ℤ → BufferState) (q : List Entry) : Prop where
  nodup : (vcGrants q).Nodup
  free : ∀ x ∈ vcGrants q, Offered cfg next x

theorem VCsBooked.sublist {next : ℤ → BufferState} {q q' : List Entry} (h : VCsBooked cfg next q)
    (hsub : (swGrants q').Sublist (swGrants q)) : VCsBooked cfg next q' :=
  have hsub := hsub.map SWGrant.expandedOutput
  ⟨h.nodup.sublist hsub, fun x hx => h.free x (hsub.subset hx)⟩

theorem inputAndVC_inj {i v i' v' : ℤ} (hi : cfg.IsInput i) (hv : cfg.IsVC v)
    (hi' : cfg.IsInput i') (hv' : cfg.IsVC v')
    (h : cfg.inputAndVC i v = cfg.inputAndVC i' v') : i = i' ∧ v = v' := by
  unfold RouterConfig.inputAndVC at h
  split_ifs at h
  · exact (Assignments.digit_inj hi hi' h).symm
  · exact Assignments.digit_inj hv hv' h

theorem inputAndVC_nonneg {i v : ℤ} (hi : cfg.IsInput i) (hv : cfg.IsVC v) :
    0 ≤ cfg.inputAndVC i v := by
  unfold RouterConfig.inputAndVC
  split_ifs
  · exact Int.add_nonneg (Int.mul_nonneg hv.1 (Int.natCast_nonneg _)) hi.1
  · exact Int.add_nonneg (Int.mul_nonneg hi.1 (Int.natCast_nonneg _)) hv.1

theorem VCEvaluated.booked {requests : Requests} {p p₁ p₂ rest q : List Entry}
    (h : VCEvaluated cfg env r requests p p₁ p₂ rest q)
    (hmatch : ∀ t, IsMatching t (env.vcAllocate t)) (hnodup : (p.map Entry.place).Nodup) :
    VCsBooked cfg r.nextBuf p₂ := by
  -- what is known of each entry that has a grant
  have hkept : ∀ e ∈ p₂, 0 ≤ e.result → cfg.IsInput e.input ∧ cfg.IsVC e.vc ∧
      (env.vcAllocate requests).outputAssigned (cfg.inputAndVC e.input e.vc) = e.result := by
    intro e₂ he₂ hresult
    obtain ⟨e, -, e₁, hreq, hgrant⟩ :=
      exists_of_mem_related (related_trans h.requested h.granted) he₂
    obtain ⟨f, flits, hfront⟩ := hreq.front
    have hplace : e₂.place = e.place := hgrant.place.trans (by rw [hreq.entry]; rfl)
    have hinput : e₂.input = e.input := congrArg Prod.fst hplace
    have hvc : e₂.vc = e.vc := congrArg Prod.snd hplace
    exact ⟨hinput ▸ hfront.input, hvc ▸ hfront.vc, hgrant.assigned hresult⟩
  refine ⟨?_, fun x hx => ?_⟩
  · have hplaces : p₂.map Entry.place = p.map Entry.place :=
      related_map_eq (related_trans h.requested h.granted) fun e e₂ ⟨e₁, hreq, hgrant⟩ =>
        hgrant.place.trans (by rw [hreq.entry]; rfl)
    rw [← hplaces, nodup_iff_pairwise_ne, pairwise_map] at hnodup
    refine pairwise_map.mpr (pairwise_filterMap.mpr (hnodup.imp_of_mem fun {e e'} he he' hne => ?_))
    intro g hg g' hg' hsame
    obtain ⟨hresult, rfl⟩ := Entry.swGrant?_eq_some.mp hg
    obtain ⟨hresult', rfl⟩ := Entry.swGrant?_eq_some.mp hg'
    change e.result = e'.result at hsame
    obtain ⟨hi, hv, hgrant⟩ := hkept e he hresult
    obtain ⟨hi', hv', hgrant'⟩ := hkept e' he' hresult'
    have hinputs := (hmatch requests).eq_of_output (inputAndVC_nonneg hi hv)
      (inputAndVC_nonneg hi' hv') hresult hgrant (hgrant'.trans hsame.symm)
    obtain ⟨hi, hv⟩ := inputAndVC_inj hi hv hi' hv' hinputs
    exact hne (Prod.ext hi hv)
  · obtain ⟨e, he, hresult, rfl⟩ := mem_vcGrants.mp hx
    obtain ⟨-, -, hgrant⟩ := hkept e he hresult
    obtain ⟨q, hq⟩ := Option.isSome_iff_exists.mp ((hmatch requests).requested _ _ hresult hgrant)
    obtain ⟨-, -, -, -, hoffered⟩ := h.only _ _ _ hq
    exact hoffered

theorem VCEvaluated.keeps {requests : Requests} {p p₁ p₂ rest q : List Entry}
    (h : VCEvaluated cfg env r requests p p₁ p₂ rest q)
    (hmatch : ∀ t, IsMatching t (env.vcAllocate t))
    (hnodup : (r.vcAllocVCs.map Entry.place).Nodup) (hbatch : Batched r.vcAllocVCs)
    (hbooked : VCsBooked cfg r.nextBuf r.vcAllocVCs) :
    Batched q ∧ VCsBooked cfg r.nextBuf q := by
  suffices hpassed : Batched (p₂ ++ rest) ∧ VCsBooked cfg r.nextBuf (p₂ ++ rest) from
    ⟨hpassed.1.lookedAt h.lookedAt, hpassed.2.sublist (swGrants_lookedAt h.lookedAt)⟩
  have hstarted := h.started
  have hqueue := h.queue
  rcases hbatch.cases_front with hnone | hall
  · rw [hnone] at hstarted
    subst hstarted
    obtain rfl : p₁ = [] := forall₂_nil_left_iff.mp h.requested
    obtain rfl : p₂ = [] := forall₂_nil_left_iff.mp h.granted
    rw [← hqueue]
    exact ⟨hbatch, hbooked⟩
  · rw [hall] at hstarted
    have hrest : rest = [] := by
      rw [hstarted] at hqueue
      exact append_right_eq_self.mp hqueue.symm
    rw [hrest, append_nil]
    refine ⟨.of_time (T := env.now + cfg.vcAllocDelay - 1) fun e₂ he₂ => ?_,
      h.booked hmatch (hstarted ▸ hnodup)⟩
    obtain ⟨e₁, -, hgrant⟩ := exists_of_mem_related h.granted he₂
    exact hgrant.time

/-! ## All rounds -/

/-- The router's batch, and its grants. -/
def VCBooked (cfg : RouterConfig) (r : Router) : Prop :=
  Batched r.vcAllocVCs ∧ VCsBooked cfg r.nextBuf r.vcAllocVCs

/-- Output VCs that are available stay so. -/
def Frees (next next' : ℤ → BufferState) : Prop := ∀ o, BufferState.FreeStays (next o) (next' o)

theorem Frees.refl (next : ℤ → BufferState) : Frees next next := fun _ => .refl _

theorem Frees.update {next : ℤ → BufferState} {o : ℤ} {b : BufferState}
    (h : BufferState.FreeStays (next o) b) : Frees next (update next o b) := by
  intro o'
  rw [update_apply]
  split_ifs with ho
  · exact ho ▸ h
  · exact .refl _

theorem Offered.mono {next next' : ℤ → BufferState} {x : ℤ} (h : Offered cfg next x)
    (hfree : Frees next next') : Offered cfg next' x := by
  obtain ⟨o, w, ho, hw, hx, havailable⟩ := h
  exact ⟨o, w, ho, hw, hx, decide_eq_true (hfree o w (of_decide_eq_true havailable))⟩

theorem VCBooked.of_growsFresh (h : VCBooked cfg r)
    (hqueue : GrowsFresh r.vcAllocVCs r'.vcAllocVCs) (hfree : Frees r.nextBuf r'.nextBuf) :
    VCBooked cfg r' := by
  refine ⟨hqueue.batched h.1, ?_⟩
  have hgrants : vcGrants r'.vcAllocVCs = vcGrants r.vcAllocVCs :=
    congrArg (List.map _) hqueue.swGrants_eq
  refine ⟨hgrants ▸ h.2.nodup, fun x hx => ?_⟩
  rw [hgrants] at hx
  exact (h.2.free x hx).mono hfree

theorem Sent.frees {i v x : ℤ} {done stay : Router → Router} {f : Flit} {rest : List Flit}
    {dest : BufferState} (h : Sent cfg r i v x done stay f rest dest r')
    (hdone : ∀ r, (done r).backdrop = r.backdrop) (hstay : ∀ r, (stay r).backdrop = r.backdrop) :
    Frees r.nextBuf r'.nextBuf := by
  have hnext : r'.nextBuf = update r.nextBuf (x / cfg.outputSpeedup) dest :=
    congrArg Backdrop.nextBuf (h.backdrop_eq hdone hstay)
  obtain ⟨now, hdest⟩ := h.dest_eq
  rw [hnext]
  exact .update (BufferState.freeStays_sendingFlit hdest)

theorem Tidy.vcAllocVCs_eq_nil (h : Tidy cfg r) (hnone : cfg.hasVCAllocator = false) :
    r.vcAllocVCs = [] := by
  refine eq_nil_iff_forall_not_mem.mpr fun e he => ?_
  have hpos : 0 < (r.filing e.input e.vc).vcAlloc := queued_pos_iff.mpr ⟨e, he, rfl⟩
  have hplace := (h e.input e.vc).1
  unfold Filing.InPlace at hplace
  rw [hnone] at hplace
  split at hplace
  · omega
  · omega
  · simp only [Bool.false_eq_true, reduceIte] at hplace
    omega
  · omega

theorem GrantedVC.eq_add {x o w : ℤ} (h : GrantedVC cfg r x o w) : x = o * cfg.vcs + w := by
  rw [h.output_eq, h.vc_eq, mul_comm]
  exact (Int.mul_tdiv_add_tmod x cfg.vcs).symm

theorem vcAllocItem_booked {q : List Entry} (hq : r.vcAllocVCs = e :: q)
    (hitem : vcAllocItem cfg env r e = .ok r') (h : VCBooked cfg r) : VCBooked cfg r' := by
  have htail : VCBooked cfg { r with vcAllocVCs := r.vcAllocVCs.tail } :=
    ⟨h.1.tail, h.2.sublist (swGrants_tail _)⟩
  obtain ⟨-, -, -, ⟨-, rfl⟩ | ⟨hresult, o, w, dest, hgranted, hdest, rfl⟩⟩ :=
    vcAllocItem_eq_ok hitem
  · exact htail.of_growsFresh (.push _ _ _) (.refl _)
  · have hqueue : (r.allocated cfg e.input e.vc o w dest).vcAllocVCs = r.vcAllocVCs.tail := by
      rw [allocated_eq]
    have hnext : (r.allocated cfg e.input e.vc o w dest).nextBuf = update r.nextBuf o dest := by
      rw [allocated_eq]
      rfl
    unfold VCBooked
    rw [hqueue, hnext]
    refine ⟨htail.1, htail.2.nodup, fun x hx => ?_⟩
    obtain ⟨o', w', ho', hw', rfl, havailable⟩ := htail.2.free x hx
    refine ⟨o', w', ho', hw', rfl, ?_⟩
    have hne : ¬ (o' = o ∧ w' = w) := by
      rintro ⟨rfl, rfl⟩
      have hnodup := h.2.nodup
      rw [hq, tail_cons, ← hgranted.eq_add] at hx
      rw [hq, vcGrants, swGrants, filterMap_cons_some (Entry.swGrant?_eq_some.mpr ⟨hresult, rfl⟩),
        map_cons, nodup_cons] at hnodup
      exact hnodup.1 hx
    obtain ⟨-, -, policy, -, rfl⟩ := BufferState.takeBuffer_eq_ok hdest
    rw [update_apply]
    split_ifs with ho
    · subst ho
      have hw : w' ≠ w := fun hw => hne ⟨rfl, hw⟩
      have hfree : (r.nextBuf o').inUseBy w' < 0 := of_decide_eq_true havailable
      refine decide_eq_true (show update (r.nextBuf o').inUseBy w _ w' < 0 from ?_)
      rwa [Function.update_of_ne hw]
    · exact havailable

theorem evaluateStages_vcBooked (hmatch : ∀ t, IsMatching t (env.vcAllocate t))
    (htidy : Tidy cfg r) (hstages : evaluateStages cfg env r = .ok r') (h : VCBooked cfg r) :
    VCBooked cfg r' := by
  obtain ⟨q₁, q₂, q₃, q₄, vcGrants, offset, -, halloc, -, -, rfl⟩ := evaluateStages_eq_ok hstages
  change Batched q₂ ∧ VCsBooked cfg r.nextBuf q₂
  rcases ite_ok.mp halloc with ⟨-, halloc⟩ | ⟨-, halloc⟩
  · obtain ⟨requests, p, p₁, p₂, rest, -, hevaluated, -⟩ := vcAllocEvaluate_eq_ok halloc
    exact hevaluated.keeps hmatch htidy.nodup_vcAlloc h.1 h.2
  · cases halloc
    exact h

theorem vcBooked_kept (hmatch : ∀ t, IsMatching t (env.vcAllocate t)) :
    Kept cfg env (VCBooked cfg) (Tidy cfg) where
  enter _ _ hitem _ h := by
    have hnext : _ = Router.nextBuf _ :=
      congrArg Assignments.dest (enterFlit_assignments hitem)
    exact h.of_growsFresh (enterFlit_roundOf hitem).vcAlloc (hnext ▸ .refl _)
  credit _ hitem _ h := by
    obtain ⟨-, dest, hdest, rfl⟩ := creditItem_eq_ok hitem
    exact h.of_growsFresh (.refl _) (.update (BufferState.freeStays_processCredit hdest))
  evaluate hstages htidy h := evaluateStages_vcBooked hmatch htidy hstages h
  route _ _ hitem _ h := by
    have hgrows := (routeItem_roundOf hitem).vcAlloc
    obtain ⟨-, -, -, routeSet, rfl⟩ := routeItem_eq_ok hitem
    exact h.of_growsFresh hgrows (.refl _)
  vcAlloc hq _ hitem _ h := vcAllocItem_booked hq hitem h
  swHold _ _ hitem _ h := by
    refine h.of_growsFresh (swHoldItem_roundOf hitem).vcAlloc ?_
    obtain ⟨-, -, -, -, ⟨-, -, -, -, -, -, f, rest, dest, hsent⟩ | ⟨-, rfl⟩⟩ :=
      swHoldItem_core hitem
    · exact hsent.frees (fun _ => rfl) fun _ => rfl
    · exact .refl _
  swAlloc {r r' e q} _ _ hitem htidy h := by
    obtain ⟨-, -, -, hcases⟩ := swAllocItem_core hitem
    rcases hcases with ⟨-, rfl⟩ | ⟨-, -, -, -, -, r₁, hequipped, -, -, f, rest, dest, hsent⟩
    · exact h.of_growsFresh (.refl _) (.refl _)
    · have h₁ : VCBooked cfg r₁ := by
        cases hequipped with
        | already h₁ =>
          rw [h₁]
          exact h.of_growsFresh (.refl _) (.refl _)
        | piggyback hnone _ _ hcore =>
          have hqueue : r₁.vcAllocVCs = r.vcAllocVCs := (congrArg vcAllocVCs hcore :)
          unfold VCBooked
          rw [hqueue, htidy.vcAllocVCs_eq_nil hnone]
          exact ⟨.nil, .nil, nofun⟩
      exact h₁.of_growsFresh (hsent.roundOf .refl fun s => .stays _).vcAlloc
        (hsent.frees (fun _ => rfl) (backdrop_stays _ _ _))
  switch _ _ hitem _ h := by
    obtain ⟨-, -, rfl⟩ := switchItem_eq_ok hitem
    exact h.of_growsFresh (.refl _) (.refl _)
  flush hflush _ h := by
    obtain rfl := outputQueuing_eq_ok hflush
    exact h.of_growsFresh (.refl _) (.refl _)
  active _ h := h.of_growsFresh (.refl _) (.refl _)

variable {bufCfg : BufferConfig} {C : RouterEnv → Router → Prop} {now : ℤ}

theorem vcBooked_reached (hC : ∀ {env r}, C env r → ∀ t, IsMatching t (env.vcAllocate t))
    (h : Reached cfg bufCfg C now r) : Tidy cfg r ∧ VCBooked cfg r := by
  refine Kept.reached h (fun hc => tidy_kept.and (vcBooked_kept (hC hc)))
    (fun next _ _ => ⟨tidy_new next, .nil, .nil, nofun⟩) ?_ ?_
  · exact fun ⟨htidy, hbooked⟩ =>
      ⟨tidy_of_filing rfl htidy, hbooked.of_growsFresh (.refl _) (.refl _)⟩
  · exact fun ⟨htidy, hbooked⟩ =>
      ⟨tidy_of_filing rfl htidy, hbooked.of_growsFresh (.refl _) (.refl _)⟩

/-! ## One packet for each output VC -/

/-- No two input VCs whose packets are on their way have the same output VC. -/
def Exclusive (cfg : RouterConfig) (r : Router) : Prop :=
  ∀ i v i' v' o w, cfg.IsInput i → cfg.IsVC v → cfg.IsInput i' → cfg.IsVC v' →
    (r.vcAt i v).assigned = some (o, w) → (r.vcAt i' v').assigned = some (o, w) → i = i' ∧ v = v'

/-- The VC allocation stage finds the output VC `w` of `o` that was granted available, and takes
it.  The policies that share the slots among the VCs in use do not stop it, unless there are not
enough slots. -/
structure Committable (cfg : RouterConfig) (r : Router) (e : Entry) (o w : ℤ) : Prop where
  split : splitOutputVC cfg e.result = .ok (o, w)
  available : (r.nextBuf o).isAvailableFor w = true
  takes : Ends (fun _ => True)
    (fun fault => fault = .assertion "_max_held_slots > 0" ∧ ¬ (r.nextBuf o).policy.Shares)
    ((r.nextBuf o).takeBuffer w (e.input * cfg.vcs + e.vc))

theorem splitOutputVC_of_digits {o w : ℤ} (ho : cfg.IsOutput o) (hw : cfg.IsVC w) :
    splitOutputVC cfg (o * cfg.vcs + w) = .ok (o, w) := by
  have hnonneg : 0 ≤ o * (cfg.vcs : ℤ) + w :=
    Int.add_nonneg (Int.mul_nonneg ho.1 (Int.natCast_nonneg _)) hw.1
  unfold splitOutputVC
  rw [Int.tdiv_eq_ediv_of_nonneg hnonneg, Int.tmod_eq_emod_of_nonneg hnonneg,
    (Assignments.div_mod_of_digit hw).1, (Assignments.div_mod_of_digit hw).2,
    require_bind ho, require_bind hw]
  rfl

/-- The output VCs: whenever a grant is put into effect, its VC is available, and no VC is ever
given to two packets. -/
theorem vcAlloc_exclusive (hrange : cfg.inputs * cfg.vcs ≤ 2 ^ 31)
    (h : Reached cfg bufCfg (fun env _ => ∀ t, IsMatching t (env.vcAllocate t)) now r) :
    Exclusive cfg r ∧
    (∀ env r' e, VCAllocRound cfg env r r' e ∨ SWHoldRound cfg env r r' e ∨
      SWAllocRound cfg env r r' e → Exclusive cfg r') ∧
    ∀ env r' e, (∀ t, IsMatching t (env.vcAllocate t)) → VCAllocRound cfg env r r' e →
      0 ≤ e.result → ∃ o w, Committable cfg r' e o w := by
  have howned := owned_reached hrange h
  have hexclusive : ∀ {r}, r.assignments.Owned cfg → Exclusive cfg r :=
    fun howned i v i' v' o w hi hv hi' hv' => howned.exclusive hi hv hi' hv'
  refine ⟨hexclusive howned.2, fun env r' e hround => ?_, fun env r' e hmatch hround hgrant => ?_⟩
  · rcases hround with hround | hround | hround
    · exact hexclusive ((owned_kept hrange).vcAllocRound hround howned).1.2
    · exact hexclusive ((owned_kept hrange).swHoldRound hround howned).1.2
    · exact hexclusive ((owned_kept hrange).swAllocRound hround howned).1.2
  · have hkept : Kept cfg env fun r => Tidy cfg r ∧ VCBooked cfg r :=
      tidy_kept.and (vcBooked_kept hmatch)
    obtain ⟨⟨-, hbooked⟩, -, q, hq⟩ := hkept.vcAllocRound hround (vcBooked_reached id h)
    obtain ⟨⟨-, howned⟩, -, -⟩ := (owned_kept hrange).vcAllocRound hround howned
    obtain ⟨o, w, ho, hw, hresult, havailable⟩ :=
      hbooked.2.free _ (mem_vcGrants.mpr ⟨e, hq ▸ mem_cons_self, hgrant, rfl⟩)
    refine ⟨o, w, hresult ▸ splitOutputVC_of_digits ho hw, havailable, ?_⟩
    refine BufferState.takeBuffer_ends (howned.counted o) ⟨hw.1, ?_⟩ havailable
    rw [show (r'.nextBuf o).vcs = cfg.vcs from howned.vcs o]
    exact hw.2

/-- … as here, where the packets of two inputs contend for an output with a single VC. -/
theorem vcAlloc_exclusive_contention :
    let cfg : RouterConfig := { inputs := 2, outputs := 1, vcs := 1, classes := 1 }
    let env := RouterEnv.greedy cfg fun _ _ => OutputSet.clear.addRange 0 0 0 0
    let f : Flit := { id := 0, pid := 0, cl := 0, src := 0, dest := 0, vc := 0, head := true }
    ∃ s, play cfg { numVCs := 1 } [{ flits := fun _ => some f, env }, { env }] = .ok s ∧
      (s.2.vcAt 0 0).assigned = some (0, 0) ∧ Exclusive cfg s.2 := by
  intro cfg env f
  obtain ⟨s, hs, hassigned, hreached⟩ := @exists_reached cfg { numVCs := 1 }
    (fun env _ => ∀ t, IsMatching t (env.vcAllocate t)) env
    [{ flits := fun _ => some f, env }, { env }] (fun s => (s.2.vcAt 0 0).assigned = some (0, 0))
    (by decide) rfl (by simp) (fun now _ => ((RouterEnv.matches_greedy _ _).at now).vcAllocate)
    (by decide +kernel)
  exact ⟨s, hs, of_decide_eq_true hassigned, (vcAlloc_exclusive (by decide) hreached).1⟩

end Router

end BookSim
