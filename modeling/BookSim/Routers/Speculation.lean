/-
# Speculation — asking for the switch without an output VC

With speculation a packet asks for an output VC and for the switch at the same time.  A grant of
the switch is used if the packet has an output VC by then, and at the output of the grant:

    VC granted in the same Evaluate     the last pass compares the two outputs
    VC granted before                   the last pass asserts that they are the same

The first is enough where the Update that follows gives the packet its output VC, which it does
if VC allocation takes one cycle.  The assertion holds where the grant was made in the same
Evaluate, for the output VC the packet has, which it was if switch allocation takes one cycle.
-/
import BookSim.Routers.Delays
import BookSim.Routers.SwitchHold

namespace BookSim

open List

namespace Router

variable {cfg : RouterConfig} {env : RouterEnv} {r r' : Router} {e e' : Entry}

/-- All that the allocator grants is noted in the queue, for this cycle. -/
def Noted (cfg : RouterConfig) (env : RouterEnv) (r : Router) (grants : Matching)
    (q : List Entry) : Prop :=
  ∀ e ∈ r.vcAllocVCs, 0 ≤ grants.outputAssigned (cfg.inputAndVC e.input e.vc) →
    ∃ e' ∈ q, e'.place = e.place ∧ e'.time = env.now ∧
      e'.result = grants.outputAssigned (cfg.inputAndVC e.input e.vc)

theorem vcAllocEvaluate_noted {grants : Matching} (hmatch : ∀ t, IsMatching t (env.vcAllocate t))
    (hdelay : cfg.vcAllocDelay = 1) (hfresh : Unstarted .vcAlloc r)
    (h : r.vcAllocEvaluate cfg env = .ok (grants, r')) : Noted cfg env r grants r'.vcAllocVCs := by
  obtain ⟨requests, p, p₁, p₂, rest, rfl, hev, -⟩ := vcAllocEvaluate_eq_ok h
  have hp : p = r.vcAllocVCs := by
    rw [hev.started]
    exact takeWhile_eq_self_iff.mpr fun e he => by
      simpa [Entry.isStarted] using hfresh e.time (mem_map_of_mem he)
  have hrequested := List.Forall₂.flip (R := flip _) hev.requested
  have hall := List.Forall₂.flip (R := flip _) (related_trans hev.requested hev.granted)
  intro e he hgrant
  rw [← hp] at he
  obtain ⟨e₂, he₂, e₁, hreq, hgranted⟩ := exists_of_mem_related hall he
  -- the grant answers a request of the packet it names
  have hwants : Wants cfg env r e := by
    obtain ⟨f, flits, hfront⟩ := hreq.front
    obtain ⟨q, hq⟩ := Option.isSome_iff_exists.mp ((hmatch requests).requested _ _ hgrant rfl)
    obtain ⟨e', he', hplace, hwants, -⟩ := hev.only _ _ _ hq
    obtain ⟨_, -, hreq'⟩ := exists_of_mem_related hrequested he'
    obtain ⟨f', flits', hfront'⟩ := hreq'.front
    obtain ⟨hinput, hvc⟩ := inputAndVC_inj hfront.input hfront.vc hfront'.input hfront'.vc hplace
    rwa [Wants, hinput, hvc]
  have hplace₁ : cfg.inputAndVC e₁.input e₁.vc = cfg.inputAndVC e.input e.vc := by
    rw [hreq.entry]
  refine ⟨e₂, hev.undelayed hdelay.le ▸ mem_append_left rest he₂,
    hgranted.place.trans (by rw [hreq.entry]; rfl), ?_, ?_⟩
  · rw [hgranted.time, hdelay, Int.add_sub_cancel]
  · rw [← hplace₁]
    rcases hgranted.result with ⟨hstall, -⟩ | ⟨-, ⟨-, heq⟩ | ⟨hnone, -⟩⟩
    · exact absurd (hreq.made hwants) (ne_of_lt hstall)
    · exact heq
    · exact absurd (hplace₁ ▸ hgrant) (not_le.mpr hnone)

/-! ## A grant of the switch, and the output VC for it -/

/-- The packet has an output VC, at the output of its grant. -/
structure HasOutput (cfg : RouterConfig) (e : Entry) (v : VC) : Prop where
  state : v.state = .active
  outPort : v.outPort = e.result / cfg.outputSpeedup
  outVC : cfg.IsVC v.outVC

/-- The packets of all grants of the switch have an output VC; or one is granted to them, by an
entry with `P`. -/
def Prepared (cfg : RouterConfig) (P : Entry → Prop) (r : Router) : Prop :=
  ∀ e ∈ r.swAllocVCs, 0 ≤ e.result → HasOutput cfg e (r.vcAt e.input e.vc) ∨
    ∃ e' ∈ r.vcAllocVCs, P e' ∧ e'.place = e.place ∧ 0 ≤ e'.result ∧
      e'.result.tdiv cfg.vcs = e.result / cfg.outputSpeedup

theorem growsFresh_mem_of_nonneg {q q' : List Entry} (h : GrowsFresh q q') (he : e ∈ q')
    (hresult : 0 ≤ e.result) : e ∈ q := by
  obtain ⟨new, rfl, hnew⟩ := h
  refine (mem_append.mp he).elim id fun he => absurd hresult ?_
  rw [(hnew e he).2]
  decide

variable {P : Entry → Prop}

theorem Prepared.roundOf {i v : ℤ} (h : Prepared cfg P r) (hround : RoundOf i v r r')
    (hnone : queued r.swAllocVCs i v = 0) : Prepared cfg P r' := by
  intro e he hresult
  have he := growsFresh_mem_of_nonneg hround.swAlloc he hresult
  refine (h e he hresult).imp (fun hhas => ?_) fun ⟨e', he', hrest⟩ =>
    ⟨e', hround.vcAlloc.mem he', hrest⟩
  rwa [hround.vcAt]
  rintro ⟨rfl, rfl⟩
  exact absurd (queued_pos_iff.mpr ⟨e, he, rfl⟩) (by rw [hnone]; exact lt_irrefl 0)

theorem vcAt_allocated (i v o w : ℤ) (dest : BufferState) :
    (r.allocated cfg i v o w dest).vcAt i v =
      { (r.vcAt i v).setOutput o w with state := .active } := by
  have htaken : (Router.taken { r with vcAllocVCs := r.vcAllocVCs.tail } i v o w dest).vcAt i v =
      { (r.vcAt i v).setOutput o w with state := .active } :=
    vcAt_setVC_self _
  rwa [allocated_eq]

theorem vcAllocItem_prepared {q : List Entry} (hq : r.vcAllocVCs = e' :: q)
    (hitem : vcAllocItem cfg env r e' = .ok r') (h : Prepared cfg P r) : Prepared cfg P r' := by
  have hround := vcAllocItem_roundOf hitem
  obtain ⟨-, -, hstate, hcases⟩ := vcAllocItem_eq_ok hitem
  intro e he hresult
  have he : e ∈ r.swAllocVCs := growsFresh_mem_of_nonneg hround.swAlloc he hresult
  rcases h e he hresult with hhas | ⟨e'', he'', hP, hplace, hgrant, hport⟩
  · -- the packet of the round has no output VC yet
    left
    rw [hround.vcAt]
    · exact hhas
    rintro ⟨hinput, hvc⟩
    rw [← hinput, ← hvc, hhas.state] at hstate
    cases hstate
  · rw [hq] at he''
    rcases mem_cons.mp he'' with rfl | he''
    · have hinput : e''.input = e.input := congrArg Prod.fst hplace
      have hvc : e''.vc = e.vc := congrArg Prod.snd hplace
      rcases hcases with ⟨hneg, -⟩ | ⟨-, o, w, dest, hgranted, -, rfl⟩
      · exact absurd hgrant (not_le.mpr hneg)
      · left
        rw [← hinput, ← hvc, vcAt_allocated]
        exact ⟨rfl, hgranted.output_eq.trans hport, hgranted.vc⟩
    · refine .inr ⟨e'', hround.vcAlloc.mem ?_, hP, hplace, hgrant, hport⟩
      change e'' ∈ r.vcAllocVCs.tail
      rwa [hq]

theorem prepared_kept : KeptByUpdates cfg env (Prepared cfg P) (Tidy cfg) where
  route {r _ e q} hq _ hitem htidy h := by
    obtain ⟨-, -, hstate, -⟩ := routeItem_eq_ok hitem
    have hnone := ((htidy e.input e.vc).1.routing hstate).2.2.2.1
    have htail : Prepared cfg P { r with routeVCs := r.routeVCs.tail } := h
    exact htail.roundOf (routeItem_roundOf hitem) hnone
  vcAlloc hq _ hitem _ h := vcAllocItem_prepared hq hitem h
  swHold {r _ e q} hq _ hitem htidy h := by
    have hnone := (htidy.of_mem_swHold (hq ▸ mem_cons_self : e ∈ r.swHoldVCs)).2.2.2
    have htail : Prepared cfg P { r with swHoldVCs := r.swHoldVCs.tail } := h
    exact htail.roundOf (swHoldItem_roundOf hitem) hnone
  swAlloc {r _ e q} hq _ hitem htidy h := by
    have htail : Prepared cfg P { r with swAllocVCs := r.swAllocVCs.tail } := fun e he =>
      h e (mem_of_mem_tail he)
    refine htail.roundOf (swAllocItem_roundOf hitem) (count_eq_zero.mpr ?_)
    have hnodup := htidy.nodup_swAlloc
    rw [hq] at hnodup
    change e.place ∉ r.swAllocVCs.tail.map Entry.place
    rw [hq]
    exact (nodup_cons.mp hnodup).1
  switch _ _ hitem _ h := by
    obtain ⟨-, -, rfl⟩ := switchItem_eq_ok hitem
    exact h

/-! ## Evaluate -/

theorem vcAllocStage_noted {q₁ q₂ : List Entry} {vcGrants : Matching}
    (hallocator : cfg.hasVCAllocator = true) (hmatch : ∀ t, IsMatching t (env.vcAllocate t))
    (hdelay : cfg.vcAllocDelay = 1) (hfresh : Unstarted .vcAlloc r)
    (h : (if cfg.hasVCAllocator ∧ ¬ r.vcAllocVCs.isEmpty
        then vcAllocEvaluate cfg env { r with routeVCs := q₁ }
        else .ok ({}, { r with routeVCs := q₁ })) =
          .ok (vcGrants, { r with routeVCs := q₁, vcAllocVCs := q₂ })) :
    Noted cfg env r vcGrants q₂ := by
  rcases ite_ok.mp h with ⟨-, h⟩ | ⟨hempty, h⟩
  · have hfresh' : Unstarted .vcAlloc { r with routeVCs := q₁ } := hfresh
    exact vcAllocEvaluate_noted hmatch hdelay hfresh' h
  · have hnil : r.vcAllocVCs = [] := by simpa [hallocator] using hempty
    intro e he
    rw [hnil] at he
    exact absurd he not_mem_nil

theorem evaluateStages_prepared (hspec : cfg.speculative = true)
    (hallocator : cfg.hasVCAllocator = true) (hmatch : env.Matches) (hdelay : cfg.vcAllocDelay = 1)
    (hnow : 0 ≤ env.now) (htidy : Tidy cfg r) (hfresh : Unstarted .vcAlloc r)
    (hstages : evaluateStages cfg env r = .ok r') (htimes : ∀ e ∈ r'.swAllocVCs, e.time = env.now) :
    Prepared cfg (·.time = env.now) r' := by
  obtain ⟨q₁, q₂, q₃, q₄, vcGrants, offset, -, halloc, -, hswitch, rfl⟩ :=
    evaluateStages_eq_ok hstages
  have hnoted := vcAllocStage_noted hallocator hmatch.vcAllocate hdelay hfresh halloc
  intro e he hgrant
  change e ∈ q₄ at he
  rcases ite_ok.mp hswitch with ⟨hempty, hswitch⟩ | ⟨-, hswitch⟩
  · grind
  · obtain ⟨requests, p, p₁, p₂, rest, hev⟩ := swAllocEvaluate_eq_ok hswitch
    have hrechecked := hev.rechecked
    rw [if_neg (by rw [hspec]; simp)] at hrechecked
    obtain ⟨c, hqueue, hc⟩ := hrechecked
    change q₄ = _ at hqueue
    -- no entry is for a later cycle
    have hnone : (p₂ ++ rest).dropWhile (!Entry.isLater env.now ·) = [] := by
      by_contra hne
      have hlater := head_dropWhile_not (!Entry.isLater env.now ·) hne
      have htime := htimes _ (hqueue ▸ mem_append_right c (head_mem hne))
      rw [Bool.not_eq_false', Entry.isLater, htime] at hlater
      have := of_decide_eq_true hlater
      unfold toInt at this
      rw [Int.bmod_def] at this
      omega
    rw [hqueue, hnone, append_nil] at he
    obtain ⟨e₀, -, -, -, hlooked⟩ := exists_of_mem_related hc he
    cases hlooked with
    | stalled hresult he' => exact absurd (he' ▸ hgrant) (not_le.mpr hresult)
    | dropped _ hstall he' =>
      rw [he'] at hgrant
      exact absurd hgrant (not_le.mpr hstall)
    | kept _ _ _ _ husable he' =>
      subst he'
      cases husable with
      | active hstate hport hvc _ => exact .inl ⟨hstate, hport, hvc⟩
      | piggyback _ _ hnone _ => exact absurd (hallocator.symm.trans hnone) (by decide)
      | assigned _ hstate _ hz hport _ =>
        obtain ⟨-, -, hqueued, -⟩ := (htidy e.input e.vc).1.vc_alloc hstate
        rw [if_pos hallocator] at hqueued
        obtain ⟨e₁, he₁, hplace₁⟩ := queued_pos_iff.mp (hqueued ▸ Nat.one_pos)
        have hinput : e₁.input = e.input := congrArg Prod.fst hplace₁
        have hvc : e₁.vc = e.vc := congrArg Prod.snd hplace₁
        rw [← hinput, ← hvc] at hz hport
        obtain ⟨e₂, he₂, hplace₂, htime, hresult⟩ := hnoted e₁ he₁ hz
        exact .inr ⟨e₂, he₂, htime, hplace₂.trans hplace₁, hresult ▸ hz, hresult ▸ hport⟩

theorem SWRechecks.outPort (hcfg : cfg.Accepted) (hmatch : env.Matches)
    (hfresh : Unstarted .swAlloc r) (h : SWRechecks cfg env r e) (hresult : 0 ≤ e.result)
    (hactive : (r.vcAt e.input e.vc).state = .active) :
    (r.vcAt e.input e.vc).outPort = e.result / cfg.outputSpeedup := by
  obtain ⟨asked, granted, hasked, hgranted, he⟩ := h
  obtain ⟨p₁, p₂, hqueue, hpassed⟩ := swAllocPasses_eq_ok hasked hgranted
  have hnew : ∀ e ∈ r.swAllocVCs, (!Entry.isStarted e) = true := fun e he => by
    simpa [Entry.isStarted] using hfresh e.time (mem_map_of_mem he)
  have he := ( takeWhile_prefix _).subset he
  rw [hqueue, dropWhile_eq_nil_iff.mpr hnew, append_nil] at he
  obtain ⟨e₀, -, hplace, o, hasks, houtput⟩ :=
    hpassed.asks hcfg ⟨hmatch.answers.swAllocate _, hmatch.answers.specSWAllocate _⟩ he hresult
  have hinput : e.input = e₀.input := congrArg Prod.fst hplace
  have hvc : e.vc = e₀.vc := congrArg Prod.snd hplace
  rw [hinput, hvc] at hactive ⊢
  rw [houtput, expandedOutput_div hcfg]
  cases hasks with
  | active _ _ _ => rfl
  | speculative hstate _ _ _ => exact absurd (hactive.symm.trans hstate) (by decide)

theorem evaluateStages_outPort (hcfg : cfg.Accepted) (hmatch : env.Matches)
    (hfresh : Unstarted .swAlloc r) :
    evaluateStages cfg env r ≠ .error (.assertion "cur_buf->GetOutputPort(vc) == output") := by
  have hF : ∀ fault : Fault, fault.IsEarly →
      fault ≠ .assertion "cur_buf->GetOutputPort(vc) == output" := fun _ h => h.2
  refine fun herror => (evaluateStages_stops hF (fun q₁ => ?_) (fun q₁ q₂ q₃ vcGrants _ => ?_)
    |>.of_eq_error herror) rfl
  · exact vcAllocEvaluate_stops hF fun e he => vcAllocRecheck_ends hF fun _ => by decide
  · refine swAllocEvaluate_stops hF fun e _ _ he => swAllocRecheck_ends hF (fun _ => by decide) ?_
    exact fun hresult hactive hne => absurd (he.outPort hcfg hmatch hfresh hresult hactive) hne

/-! ## All runs -/

/-- VC allocation and switch allocation take one cycle each. -/
structure Coordinated (cfg : RouterConfig) (env : RouterEnv) (_ : Router) : Prop where
  answers : env.Matches
  vcAllocDelay : cfg.vcAllocDelay = 1
  swAllocDelay : cfg.swAllocDelay = 1

variable {bufCfg : BufferConfig} {now : ℤ}

theorem toSWAllocUpdate_prepared (hspec : cfg.speculative = true)
    (hallocator : cfg.hasVCAllocator = true)
    (hreached : Reached cfg bufCfg (Coordinated cfg) now r) (hnow : env.now = now)
    (hC : Coordinated cfg env r) {s : Bool × Router} (hs : toSWAllocUpdate cfg env r = .ok s) :
    Tidy cfg s.2 ∧ Prepared cfg (fun _ => False) s.2 := by
  obtain ⟨s₂, hs₂, hs⟩ := bind_ok.mp hs
  obtain ⟨s₁, hs₁, hs₂⟩ := bind_ok.mp hs₂
  obtain ⟨s₀, hs₀, hs₁⟩ := bind_ok.mp hs₁
  obtain ⟨r₁, h₁, hs₀⟩ := bind_ok.mp hs₀
  obtain ⟨r₂, h₂, rfl⟩ := bind_return_ok.mp hs₀
  have hpos : 0 ≤ env.now := hnow ▸ hreached.now_nonneg
  have htidy := tidy_kept.inputQueuing h₁ (tidy_reached hreached)
  have hfresh := (unstarted_reached .vcAlloc hC.vcAllocDelay hreached).grow (inputQueuing_times h₁)
  have hswitch := (unstarted_reached .swAlloc hC.swAllocDelay hreached).grow (inputQueuing_times h₁)
  have htimes : ∀ e ∈ r₂.swAllocVCs, e.time = env.now := fun e he => by
    have hmem : e.time ∈ r₂.times .swAlloc := mem_map_of_mem he
    rw [evaluateStages_started .swAlloc hC.swAllocDelay htidy h₂ hswitch] at hmem
    exact eq_of_mem_replicate hmem
  have hprepared := evaluateStages_prepared hspec hallocator hC.answers hC.vcAllocDelay hpos htidy
    hfresh h₂ htimes
  have hkept : KeptByUpdates cfg env fun r => Tidy cfg r ∧ Prepared cfg (·.time = env.now) r :=
    tidy_kept.toKeptByUpdates.and prepared_kept
  obtain ⟨htidy₂, hprepared₂⟩ := KeptByUpdates.updateStage hkept.vcAllocUpdate hs₂
    (KeptByUpdates.updateStage hkept.routeUpdate hs₁
      ⟨tidy_kept.evaluate h₂ trivial htidy, hprepared⟩)
  -- all output VCs of this step have been given
  have hdelay : Stage.delay cfg .vcAlloc = 1 := hC.vcAllocDelay
  have hcaught := vcAllocUpdate_caughtUp (Q := (· = .vcAlloc)) hpos hs₁ hs₂ (fun st hst => by
    rw [hst, hdelay, evaluateStages_started .vcAlloc hdelay htidy h₂ hfresh]
    exact paced_replicate _ _) .vcAlloc rfl
  have hneg := neg_of_later (hdelay ▸ hcaught.1) (hcaught.2 (.inr rfl))
  have hhas : Prepared cfg (fun _ => False) s₂.2 := by
    intro e he hresult
    refine .inl ((hprepared₂ e he hresult).resolve_right ?_)
    rintro ⟨e', he', htime, -⟩
    have hlt := hneg e'.time (mem_map_of_mem he')
    omega
  exact swHoldStage_kept (tidy_kept.toKeptByUpdates.and prepared_kept) hs ⟨htidy₂, hhas⟩

/-- Speculation is sound where VC allocation and switch allocation take one cycle each: the last
pass of Evaluate does not find another output than that of the grant, and a grant that is used is
one for the output of the packet. -/
theorem speculation_sound (hspec : cfg.speculative = true) (hallocator : cfg.hasVCAllocator = true)
    (h : Reached cfg bufCfg (Coordinated cfg) now r) (env : RouterEnv) (hnow : env.now = now)
    (hC : Coordinated cfg env r) :
    (∀ r₁, inputQueuing cfg env r = .ok r₁ →
      evaluateStages cfg env r₁ ≠ .error (.assertion "cur_buf->GetOutputPort(vc) == output")) ∧
    ∀ r' e, SWAllocRound cfg env r r' e → 0 ≤ e.result →
      HasOutput cfg e (r'.vcAt e.input e.vc) := by
  constructor
  · intro r₁ h₁
    exact evaluateStages_outPort h.accepted hC.answers
      ((unstarted_reached .swAlloc hC.swAllocDelay h).grow (inputQueuing_times h₁))
  · rintro r' e ⟨s, hs, hround⟩ hresult
    have hkept : KeptByUpdates cfg env fun r => Tidy cfg r ∧ Prepared cfg (fun _ => False) r :=
      tidy_kept.toKeptByUpdates.and prepared_kept
    obtain ⟨⟨-, hprepared⟩, -, q, hq⟩ := inv_atRound
      (fun hq hc hf => hkept.swAlloc hq hc hf trivial) swAllocItem_queue hround
      (toSWAllocUpdate_prepared hspec hallocator h hnow hC hs)
    exact (hprepared e (hq ▸ mem_cons_self) hresult).resolve_right fun ⟨_, _, hno, _⟩ => hno

/-- … as here, where a packet that can take two outputs waits for an output VC and the switch. -/
theorem speculation_sound_packet :
    let cfg : RouterConfig :=
      { inputs := 1, outputs := 2, vcs := 1, classes := 1, speculative := true }
    let env := RouterEnv.greedy cfg fun _ _ => (OutputSet.clear.addRange 0 0 0 0).addRange 1 0 0 1
    let f : Flit :=
      { id := 0, pid := 0, cl := 0, src := 0, dest := 0, vc := 0, head := true, tail := true }
    ∃ s, play cfg { numVCs := 1 } [{ flits := fun _ => some f, env }] = .ok s ∧
      s.2.swAllocVCs.length = 1 ∧
      ∀ r' e, SWAllocRound cfg { env with now := s.1 } s.2 r' e → 0 ≤ e.result →
        HasOutput cfg e (r'.vcAt e.input e.vc) := by
  intro cfg env f
  have hC : ∀ now r, Coordinated cfg { env with now := now } r := fun now _ =>
    ⟨(RouterEnv.matches_greedy _ _).at now, rfl, rfl⟩
  obtain ⟨s, hs, hqueue, hreached⟩ := @exists_reached cfg { numVCs := 1 } (Coordinated cfg) env
    [{ flits := fun _ => some f, env }] (fun s => s.2.swAllocVCs.length = 1) (by decide) rfl
    (by simp) hC (by decide +kernel)
  exact ⟨s, hs, of_decide_eq_true hqueue,
    (speculation_sound rfl rfl hreached { env with now := s.1 } rfl (hC _ _)).2⟩

/-- With a VC allocation of two cycles, the output VC that the last pass has seen granted is not
there when the grant of the switch is used.  With a switch allocation of two cycles, a packet that
has been granted a passage to one output is given an output VC of another one: here the VC of
output 0 is taken, but this is not looked at before the switch is asked for. -/
theorem speculation_unsound : (let cfg : RouterConfig :=
      { inputs := 1, outputs := 1, vcs := 1, classes := 1, speculative := true, vcAllocDelay := 2 }
    let env := RouterEnv.greedy cfg fun _ _ => OutputSet.clear.addRange 0 0 0 0
    let f : Flit :=
      { id := 0, pid := 0, cl := 0, src := 0, dest := 0, vc := 0, head := true, tail := true }
    play cfg { numVCs := 1 } [{ flits := fun _ => some f, env }, { env }] =
      .error (.assertion "cur_buf->GetOutputPort(vc) == output")) ∧
    let cfg : RouterConfig :=
      { inputs := 1, outputs := 2, vcs := 1, classes := 1, speculative := true, swAllocDelay := 2
        specCheckElig := false, specCheckCred := false }
    let env := RouterEnv.greedy cfg fun _ f => if f.dest = 0 then OutputSet.clear.addRange 0 0 0 0
      else (OutputSet.clear.addRange 0 0 0 0).addRange 1 0 0 1
    let f : Flit :=
      { id := 0, pid := 0, cl := 0, src := 0, dest := 0, vc := 0, head := true, tail := true }
    play cfg { numVCs := 1, waitForTailCredit := true }
        [{ flits := fun _ => some f, env }, { env }, { env }, { env },
          { flits := fun _ => some { f with id := 1, pid := 1, dest := 1 }, env }, { env },
          { env }] =
      .error (.assertion "cur_buf->GetOutputPort(vc) == output") :=
  ⟨eq_error_of_stops (by decide +kernel), eq_error_of_stops (by decide +kernel)⟩

end Router

end BookSim
