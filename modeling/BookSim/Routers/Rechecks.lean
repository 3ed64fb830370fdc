/-
# Rechecks — what stops an Evaluate half

The Evaluate halves are full of assertions.  Two of them are made only where a grant is looked
at again, in a last pass over the queue:

    time >= 0                                  the entry has been started
    cur_buf->GetOutputPort(vc) == output       the grant is for the output the packet has

All the others come earlier (`Fault.IsEarly`); so an Evaluate that is stopped by one of the two
is stopped in that pass.
-/
import BookSim.Routers.SwitchAllocation

namespace BookSim

/-- Not one of the checks that are made only where a grant is looked at again. -/
def Fault.IsEarly (fault : Fault) : Prop :=
  fault ≠ .assertion "time >= 0" ∧ fault ≠ .assertion "cur_buf->GetOutputPort(vc) == output"

instance (fault : Fault) : Decidable fault.IsEarly := inferInstanceAs (Decidable (_ ∧ _))

/-- The program may only be stopped by another check. -/
abbrev Early {α : Type} (x : Except Fault α) : Prop := Ends (fun _ => True) Fault.IsEarly x

theorem early_require {α : Type} {text : String} {p : Prop} [Decidable p]
    {f : PUnit → Except Fault α} (htext : (Fault.assertion text).IsEarly) (hf : Early (f ⟨⟩)) :
    Early (require (.assertion text) p >>= f) :=
  .require (fun _ => hf) fun _ => htext

theorem early_bind {α β : Type} {x : Except Fault α} {f : α → Except Fault β} (hx : Early x)
    (hf : ∀ a, Early (f a)) : Early (x >>= f) :=
  hx.bind fun a _ => hf a

theorem early_foldlM {σ β : Type} {f : σ → β → Except Fault σ} {xs : List β} {s : σ}
    (hf : ∀ s b, Early (f s b)) : Early (xs.foldlM f s) :=
  Ends.foldlM (fun s b _ _ => hf s b) trivial

theorem walk_ends {σ β : Type} {F : Fault → Prop} {stop : β → Bool}
    {f : σ → β → Except Fault (σ × β)} {q : List β}
    (hf : ∀ s, ∀ e ∈ q.takeWhile (!stop ·), Ends (fun _ => True) F (f s e)) (s : σ) :
    Ends (fun _ => True) F (walk stop f s q) := by
  induction q generalizing s with
  | nil => exact .returns _
  | cons e q ih =>
    rw [walk]
    refine .ite (fun _ => .returns _) fun hgo => ?_
    rw [List.takeWhile_cons_of_pos (by simpa using hgo)] at hf
    refine (hf s e List.mem_cons_self).bind fun first _ => ?_
    exact (ih (fun s e he => hf s e (List.mem_cons_of_mem _ he)) first.1).bind fun _ _ => .returns _

namespace Router

variable {cfg : RouterConfig} {env : RouterEnv} {r : Router}

/-! ## Parts of the stages -/

theorem front_early (e : Entry) : Early (r.front cfg e) := by
  refine early_require (by decide) (early_require (by decide) ?_)
  split
  · exact .error (by decide)
  · exact early_require (by decide) (.returns _)

theorem frontHead_early (s : VCState) (e : Entry) : Early (r.frontHead cfg s e) :=
  early_bind (front_early e) fun _ =>
    early_require (by decide) (early_require (by decide) (.returns _))

theorem frontForSwitch_early (e : Entry) : Early (r.frontForSwitch cfg e) :=
  early_bind (front_early e) fun _ => early_require (by decide) (.returns _)

theorem vcRange_early (i v : ℤ) (se : SetElement) : Early (r.vcRange cfg i v se) :=
  early_require (by decide) (early_require (by decide) (early_require (by decide)
    (early_require (by decide) (.returns _))))

theorem setList_early (i v : ℤ) : Early (r.setList cfg i v) := by
  unfold setList
  split
  · exact .error (by decide)
  · exact early_require (by decide) (.returns _)

theorem splitOutputVC_early (x : ℤ) : Early (splitOutputVC cfg x) :=
  early_require (by decide) (early_require (by decide) (.returns _))

theorem demote_early (pri : ℤ) : Early (demote pri) := early_require (by decide) (.returns _)

theorem add_early (t : Requests) (x y : ℤ) (q : Request) : Early (t.add x y q) :=
  early_require (by decide) (.returns _)

theorem addOrReplace_early (t : Requests) (x y v pri offset vcs : ℤ) :
    Early (t.addOrReplace x y v pri offset vcs) := by
  unfold Requests.addOrReplace
  split
  · exact add_early _ _ _ _
  · exact .ite (fun _ => add_early _ _ _ _) fun _ => .returns _

/-! ## The passes before the last -/

theorem vcPriority_early (o w pri : ℤ) : Early (r.vcPriority cfg o w pri) :=
  .ite (fun _ => demote_early pri) fun _ => .returns _

theorem bidForVC_early (e : Entry) (se : SetElement) (bid : VCBid) (w : ℤ) :
    Early (r.bidForVC cfg env e se bid w) := by
  refine early_bind (vcPriority_early _ _ _) fun pri => .ite (fun _ => .returns _) fun _ => ?_
  exact .ite (fun _ => .returns _) fun _ => early_bind (add_early _ _ _ _) fun _ => .returns _

theorem vcAllocRequest_early (t : Requests) (e : Entry) : Early (r.vcAllocRequest cfg env t e) := by
  refine early_require (by decide) (early_bind (frontHead_early _ _) fun _ => ?_)
  refine early_bind (setList_early _ _) fun setlist => early_bind ?_ fun _ => .returns _
  refine early_foldlM fun bid se => early_require (by decide) ?_
  exact early_bind (vcRange_early _ _ _) fun _ => early_foldlM (bidForVC_early e se)

theorem vcAllocGrant_early (grants : Matching) (e : Entry) :
    Early (r.vcAllocGrant cfg env grants () e) := by
  refine .ite (fun _ => .returns _) fun _ => early_require (by decide) ?_
  refine early_bind (frontHead_early _ _) fun _ => .ite (fun _ => ?_) fun _ => .returns _
  exact early_bind (splitOutputVC_early _) fun _ => .returns _

theorem routeEvaluate_early : Early (r.routeEvaluate cfg env) := by
  refine early_require (by decide) (early_bind (walk_ends (fun _ e _ => ?_) ()) fun _ => .returns _)
  exact early_bind (frontHead_early _ e) fun _ => .returns _

theorem swHoldEvaluate_early : Early (r.swHoldEvaluate cfg env) := by
  refine early_require (by decide) (early_bind (walk_ends (fun _ e _ => ?_) ()) fun _ => .returns _)
  refine early_require (by decide) (early_bind (front_early e) fun _ => ?_)
  exact early_require (by decide) (early_require (by decide) (early_require (by decide)
    (early_require (by decide) (early_require (by decide) (.returns _)))))

theorem swAllocAddReq_early (t : SWRequests) (i v o : ℤ) : Early (r.swAllocAddReq cfg t i v o) := by
  refine .ite (fun _ => .ite (fun _ => .ite (fun _ => ?_) fun _ => ?_) fun _ => ?_) fun _ =>
    .returns _
  · exact early_bind (addOrReplace_early _ _ _ _ _ _ _) fun _ => .returns _
  · exact early_bind (demote_early _) fun _ =>
      early_bind (addOrReplace_early _ _ _ _ _ _ _) fun _ => .returns _
  · exact early_bind (addOrReplace_early _ _ _ _ _ _ _) fun _ => .returns _

theorem swAllocSpeculate_early (e : Entry) (acc : SWRequests × ℤ) (se : SetElement) :
    Early (r.swAllocSpeculate cfg env e acc se) := by
  refine early_require (by decide) (early_bind ?_ fun outVCs => ?_)
  · exact .ite (fun _ => vcRange_early _ _ _) fun _ => .returns _
  · refine .ite (fun _ => .returns _) fun _ => .ite (fun _ => .returns _) fun _ => ?_
    exact early_bind (swAllocAddReq_early _ _ _ _) fun _ => .returns _

theorem swAllocRequest_early (t : SWRequests) (e : Entry) :
    Early (r.swAllocRequest cfg env t e) := by
  refine early_require (by decide) (early_require (by decide) ?_)
  refine early_bind (frontForSwitch_early e) fun f => .ite (fun _ => ?_) fun _ => ?_
  · refine early_require (by decide) (early_require (by decide) ?_)
    refine .ite (fun _ => .returns _) fun _ => ?_
    exact early_bind (swAllocAddReq_early _ _ _ _) fun _ => .returns _
  · refine early_require (by decide) (early_bind (setList_early _ _) fun _ => ?_)
    exact early_bind (early_foldlM (swAllocSpeculate_early e)) fun _ => .returns _

theorem swAllocGrant_early (t : SWRequests) (grants specGrants : Matching) (offset : ℤ → ℤ)
    (e : Entry) : Early (r.swAllocGrant cfg env t grants specGrants offset e) := by
  refine .ite (fun _ => .returns _) fun _ => early_require (by decide) ?_
  refine early_bind (frontForSwitch_early e) fun _ => .ite (fun _ => ?_) fun _ =>
    .ite (fun _ => ?_) ?_
  · exact early_require (by decide) (.ite (fun _ => .returns _) fun _ => .returns _)
  · exact early_require (by decide) (.ite (fun _ => .returns _) fun _ => .returns _)
  · exact fun _ => .returns _

/-! ## The last pass -/

theorem piggybackStall_early (e : Entry) (o : ℤ) : Early (r.piggybackStall cfg env e o) := by
  refine early_bind (setList_early _ _) fun _ => early_bind ?_ fun _ => .returns _
  refine early_foldlM fun found se => .ite (fun _ => .returns _) fun _ => ?_
  exact early_bind (vcRange_early _ _ _) fun _ => .returns _

variable {F : Fault → Prop}

theorem vcAllocRecheck_ends {e : Entry} (hF : ∀ fault, fault.IsEarly → F fault)
    (htime : ¬ 0 ≤ e.time → F (.assertion "time >= 0")) :
    Ends (fun _ => True) F (r.vcAllocRecheck cfg env () e) := by
  refine .require (fun _ => Ends.mono ?_ (fun _ => id) hF) htime
  refine early_require (by decide) (.ite (fun _ => ?_) fun _ => .returns _)
  refine early_bind (splitOutputVC_early _) fun matched =>
    early_bind (frontHead_early _ e) fun _ => ?_
  exact .ite (fun _ => .returns _) fun _ => .ite (fun _ => .returns _) fun _ => .returns _

theorem swAllocRecheck_ends {vcGrants : Matching} {e : Entry}
    (hF : ∀ fault, fault.IsEarly → F fault)
    (htime : ¬ 0 ≤ toInt e.time → F (.assertion "time >= 0"))
    (hport : 0 ≤ e.result → (r.vcAt e.input e.vc).state = .active →
      (r.vcAt e.input e.vc).outPort ≠ e.result / cfg.outputSpeedup →
      F (.assertion "cur_buf->GetOutputPort(vc) == output")) :
    Ends (fun _ => True) F (r.swAllocRecheck cfg env vcGrants () e) := by
  have early : ∀ {x : Except Fault (Unit × Entry)}, Early x → Ends (fun _ => True) F x :=
    fun h => h.mono (fun _ => id) hF
  refine .require (fun _ => .require (fun _ => ?_) fun _ => hF _ (by decide)) htime
  refine .ite (fun hresult => ?_) fun _ => .returns _
  refine .require (fun _ => .require (fun _ => .require (fun _ => ?_) fun _ => hF _ (by decide))
    fun _ => hF _ (by decide)) fun _ => hF _ (by decide)
  refine ((frontForSwitch_early e).mono (fun _ => id) hF).eq_ok.bind fun f hf => ?_
  refine .ite (fun _ => .returns _) fun _ => .ite (fun _ => early ?_) fun hstate => ?_
  · refine early_require (by decide) (.ite (fun _ => .returns _) fun _ => ?_)
    exact early_bind (piggybackStall_early e _) fun _ => .returns _
  · have hactive := (frontForSwitch_eq_ok hf).2.resolve_right hstate
    refine .require (fun _ => early ?_) (hport hresult hactive)
    exact early_require (by decide) (.ite (fun _ => .returns _) fun _ => .returns _)

/-- The entries that the last pass of VC allocation comes to. -/
def VCRechecks (cfg : RouterConfig) (env : RouterEnv) (r : Router) (e : Entry) : Prop :=
  ∃ requested granted,
    walk Entry.isStarted (r.vcAllocRequest cfg env) Requests.clear r.vcAllocVCs = .ok requested ∧
    walk Entry.isStarted (r.vcAllocGrant cfg env (env.vcAllocate requested.1)) () requested.2 =
      .ok granted ∧
    e ∈ granted.2.takeWhile fun e => !decide (env.now < e.time)

/-- The entries that the last pass of switch allocation comes to. -/
def SWRechecks (cfg : RouterConfig) (env : RouterEnv) (r : Router) (e : Entry) : Prop :=
  ∃ requested granted,
    walk Entry.isStarted (r.swAllocRequest cfg env) {} r.swAllocVCs = .ok requested ∧
    walk Entry.isStarted (r.swAllocGrant cfg env requested.1 (env.swAllocate requested.1.nonspec)
      (env.specSWAllocate requested.1.spec)) r.swRROffset requested.2 = .ok granted ∧
    e ∈ granted.2.takeWhile fun e => !decide (env.now < toInt e.time)

theorem vcAllocEvaluate_stops (hF : ∀ fault, fault.IsEarly → F fault)
    (hcheck : ∀ e, VCRechecks cfg env r e →
      Ends (fun _ => True) F (r.vcAllocRecheck cfg env () e)) :
    Ends (fun _ => True) F (r.vcAllocEvaluate cfg env) := by
  have early : ∀ {α : Type} {x : Except Fault α}, Early x → Ends (fun _ => True) F x :=
    fun h => h.mono (fun _ => id) hF
  refine (early (walk_ends (fun t e _ => vcAllocRequest_early t e) _)).eq_ok.bind
    fun asked hasked => ?_
  refine (early (walk_ends (fun _ e _ => vcAllocGrant_early _ e) ())).eq_ok.bind
    fun granted hgranted => ?_
  refine .ite (fun _ => .returns _) fun _ => ?_
  refine (walk_ends (fun _ e he => hcheck e ⟨asked, granted, hasked, hgranted, he⟩) ()).bind ?_
  exact fun _ _ => .returns _

theorem swAllocEvaluate_stops {vcGrants : Matching} (hF : ∀ fault, fault.IsEarly → F fault)
    (hcheck : ∀ e offset q, SWRechecks cfg env r e → Ends (fun _ => True) F
      (swAllocRecheck cfg env { r with swAllocVCs := q, swRROffset := offset } vcGrants () e)) :
    Ends (fun _ => True) F (r.swAllocEvaluate cfg env vcGrants) := by
  have early : ∀ {α : Type} {x : Except Fault α}, Early x → Ends (fun _ => True) F x :=
    fun h => h.mono (fun _ => id) hF
  refine (early (walk_ends (fun t e _ => swAllocRequest_early t e) _)).eq_ok.bind
    fun asked hasked => ?_
  refine (early (walk_ends (fun _ e _ => swAllocGrant_early _ _ _ _ e) _)).eq_ok.bind
    fun granted hgranted => ?_
  refine .ite (fun _ => .returns _) fun _ => ?_
  refine (walk_ends (fun _ e he => hcheck e _ _ ⟨asked, granted, hasked, hgranted, he⟩) ()).bind ?_
  exact fun _ _ => .returns _

/-- An Evaluate is stopped by one of the last checks only in one of the two last passes. -/
theorem evaluateStages_stops (hF : ∀ fault, fault.IsEarly → F fault)
    (hvc : ∀ q₁, Ends (fun _ => True) F (vcAllocEvaluate cfg env { r with routeVCs := q₁ }))
    (hsw : ∀ q₁ q₂ q₃ vcGrants, (if cfg.hasVCAllocator ∧ ¬ r.vcAllocVCs.isEmpty
        then vcAllocEvaluate cfg env { r with routeVCs := q₁ }
        else .ok ({}, { r with routeVCs := q₁ })) =
          .ok (vcGrants, { r with routeVCs := q₁, vcAllocVCs := q₂ }) →
      Ends (fun _ => True) F (swAllocEvaluate cfg env
        { r with routeVCs := q₁, vcAllocVCs := q₂, swHoldVCs := q₃ } vcGrants)) :
    Ends (fun _ => True) F (evaluateStages cfg env r) := by
  have early : ∀ {α : Type} {x : Except Fault α}, Early x → Ends (fun _ => True) F x :=
    fun h => h.mono (fun _ => id) hF
  refine (early (.ite (fun _ => .returns _) fun _ => routeEvaluate_early)).eq_ok.bind
    fun r₁ h₁ => ?_
  obtain ⟨q₁, rfl⟩ := routeStage_eq_ok h₁
  refine (Ends.ite (fun _ => hvc q₁) fun _ => .returns _).eq_ok.bind fun allocated h₂ => ?_
  obtain ⟨vcGrants, r₂⟩ := allocated
  obtain ⟨q₂, rfl⟩ := vcAllocStage_eq_ok h₂
  have hhold : Early (if cfg.holdSwitchForPacket
      then unlessEmpty swHoldVCs (swHoldEvaluate cfg env)
        { r with routeVCs := q₁, vcAllocVCs := q₂ }
      else .ok { r with routeVCs := q₁, vcAllocVCs := q₂ }) :=
    .ite (fun _ => .ite (fun _ => .returns _) fun _ => swHoldEvaluate_early) fun _ => .returns _
  refine (early hhold).eq_ok.bind fun r₃ h₃ => ?_
  obtain ⟨q₃, rfl⟩ := swHoldStage_eq_ok h₃
  refine (Ends.ite (fun _ => .returns _) fun _ => hsw q₁ q₂ q₃ vcGrants h₂).bind fun r₄ _ => ?_
  exact .returns _

end Router

end BookSim
