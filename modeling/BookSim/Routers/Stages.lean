/-
# Stages — what the Evaluate halves leave as it was

An Evaluate half writes times and results into the queue of its stage, and nothing else
(`Evaluated`):

    places     every entry stays that of its VC, in its place in the queue
    passages   every flit in the crossbar keeps its way
    the rest   is the same, but for the offsets of the switch arbiters
-/
import BookSim.Routers.IQRouter

namespace BookSim

def Entry.place (e : Entry) : ℤ × ℤ := (e.input, e.vc)

/-- A flit in the crossbar and the way it takes, without its time. -/
def Crossing.passage (c : Crossing) : Flit × ℤ × ℤ := (c.flit, c.expandedInput, c.expandedOutput)

namespace Router

variable {cfg : RouterConfig} {env : RouterEnv} {r : Router}

/-- The entry stays that of its VC. -/
abbrev KeepsPlace {σ : Type} (e : Entry) (x : Except Fault (σ × Entry)) : Prop :=
  Ends (fun s => s.2.place = e.place) (fun _ => True) x

theorem walk_places {σ : Type} {stop : Entry → Bool} {f : σ → Entry → Except Fault (σ × Entry)}
    (hf : ∀ s e, KeepsPlace e (f s e)) : ∀ (s : σ) (q : List Entry),
      Ends (fun t => t.2.map Entry.place = q.map Entry.place) (fun _ => True) (walk stop f s q)
  | _, [] => .ok rfl
  | s, e :: q => by
    rw [walk]
    refine .ite (fun _ => .ok rfl) fun _ => (hf s e).bind fun first hfirst => ?_
    refine (walk_places hf first.1 q).bind fun rest hrest => .ok ?_
    rw [List.map_cons, List.map_cons, hfirst, hrest]

theorem vcAllocRequest_place (requests : Requests) (e : Entry) :
    KeepsPlace e (r.vcAllocRequest cfg env requests e) :=
  .bind_any fun _ => .bind_any fun _ => .bind_any fun _ => .bind_any fun _ => .ok rfl

theorem vcAllocGrant_place (grants : Matching) (e : Entry) :
    KeepsPlace e (r.vcAllocGrant cfg env grants () e) := by
  refine .ite (fun _ => .ok rfl) fun _ => .bind_any fun _ => .bind_any fun _ => ?_
  exact .ite (fun _ => .bind_any fun _ => .ok rfl) fun _ => .ok rfl

theorem vcAllocRecheck_place (e : Entry) : KeepsPlace e (r.vcAllocRecheck cfg env () e) := by
  refine .bind_any fun _ => .bind_any fun _ => .ite (fun _ => ?_) fun _ => .ok rfl
  refine .bind_any fun _ => .bind_any fun _ => .ite (fun _ => .ok rfl) fun _ => ?_
  exact .ite (fun _ => .ok rfl) fun _ => .ok rfl

theorem swHoldEntry_place (e : Entry) : KeepsPlace e (r.swHoldEntry cfg env () e) :=
  .bind_any fun _ => .bind_any fun _ => .bind_any fun _ => .bind_any fun _ => .bind_any fun _ =>
    .bind_any fun _ => .bind_any fun _ => .ok rfl

theorem swAllocRequest_place (requests : SWRequests) (e : Entry) :
    KeepsPlace e (r.swAllocRequest cfg env requests e) := by
  refine .bind_any fun _ => .bind_any fun _ => .bind_any fun f => .ite (fun _ => ?_) fun _ => ?_
  · refine .bind_any fun _ => .bind_any fun _ => .ite (fun _ => .ok rfl) fun _ => ?_
    exact .bind_any fun _ => .ok rfl
  · exact .bind_any fun _ => .bind_any fun _ => .bind_any fun _ => .ok rfl

theorem swAllocGrant_place (requests : SWRequests) (grants specGrants : Matching)
    (offset : ℤ → ℤ) (e : Entry) :
    KeepsPlace e (r.swAllocGrant cfg env requests grants specGrants offset e) := by
  refine .ite (fun _ => .ok rfl) fun _ => .bind_any fun _ => .bind_any fun _ => ?_
  refine .ite (fun _ => .bind_any fun _ => ?_) fun _ =>
    .ite (fun _ => .bind_any fun _ => ?_) fun _ => .ok rfl
  · exact .ite (fun _ => .ok rfl) fun _ => .ok rfl
  · exact .ite (fun _ => .ok rfl) fun _ => .ok rfl

theorem swAllocRecheck_place (vcGrants : Matching) (e : Entry) :
    KeepsPlace e (r.swAllocRecheck cfg env vcGrants () e) := by
  refine .bind_any fun _ => .bind_any fun _ => .ite (fun _ => ?_) fun _ => .ok rfl
  refine .bind_any fun _ => .bind_any fun _ => .bind_any fun _ => .bind_any fun f => ?_
  refine .ite (fun _ => .ok rfl) fun _ => .ite (fun _ => .bind_any fun _ => ?_) fun _ => ?_
  · exact .ite (fun _ => .ok rfl) fun _ => .bind_any fun _ => .ok rfl
  · exact .bind_any fun _ => .bind_any fun _ => .ite (fun _ => .ok rfl) fun _ => .ok rfl

/-- What the Evaluate halves leave as it was: all but the times and results in the queues, and
the offsets of the switch arbiters. -/
structure Evaluated (r r' : Router) : Prop where
  route : r'.routeVCs.map Entry.place = r.routeVCs.map Entry.place
  vcAlloc : r'.vcAllocVCs.map Entry.place = r.vcAllocVCs.map Entry.place
  swHold : r'.swHoldVCs.map Entry.place = r.swHoldVCs.map Entry.place
  swAlloc : r'.swAllocVCs.map Entry.place = r.swAllocVCs.map Entry.place
  crossbar : r'.crossbarFlits.map Crossing.passage = r.crossbarFlits.map Crossing.passage
  same : r' = { r with
    routeVCs := r'.routeVCs
    vcAllocVCs := r'.vcAllocVCs
    swHoldVCs := r'.swHoldVCs
    swAllocVCs := r'.swAllocVCs
    crossbarFlits := r'.crossbarFlits
    swRROffset := r'.swRROffset }

theorem Evaluated.refl (r : Router) : Evaluated r r := ⟨rfl, rfl, rfl, rfl, rfl, rfl⟩

theorem Evaluated.trans {r₁ r₂ r₃ : Router} (h : Evaluated r₁ r₂) (h' : Evaluated r₂ r₃) :
    Evaluated r₁ r₃ where
  route := h'.route.trans h.route
  vcAlloc := h'.vcAlloc.trans h.vcAlloc
  swHold := h'.swHold.trans h.swHold
  swAlloc := h'.swAlloc.trans h.swAlloc
  crossbar := h'.crossbar.trans h.crossbar
  same := by rw [h'.same, h.same]

theorem routeEvaluate_ends : Ends (Evaluated r) (fun _ => True) (r.routeEvaluate cfg env) := by
  refine .bind_any fun _ => (walk_places (fun _ e => ?_) () r.routeVCs).bind fun walked hwalked =>
    .ok ⟨hwalked, rfl, rfl, rfl, rfl, rfl⟩
  exact .bind_any fun _ => .ok rfl

theorem vcAllocEvaluate_ends :
    Ends (fun s => Evaluated r s.2) (fun _ => True) (r.vcAllocEvaluate cfg env) := by
  refine (walk_places vcAllocRequest_place _ _).bind fun requested hrequested => ?_
  refine (walk_places (fun _ e => vcAllocGrant_place _ e) _ _).bind fun granted hgranted => ?_
  refine .ite (fun _ => .ok ?_) fun _ => ?_
  · exact ⟨rfl, hgranted.trans hrequested, rfl, rfl, rfl, rfl⟩
  · refine (walk_places (fun _ e => vcAllocRecheck_place e) _ _).bind fun checked hchecked => .ok ?_
    exact ⟨rfl, hchecked.trans (hgranted.trans hrequested), rfl, rfl, rfl, rfl⟩

theorem swHoldEvaluate_ends : Ends (Evaluated r) (fun _ => True) (r.swHoldEvaluate cfg env) := by
  refine .bind_any fun _ =>
    (walk_places (fun _ e => swHoldEntry_place e) _ _).bind fun walked hwalked => .ok ?_
  exact ⟨rfl, rfl, hwalked, rfl, rfl, rfl⟩

theorem swAllocEvaluate_ends (vcGrants : Matching) :
    Ends (Evaluated r) (fun _ => True) (r.swAllocEvaluate cfg env vcGrants) := by
  refine (walk_places swAllocRequest_place _ _).bind fun requested hrequested => ?_
  refine (walk_places (swAllocGrant_place _ _ _) _ _).bind fun granted hgranted => ?_
  refine .ite (fun _ => .ok ?_) fun _ => ?_
  · exact ⟨rfl, rfl, rfl, hgranted.trans hrequested, rfl, rfl⟩
  · refine (walk_places (fun _ e => swAllocRecheck_place vcGrants e) _ _).bind
      fun checked hchecked =>
      .ok ?_
    exact ⟨rfl, rfl, rfl, hchecked.trans (hgranted.trans hrequested), rfl, rfl⟩

theorem switchEvaluate_evaluated : Evaluated r (r.switchEvaluate cfg env) := by
  refine ⟨rfl, rfl, rfl, rfl, ?_, rfl⟩
  simp only [switchEvaluate, List.map_append, List.map_map]
  conv_rhs => rw [← List.takeWhile_append_dropWhile (p := (!·.isStarted)) (l := r.crossbarFlits),
    List.map_append]
  rfl

theorem evaluated_unlessEmpty {β : Type} {queue : Router → List β}
    {stage : Router → Except Fault Router}
    (h : Ends (Evaluated r) (fun _ => True) (stage r)) :
    Ends (Evaluated r) (fun _ => True) (unlessEmpty queue stage r) :=
  .ite (fun _ => .ok (.refl r)) fun _ => h

theorem evaluateStages_ends : Ends (Evaluated r) (fun _ => True) (evaluateStages cfg env r) := by
  refine (evaluated_unlessEmpty routeEvaluate_ends).bind fun r₁ h₁ => ?_
  refine Ends.bind (P := fun s => Evaluated r s.2) ?_ fun s h₂ => ?_
  · exact .ite (fun _ => vcAllocEvaluate_ends.mono_ok fun _ => h₁.trans) fun _ => .ok h₁
  refine Ends.bind (P := Evaluated r) ?_ fun r₃ h₃ => ?_
  · refine .ite (fun _ => ?_) fun _ => .ok h₂
    exact (evaluated_unlessEmpty swHoldEvaluate_ends).mono_ok fun _ => h₂.trans
  refine (evaluated_unlessEmpty (swAllocEvaluate_ends s.1)).bind fun r₄ h₄ => .ok ?_
  exact (h₃.trans h₄).trans switchEvaluate_evaluated

end Router

end BookSim
