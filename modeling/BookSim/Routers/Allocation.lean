/-
# Allocation — what an allocator owes the router

The router works with whatever it is answered.  Where a property of the router depends on the
answers, it is assumed that all of them are matchings (`RouterEnv.Matches`), and nothing else;
`greedy` is an allocator that grants what it can in the order of the requests.
-/
import BookSim.Allocators.PIM
import BookSim.Routers.IQRouter

namespace BookSim

open Function (update)

/-- All answers are matchings. -/
structure RouterEnv.Matches (env : RouterEnv) : Prop where
  vcAllocate : ∀ t, IsMatching t (env.vcAllocate t)
  swAllocate : ∀ t, IsMatching t (env.swAllocate t)
  specSWAllocate : ∀ t, IsMatching t (env.specSWAllocate t)

/-- What the switch needs of an answer: only requests are granted, and an output only to the input
that is noted for it. -/
structure IsAnswer (t : Requests) (m : Matching) : Prop where
  requested : ∀ a b, 0 ≤ b → m.outputAssigned a = b → (t a b).isSome = true
  noted : ∀ a b, 0 ≤ a → 0 ≤ b → m.outputAssigned a = b → m.inputAssigned b = a

/-- The answers about the switch are such. -/
structure RouterEnv.Answers (env : RouterEnv) : Prop where
  swAllocate : ∀ t, IsAnswer t (env.swAllocate t)
  specSWAllocate : ∀ t, IsAnswer t (env.specSWAllocate t)

theorem IsMatching.isAnswer {t : Requests} {m : Matching} (h : IsMatching t m) : IsAnswer t m :=
  ⟨h.requested, fun a b ha hb => (h.inverse a b ha hb).mp⟩

theorem RouterEnv.Matches.answers {env : RouterEnv} (h : env.Matches) : env.Answers :=
  ⟨fun t => (h.swAllocate t).isAnswer, fun t => (h.specSWAllocate t).isAnswer⟩

namespace Matching

/-- Grants a request if both sides are still free. -/
def grant (t : Requests) (m : Matching) (a b : ℤ) : Matching :=
  if (t a b).isSome ∧ m.outputAssigned a < 0 ∧ m.inputAssigned b < 0 then
    { outputAssigned := update m.outputAssigned a b
      inputAssigned := update m.inputAssigned b a }
  else m

def greedy (inputs outputs : ℕ) (t : Requests) : Matching :=
  (List.range inputs).foldl (fun m (a : ℕ) =>
    (List.range outputs).foldl (fun m (b : ℕ) => m.grant t a b) m) {}

theorem isMatching_grant {t : Requests} {m : Matching} (a b : ℤ) (h : IsMatching t m) :
    IsMatching t (m.grant t a b) := by
  unfold grant
  split_ifs with hfree
  · exact h.assign hfree.1 hfree.2.1 hfree.2.2
  · exact h

theorem isMatching_greedy (inputs outputs : ℕ) (t : Requests) :
    IsMatching t (greedy inputs outputs t) := by
  unfold greedy
  refine List.foldlRecOn _ _ (isMatching_empty t) fun m hm a _ => ?_
  exact List.foldlRecOn _ _ hm fun m hm b _ => isMatching_grant a b hm

end Matching

namespace RouterEnv

/-- Greedy allocators, and a routing function. -/
def greedy (cfg : RouterConfig) (route : ℤ → Flit → OutputSet) : RouterEnv where
  now := 0
  route := route
  nextRoute := fun _ _ => .clear
  sinkOutputs := fun _ => none
  vcAllocate := Matching.greedy (cfg.inputs * cfg.vcs) (cfg.outputs * cfg.vcs)
  swAllocate := Matching.greedy (cfg.inputs * cfg.inputSpeedup.toNat)
    (cfg.outputs * cfg.outputSpeedup.toNat)
  specSWAllocate := Matching.greedy (cfg.inputs * cfg.inputSpeedup.toNat)
    (cfg.outputs * cfg.outputSpeedup.toNat)

theorem matches_greedy (cfg : RouterConfig) (route : ℤ → Flit → OutputSet) :
    (greedy cfg route).Matches where
  vcAllocate := Matching.isMatching_greedy _ _
  swAllocate := Matching.isMatching_greedy _ _
  specSWAllocate := Matching.isMatching_greedy _ _

theorem matches_pim {env : RouterEnv} {vc sw spec : PIM} {draws : Draws}
    (hvc : ∀ t, env.vcAllocate t = ((vc.load t).allocate draws).matching)
    (hsw : ∀ t, env.swAllocate t = ((sw.load t).allocate draws).matching)
    (hspec : ∀ t, env.specSWAllocate t = ((spec.load t).allocate draws).matching) :
    env.Matches where
  vcAllocate t := hvc t ▸ vc.isMatching_load draws t
  swAllocate t := hsw t ▸ sw.isMatching_load draws t
  specSWAllocate t := hspec t ▸ spec.isMatching_load draws t

theorem Matches.at {env : RouterEnv} (h : env.Matches) (now : ℤ) :
    { env with now := now }.Matches :=
  ⟨h.vcAllocate, h.swAllocate, h.specSWAllocate⟩

end RouterEnv

end BookSim
