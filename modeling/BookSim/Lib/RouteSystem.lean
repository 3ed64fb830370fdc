/-
# `BookSim.Lib.RouteSystem` — routes of packets: delivery and deadlock

A routing function decides what becomes of a packet next, and some of it is left open: a
random choice, the load of the queues, the buffer an allocator grants.  A `RouteSystem`
has the states `σ` of a packet on its way, and for each of them the outcomes that
can come about:

    hop a t      the packet goes over the resource `a` and is then in state `t`
    leave e      it leaves the network by the exit `e`
    stuck        it can never move again

Two things are asked of such a system.  `DeliversIn e m s`: however the choices fall, a
packet in state `s` leaves by `e` after exactly `m` hops.  `Acyclic view`: no resources
wait for each other in a circle, where `a` waits for `b` when some packet that holds `a`
may ask for `b` next.  Both come down to a number that each hop changes in the right way.
-/
import Mathlib.Logic.Relation
import Mathlib.Order.Basic
import Mathlib.Data.Nat.Notation

namespace BookSim

variable {σ ρ ε κ : Type}

/-- What can become of a packet next. -/
inductive Outcome (σ ρ ε : Type) where
  | hop (held : ρ) (next : σ)
  | leave (exit : ε)
  | stuck

structure RouteSystem (σ ρ ε : Type) where
  start : σ → Prop
  outcome : σ → Outcome σ ρ ε → Prop

namespace RouteSystem

variable (S : RouteSystem σ ρ ε)

/-- The packet gets from one state to the other over these resources. -/
inductive Route : σ → List ρ → σ → Prop
  | nil {s : σ} : Route s [] s
  | cons {s t u : σ} {a : ρ} {as : List ρ} : S.outcome s (.hop a t) → Route t as u →
      Route s (a :: as) u

/-- The states a packet can be in. -/
def OnRoute (t : σ) : Prop := ∃ s, S.start s ∧ ∃ as, S.Route s as t

/-- However the choices fall, the packet leaves by `e` after exactly that many hops. -/
def DeliversIn (e : ε) : ℕ → σ → Prop
  | 0, s => (∃ o, S.outcome s o) ∧ ∀ o, S.outcome s o → o = .leave e
  | m + 1, s => (∃ o, S.outcome s o) ∧
      ∀ o, S.outcome s o → ∃ a t, o = .hop a t ∧ DeliversIn e m t

/-- A packet that holds `a` may ask for `b` next. -/
def Depends (view : ρ → κ) (a b : κ) : Prop :=
  ∃ s t u x y, S.OnRoute s ∧ S.outcome s (.hop x t) ∧ S.outcome t (.hop y u) ∧
    view x = a ∧ view y = b

/-- No resources wait for each other in a circle. -/
def Acyclic (view : ρ → κ) : Prop := ∀ a, ¬ Relation.TransGen (S.Depends view) a a

variable {S}

theorem Route.snoc {s t u : σ} {a : ρ} {as : List ρ} (h : S.Route s as t)
    (ha : S.outcome t (.hop a u)) : S.Route s (as ++ [a]) u := by
  induction h with
  | nil => exact .cons ha .nil
  | cons hb _ ih => exact .cons hb (ih ha)

theorem OnRoute.of_start {s : σ} (h : S.start s) : S.OnRoute s := ⟨s, h, [], .nil⟩

theorem OnRoute.hop {s t : σ} {a : ρ} (h : S.OnRoute s) (ha : S.outcome s (.hop a t)) :
    S.OnRoute t := by
  obtain ⟨s₀, hstart, as, hroute⟩ := h
  exact ⟨s₀, hstart, as ++ [a], hroute.snoc ha⟩

/-- What every hop keeps holds at the end of a route. -/
theorem Route.keeps {Inv : σ → Prop}
    (hstep : ∀ s a t, Inv s → S.outcome s (.hop a t) → Inv t) {s t : σ} {as : List ρ}
    (h : S.Route s as t) (hs : Inv s) : Inv t := by
  induction h with
  | nil => exact hs
  | cons ha _ ih => exact ih (hstep _ _ _ hs ha)

theorem OnRoute.holds (Inv : σ → Prop) (hstart : ∀ s, S.start s → Inv s)
    (hstep : ∀ s a t, Inv s → S.outcome s (.hop a t) → Inv t) {s : σ} (h : S.OnRoute s) :
    Inv s := by
  obtain ⟨s₀, h₀, as, hroute⟩ := h
  exact hroute.keeps hstep (hstart s₀ h₀)

/-- **Delivery by distance.**  If a packet at distance 0 can only leave by `e`, and one that
is further away can only make a hop that brings it one closer, it is delivered after as many
hops as its distance says. -/
theorem deliversIn_of_distance (Inv : σ → Prop) {e : ε} (dist : σ → ℕ)
    (hmove : ∀ s, Inv s → ∃ o, S.outcome s o)
    (hstep : ∀ s o, Inv s → S.outcome s o → dist s = 0 ∧ o = .leave e ∨
      ∃ a t, o = .hop a t ∧ Inv t ∧ dist s = dist t + 1) :
    ∀ {m : ℕ} {s : σ}, Inv s → dist s = m → S.DeliversIn e m s
  | 0, s, hs, hm => by
    refine ⟨hmove s hs, fun o ho => ?_⟩
    rcases hstep s o hs ho with ⟨-, rfl⟩ | ⟨a, t, rfl, -, ht⟩
    · rfl
    · omega
  | m + 1, s, hs, hm => by
    refine ⟨hmove s hs, fun o ho => ?_⟩
    rcases hstep s o hs ho with ⟨h0, -⟩ | ⟨a, t, rfl, hinv, ht⟩
    · omega
    · exact ⟨a, t, rfl, deliversIn_of_distance Inv dist hmove hstep hinv (by omega)⟩

theorem DeliversIn.length_le {e : ε} {s t : σ} {as : List ρ} (hroute : S.Route s as t) :
    ∀ {m : ℕ}, S.DeliversIn e m s → as.length ≤ m := by
  induction hroute with
  | nil => exact fun _ => Nat.zero_le _
  | cons ha _ ih =>
    intro m hm
    cases m with
    | zero => cases hm.2 _ ha
    | succ m =>
      obtain ⟨b, t, hhop, ht⟩ := hm.2 _ ha
      cases hhop
      exact Nat.succ_le_succ (ih ht)

/-- A packet that is delivered in `m` hops has a route of `m` hops to where it leaves. -/
theorem DeliversIn.exists_route {e : ε} : ∀ {m : ℕ} {s : σ}, S.DeliversIn e m s →
    ∃ as t, S.Route s as t ∧ as.length = m ∧ S.outcome t (.leave e)
  | 0, s, ⟨⟨o, ho⟩, hall⟩ => ⟨[], s, .nil, rfl, hall o ho ▸ ho⟩
  | m + 1, s, ⟨⟨o, ho⟩, hall⟩ => by
    obtain ⟨a, t, rfl, ht⟩ := hall o ho
    obtain ⟨as, u, hroute, hlen, hleave⟩ := ht.exists_route
    exact ⟨a :: as, u, .cons ho hroute, by rw [List.length_cons, hlen], hleave⟩

/-- **Acyclicity by rank.**  If every resource ranks below those that are asked for while it
is held, none waits for itself. -/
theorem acyclic_of_rank {α : Type} [Preorder α] {view : ρ → κ} (rank : κ → α)
    (h : ∀ a b, S.Depends view a b → rank a < rank b) : S.Acyclic view := by
  intro a hcycle
  have hlt : ∀ {b}, Relation.TransGen (S.Depends view) a b → rank a < rank b := by
    intro b hb
    induction hb with
    | single hab => exact h _ _ hab
    | tail _ hbc ih => exact ih.trans (h _ _ hbc)
  exact lt_irrefl _ (hlt hcycle)

end RouteSystem

end BookSim
