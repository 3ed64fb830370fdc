/-
# Flights — a flit's way from router to router

A routing function only names output ports.  Where a flit gets to depends on the wires
as well: `flights` puts a function on a network's wiring.  A flit starts on a VC it
was offered at injection, at the router and input port of its source's injection channel;
at each router the function is called for it, some VC of the route set is granted, and the
channel at the chosen port takes the flit to the next router, or out to a node.

Left open, and so part of what a proof has to cover, are the random numbers, the queue
lengths the function asks for and the VC that is granted.
-/
import BookSim.Lib.RouteSystem
import BookSim.Networks.Wiring
import BookSim.Routing

namespace BookSim.Routing

/-- A flit that has come to a router by one of its input ports. -/
structure Flight where
  router : ℕ
  inPort : ℕ
  flit : Flit

/-- A flit that was sent on: the call that decided it, the port and the channel it took, and
the flit on the VC it was granted. -/
structure Sent where
  call : Call
  port : ℤ
  channel : ℕ
  flit : Flit

/-- The call is one that the router may make for the flit. -/
structure Flight.Calls (s : Flight) (c : Call) : Prop where
  router : c.router.id = s.router
  flit : c.flit = s.flit
  inChannel : c.inChannel = s.inPort
  inject : c.inject = false

/-- Where a flit gets to by an output port. -/
def sentTo (w : Wiring) (c : Call) (port : ℤ) (f : Flit) : Outcome Flight Sent ℕ :=
  match w.channelAt c.router.id port with
  | some (.chan index) =>
    match w.sink (.chan index) with
    | some (next, inPort) => .hop ⟨c, port, index, f⟩ ⟨next, inPort, f⟩
    | none => .stuck
  | some (.eject node) => .leave node
  | _ => .stuck

/-- What can come of a routing decision. -/
inductive Decided (w : Wiring) (c : Call) : Option Routed → Outcome Flight Sent ℕ → Prop
  | failed : Decided w c none .stuck
  | empty {res : Routed} : (∀ e ∈ res.outputs.getSet, e.vcs = []) → Decided w c (some res) .stuck
  | granted {res : Routed} {e : SetElement} {v : ℤ} : e ∈ res.outputs.getSet → v ∈ e.vcs →
      Decided w c (some res) (sentTo w c e.outputPort { res.flit with vc := v })

/-- The flit is on a VC that the function offered for its injection. -/
def Injected (route : Call → Option Routed) (f : Flit) : Prop :=
  ∃ c res, c.inject = true ∧ c.flit.vc < 0 ∧ route c = some res ∧
    ∃ e ∈ res.outputs.getSet, ∃ v ∈ e.vcs, f = { res.flit with vc := v }

/-- The flits a routing function sends over a network with that many nodes. -/
def flights (w : Wiring) (nodes : ℕ) (route : Call → Option Routed) :
    RouteSystem Flight Sent ℕ where
  start s := Injected route s.flit ∧ s.flit.dest < nodes ∧
    w.sink (.inject s.flit.src) = some (s.router, s.inPort)
  outcome s o := ∃ c, s.Calls c ∧ Decided w c (route c) o

/-- A resource as the deadlock argument of a router sees it: a channel and a VC on it. -/
def Sent.vcHeld (h : Sent) : ℕ × ℤ := (h.channel, h.flit.vc)

/-- A channel and the phase, or ring partition, in which it is used. -/
def Sent.phaseHeld (h : Sent) : ℕ × ℤ := (h.channel, h.flit.ph)

theorem mem_getSet_single {port : ℤ} {r : VCRange} {e : SetElement} :
    e ∈ (single port r).getSet ↔ e = ⟨r.vcBegin, r.vcEnd, 0, port⟩ := by
  simp only [single, OutputSet.getSet_addRange_clear, List.mem_singleton]

/-- At injection the function offers the range of the class, to every flit that is admitted. -/
def InjectsClass (g : Globals) (route : Call → Option Routed) : Prop :=
  ∀ c, c.inject = true → route c = (admitted g c).map fun r => ⟨single (-1) r, c.flit⟩

section InjectsClass

variable {g : Globals} {route : Call → Option Routed}

theorem InjectsClass.holds {f : Flit} (hoffers : InjectsClass g route) (h : Injected route f) :
    g.vcs.Holds f := by
  obtain ⟨c, res, hinj, -, hres, e, he, v, hv, hflit⟩ := h
  rw [hoffers c hinj] at hres
  obtain ⟨r, hadmitted, rfl⟩ := Option.map_eq_some_iff.mp hres
  obtain ⟨-, rfl⟩ : g.vcs.Admits c.flit c.inject ∧ classRange g c = r := by
    simpa [admitted] using hadmitted
  obtain rfl := mem_getSet_single.mp he
  rw [hflit]
  exact OutputSet.mem_vcs.mp hv

theorem InjectsClass.starts (hoffers : InjectsClass g route) {w : Wiring} {nodes src dest : ℕ}
    {entry : ℕ × ℕ} (hdest : dest < nodes) (hsink : w.sink (.inject src) = some entry) (cl : ℕ) :
    ∃ s, (flights w nodes route).start s ∧ s.flit.src = src ∧ s.flit.dest = dest ∧
      s.flit.cl = cl := by
  let f : Flit := { id := 0, pid := 0, cl := cl, src := src, dest := dest, vc := -1 }
  let c : Call := ⟨⟨entry.1, fun _ => 0, fun _ => false⟩, f, entry.2, true, fun _ => 0, 0⟩
  have hvc : c.flit.vc < 0 := show (-1 : ℤ) < 0 by decide
  have hadmitted : admitted g c = some (classRange g c) := if_pos (.inr ⟨rfl, hvc⟩)
  refine ⟨⟨entry.1, entry.2, { f with vc := g.vcs.gBeginVCs cl }⟩, ⟨⟨c, _, rfl, hvc,
    by rw [hoffers c rfl, hadmitted]; rfl, _, mem_getSet_single.mpr rfl, _,
    OutputSet.mem_vcs.mpr ⟨le_rfl, g.vcs.begin_le_end cl⟩, rfl⟩, hdest, hsink⟩, rfl, rfl, rfl⟩

end InjectsClass

variable {route : Call → Option Routed}

section Single

variable {w : Wiring} {c : Call} {port : ℤ} {r : VCRange} {f : Flit}

theorem decided_single {o : Outcome Flight Sent ℕ} (hne : r.vcBegin ≤ r.vcEnd) :
    Decided w c (some ⟨single port r, f⟩) o ↔
      ∃ v, r.vcBegin ≤ v ∧ v ≤ r.vcEnd ∧ o = sentTo w c port { f with vc := v } := by
  constructor
  · intro h
    cases h with
    | empty hempty =>
      have hnil := hempty _ (mem_getSet_single.mpr rfl)
      have hmem : r.vcBegin ∈ (⟨r.vcBegin, r.vcEnd, 0, port⟩ : SetElement).vcs :=
        OutputSet.mem_vcs.mpr ⟨le_rfl, hne⟩
      exact absurd hmem (hnil ▸ List.not_mem_nil)
    | granted he hv =>
      obtain rfl := mem_getSet_single.mp he
      obtain ⟨hlo, hhi⟩ := OutputSet.mem_vcs.mp hv
      exact ⟨_, hlo, hhi, rfl⟩
  · rintro ⟨v, hlo, hhi, rfl⟩
    have hv : v ∈ (⟨r.vcBegin, r.vcEnd, 0, port⟩ : SetElement).vcs :=
      OutputSet.mem_vcs.mpr ⟨hlo, hhi⟩
    exact .granted (mem_getSet_single.mpr rfl) hv

theorem sentTo_chan {index next inPort : ℕ}
    (hchan : w.channelAt c.router.id port = some (.chan index))
    (hsink : w.sink (.chan index) = some (next, inPort)) :
    sentTo w c port f = .hop ⟨c, port, index, f⟩ ⟨next, inPort, f⟩ := by
  simp [sentTo, hchan, hsink]

theorem sentTo_eject {node : ℕ} (hchan : w.channelAt c.router.id port = some (.eject node)) :
    sentTo w c port f = .leave node := by
  simp [sentTo, hchan]

theorem linked_of_sentTo_hop {a : Sent} {t : Flight} (h : sentTo w c port f = .hop a t) :
    w.Linked c.router.id t.router := by
  unfold sentTo at h
  split at h
  next hchan =>
    split at h
    next hsink =>
      cases h
      exact ⟨_, _, _, hchan, hsink⟩
    next => cases h
  next => cases h
  next => cases h

theorem of_sentTo_hop {a : Sent} {t : Flight} (h : sentTo w c port f = .hop a t) :
    a.call = c ∧ a.port = port ∧ a.flit = f ∧ t.flit = f := by
  unfold sentTo at h
  split at h
  · split at h
    · cases h
      exact ⟨rfl, rfl, rfl, rfl⟩
    · cases h
  · cases h
  · cases h

end Single

theorem Flight.exists_calls (s : Flight) : ∃ c, s.Calls c :=
  ⟨⟨⟨s.router, fun _ => 0, fun _ => false⟩, s.flit, s.inPort, false, fun _ => 0, 0⟩,
    rfl, rfl, rfl, rfl⟩

theorem exists_decided (w : Wiring) (c : Call) (x : Option Routed) : ∃ o, Decided w c x o := by
  cases x with
  | none => exact ⟨_, .failed⟩
  | some res =>
    by_cases h : ∀ e ∈ res.outputs.getSet, e.vcs = []
    · exact ⟨_, .empty h⟩
    · push Not at h
      obtain ⟨e, he, hne⟩ := h
      obtain ⟨v, hv⟩ := List.exists_mem_of_ne_nil _ hne
      exact ⟨_, .granted he hv⟩

theorem flights_moves (w : Wiring) (nodes : ℕ) (route : Call → Option Routed) (s : Flight) :
    ∃ o, (flights w nodes route).outcome s o := by
  obtain ⟨c, hc⟩ := s.exists_calls
  obtain ⟨o, ho⟩ := exists_decided w c (route c)
  exact ⟨o, c, hc, ho⟩

theorem linked_of_hop {w : Wiring} {nodes : ℕ} {s t : Flight}
    {a : Sent} (h : (flights w nodes route).outcome s (.hop a t)) : w.Linked s.router t.router := by
  obtain ⟨c, hc, hdecided⟩ := h
  generalize hx : route c = x at hdecided
  generalize ho : Outcome.hop a t = o at hdecided
  cases hdecided with
  | failed | empty => cases ho
  | granted => exact hc.router ▸ linked_of_sentTo_hop ho.symm

theorem path_of_route {w : Wiring} {nodes : ℕ} {s t : Flight}
    {hops : List Sent} (h : (flights w nodes route).Route s hops t) :
    w.Path s.router hops.length t.router := by
  induction h with
  | nil => exact .nil
  | cons hhop _ ih => exact .cons (linked_of_hop hhop) ih

end BookSim.Routing
