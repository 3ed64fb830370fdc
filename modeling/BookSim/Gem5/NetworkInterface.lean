/-
# NetworkInterface — when is the network woken up?

Each switch has an interface, a `Consumer` with a set of ticks at which it wants to run.
Enqueuing a message puts its arrival tick there; `NetworkInterface::wakeup` runs the whole
network, at most once per tick, and asks for the next cycle while packets are in flight.

    enqueue     a message arrives at an input buffer of a switch
    advance     time moves on; no pending tick is passed over
    wakeup      an interface runs at a tick it has asked for

After a wakeup, whoever still has something to do should be woken again (`Attended`).  A run
of the network takes one message from each input buffer per internal cycle, and messages
for the switch itself leave nothing in flight.  So a second ready message can be left
behind in silence: `Careful` describes the events that cannot leave one behind, and
`attended_of_careful` proves that runs made of them never lose a wakeup.
-/
import BookSim.Gem5.NetworkSwitch

namespace BookSim.Gem5

open List

/-! ## The model -/

/-- One internal cycle of the network: the answers of `GeneratePacket` by switch and buffer,
and `CheckInFlightPackets()` after the cycle. -/
structure Cycle where
  gen : ℕ → ℕ → ℕ → ℕ → Option ℕ
  inFlight : Bool

/-- The switches with their interfaces, and the network as far as the interfaces see it. -/
structure World where
  now : ℕ
  period : ℕ
  /-- `_internal_speedup`: cycles of the network per wakeup. -/
  speedup : ℕ
  count : ℕ
  switches : ℕ → Switch
  /-- `m_wakeup_ticks` of each interface. -/
  ticks : ℕ → Finset ℕ
  inFlight : Bool
  /-- `m_wakeup_cycles`. -/
  lastWakeup : ℕ

namespace World

/-- `ReadMessage` of switch `i` in one cycle. -/
def read (now : ℕ) (switches : ℕ → Switch) (cycle : Cycle) (i : ℕ) : Switch × List Offer :=
  Switch.readMessage now (cycle.gen i) (switches i, [])

/-- The switches after the cycles of one `RunNetwork`.  They share nothing but the network,
so one after the other is the same as all at once. -/
def runNetwork (now : ℕ) : (ℕ → Switch) → List Cycle → ℕ → Switch
  | switches, [] => switches
  | switches, cycle :: cycles => runNetwork now (fun i => (read now switches cycle i).1) cycles

/-- A packet that was offered to the network in a cycle keeps the network busy to the end of
that cycle: accepted, its flits wait to be injected; refused, those of an earlier packet do. -/
def Honest (now count : ℕ) : (ℕ → Switch) → List Cycle → Prop
  | _, [] => True
  | switches, cycle :: cycles =>
    ((∃ i < count, ∃ o ∈ (read now switches cycle i).2, ∃ a ∈ o.answers, a.2 ≠ .delivered) →
      cycle.inFlight = true) ∧
    Honest now count (fun i => (read now switches cycle i).1) cycles

/-- `CheckInFlightPackets()` after the cycles of one `RunNetwork`. -/
def inFlightAfter (w : World) (cycles : List Cycle) : Bool :=
  (cycles.getLast?.map Cycle.inFlight).getD w.inFlight

/-- The next clock edge at or after a tick, as in `scheduleEventAbsolute`. -/
def edge (w : World) (tick : ℕ) : ℕ := (tick + w.period - 1) / w.period * w.period

/-- `MessageBuffer::enqueue` at an input buffer of switch `i`. -/
def enqueue (w : World) (i port vn : ℕ) (m : Message) : World :=
  { w with
    switches := Function.update w.switches i ((w.switches i).receive port vn m)
    ticks := Function.update w.ticks i (insert (w.edge m.arrival) (w.ticks i)) }

/-- `processCurrentEvent` and `NetworkInterface::wakeup` of interface `i`. -/
def wakeup (w : World) (i : ℕ) (cycles : List Cycle) : World :=
  let pending := (w.ticks i).erase w.now
  if w.lastWakeup ≤ w.now then
    let busy := w.inFlightAfter cycles
    { w with
      switches := runNetwork w.now w.switches cycles
      inFlight := busy
      ticks := Function.update w.ticks i
        (if busy then insert (w.now + w.period) pending else pending)
      lastWakeup := w.now + 1 }
  else { w with ticks := Function.update w.ticks i pending }

inductive Event where
  | enqueue (i port vn : ℕ) (m : Message)
  | advance (tick : ℕ)
  | wakeup (i : ℕ) (cycles : List Cycle)

def step (w : World) : Event → World
  | .enqueue i port vn m => w.enqueue i port vn m
  | .advance tick => { w with now := tick }
  | .wakeup i cycles => w.wakeup i cycles

/-- The buffer exists. -/
def IsBuffer (w : World) (i port vn : ℕ) : Prop :=
  i < w.count ∧ port < (w.switches i).ports ∧ vn < (w.switches i).vnets port

/-- The messages of a buffer that are ready. -/
def ready (now : ℕ) (msgs : List Message) : List Message := msgs.filter fun m => m.arrival ≤ now

/-- Some interface has a wakeup at a later tick. -/
def WakeupLater (w : World) : Prop := ∃ i < w.count, ∃ tick ∈ w.ticks i, w.now < tick

/-- The events that can happen: messages do not arrive in the past and time does not pass
over a pending tick. -/
def Enabled (w : World) : Event → Prop
  | .enqueue i port vn m => w.IsBuffer i port vn ∧ w.now ≤ m.arrival
  | .advance tick => w.now < tick ∧ ∀ i < w.count, ∀ pending ∈ w.ticks i, tick ≤ pending
  | .wakeup i cycles => i < w.count ∧ w.now ∈ w.ticks i ∧ cycles.length = w.speedup ∧
      Honest w.now w.count w.switches cycles

/-- Nobody is forgotten: while a message is ready or a packet in flight, some interface will
be woken later. -/
def Attended (w : World) : Prop :=
  ((∃ i port vn, w.IsBuffer i port vn ∧ ∃ m ∈ (w.switches i).inBuffers port vn,
      m.arrival ≤ w.now) ∨ w.inFlight = true) → w.WakeupLater

/-- The events that leave nobody behind.  A message that is enqueued after the network has
run is not ready in the same tick.  When the network runs, no input buffer holds more than
one ready message, unless a packet stays in flight or a later wakeup is pending anyway. -/
def Careful (w : World) : Event → Prop
  | .enqueue _ _ _ m => w.now < w.lastWakeup → w.now < m.arrival
  | .advance _ => True
  | .wakeup _ cycles => w.lastWakeup ≤ w.now → 1 ≤ w.speedup ∧
      ((∀ i port vn, w.IsBuffer i port vn →
          (ready w.now ((w.switches i).inBuffers port vn)).length ≤ 1) ∨
        w.inFlightAfter cycles = true ∨ w.WakeupLater)

/-- A network before anything has happened. -/
structure Fresh (w : World) : Prop where
  period_pos : 0 < w.period
  buffers : ∀ i port vn, (w.switches i).inBuffers port vn = []
  ticks : ∀ i, w.ticks i = ∅
  inFlight : w.inFlight = false
  lastWakeup : w.lastWakeup = 0

/-- The worlds that can be reached. -/
inductive Reach : World → Prop
  | fresh {w : World} : w.Fresh → Reach w
  | step {w : World} {e : Event} : Reach w → w.Enabled e → Reach (w.step e)

/-- The worlds reached by careful events. -/
inductive Run : World → Prop
  | fresh {w : World} : w.Fresh → Run w
  | step {w : World} {e : Event} : Run w → w.Enabled e → w.Careful e → Run (w.step e)

end World

/-! ## One buffer during a run of the network -/

/-- The buffer is in order of arrival and has at most one ready message. -/
structure AtMostOne (now : ℕ) (msgs : List Message) : Prop where
  sorted : msgs.Pairwise fun a b => a.arrival ≤ b.arrival
  one : (World.ready now msgs).length ≤ 1

/-- No message is ready. -/
def Cleared (now : ℕ) (msgs : List Message) : Prop := ∀ m ∈ msgs, now < m.arrival

/-- Nothing was offered to the network. -/
def Quiet (offers : List Offer) : Prop := ∀ o ∈ offers, ∀ a ∈ o.answers, a.2 = .delivered

theorem Quiet.dequeues {offers : List Offer} (h : Quiet offers) {o : Offer} (ho : o ∈ offers) :
    o.dequeues = true := by
  cases hans : o.answers with
  | nil => simp [Offer.dequeues, hans]
  | cons a as =>
    have ha : a.2 = .delivered := h o ho a (hans ▸ mem_cons_self)
    simp [Offer.dequeues, hans, ha, Answer.Taken]

theorem cleared_of_head {now : ℕ} {m : Message} {rest : List Message}
    (hsorted : (m :: rest).Pairwise fun a b => a.arrival ≤ b.arrival) (hm : now < m.arrival) :
    Cleared now (m :: rest) := by
  intro x hx
  rcases mem_cons.mp hx with rfl | hx
  · exact hm
  · exact Nat.lt_of_lt_of_le hm ((pairwise_cons.mp hsorted).1 x hx)

theorem AtMostOne.tail {now : ℕ} {m : Message} {rest : List Message}
    (h : AtMostOne now (m :: rest)) : AtMostOne now rest :=
  ⟨(pairwise_cons.mp h.sorted).2,
    (List.Sublist.length_le ((sublist_cons_self m rest).filter _)).trans h.one⟩

theorem AtMostOne.cleared_tail {now : ℕ} {m : Message} {rest : List Message}
    (h : AtMostOne now (m :: rest)) (hm : m.arrival ≤ now) : Cleared now rest := by
  have hone := h.one
  rw [World.ready, filter_cons_of_pos (by simpa using hm), length_cons] at hone
  have hnone : World.ready now rest = [] := length_eq_zero_iff.mp (by unfold World.ready; omega)
  intro x hx
  have hx' := filter_eq_nil_iff.mp hnone x hx
  simpa using hx'

namespace Switch

/-- What serving a buffer does to any one buffer: nothing, or its head is dequeued. -/
theorem serve_buffer (now : ℕ) (gen : ℕ → ℕ → ℕ → Option ℕ) (s : Switch × List Offer)
    (slot : ℕ × ℕ) (port vn : ℕ) :
    (serve now gen s slot).1.inBuffers port vn = s.1.inBuffers port vn ∨
      ∃ m, s.1.inBuffers port vn = m :: (serve now gen s slot).1.inBuffers port vn := by
  obtain ⟨sw, offers⟩ := s
  rcases serve_cases now gen sw offers slot with ⟨-, heq⟩ | ⟨m, rest, hbuf, -, hcase⟩
  · exact .inl (by rw [heq])
  · rcases hcase with ⟨-, heq⟩ | ⟨-, heq⟩
    · exact .inl (by rw [heq])
    · rw [heq]
      show (sw.setBuffer slot.1 slot.2 rest).inBuffers port vn = _ ∨ _
      rw [inBuffers_setBuffer]
      split
      case isTrue hslot =>
        obtain ⟨rfl, rfl⟩ := hslot
        exact .inr ⟨m, by simpa using hbuf⟩
      case isFalse => exact .inl rfl

theorem serve_shape (now : ℕ) (gen : ℕ → ℕ → ℕ → Option ℕ) (s : Switch × List Offer)
    (slot : ℕ × ℕ) :
    (serve now gen s slot).1.ports = s.1.ports ∧ (serve now gen s slot).1.vnets = s.1.vnets := by
  obtain ⟨sw, offers⟩ := s
  rcases serve_cases now gen sw offers slot with ⟨-, heq⟩ | ⟨m, rest, -, -, ⟨-, heq⟩ | ⟨-, heq⟩⟩
  · rw [heq]
    exact ⟨rfl, rfl⟩
  · rw [heq]
    exact ⟨rfl, rfl⟩
  · rw [heq]
    exact ⟨rfl, rfl⟩

theorem serve_prefixOf (now : ℕ) (gen : ℕ → ℕ → ℕ → Option ℕ) (s : Switch × List Offer)
    (slot : ℕ × ℕ) : s.2 <+: (serve now gen s slot).2 := by
  obtain ⟨sw, offers⟩ := s
  rcases serve_cases now gen sw offers slot with ⟨-, heq⟩ | ⟨m, rest, -, -, ⟨-, heq⟩ | ⟨-, heq⟩⟩
  · rw [heq]
  · rw [heq]
    exact prefix_append _ _
  · rw [heq]
    exact prefix_append _ _

/-- Serving a buffer with at most one ready message clears it when nothing is offered to the
network. -/
theorem serve_clears {now : ℕ} {gen : ℕ → ℕ → ℕ → Option ℕ} {s : Switch × List Offer}
    {port vn : ℕ} (hone : AtMostOne now (s.1.inBuffers port vn))
    (hquiet : Quiet (serve now gen s (port, vn)).2) :
    Cleared now ((serve now gen s (port, vn)).1.inBuffers port vn) := by
  obtain ⟨sw, offers⟩ := s
  rcases serve_cases now gen sw offers (port, vn) with
    ⟨hhead, heq⟩ | ⟨m, rest, hbuf, hready, ⟨hdeq, heq⟩ | ⟨-, heq⟩⟩
  · rw [heq]
    cases hbuf : sw.inBuffers port vn with
    | nil => exact fun _ hm => absurd hm not_mem_nil
    | cons m rest =>
      have hsorted := hone.sorted
      simp only [hbuf] at hsorted
      exact cleared_of_head hsorted (hhead m rest hbuf)
  · -- A refused head would have been offered to the network.
    rw [heq] at hquiet
    rw [hquiet.dequeues (mem_append_right _ mem_cons_self)] at hdeq
    cases hdeq
  · rw [heq]
    have hone' : AtMostOne now (m :: rest) := hbuf ▸ hone
    show Cleared now ((sw.setBuffer port vn rest).inBuffers port vn)
    rw [inBuffers_setBuffer, if_pos ⟨rfl, rfl⟩]
    exact hone'.cleared_tail hready

/-- A property of a buffer that survives the loss of its head survives `ReadMessage`. -/
theorem foldl_buffer_induction {now : ℕ} {gen : ℕ → ℕ → ℕ → Option ℕ} {port vn : ℕ}
    {P : List Message → Prop} (htail : ∀ m rest, P (m :: rest) → P rest) :
    ∀ (slots : List (ℕ × ℕ)) (s : Switch × List Offer), P (s.1.inBuffers port vn) →
      P ((slots.foldl (serve now gen) s).1.inBuffers port vn)
  | [], _, h => h
  | slot :: slots, s, h => by
    refine foldl_buffer_induction htail slots _ ?_
    rcases serve_buffer now gen s slot port vn with heq | ⟨m, heq⟩
    · rwa [heq]
    · rw [heq] at h
      exact htail m _ h

theorem foldl_shape (now : ℕ) (gen : ℕ → ℕ → ℕ → Option ℕ) :
    ∀ (slots : List (ℕ × ℕ)) (s : Switch × List Offer),
      (slots.foldl (serve now gen) s).1.ports = s.1.ports ∧
        (slots.foldl (serve now gen) s).1.vnets = s.1.vnets
  | [], _ => ⟨rfl, rfl⟩
  | slot :: slots, s => by
    obtain ⟨hports, hvnets⟩ := foldl_shape now gen slots (serve now gen s slot)
    obtain ⟨hports', hvnets'⟩ := serve_shape now gen s slot
    exact ⟨hports.trans hports', hvnets.trans hvnets'⟩

theorem foldl_prefixOf (now : ℕ) (gen : ℕ → ℕ → ℕ → Option ℕ) :
    ∀ (slots : List (ℕ × ℕ)) (s : Switch × List Offer), s.2 <+: (slots.foldl (serve now gen) s).2
  | [], _ => prefix_rfl
  | slot :: slots, s => (serve_prefixOf now gen s slot).trans (foldl_prefixOf now gen slots _)

/-- A quiet round over the buffers clears each buffer it visits that has at most one ready
message. -/
theorem foldl_clears {now : ℕ} {gen : ℕ → ℕ → ℕ → Option ℕ} {port vn : ℕ} :
    ∀ (slots : List (ℕ × ℕ)) (s : Switch × List Offer),
      AtMostOne now (s.1.inBuffers port vn) → Quiet (slots.foldl (serve now gen) s).2 →
      (port, vn) ∈ slots → Cleared now ((slots.foldl (serve now gen) s).1.inBuffers port vn)
  | slot :: slots, s, hone, hquiet, hmem => by
    have hquiet' : Quiet (serve now gen s slot).2 := fun o ho =>
      hquiet o ((foldl_prefixOf now gen slots _).subset ho)
    by_cases hslot : slot = (port, vn)
    · subst hslot
      refine foldl_buffer_induction (fun m rest h x hx => ?_) slots _ (serve_clears hone hquiet')
      exact h x (mem_cons_of_mem m hx)
    · refine foldl_clears slots _ ?_ hquiet (mem_of_ne_of_mem (Ne.symm hslot) hmem)
      rcases serve_buffer now gen s slot port vn with heq | ⟨m, heq⟩
      · rwa [heq]
      · rw [heq] at hone
        exact hone.tail

theorem exists_rotation {n port : ℕ} (h : port < n) (start : ℕ) :
    ∃ i < n, (start + i) % n = port := by
  have hdiv := Nat.div_add_mod start n
  have hlt := Nat.mod_lt start (Nat.zero_lt_of_lt h)
  rcases Nat.lt_or_ge port (start % n) with hlow | hhigh
  · refine ⟨port + n - start % n, by omega, ?_⟩
    have heq : start + (port + n - start % n) = port + n * (start / n + 1) := by
      rw [Nat.mul_add_one]
      omega
    rw [heq, Nat.add_mul_mod_self_left, Nat.mod_eq_of_lt h]
  · refine ⟨port - start % n, by omega, ?_⟩
    have heq : start + (port - start % n) = port + n * (start / n) := by omega
    rw [heq, Nat.add_mul_mod_self_left, Nat.mod_eq_of_lt h]

theorem mem_visits {sw : Switch} {port vn : ℕ} (hport : port < sw.ports)
    (hvn : vn < sw.vnets port) : (port, vn) ∈ sw.visits := by
  obtain ⟨i, hi, heq⟩ := exists_rotation hport (sw.lastPort + 1)
  refine mem_flatMap.mpr ⟨i, mem_range.mpr hi, ?_⟩
  simp only [heq]
  exact mem_map.mpr ⟨vn, mem_range.mpr hvn, rfl⟩

end Switch

/-! ## A run of the network -/

namespace World

theorem runNetwork_induction {now i port vn : ℕ} {P : List Message → Prop}
    (htail : ∀ m rest, P (m :: rest) → P rest) :
    ∀ (cycles : List Cycle) (switches : ℕ → Switch), P ((switches i).inBuffers port vn) →
      P ((runNetwork now switches cycles i).inBuffers port vn)
  | [], _, h => h
  | _ :: cycles, _, h =>
    runNetwork_induction htail cycles _ (Switch.foldl_buffer_induction htail _ _ h)

theorem runNetwork_shape (now i : ℕ) : ∀ (cycles : List Cycle) (switches : ℕ → Switch),
    (runNetwork now switches cycles i).ports = (switches i).ports ∧
      (runNetwork now switches cycles i).vnets = (switches i).vnets
  | [], _ => ⟨rfl, rfl⟩
  | cycle :: cycles, switches => by
    obtain ⟨hports, hvnets⟩ := runNetwork_shape now i cycles fun i => (read now switches cycle i).1
    obtain ⟨hports', hvnets'⟩ := Switch.foldl_shape now (cycle.gen i)
      (switches i).visits (switches i, [])
    exact ⟨hports.trans hports', hvnets.trans hvnets'⟩

/-- When nothing is in flight after the last cycle, nothing was offered to the network in it,
so it cleared every buffer with at most one ready message. -/
theorem runNetwork_clears {now count i port vn : ℕ} (hi : i < count) :
    ∀ (cycles : List Cycle) (switches : ℕ → Switch), Honest now count switches cycles →
      cycles.getLast?.map Cycle.inFlight = some false → port < (switches i).ports →
      vn < (switches i).vnets port → AtMostOne now ((switches i).inBuffers port vn) →
      Cleared now ((runNetwork now switches cycles i).inBuffers port vn)
  | [cycle], switches, hhonest, hlast, hport, hvn, hone => by
    have hfalse : cycle.inFlight = false := by simpa using hlast
    refine Switch.foldl_clears _ _ hone (fun o ho a ha => ?_) (Switch.mem_visits hport hvn)
    by_contra hremote
    have hbusy := hhonest.1 ⟨i, hi, o, ho, a, ha, hremote⟩
    rw [hfalse] at hbusy
    cases hbusy
  | cycle :: cycle' :: cycles, switches, hhonest, hlast, hport, hvn, hone => by
    obtain ⟨hports, hvnets⟩ := Switch.foldl_shape now (cycle.gen i)
      (switches i).visits (switches i, [])
    refine runNetwork_clears hi (cycle' :: cycles) _ hhonest.2 (by simpa using hlast) ?_ ?_ ?_
    · exact hports ▸ hport
    · exact hvnets ▸ hvn
    · exact Switch.foldl_buffer_induction (fun _ _ h => h.tail) _ _ hone

/-! ## Careful runs -/

/-- What holds throughout a careful run: once the network has run in a tick, nobody is
forgotten for the rest of that tick. -/
structure Inv (w : World) : Prop where
  period_pos : 0 < w.period
  sorted : ∀ i port vn, ((w.switches i).inBuffers port vn).Pairwise fun a b => a.arrival ≤ b.arrival
  last : w.lastWakeup ≤ w.now + 1
  attended : w.now < w.lastWakeup → w.Attended

theorem sorted_enqueue {m : Message} : ∀ {msgs : List Message},
    msgs.Pairwise (fun a b => a.arrival ≤ b.arrival) →
      (Gem5.enqueue m msgs).Pairwise fun a b => a.arrival ≤ b.arrival
  | [], _ => pairwise_singleton _ _
  | x :: xs, h => by
    obtain ⟨hx, hxs⟩ := pairwise_cons.mp h
    unfold Gem5.enqueue
    split
    case isTrue hlt =>
      refine pairwise_cons.mpr ⟨fun y hy => ?_, h⟩
      rcases mem_cons.mp hy with rfl | hy
      · exact Nat.le_of_lt hlt
      · exact (Nat.le_of_lt hlt).trans (hx y hy)
    case isFalse hge =>
      refine pairwise_cons.mpr ⟨fun y hy => ?_, sorted_enqueue hxs⟩
      rcases mem_enqueue.mp hy with rfl | hy
      · exact Nat.le_of_not_lt hge
      · exact hx y hy

variable {w : World}

theorem Attended.enqueue (h : w.Attended) {i port vn : ℕ} {m : Message}
    (hm : w.now < m.arrival) : (w.enqueue i port vn m).Attended := by
  have hlater : w.WakeupLater → (w.enqueue i port vn m).WakeupLater := by
    rintro ⟨j, hj, tick, htick, hlt⟩
    refine ⟨j, hj, tick, ?_, hlt⟩
    by_cases hji : j = i
    · subst hji
      simp [World.enqueue, htick]
    · simpa [World.enqueue, hji] using htick
  intro hwork
  refine hlater (h ?_)
  rcases hwork with ⟨j, port', vn', ⟨hj, hport, hvn⟩, x, hx, hready⟩ | hflight
  · left
    by_cases hji : j = i
    · subst hji
      simp only [World.enqueue, Function.update_self] at hport hvn hx
      refine ⟨j, port', vn', ⟨hj, hport, hvn⟩, x, ?_, hready⟩
      simp only [Switch.receive, Switch.inBuffers_setBuffer] at hx
      split at hx
      case isTrue hslot =>
        obtain ⟨rfl, rfl⟩ := hslot
        rcases mem_enqueue.mp hx with rfl | hx
        · exact absurd hready (Nat.not_le_of_lt hm)
        · exact hx
      case isFalse => exact hx
    · simp only [World.enqueue, Function.update_of_ne hji] at hport hvn hx
      exact ⟨j, port', vn', ⟨hj, hport, hvn⟩, x, hx, hready⟩
  · exact .inr hflight

theorem WakeupLater.erase (h : w.WakeupLater) (i : ℕ) (pending : Finset ℕ)
    (hpending : ∀ tick ∈ w.ticks i, w.now < tick → tick ∈ pending) :
    ∃ j < w.count, ∃ tick ∈ Function.update w.ticks i pending j, w.now < tick := by
  obtain ⟨j, hj, tick, htick, hlt⟩ := h
  refine ⟨j, hj, tick, ?_, hlt⟩
  by_cases hji : j = i
  · subst hji
    simpa using hpending tick htick hlt
  · simpa [hji] using htick

theorem Attended.swallowed (h : w.Attended) {i : ℕ} {cycles : List Cycle}
    (hlast : ¬ w.lastWakeup ≤ w.now) : (w.wakeup i cycles).Attended := by
  unfold World.wakeup
  rw [if_neg hlast]
  intro hwork
  exact (h hwork).erase i _ fun tick htick hlt =>
    Finset.mem_erase.mpr ⟨Nat.ne_of_gt hlt, htick⟩

theorem attended_wakeup (hinv : w.Inv) {i : ℕ} {cycles : List Cycle}
    (hen : w.Enabled (.wakeup i cycles)) (hcare : w.Careful (.wakeup i cycles)) :
    (w.wakeup i cycles).Attended := by
  by_cases hlast : w.lastWakeup ≤ w.now
  · obtain ⟨hi, -, hlength, hhonest⟩ := hen
    obtain ⟨hspeed, hcase⟩ := hcare hlast
    unfold World.wakeup
    simp only [if_pos hlast]
    intro hwork
    cases hbusy : w.inFlightAfter cycles with
    | true =>
      refine ⟨i, hi, w.now + w.period, ?_, Nat.lt_add_of_pos_right hinv.period_pos⟩
      simp
    | false =>
      simp only [hbusy] at hwork hcase ⊢
      rcases hcase with hone | hfalse | hlater
      · -- With nothing in flight the last cycle cleared every buffer.
        exfalso
        have hlastCycle : cycles.getLast?.map Cycle.inFlight = some false := by
          cases hget : cycles.getLast? with
          | none =>
            rw [List.getLast?_eq_none_iff.mp hget] at hlength
            simp at hlength
            omega
          | some cycle => simpa [inFlightAfter, hget] using hbusy
        rcases hwork with ⟨j, port, vn, ⟨hj, hport, hvn⟩, m, hm, hready⟩ | hflight
        · obtain ⟨hports, hvnets⟩ := runNetwork_shape w.now j cycles w.switches
          have hport' : port < (w.switches j).ports := hports ▸ hport
          have hvn' : vn < (w.switches j).vnets port := hvnets ▸ hvn
          have hclear := runNetwork_clears hj cycles w.switches hhonest hlastCycle hport' hvn'
            ⟨hinv.sorted j port vn, hone j port vn ⟨hj, hport', hvn'⟩⟩
          exact absurd hready (Nat.not_le_of_lt (hclear m hm))
        · cases hflight
      · cases hfalse
      · exact hlater.erase i _ fun tick htick hlt =>
          Finset.mem_erase.mpr ⟨Nat.ne_of_gt hlt, htick⟩
  · exact (hinv.attended (Nat.lt_of_not_le hlast)).swallowed hlast

theorem Inv.step (hinv : w.Inv) {e : Event} (hen : w.Enabled e)
    (hcare : w.Careful e) : (w.step e).Inv := by
  cases e with
  | enqueue i port vn m =>
    refine ⟨hinv.period_pos, fun j port' vn' => ?_, hinv.last, fun hran => ?_⟩
    · by_cases hji : j = i
      · subst hji
        simp only [World.step, World.enqueue, Function.update_self, Switch.receive,
          Switch.inBuffers_setBuffer]
        split
        · exact sorted_enqueue (hinv.sorted j port vn)
        · exact hinv.sorted j port' vn'
      · simp only [World.step, World.enqueue, Function.update_of_ne hji]
        exact hinv.sorted j port' vn'
    · exact (hinv.attended hran).enqueue (hcare hran)
  | advance tick =>
    have hlast := hinv.last
    have htick : w.now < tick := hen.1
    refine ⟨hinv.period_pos, hinv.sorted, ?_, fun hran => ?_⟩
    · show w.lastWakeup ≤ tick + 1
      omega
    · have hran' : tick < w.lastWakeup := hran
      omega
  | wakeup i cycles =>
    have hattended := attended_wakeup hinv hen hcare
    show (w.wakeup i cycles).Inv
    refine ⟨?_, fun j port vn => ?_, ?_, fun _ => hattended⟩
    · unfold World.wakeup
      split
      · exact hinv.period_pos
      · exact hinv.period_pos
    · unfold World.wakeup
      split
      · exact runNetwork_induction (fun _ _ h => (pairwise_cons.mp h).2) cycles w.switches
          (hinv.sorted j port vn)
      · exact hinv.sorted j port vn
    · unfold World.wakeup
      split
      · exact Nat.le_refl _
      · exact hinv.last

theorem Fresh.inv (h : w.Fresh) : w.Inv := by
  refine ⟨h.period_pos, fun i port vn => ?_, by rw [h.lastWakeup]; omega, fun hran => ?_⟩
  · rw [h.buffers]
    exact List.Pairwise.nil
  · rw [h.lastWakeup] at hran
    omega

theorem Run.inv (h : w.Run) : w.Inv := by
  induction h with
  | fresh hfresh => exact hfresh.inv
  | step _ hen hcare ih => exact ih.step hen hcare

/-- **No wakeup is lost in a careful run**: after every wakeup of an interface, whoever still
has something to do will be woken again. -/
theorem attended_of_careful {w : World} (hrun : w.Run) {i : ℕ} {cycles : List Cycle}
    (hen : w.Enabled (.wakeup i cycles)) (hcare : w.Careful (.wakeup i cycles)) :
    (w.step (.wakeup i cycles)).Attended :=
  attended_wakeup hrun.inv hen hcare

/-- Two switches with one input buffer each, and node `i` at switch `i`. -/
def twoSwitches : World where
  now := 0
  period := 1
  speedup := 1
  count := 2
  switches := fun i => ⟨i, id, 1, fun _ => 1, fun _ _ => [], 0⟩
  ticks := fun _ => ∅
  inFlight := false
  lastWakeup := 0

theorem fresh_twoSwitches : twoSwitches.Fresh :=
  ⟨Nat.one_pos, fun _ _ _ => rfl, fun _ => rfl, rfl, rfl⟩

/-- A message for node `dest` that arrives at tick 1. -/
def note (id dest : ℕ) : Message := ⟨id, {dest}, 1⟩

/-- Switch 0 has one message for node 1, and it is tick 1. -/
def remoteWaiting : World := (twoSwitches.step (.enqueue 0 0 0 (note 0 1))).step (.advance 1)

theorem run_remoteWaiting : Run remoteWaiting := by
  have henqueue : Run (twoSwitches.step (.enqueue 0 0 0 (note 0 1))) :=
    .step (.fresh fresh_twoSwitches) ⟨⟨by decide, by decide, by decide⟩, by decide⟩
      fun h => absurd h (by decide)
  have htick : ∀ i < 2, ∀ tick ∈ (twoSwitches.step (.enqueue 0 0 0 (note 0 1))).ticks i,
      1 ≤ tick := by decide
  exact .step henqueue ⟨by decide, htick⟩ trivial

/-- The network takes the packet and wants to be woken in the next cycle. -/
theorem attended_remoteWaiting :
    (remoteWaiting.step (.wakeup 0 [⟨fun _ _ _ _ => some 0, true⟩])).Attended :=
  attended_of_careful run_remoteWaiting ⟨by decide, by decide, rfl, fun _ => rfl, trivial⟩
    fun _ => ⟨by decide, .inr (.inl rfl)⟩

/-- Switch 0 has two messages for its own node, and it is tick 1. -/
def localsWaiting : World :=
  ((twoSwitches.step (.enqueue 0 0 0 (note 0 0))).step (.enqueue 0 0 0 (note 1 0))).step
    (.advance 1)

/-- A cycle in which no packet is generated. -/
def idleCycle : Cycle := ⟨fun _ _ _ _ => none, false⟩

theorem read_localsWaiting : read 1 localsWaiting.switches idleCycle 0 =
      ({ (localsWaiting.switches 0).setBuffer 0 0 [note 1 0] with lastPort := 0 },
        [⟨note 0 0, [(0, .delivered)]⟩]) := by
  have hoffer : (localsWaiting.switches 0).offer (idleCycle.gen 0 0 0) (note 0 0) =
      ⟨note 0 0, [(0, .delivered)]⟩ := by
    simp [Switch.offer, note]
    rfl
  have hserve : read 1 localsWaiting.switches idleCycle 0 =
      Switch.serve 1 (idleCycle.gen 0) (localsWaiting.switches 0, []) (0, 0) := rfl
  rcases Switch.serve_cases 1 (idleCycle.gen 0) (localsWaiting.switches 0) [] (0, 0) with
    ⟨hhead, -⟩ | ⟨m, rest, hbuf, -, hcase⟩
  · exact absurd (hhead (note 0 0) [note 1 0] rfl) (by decide)
  · obtain ⟨rfl, rfl⟩ : note 0 0 = m ∧ [note 1 0] = rest := List.cons.inj hbuf
    rw [hoffer] at hcase
    rcases hcase with ⟨hdeq, -⟩ | ⟨-, heq⟩
    · exact absurd hdeq (by decide)
    · rw [hserve, heq]
      rfl

/-- Their two wakeups are one tick.  The network runs once, delivers the first message, has
nothing in flight and sleeps; the second message is ready and nobody will look at it. -/
theorem localsWaiting_forgotten :
    Reach localsWaiting ∧ localsWaiting.Enabled (.wakeup 0 [idleCycle]) ∧
      ¬ (localsWaiting.step (.wakeup 0 [idleCycle])).Attended := by
  have hfirst : Reach (twoSwitches.step (.enqueue 0 0 0 (note 0 0))) :=
    .step (.fresh fresh_twoSwitches) ⟨⟨by decide, by decide, by decide⟩, by decide⟩
  have hsecond : Reach ((twoSwitches.step (.enqueue 0 0 0 (note 0 0))).step
      (.enqueue 0 0 0 (note 1 0))) :=
    .step hfirst ⟨⟨by decide, by decide, by decide⟩, by decide⟩
  have htick : ∀ i < 2, ∀ tick ∈ ((twoSwitches.step (.enqueue 0 0 0 (note 0 0))).step
      (.enqueue 0 0 0 (note 1 0))).ticks i, 1 ≤ tick := by decide
  refine ⟨.step hsecond ⟨by decide, htick⟩, ⟨by decide, by decide, rfl, ?_, trivial⟩, fun h => ?_⟩
  · -- Nothing is offered to the network: switch 0 delivers, switch 1 has no message.
    rintro ⟨i, hi, o, ho, a, ha, hremote⟩
    have hi2 : i < 2 := hi
    rcases Nat.lt_succ_iff_lt_or_eq.mp hi2 with hzero | rfl
    · obtain rfl : i = 0 := by omega
      have ho' : o ∈ (read 1 localsWaiting.switches idleCycle 0).2 := ho
      rw [read_localsWaiting, mem_singleton] at ho'
      subst ho'
      rw [mem_singleton.mp ha] at hremote
      exact absurd rfl hremote
    · have ho' : o ∈ (read 1 localsWaiting.switches idleCycle 1).2 := ho
      exact absurd ho' not_mem_nil
  · have hswitch : (localsWaiting.step (.wakeup 0 [idleCycle])).switches 0 =
        { (localsWaiting.switches 0).setBuffer 0 0 [note 1 0] with lastPort := 0 } :=
      congrArg Prod.fst read_localsWaiting
    have hbuffer : (localsWaiting.step (.wakeup 0 [idleCycle])).IsBuffer 0 0 0 :=
      ⟨by decide, by rw [hswitch]; decide, by rw [hswitch]; decide⟩
    have hleft : note 1 0 ∈ ((localsWaiting.step (.wakeup 0 [idleCycle])).switches 0).inBuffers
        0 0 := by
      rw [hswitch]
      decide
    obtain ⟨i, hi, tick, htick', hlt⟩ :=
      h (.inl ⟨0, 0, 0, hbuffer, note 1 0, hleft, by decide⟩)
    have hnone : ∀ i < 2, ∀ tick ∈ (localsWaiting.step (.wakeup 0 [idleCycle])).ticks i,
        ¬ 1 < tick := by decide
    exact hnone i hi tick htick' hlt

end World

end BookSim.Gem5
