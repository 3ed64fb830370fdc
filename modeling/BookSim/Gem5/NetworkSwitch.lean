/-
# NetworkSwitch — handing Ruby messages over to the network

`NetworkSwitch::ReadMessage` looks at the head of each input buffer once.  A ready message
is offered destination by destination: to the switch's own output buffers when the
destination is local, otherwise to the network, which may refuse the packet.  The message
is dequeued as soon as ONE destination has been taken.

    offer          one pass over the destinations of a message, with the answers
    serve          one buffer: offer its head and perhaps dequeue it
    readMessage    all buffers, starting after the port that was served last

A run is any interleaving of `MessageBuffer::enqueue` and `ReadMessage` (`Reach`), with
arbitrary answers of `GeneratePacket`.  Every message should be handed over exactly once to
each destination (`ExactlyOnce`).  `exactlyOnce_iff` says that this is so exactly in the
runs without a `Split` offer, one in which some destinations are taken and some refused:
the refused ones are lost with the message.
-/
import Mathlib.Data.Finset.Sort
import Mathlib.Logic.Function.Basic

namespace BookSim.Gem5

open List

/-! ## The switch -/

/-- A Ruby message: its identity, its `NetDest` and the tick from which it can be dequeued. -/
structure Message where
  id : ℕ
  dests : Finset ℕ
  arrival : ℕ
  deriving DecidableEq

/-- `MessageBuffer::enqueue`: the heap as a list, by arrival and then by age. -/
def enqueue (m : Message) : List Message → List Message
  | [] => [m]
  | x :: xs => if m.arrival < x.arrival then m :: x :: xs else x :: enqueue m xs

/-- What becomes of the copy of a message for one destination. -/
inductive Answer where
  /-- `GeneratePacket` returned -1. -/
  | refused
  /-- `GeneratePacket` returned a packet id, under which the copy is filed. -/
  | accepted (pid : ℕ)
  /-- The destination is at this switch and the copy is in its output buffer. -/
  | delivered
  deriving DecidableEq, Repr

/-- `pid > -1`. -/
def Answer.Taken : Answer → Bool
  | .refused => false
  | .accepted _ | .delivered => true

/-- One pass over the destinations of a message. -/
structure Offer where
  msg : Message
  answers : List (ℕ × Answer)

/-- `dequeue_msg` at the end of the pass. -/
def Offer.dequeues (o : Offer) : Bool := o.answers.isEmpty || o.answers.any fun a => a.2.Taken

/-- Some destinations are taken and some are refused. -/
def Offer.Split (o : Offer) : Prop :=
  (∃ a ∈ o.answers, a.2.Taken = true) ∧ ∃ a ∈ o.answers, a.2.Taken = false

/-- A switch and its input buffers; a buffer that does not exist is one that stays empty.
`switchOf` is `TranslateSwitchID`. -/
structure Switch where
  id : ℕ
  switchOf : ℕ → ℕ
  ports : ℕ
  vnets : ℕ → ℕ
  inBuffers : ℕ → ℕ → List Message
  lastPort : ℕ

namespace Switch

/-- Replace the contents of one input buffer. -/
def setBuffer (sw : Switch) (port vn : ℕ) (msgs : List Message) : Switch :=
  { sw with
    inBuffers := Function.update sw.inBuffers port (Function.update (sw.inBuffers port) vn msgs) }

/-- A message arrives from Ruby. -/
def receive (sw : Switch) (port vn : ℕ) (m : Message) : Switch :=
  sw.setBuffer port vn (enqueue m (sw.inBuffers port vn))

/-- The answer for one destination, where `gen` is what `GeneratePacket` returns. -/
def answer (sw : Switch) (gen : ℕ → Option ℕ) (dest : ℕ) : Answer :=
  if sw.switchOf dest ≠ sw.id then
    match gen dest with
    | some pid => .accepted pid
    | none => .refused
  else .delivered

/-- The loop over `getAllDest()`. -/
def offer (sw : Switch) (gen : ℕ → Option ℕ) (m : Message) : Offer :=
  ⟨m, (m.dests.sort (· ≤ ·)).map fun dest => (dest, sw.answer gen dest)⟩

/-- The message after `removeNetDest`: with more than one destination, those that were taken
are removed; with a single one `personal_dest` is empty and nothing is. -/
def strip (o : Offer) : Message :=
  if 1 < o.msg.dests.card then
    { o.msg with dests :=
        o.msg.dests.filter fun dest => ∀ a ∈ o.answers, a.1 = dest → a.2.Taken = false }
  else o.msg

/-- The body of `ReadMessage` for one buffer, with the log of offers.  `gen port vn` are the
answers of `GeneratePacket` while this buffer is served. -/
def serve (now : ℕ) (gen : ℕ → ℕ → ℕ → Option ℕ) (s : Switch × List Offer) (slot : ℕ × ℕ) :
    Switch × List Offer :=
  match s.1.inBuffers slot.1 slot.2 with
  | m :: rest =>
    if m.arrival ≤ now then
      let o := s.1.offer (gen slot.1 slot.2) m
      (if o.dequeues then { s.1.setBuffer slot.1 slot.2 rest with lastPort := slot.1 }
        else s.1.setBuffer slot.1 slot.2 (strip o :: rest), s.2 ++ [o])
    else s
  | [] => s

/-- The order in which `ReadMessage` visits the buffers. -/
def visits (sw : Switch) : List (ℕ × ℕ) :=
  (List.range sw.ports).flatMap fun i =>
    let port := (sw.lastPort + 1 + i) % sw.ports
    (List.range (sw.vnets port)).map fun vn => (port, vn)

/-- `NetworkSwitch::ReadMessage`. -/
def readMessage (now : ℕ) (gen : ℕ → ℕ → ℕ → Option ℕ) (s : Switch × List Offer) :
    Switch × List Offer :=
  s.1.visits.foldl (serve now gen) s

end Switch

/-! ## Runs -/

/-- The runs of a switch: its state, the messages it was sent and the offers it made. -/
inductive Reach : Switch → List Message → List Offer → Prop
  | init {sw : Switch} : (∀ port vn, sw.inBuffers port vn = []) → Reach sw [] []
  | receive {sw : Switch} {sent : List Message} {offers : List Offer} {m : Message}
      (port vn : ℕ) : Reach sw sent offers → m.id ∉ sent.map Message.id →
      Reach (sw.receive port vn m) (m :: sent) offers
  | read {sw : Switch} {sent : List Message} {offers : List Offer} (now : ℕ)
      (gen : ℕ → ℕ → ℕ → Option ℕ) : Reach sw sent offers →
      Reach (Switch.readMessage now gen (sw, offers)).1 sent
        (Switch.readMessage now gen (sw, offers)).2

/-- The (message, destination) pairs handed over in one offer. -/
def Offer.handedOver (o : Offer) : List (ℕ × ℕ) :=
  (o.answers.filter fun a => a.2.Taken).map fun a => (o.msg.id, a.1)

/-- The pairs handed over, in order. -/
def handedOver (offers : List Offer) : List (ℕ × ℕ) := offers.flatMap Offer.handedOver

/-- The message waits in some input buffer. -/
def Switch.Waiting (sw : Switch) (m : Message) : Prop := ∃ port vn, m ∈ sw.inBuffers port vn

/-- Hand-over is exactly-once: no pair twice, nothing but destinations of messages sent, and
a message that no longer waits has been handed over to all its destinations. -/
structure ExactlyOnce (sw : Switch) (sent : List Message) (offers : List Offer) : Prop where
  at_most_once : (handedOver offers).Nodup
  sound : ∀ pair ∈ handedOver offers, ∃ m ∈ sent, m.id = pair.1 ∧ pair.2 ∈ m.dests
  complete : ∀ m ∈ sent, ¬ sw.Waiting m → ∀ dest ∈ m.dests, (m.id, dest) ∈ handedOver offers

/-! ## What serving a buffer does -/

namespace Switch

@[simp] theorem inBuffers_setBuffer (sw : Switch) (port vn : ℕ) (msgs : List Message)
    (port' vn' : ℕ) :
    (sw.setBuffer port vn msgs).inBuffers port' vn' =
      if port' = port ∧ vn' = vn then msgs else sw.inBuffers port' vn' := by
  by_cases hport : port' = port
  · subst hport
    by_cases hvn : vn' = vn
    · subst hvn
      simp [setBuffer]
    · simp [setBuffer, hvn]
  · simp [setBuffer, hport]

theorem setBuffer_self {sw : Switch} {port vn : ℕ} {msgs : List Message}
    (h : sw.inBuffers port vn = msgs) : sw.setBuffer port vn msgs = sw := by
  subst h
  simp [setBuffer]

theorem strip_of_not_dequeues {o : Offer} (h : o.dequeues = false) : strip o = o.msg := by
  obtain ⟨-, hrefused⟩ : o.answers.isEmpty = false ∧ o.answers.any (fun a => a.2.Taken) = false :=
    Bool.or_eq_false_iff.mp h
  rw [any_eq_false] at hrefused
  unfold strip
  split
  · have hall : (o.msg.dests.filter fun dest =>
        ∀ a ∈ o.answers, a.1 = dest → a.2.Taken = false) = o.msg.dests :=
      Finset.filter_true_of_mem fun dest _ a ha _ => by simpa using hrefused a ha
    rw [hall]
  · rfl

/-- Serving a buffer does nothing when its head is not ready; else the head is refused and
stays, or it is dequeued. -/
theorem serve_cases (now : ℕ) (gen : ℕ → ℕ → ℕ → Option ℕ) (sw : Switch) (offers : List Offer)
    (slot : ℕ × ℕ) :
    (∀ m rest, sw.inBuffers slot.1 slot.2 = m :: rest → now < m.arrival) ∧
      serve now gen (sw, offers) slot = (sw, offers) ∨
    ∃ m rest, sw.inBuffers slot.1 slot.2 = m :: rest ∧ m.arrival ≤ now ∧
      ((sw.offer (gen slot.1 slot.2) m).dequeues = false ∧
          serve now gen (sw, offers) slot = (sw, offers ++ [sw.offer (gen slot.1 slot.2) m]) ∨
        (sw.offer (gen slot.1 slot.2) m).dequeues = true ∧ serve now gen (sw, offers) slot =
            ({ sw.setBuffer slot.1 slot.2 rest with lastPort := slot.1 },
              offers ++ [sw.offer (gen slot.1 slot.2) m])) := by
  unfold serve
  cases hbuf : sw.inBuffers slot.1 slot.2 with
  | nil => exact .inl ⟨fun _ _ h => absurd h (by simp), rfl⟩
  | cons m rest =>
    by_cases hready : m.arrival ≤ now
    · right
      refine ⟨m, rest, rfl, hready, ?_⟩
      simp only [if_pos hready]
      cases hdeq : (sw.offer (gen slot.1 slot.2) m).dequeues with
      | false =>
        left
        have hstrip : strip (sw.offer (gen slot.1 slot.2) m) = m := strip_of_not_dequeues hdeq
        simp [hstrip, setBuffer_self hbuf]
      | true => exact .inr ⟨rfl, rfl⟩
    · simp_all

end Switch

/-! ## The invariant of a run -/

/-- No message waits at two places. -/
structure Switch.Placed (sw : Switch) : Prop where
  nodup : ∀ port vn, (sw.inBuffers port vn).Nodup
  place : ∀ {port vn port' vn' m}, m ∈ sw.inBuffers port vn → m ∈ sw.inBuffers port' vn' →
    port = port' ∧ vn = vn'

/-- Every message sent is waiting or has been dequeued, not both, and no message is dequeued
twice. -/
structure Inv (sw : Switch) (sent : List Message) (offers : List Offer) : Prop where
  placed : sw.Placed
  sent_ids : (sent.map Message.id).Nodup
  waiting_sent : ∀ m, sw.Waiting m → m ∈ sent
  offered : ∀ o ∈ offers, o.msg ∈ sent ∧
    ∃ ans : ℕ → Answer, o.answers = (o.msg.dests.sort (· ≤ ·)).map fun dest => (dest, ans dest)
  left : ∀ m ∈ sent, sw.Waiting m ∨ ∃ o ∈ offers, o.dequeues = true ∧ o.msg = m
  gone : ∀ o ∈ offers, o.dequeues = true → ¬ sw.Waiting o.msg
  once : offers.Pairwise fun o o' => o.dequeues = true → o'.dequeues = true → o.msg ≠ o'.msg

theorem mem_enqueue {m x : Message} : ∀ {msgs : List Message}, x ∈ enqueue m msgs ↔ x = m ∨ x ∈ msgs
  | [] => by simp [enqueue]
  | y :: ys => by
    unfold enqueue
    split
    · simp
    · simp [mem_enqueue, or_left_comm]

variable {m : Message} {sw : Switch} {port vn : ℕ} {sent : List Message} {offers : List Offer}

theorem nodup_enqueue : ∀ {msgs : List Message}, m ∉ msgs → msgs.Nodup → (enqueue m msgs).Nodup
  | [], _, _ => by simp [enqueue]
  | y :: ys, hm, h => by
    obtain ⟨hy, hys⟩ := nodup_cons.mp h
    unfold enqueue
    split
    · exact nodup_cons.mpr ⟨hm, h⟩
    · refine nodup_cons.mpr ⟨?_, nodup_enqueue (not_mem_of_not_mem_cons hm) hys⟩
      rw [mem_enqueue]
      rintro (rfl | hmem)
      · exact hm mem_cons_self
      · exact hy hmem

theorem waiting_receive {m x : Message} :
    (sw.receive port vn m).Waiting x ↔ x = m ∨ sw.Waiting x := by
  simp only [Switch.Waiting, Switch.receive, Switch.inBuffers_setBuffer]
  constructor
  · rintro ⟨port', vn', hx⟩
    split at hx
    · rcases mem_enqueue.mp hx with h | h
      · exact .inl h
      · exact .inr ⟨port, vn, h⟩
    · exact .inr ⟨port', vn', hx⟩
  · rintro (rfl | ⟨port', vn', hx⟩)
    · exact ⟨port, vn, by simp [mem_enqueue]⟩
    · refine ⟨port', vn', ?_⟩
      split
      case isTrue h =>
        obtain ⟨rfl, rfl⟩ := h
        exact mem_enqueue.mpr (.inr hx)
      case isFalse => exact hx

theorem Switch.Placed.receive (h : sw.Placed)
    (hnew : ¬ sw.Waiting m) : (sw.receive port vn m).Placed := by
  have hold : ∀ {port' vn' x}, x ∈ (sw.receive port vn m).inBuffers port' vn' →
      x = m ∧ port' = port ∧ vn' = vn ∨ x ∈ sw.inBuffers port' vn' := by
    intro port' vn' x hx
    simp only [Switch.receive, Switch.inBuffers_setBuffer] at hx
    split at hx
    case isTrue hslot =>
      obtain ⟨rfl, rfl⟩ := hslot
      rcases mem_enqueue.mp hx with rfl | hx
      · exact .inl ⟨rfl, rfl, rfl⟩
      · exact .inr hx
    case isFalse => exact .inr hx
  constructor
  · intro port' vn'
    simp only [Switch.receive, Switch.inBuffers_setBuffer]
    split
    · exact nodup_enqueue (fun hmem => hnew ⟨port, vn, hmem⟩) (h.nodup port vn)
    · exact h.nodup port' vn'
  · intro port₁ vn₁ port₂ vn₂ x hx hx'
    rcases hold hx, hold hx' with ⟨⟨heq, hp, hv⟩ | hwait, ⟨heq', hp', hv'⟩ | hwait'⟩
    · exact ⟨hp.trans hp'.symm, hv.trans hv'.symm⟩
    · exact absurd ⟨_, _, heq ▸ hwait'⟩ hnew
    · exact absurd ⟨_, _, heq' ▸ hwait⟩ hnew
    · exact h.place hwait hwait'

theorem Switch.Placed.dequeue (h : sw.Placed)
    {rest : List Message} (hbuf : sw.inBuffers port vn = m :: rest) :
    Switch.Placed { sw.setBuffer port vn rest with lastPort := port } ∧
      ∀ x, Switch.Waiting { sw.setBuffer port vn rest with lastPort := port } x ↔
        sw.Waiting x ∧ x ≠ m := by
  have hnodup : (m :: rest).Nodup := hbuf ▸ h.nodup port vn
  obtain ⟨hm, hrest⟩ := nodup_cons.mp hnodup
  have hhead : m ∈ sw.inBuffers port vn := hbuf ▸ mem_cons_self
  have hold : ∀ {port' vn' x}, x ∈ (sw.setBuffer port vn rest).inBuffers port' vn' →
      x ∈ sw.inBuffers port' vn' := by
    intro port' vn' x hx
    rw [Switch.inBuffers_setBuffer] at hx
    split at hx
    case isTrue hslot =>
      obtain ⟨rfl, rfl⟩ := hslot
      exact hbuf ▸ mem_cons_of_mem m hx
    case isFalse => exact hx
  refine ⟨⟨fun port' vn' => ?_, fun hx hx' => h.place (hold hx) (hold hx')⟩, fun x => ?_⟩
  · show ((sw.setBuffer port vn rest).inBuffers port' vn').Nodup
    rw [Switch.inBuffers_setBuffer]
    split
    · exact hrest
    · exact h.nodup port' vn'
  · constructor
    · rintro ⟨port', vn', hx⟩
      refine ⟨⟨port', vn', hold hx⟩, ?_⟩
      rintro rfl
      obtain ⟨rfl, rfl⟩ := h.place (hold hx) hhead
      have hx' : x ∈ (sw.setBuffer port' vn' rest).inBuffers port' vn' := hx
      simp only [Switch.inBuffers_setBuffer, and_self, if_true] at hx'
      exact hm hx'
    · rintro ⟨⟨port', vn', hx⟩, hne⟩
      refine ⟨port', vn', ?_⟩
      show x ∈ (sw.setBuffer port vn rest).inBuffers port' vn'
      rw [Switch.inBuffers_setBuffer]
      split
      case isTrue hslot =>
        obtain ⟨rfl, rfl⟩ := hslot
        rw [hbuf] at hx
        exact mem_of_ne_of_mem hne hx
      case isFalse => exact hx

theorem Inv.receive (h : Inv sw sent offers) (hid : m.id ∉ sent.map Message.id) (port vn : ℕ) :
    Inv (sw.receive port vn m) (m :: sent) offers := by
  have hsent : m ∉ sent := fun hmem => hid (mem_map_of_mem hmem)
  have hnew : ¬ sw.Waiting m := fun hwait => hsent (h.waiting_sent m hwait)
  constructor
  case placed => exact h.placed.receive hnew
  case sent_ids => exact nodup_cons.mpr ⟨hid, h.sent_ids⟩
  case waiting_sent =>
    intro x hx
    rcases waiting_receive.mp hx with rfl | hx
    · exact mem_cons_self
    · exact mem_cons_of_mem m (h.waiting_sent x hx)
  case offered =>
    intro o ho
    exact ⟨mem_cons_of_mem m (h.offered o ho).1, (h.offered o ho).2⟩
  case left =>
    intro x hx
    rcases mem_cons.mp hx with rfl | hx
    · exact .inl (waiting_receive.mpr (.inl rfl))
    · rcases h.left x hx with hwait | hdeq
      · exact .inl (waiting_receive.mpr (.inr hwait))
      · exact .inr hdeq
  case gone =>
    intro o ho hdeq hwait
    rcases waiting_receive.mp hwait with heq | hwait
    · exact hsent (heq ▸ (h.offered o ho).1)
    · exact h.gone o ho hdeq hwait
  case once => exact h.once

/-- An offer of a waiting message that does not dequeue it leaves only a trace in the log. -/
theorem Inv.refuse (h : Inv sw sent offers) (hwait : sw.Waiting m) (gen : ℕ → Option ℕ)
    (hdeq : (sw.offer gen m).dequeues = false) : Inv sw sent (offers ++ [sw.offer gen m]) := by
  constructor
  case placed => exact h.placed
  case sent_ids => exact h.sent_ids
  case waiting_sent => exact h.waiting_sent
  case offered =>
    intro o ho
    rcases mem_append.mp ho with ho | ho
    · exact h.offered o ho
    · rw [mem_singleton.mp ho]
      exact ⟨h.waiting_sent m hwait, sw.answer gen, rfl⟩
  case left =>
    intro x hx
    rcases h.left x hx with hx | ⟨o, ho, hx⟩
    · exact .inl hx
    · exact .inr ⟨o, mem_append_left _ ho, hx⟩
  case gone =>
    intro o ho hdeq'
    rcases mem_append.mp ho with ho | ho
    · exact h.gone o ho hdeq'
    · rw [mem_singleton.mp ho, hdeq] at hdeq'
      cases hdeq'
  case once =>
    refine pairwise_append.mpr ⟨h.once, pairwise_singleton _ _, fun o _ o' ho' _ hdeq' => ?_⟩
    rw [mem_singleton.mp ho', hdeq] at hdeq'
    cases hdeq'

theorem Inv.take (h : Inv sw sent offers) {rest : List Message}
    (hbuf : sw.inBuffers port vn = m :: rest) (gen : ℕ → Option ℕ)
    (hdeq : (sw.offer gen m).dequeues = true) :
    Inv { sw.setBuffer port vn rest with lastPort := port } sent (offers ++ [sw.offer gen m]) := by
  obtain ⟨hplaced, hwaiting⟩ := h.placed.dequeue hbuf
  have hwait : sw.Waiting m := ⟨port, vn, hbuf ▸ mem_cons_self⟩
  constructor
  case placed => exact hplaced
  case sent_ids => exact h.sent_ids
  case waiting_sent =>
    intro x hx
    exact h.waiting_sent x ((hwaiting x).mp hx).1
  case offered =>
    intro o ho
    rcases mem_append.mp ho with ho | ho
    · exact h.offered o ho
    · rw [mem_singleton.mp ho]
      exact ⟨h.waiting_sent m hwait, sw.answer gen, rfl⟩
  case left =>
    intro x hx
    by_cases hxm : x = m
    · exact .inr ⟨sw.offer gen m, by simp, hdeq, hxm.symm⟩
    · rcases h.left x hx with hx | ⟨o, ho, hx⟩
      · exact .inl ((hwaiting x).mpr ⟨hx, hxm⟩)
      · exact .inr ⟨o, mem_append_left _ ho, hx⟩
  case gone =>
    intro o ho hdeq' hx
    rcases mem_append.mp ho with ho | ho
    · exact h.gone o ho hdeq' ((hwaiting _).mp hx).1
    · rw [mem_singleton.mp ho] at hx
      exact ((hwaiting _).mp hx).2 rfl
  case once =>
    refine pairwise_append.mpr ⟨h.once, pairwise_singleton _ _, fun o ho o' ho' hdeq' _ => ?_⟩
    rw [mem_singleton.mp ho']
    intro heq
    exact h.gone o ho hdeq' (heq ▸ hwait)

theorem Inv.serve (h : Inv sw sent offers) (now : ℕ) (gen : ℕ → ℕ → ℕ → Option ℕ) (slot : ℕ × ℕ) :
    Inv (Switch.serve now gen (sw, offers) slot).1 sent
      (Switch.serve now gen (sw, offers) slot).2 := by
  rcases Switch.serve_cases now gen sw offers slot with ⟨-, heq⟩ | ⟨m, rest, hbuf, -, hcase⟩
  · rwa [heq]
  · rcases hcase with ⟨hdeq, heq⟩ | ⟨hdeq, heq⟩
    · rw [heq]
      exact h.refuse ⟨slot.1, slot.2, hbuf ▸ mem_cons_self⟩ _ hdeq
    · rw [heq]
      exact h.take hbuf _ hdeq

theorem Inv.foldl (now : ℕ) (gen : ℕ → ℕ → ℕ → Option ℕ) :
    ∀ (slots : List (ℕ × ℕ)) (s : Switch × List Offer), Inv s.1 sent s.2 →
      Inv (slots.foldl (Switch.serve now gen) s).1 sent (slots.foldl (Switch.serve now gen) s).2
  | [], _, h => h
  | slot :: slots, _, h => Inv.foldl now gen slots _ (h.serve now gen slot)

theorem Reach.inv (h : Reach sw sent offers) : Inv sw sent offers := by
  induction h with
  | init hempty =>
    refine ⟨⟨fun port vn => ?_, fun {port vn _ _ m} hm => ?_⟩, nodup_nil, fun m hm => ?_,
      by simp, by simp, by simp, List.Pairwise.nil⟩
    · rw [hempty]
      exact nodup_nil
    · rw [hempty] at hm
      cases hm
    · obtain ⟨port, vn, hm⟩ := hm
      rw [hempty] at hm
      cases hm
  | receive port vn _ hid ih => exact ih.receive hid port vn
  | read now gen _ ih => exact Inv.foldl now gen _ _ ih

/-! ## Exactly once -/

theorem Offer.mem_handedOver {o : Offer} {pair : ℕ × ℕ} : pair ∈ o.handedOver ↔
      pair.1 = o.msg.id ∧ ∃ ans : Answer, (pair.2, ans) ∈ o.answers ∧ ans.Taken = true := by
  obtain ⟨id, dest⟩ := pair
  simp only [Offer.handedOver, mem_map, mem_filter, Prod.mk.injEq]
  constructor
  · rintro ⟨⟨d, ans⟩, ⟨hmem, htaken⟩, rfl, rfl⟩
    exact ⟨rfl, ans, hmem, htaken⟩
  · rintro ⟨rfl, ans, hmem, htaken⟩
    exact ⟨(dest, ans), ⟨hmem, htaken⟩, rfl, rfl⟩

theorem Offer.dequeues_of_taken {o : Offer} {a : ℕ × Answer} (ha : a ∈ o.answers)
    (htaken : a.2.Taken = true) : o.dequeues = true :=
  Bool.or_eq_true_iff.mpr (.inr (any_eq_true.mpr ⟨a, ha, htaken⟩))

section Invariant

variable {sw : Switch} {sent : List Message} {offers : List Offer} (h : Inv sw sent offers)

include h

theorem Inv.eq_of_id {m m' : Message} (hm : m ∈ sent) (hm' : m' ∈ sent) (hid : m.id = m'.id) :
    m = m' := inj_on_of_nodup_map h.sent_ids hm hm' hid

theorem Inv.answer_unique {o : Offer} (ho : o ∈ offers) {dest : ℕ} {ans ans' : Answer}
    (ha : (dest, ans) ∈ o.answers) (ha' : (dest, ans') ∈ o.answers) : ans = ans' := by
  obtain ⟨-, answerOf, hans⟩ := h.offered o ho
  rw [hans] at ha ha'
  obtain ⟨d, -, heq⟩ := mem_map.mp ha
  obtain ⟨d', -, heq'⟩ := mem_map.mp ha'
  obtain ⟨rfl, rfl⟩ := Prod.mk.inj heq
  obtain ⟨rfl, rfl⟩ := Prod.mk.inj heq'
  rfl

theorem Inv.mem_answers_iff {o : Offer} (ho : o ∈ offers) {dest : ℕ} :
    (∃ ans, (dest, ans) ∈ o.answers) ↔ dest ∈ o.msg.dests := by
  obtain ⟨-, answerOf, hans⟩ := h.offered o ho
  simp [hans]

theorem Inv.offer_unique {o o' : Offer} (ho : o ∈ offers) (ho' : o' ∈ offers)
    (hdeq : o.dequeues = true) (hdeq' : o'.dequeues = true) (hid : o.msg.id = o'.msg.id) :
    o = o' := by
  have hmsg : o.msg = o'.msg := h.eq_of_id (h.offered o ho).1 (h.offered o' ho').1 hid
  have hsymm : Std.Symm fun o o' : Offer =>
      o.dequeues = true → o'.dequeues = true → o.msg ≠ o'.msg :=
    ⟨fun _ _ hr hd hd' heq => hr hd' hd heq.symm⟩
  by_contra hne
  exact h.once.forall ho ho' hne hdeq hdeq' hmsg

theorem Inv.nodup_handedOver : (handedOver offers).Nodup := by
  refine nodup_flatMap.mpr ⟨fun o ho => ?_, ?_⟩
  · obtain ⟨-, answerOf, hans⟩ := h.offered o ho
    refine List.Nodup.map_on ?_ (List.Nodup.filter _ ?_)
    · simp_all
    · rw [hans]
      exact (Finset.sort_nodup _ _).map fun d d' heq => (Prod.mk.inj heq).1
  · refine h.once.imp_of_mem fun {o o'} ho ho' honce => ?_
    intro pair hpair hpair'
    obtain ⟨hid, ans, ha, htaken⟩ := Offer.mem_handedOver.mp hpair
    obtain ⟨hid', ans', ha', htaken'⟩ := Offer.mem_handedOver.mp hpair'
    have hmsg : o.msg = o'.msg :=
      h.eq_of_id (h.offered o ho).1 (h.offered o' ho').1 (hid.symm.trans hid')
    exact honce (Offer.dequeues_of_taken ha htaken) (Offer.dequeues_of_taken ha' htaken') hmsg

theorem Inv.sound_handedOver {pair : ℕ × ℕ} (hpair : pair ∈ handedOver offers) :
    ∃ m ∈ sent, m.id = pair.1 ∧ pair.2 ∈ m.dests := by
  obtain ⟨o, ho, hmem⟩ := mem_flatMap.mp hpair
  obtain ⟨hid, ans, ha, -⟩ := Offer.mem_handedOver.mp hmem
  exact ⟨o.msg, (h.offered o ho).1, hid.symm, (h.mem_answers_iff ho).mp ⟨ans, ha⟩⟩

/-- Without split offers, a message that is gone was taken by all its destinations. -/
theorem Inv.complete_of_not_split (hsplit : ∀ o ∈ offers, ¬ o.Split) {m : Message}
    (hm : m ∈ sent) (hgone : ¬ sw.Waiting m) {dest : ℕ} (hdest : dest ∈ m.dests) :
    (m.id, dest) ∈ handedOver offers := by
  rcases h.left m hm with hwait | ⟨o, ho, hdeq, rfl⟩
  · exact absurd hwait hgone
  · obtain ⟨ans, ha⟩ := (h.mem_answers_iff ho).mpr hdest
    refine mem_flatMap.mpr ⟨o, ho, Offer.mem_handedOver.mpr ⟨rfl, ans, ha, ?_⟩⟩
    by_contra hrefused
    have hrefused : ans.Taken = false := by simpa using hrefused
    rcases Bool.or_eq_true_iff.mp hdeq with hempty | htaken
    · rw [List.isEmpty_iff.mp hempty] at ha
      cases ha
    · obtain ⟨a, ha', htaken⟩ := any_eq_true.mp htaken
      exact hsplit o ho ⟨⟨a, ha', htaken⟩, ⟨_, ha, hrefused⟩⟩

/-- The destinations a split offer refuses are lost: the message is gone, and only the offer
that dequeued it could have handed it over. -/
theorem Inv.not_split_of_complete (hcomplete : ∀ m ∈ sent, ¬ sw.Waiting m → ∀ dest ∈ m.dests,
      (m.id, dest) ∈ handedOver offers) {o : Offer} (ho : o ∈ offers) : ¬ o.Split := by
  rintro ⟨⟨a, ha, htaken⟩, ⟨⟨dest, ans⟩, hb, hrefused⟩⟩
  have hdeq : o.dequeues = true := Offer.dequeues_of_taken ha htaken
  have hdest : dest ∈ o.msg.dests := (h.mem_answers_iff ho).mp ⟨ans, hb⟩
  obtain ⟨o', ho', hmem⟩ := mem_flatMap.mp
    (hcomplete o.msg (h.offered o ho).1 (h.gone o ho hdeq) dest hdest)
  obtain ⟨hid, ans', ha', htaken'⟩ := Offer.mem_handedOver.mp hmem
  obtain rfl := h.offer_unique ho ho' hdeq (Offer.dequeues_of_taken ha' htaken') hid
  rw [h.answer_unique ho hb ha', htaken'] at hrefused
  cases hrefused

end Invariant

/-- **Hand-over is exactly-once exactly in the runs without a split offer.** -/
theorem exactlyOnce_iff {sw : Switch} {sent : List Message} {offers : List Offer}
    (h : Reach sw sent offers) : ExactlyOnce sw sent offers ↔ ∀ o ∈ offers, ¬ o.Split := by
  have hinv := h.inv
  constructor
  · intro hexact o ho
    exact hinv.not_split_of_complete hexact.complete ho
  · intro hsplit
    exact ⟨hinv.nodup_handedOver, fun _ => hinv.sound_handedOver,
      fun m hm hgone dest hdest => hinv.complete_of_not_split hsplit hm hgone hdest⟩

/-- Switch 0 with one input buffer, in a network where every node has its own switch. -/
def oneBuffer : Switch := ⟨0, id, 1, fun _ => 1, fun _ _ => [], 0⟩

/-- A multicast to nodes 1 and 2. -/
def toBoth : Message := ⟨7, [1, 2].toFinset, 0⟩

/-- The run in which that message arrives and is read once, with the network's answers `gen`. -/
def multicastRun (gen : ℕ → Option ℕ) : Switch × List Offer :=
  Switch.readMessage 0 (fun _ _ => gen) (oneBuffer.receive 0 0 toBoth, [])

theorem reach_multicastRun (gen : ℕ → Option ℕ) :
    Reach (multicastRun gen).1 [toBoth] (multicastRun gen).2 :=
  .read 0 _ (.receive 0 0 (.init fun _ _ => rfl) (by simp))

theorem offers_multicastRun (gen : ℕ → Option ℕ) : (multicastRun gen).2 =
      [⟨toBoth, [(1, oneBuffer.answer gen 1), (2, oneBuffer.answer gen 2)]⟩] := by
  have hsort : toBoth.dests.sort (· ≤ ·) = [1, 2] :=
    (toFinset_sort (l := [1, 2]) (· ≤ ·) (by decide)).mpr (by decide)
  have hserve : (multicastRun gen).2 = [(oneBuffer.receive 0 0 toBoth).offer gen toBoth] := rfl
  rw [hserve, Switch.offer, hsort]
  rfl

/-- When the network takes both packets, all is well. -/
theorem exactlyOnce_iff_multicast : ExactlyOnce (multicastRun fun dest => some dest).1 [toBoth]
      (multicastRun fun dest => some dest).2 := by
  refine (exactlyOnce_iff (reach_multicastRun _)).mpr fun o ho => ?_
  rw [offers_multicastRun, mem_singleton] at ho
  subst ho
  rintro ⟨-, a, ha, hrefused⟩
  have hall : ∀ a ∈ [(1, oneBuffer.answer (fun dest => some dest) 1),
      (2, oneBuffer.answer (fun dest => some dest) 2)], a.2.Taken = true := by decide
  rw [hall a ha] at hrefused
  cases hrefused

/-- The network takes the packet for node 1 and refuses the one for node 2: the message is
dequeued, and nothing is left that could reach node 2. -/
theorem multicast_split_lost :
    Reach (multicastRun fun dest => if dest = 1 then some 0 else none).1 [toBoth]
        (multicastRun fun dest => if dest = 1 then some 0 else none).2 ∧
      ¬ ExactlyOnce (multicastRun fun dest => if dest = 1 then some 0 else none).1 [toBoth]
        (multicastRun fun dest => if dest = 1 then some 0 else none).2 := by
  refine ⟨reach_multicastRun _, fun h => ?_⟩
  have hinv := (reach_multicastRun fun dest => if dest = 1 then some 0 else none).inv
  refine hinv.not_split_of_complete h.complete
    (o := ⟨toBoth, [(1, .accepted 0), (2, .refused)]⟩) ?_ ?_
  · rw [offers_multicastRun]
    exact mem_singleton.mpr rfl
  · exact ⟨⟨(1, .accepted 0), by simp, rfl⟩, ⟨(2, .refused), by simp, rfl⟩⟩

end BookSim.Gem5
