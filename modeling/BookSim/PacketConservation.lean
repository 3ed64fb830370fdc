/-
# PacketConservation — every packet that is accepted is returned once

The calls of the wrapper are `GeneratePacket`, `RunCycles` and `RetirePacket`.  Beside the
traffic manager a run keeps a ledger:

    accepted    the packets `GeneratePacket` has taken, with what it was told about them
    network     the flits that have been written to the networks and have not come back
    returned    the packets `RetirePacket` has handed out

The networks are known by one assumption, `Delivers`: what arrives is a flit that is under
way, at a lane of its destination, and no flit of a packet overtakes another.  The invariant
is `Balanced`, which counts for every packet the flits that have arrived: the others are, in
order, those in the network followed by those in the injection queue.

The source of a packet is not kept as it was given: a flit carries the lane `GetVirtualNode`
has chosen, and `RetirePacket` reports the node of that lane.  On a DGX-1 the first packet of a
node is put on the lane that is read at `end()`, which can be any.
-/
import BookSim.Admission
import BookSim.Lib.Tokens

namespace BookSim

open List
open Function (update update_of_ne update_self)

/-! ## The ledger -/

/-- A packet that `GeneratePacket` has accepted. -/
structure Accepted where
  pid : ℕ
  /-- The node the caller has named, the lane `GetVirtualNode` has chosen for it, and whether it
  has read it from an iterator at `end()`. -/
  source : ℕ
  lane : ℕ
  atEnd : Bool
  dest : ℕ
  cl : ℕ
  size : ℕ
  delay : ℤ
  /-- When it was accepted, and the number of its first flit. -/
  time : ℤ
  firstId : ℕ

namespace Accepted

/-- What the `k`-th flit of the packet is. -/
def label (a : Accepted) (k : ℕ) : FlitLabel where
  id := a.firstId + k
  pid := a.pid
  cl := a.cl
  src := a.lane
  dest := a.dest
  head := k = 0
  tail := k + 1 = a.size
  ctime := a.time - a.delay
  packetSize := a.size

def labels (a : Accepted) : List FlitLabel := (List.range a.size).map a.label

theorem labels_drop (a : Accepted) {k : ℕ} (h : k < a.size) :
    a.labels.drop k = a.label k :: a.labels.drop (k + 1) := by
  rw [drop_eq_getElem_cons (by simpa [labels] using h)]
  simp [labels]

theorem labels_drop_eq_cons {a : Accepted} {k : ℕ} {x : FlitLabel} {xs : List FlitLabel}
    (h : a.labels.drop k = x :: xs) :
    k < a.size ∧ x = a.label k ∧ xs = a.labels.drop (k + 1) := by
  by_cases hk : k < a.size
  · rw [a.labels_drop hk] at h
    cases h
    exact ⟨hk, rfl, rfl⟩
  · rw [drop_eq_nil_of_le (by simpa [labels] using hk)] at h
    exact nomatch h

theorem mem_labels_drop {a : Accepted} {k : ℕ} {x : FlitLabel} :
    x ∈ a.labels.drop k ↔ ∃ i, k ≤ i ∧ i < a.size ∧ x = a.label i := by
  simp only [labels, ← map_drop, mem_map, range_eq_range', drop_range', mem_range'_1]
  constructor
  · rintro ⟨i, hi, rfl⟩
    exact ⟨i, by omega, by omega, rfl⟩
  · rintro ⟨i, hki, hi, rfl⟩
    exact ⟨i, by omega, rfl⟩

end Accepted

structure Ledger where
  accepted : List Accepted := []
  network : List Flit := []
  returned : List TrafficManager.RetiredPacket := []

/-- `Delivers actualNode before arrivals after`: the networks, with the flits `before` under
way, hand over `arrivals`, each at a lane. -/
inductive Delivers (actualNode : ℕ → ℕ) : List Flit → List (ℕ × Flit) → List Flit → Prop
  | nil (before : List Flit) : Delivers actualNode before [] before
  | cons {ahead behind rest : List Flit} {g f : Flit} {lane : ℕ} {arrivals : List (ℕ × Flit)} :
      (∀ h ∈ ahead, h.pid ≠ g.pid) → f.label = g.label → f.itime = g.itime →
      actualNode lane = g.dest → Delivers actualNode (ahead ++ behind) arrivals rest →
      Delivers actualNode (ahead ++ g :: behind) ((lane, f) :: arrivals) rest

theorem Delivers.append {actualNode : ℕ → ℕ} {before rest : List Flit}
    {arrivals : List (ℕ × Flit)} (h : Delivers actualNode before arrivals rest)
    (sent : List Flit) : Delivers actualNode (before ++ sent) arrivals (rest ++ sent) := by
  induction h with
  | nil before => exact .nil _
  | cons hahead hlabel hitime hlane _ ih =>
    rw [append_assoc, cons_append]
    refine .cons hahead hlabel hitime hlane ?_
    rwa [← append_assoc]

namespace Ledger

open TrafficManager hiding Run

/-- The iterator of the node, if the network keeps one, is at `end()`. -/
def readsEnd (w : Wrapper) (node : ℕ) : Bool :=
  w.lanes.any fun lanes => (lanes.lastVnode node).isNone

/-- The entry for a packet that is accepted in the state `w`. -/
def entry (u : ℕ × Option ℕ) (w : Wrapper) (source dest size cl : ℕ) (delay : ℤ) (pid : ℕ) :
    Accepted where
  pid := pid
  source := source
  lane := (w.getVirtualNode u source).1
  atEnd := readsEnd w source
  dest := dest
  cl := cl
  size := size
  delay := delay
  time := w.tm.time
  firstId := w.tm.curId

/-- The runs of the wrapper on networks that deliver.  `undefined` is what the read of a node's
iterator at `end()` gives. -/
inductive Run (cfg : TrafficConfig) (topology : Topology) (undefined : ℕ → ℕ × Option ℕ) :
    Wrapper → Ledger → Prop
  | new (bufs : ℕ → ℕ → BufferState) (gEndVCs : ℕ → ℤ) :
      Run cfg topology undefined (.new topology bufs gEndVCs) {}
  | refuse {w w' : Wrapper} {l : Ledger} {source size cl : ℕ} {dest delay : ℤ} :
      Run cfg topology undefined w l → source < topology.nodes cfg → cl < cfg.classes →
      w.generatePacket cfg (undefined source) source dest size cl delay = .ok (w', none) →
      Run cfg topology undefined w' l
  | accept {w w' : Wrapper} {l : Ledger} {source dest size cl pid : ℕ} {delay : ℤ} :
      Run cfg topology undefined w l → source < topology.nodes cfg → cl < cfg.classes →
      (w.getVirtualNode (undefined source) source).1 < cfg.nodes → 1 ≤ size →
      w.generatePacket cfg (undefined source) source dest size cl delay = .ok (w', some pid) →
      Run cfg topology undefined w' { l with
        accepted := l.accepted ++ [entry (undefined source) w source dest size cl delay pid] }
  | step {w : Wrapper} {tm : TrafficManager} {l : Ledger} {net : NetworkSide} {rest : List Flit}
      {sent : List (ℕ × ℕ × Flit)} :
      Run cfg topology undefined w l → Delivers w.actualNode l.network (arrivals cfg net) rest →
      step cfg w.actualNode net w.tm = .ok (tm, sent) →
      Run cfg topology undefined { w with tm := tm }
        { l with network := rest ++ sent.map fun p => p.2.2 }
  | retire {w : Wrapper} {l : Ledger} : Run cfg topology undefined w l →
      Run cfg topology undefined { w with tm := (retirePacket cfg w.actualNode w.tm).1 }
        { l with returned := l.returned ++ (retirePacket cfg w.actualNode w.tm).2.toList }

/-! ## What injection does to the waiting flits -/

section Injection

variable {cfg : TrafficConfig} {net : NetworkSide} {tm tm' : TrafficManager} {subnet n c : ℕ}

/-- The flits that wait at a node in a class. -/
def queueLabels (tm : TrafficManager) (n c : ℕ) : List FlitLabel :=
  (tm.partialPackets n c).map Flit.label

/-- The parts of the traffic manager that only generating and retiring touch are the same. -/
def SameBooks (tm tm' : TrafficManager) : Prop :=
  tm' = { tm with
    bufStates := tm'.bufStates
    lastVC := tm'.lastVC
    lastClass := tm'.lastClass
    partialPackets := tm'.partialPackets }

theorem map_label_eq {q q' : List Flit} (h : q'.map withoutVC = q.map withoutVC) :
    q'.map Flit.label = q.map Flit.label := by
  have hlabels := congrArg (List.map Flit.label) h
  rwa [map_map, map_map] at hlabels

/-- While a flit is selected, the queues of the node hold the flits they held, and the best
one is at the front of the queue of its class. -/
structure Selection (tm : TrafficManager) (n : ℕ) (s : (ℕ → List Flit) × Option Flit) : Prop where
  queues : ∀ c, (s.1 c).map Flit.label = queueLabels tm n c
  front : ∀ f ∈ s.2, ∃ rest, queueLabels tm n f.cl = f.label :: rest

theorem Selection.consider {s s' : (ℕ → List Flit) × Option Flit} (h : Selection tm n s)
    (hs' : considerClass cfg net tm subnet n s c = .ok s') : Selection tm n s' := by
  rcases considerClass_eq_ok hs' with rfl | ⟨cf, rest, cf', -, hq, hcl, -, hpick, hq', hbest⟩
  · exact h
  have hlabel : cf'.label = cf.label :=
    (congrArg Flit.label (withoutVC_pickVC hpick) : (withoutVC cf').label = (withoutVC cf).label)
  have hqueue : queueLabels tm n c = cf'.label :: rest.map Flit.label := by
    rw [← h.queues c, hq, map_cons, hlabel]
  refine ⟨fun d => (map_label_eq (withoutVC_considerClass hs' d)).trans (h.queues d), ?_⟩
  rcases hbest with ⟨hbest, -⟩ | ⟨hbest, -⟩
  · rw [hbest]
    exact h.front
  · intro f hf
    rw [hbest] at hf
    obtain rfl := Option.mem_some.mp hf
    have hclass : cf'.cl = c := (congrArg FlitLabel.cl hlabel).trans hcl
    rw [hclass]
    exact ⟨_, hqueue⟩

theorem selection_selectFlit {s : (ℕ → List Flit) × Option Flit}
    (hcl : ∀ c, ∀ f ∈ tm.partialPackets n c, f.cl = c)
    (h : selectFlit cfg net tm subnet n = .ok s) : Selection tm n s := by
  obtain ⟨held, hheld, h⟩ := bind_ok.mp h
  refine inv_of_foldlM_eq_ok (I := Selection tm n) h (fun _ _ _ _ hs' h => h.consider hs')
    ⟨fun _ => rfl, ?_⟩
  intro f hf
  obtain ⟨-, -, -, rest, hq⟩ := heldFlit_eq_ok hheld f hf
  refine ⟨rest.map Flit.label, ?_⟩
  rw [hcl _ f (hq ▸ mem_cons_self), queueLabels, hq, map_cons]

/-- At one node and subnet nothing happens to the waiting flits, or the front flit of one
queue is sent. -/
theorem injectAt_eq_ok {s s' : TrafficManager × List (ℕ × ℕ × Flit)} {place : ℕ × ℕ}
    (hcl : ∀ c, ∀ f ∈ s.1.partialPackets place.2 c, f.cl = c)
    (h : injectAt cfg net s place = .ok s') :
    SameBooks s.1 s'.1 ∧ (queueLabels s'.1 = queueLabels s.1 ∧ s'.2 = s.2 ∨
        ∃ f rest, queueLabels s.1 place.2 f.cl = f.label :: rest ∧
          queueLabels s'.1 = update₂ (queueLabels s.1) place.2 f.cl rest ∧
          s'.2 = s.2 ++ [(place.1, place.2, f)] ∧ f.itime = s.1.time) := by
  obtain ⟨selected, hselected, h⟩ := bind_ok.mp h
  have hsel := selection_selectFlit hcl hselected
  have hqueues : ∀ m c, (update s.1.partialPackets place.2 selected.1 m c).map Flit.label =
      queueLabels s.1 m c := by
    intro m c
    by_cases hm : m = place.2
    · subst hm
      rw [update_self, hsel.queues]
    · rw [update_of_ne hm, queueLabels]
  cases hbest : selected.2 with
  | none =>
    simp only [hbest] at h
    cases h
    exact ⟨rfl, .inl ⟨funext₂ hqueues, rfl⟩⟩
  | some f =>
    simp only [hbest] at h
    obtain ⟨⟨tm', g⟩, hsend, h⟩ := bind_ok.mp h
    obtain ⟨taken, sent, pri, -, -, rfl, rfl⟩ := sendFlit_eq_ok hsend
    cases h
    obtain ⟨rest, hfront⟩ := hsel.front f (hbest ▸ rfl)
    refine ⟨rfl, .inr ⟨{ f with pri := pri, itime := s.1.time }, rest, hfront, ?_, rfl, rfl⟩⟩
    funext m c
    simp only [queueLabels, update₂_apply]
    split_ifs with hplace
    · rw [map_label_eq (map_withoutVC_passBack ..), map_tail, hqueues, hfront, tail_cons]
    · exact hqueues m c

theorem receiveCredits_books (h : receiveCredits cfg net tm = .ok tm') :
    SameBooks tm tm' ∧ queueLabels tm' = queueLabels tm := by
  rw [receiveCredits_frame h]
  exact ⟨rfl, rfl⟩

end Injection

/-! ## The invariant -/

/-- The flits of one packet among others. -/
def ofPid (pid : ℕ) (labels : List FlitLabel) : List FlitLabel :=
  labels.filter fun x => x.pid = pid

@[simp] theorem ofPid_append (pid : ℕ) (xs ys : List FlitLabel) :
    ofPid pid (xs ++ ys) = ofPid pid xs ++ ofPid pid ys := filter_append ..

variable {pid : ℕ}

theorem ofPid_cons_self {x : FlitLabel} (h : x.pid = pid) (xs : List FlitLabel) :
    ofPid pid (x :: xs) = x :: ofPid pid xs := filter_cons_of_pos (decide_eq_true h)

theorem ofPid_cons_ne {x : FlitLabel} (h : x.pid ≠ pid) (xs : List FlitLabel) :
    ofPid pid (x :: xs) = ofPid pid xs := filter_cons_of_neg (by simpa using h)

theorem ofPid_eq_nil {xs : List FlitLabel} (h : ∀ x ∈ xs, x.pid ≠ pid) :
    ofPid pid xs = [] := filter_eq_nil_iff.mpr fun x hx => by simpa using h x hx

theorem mem_ofPid {x : FlitLabel} {xs : List FlitLabel} :
    x ∈ ofPid pid xs ↔ x ∈ xs ∧ x.pid = pid := by simp [ofPid]

/-- `h` is the head of the packet, and has arrived at a lane. -/
structure HeadOf (cfg : TrafficConfig) (actualNode : ℕ → ℕ) (now : ℤ) (a : Accepted) (h : Flit) :
    Prop where
  pid : h.pid = a.pid
  cl : h.cl = a.cl
  src : h.src = a.lane
  size : h.packetSize = a.size
  head : h.head = true
  lane : h.dest < cfg.nodes
  dest : actualNode h.dest = a.dest
  ctime : h.ctime = a.time - a.delay
  itime : a.time ≤ h.itime ∧ h.itime ≤ now

/-- `r` reports the packet as it was generated, but for the source. -/
structure ReportOf (actualNode : ℕ → ℕ) (now : ℤ) (a : Accepted) (r : RetiredPacket) : Prop where
  pid : r.pid = a.pid
  src : r.src = actualNode a.lane
  dest : r.dest = a.dest
  cl : r.cl = a.cl
  size : r.size = a.size
  times : ∃ itime atime, a.time ≤ itime ∧ itime ≤ atime ∧ atime ≤ now ∧
    r.plat = toInt (atime - (a.time - a.delay)) ∧ r.nlat = toInt (atime - itime)

/-- The packets in the ejection queues. -/
def waiting (cfg : TrafficConfig) (tm : TrafficManager) : List ℕ :=
  (ejectionPlaces cfg).flatMap fun p => (tm.ejectionQueue p.1 p.2).map fun e => e.1.pid

/-- The packets that are complete: those handed out and those waiting to be. -/
def completed (cfg : TrafficConfig) (tm : TrafficManager) (l : Ledger) : List ℕ :=
  l.returned.map RetiredPacket.pid ++ waiting cfg tm

/-- The books of the flits, when `arrived pid` flits of a packet have come back. -/
structure FlitsBalanced (tm : TrafficManager) (l : Ledger) (arrived : ℕ → ℕ) : Prop where
  flow : ∀ a ∈ l.accepted, ofPid a.pid (l.network.map Flit.label) ++
    ofPid a.pid (queueLabels tm a.lane a.cl) = a.labels.drop (arrived a.pid)
  queued : ∀ n c, ∀ x ∈ queueLabels tm n c, ∃ a ∈ l.accepted, a.pid = x.pid ∧ a.lane = n ∧ a.cl = c
  sent : ∀ f ∈ l.network, ∃ a ∈ l.accepted, a.pid = f.pid ∧ a.time ≤ f.itime ∧ f.itime ≤ tm.time
  inFlight : ∀ cl id, id ∈ tm.totalInFlightFlits cl ↔
    ∃ a ∈ l.accepted, a.cl = cl ∧ ∃ k, arrived a.pid ≤ k ∧ k < a.size ∧ id = a.firstId + k

/-- The books of the packets. -/
structure PacketsBalanced (cfg : TrafficConfig) (actualNode : ℕ → ℕ) (tm : TrafficManager)
    (l : Ledger) (arrived : ℕ → ℕ) : Prop where
  unparked : ∀ cl pid, arrived pid = 0 → tm.retiredPackets cl pid = none
  parked : ∀ a ∈ l.accepted, 0 < arrived a.pid → arrived a.pid < a.size →
    ∃ h, tm.retiredPackets a.cl a.pid = some h ∧ HeadOf cfg actualNode tm.time a h
  ejected : ∀ cl n, ∀ e ∈ tm.ejectionQueue cl n, cl < cfg.classes ∧ n < cfg.nodes ∧
    ∃ a ∈ l.accepted, arrived a.pid = a.size ∧ HeadOf cfg actualNode tm.time a e.1 ∧
      e.1.itime ≤ e.2.atime ∧ e.2.atime ≤ tm.time
  returned : ∀ r ∈ l.returned, ∃ a ∈ l.accepted, arrived a.pid = a.size ∧
    ReportOf actualNode tm.time a r
  complete : ∀ a ∈ l.accepted, arrived a.pid = a.size → a.pid ∈ completed cfg tm l
  once : (completed cfg tm l).Nodup

/-- The numbers given to packets and flits. -/
structure Numbered (cfg : TrafficConfig) (tm : TrafficManager) (l : Ledger) (arrived : ℕ → ℕ) :
    Prop where
  below : ∀ a ∈ l.accepted, a.pid < tm.curPid ∧ a.firstId + a.size ≤ tm.curId
  apart : l.accepted.Pairwise fun a b => a.pid ≠ b.pid ∧ a.firstId + a.size ≤ b.firstId
  place : ∀ a ∈ l.accepted, 1 ≤ a.size ∧ a.lane < cfg.nodes ∧ a.cl < cfg.classes ∧
    0 ≤ a.time ∧ a.time ≤ tm.time
  arrived_le : ∀ a ∈ l.accepted, arrived a.pid ≤ a.size
  fresh : ∀ pid, tm.curPid ≤ pid → arrived pid = 0
  time : 0 ≤ tm.time

structure Balanced (cfg : TrafficConfig) (actualNode : ℕ → ℕ) (tm : TrafficManager)
    (l : Ledger) (arrived : ℕ → ℕ) : Prop where
  numbers : Numbered cfg tm l arrived
  flits : FlitsBalanced tm l arrived
  packets : PacketsBalanced cfg actualNode tm l arrived

section Invariant

variable {cfg : TrafficConfig} {actualNode : ℕ → ℕ} {net : NetworkSide}
  {tm tm' : TrafficManager} {l : Ledger} {arrived : ℕ → ℕ} {topology : Topology}
  {undefined : ℕ → ℕ × Option ℕ} {w w' : Wrapper}

theorem Numbered.eq_of_pid (h : Numbered cfg tm l arrived) {a b : Accepted}
    (ha : a ∈ l.accepted) (hb : b ∈ l.accepted) (hpid : a.pid = b.pid) : a = b := by
  by_contra hne
  rcases pairwise_iff_getElem.mp h.apart with hapart
  obtain ⟨i, hi, rfl⟩ := mem_iff_getElem.mp ha
  obtain ⟨j, hj, rfl⟩ := mem_iff_getElem.mp hb
  rcases lt_trichotomy i j with hij | rfl | hij
  · exact (hapart i j hi hj hij).1 hpid
  · exact hne rfl
  · exact (hapart j i hj hi hij).1 hpid.symm

theorem Numbered.eq_of_id (h : Numbered cfg tm l arrived) {a b : Accepted}
    (ha : a ∈ l.accepted) (hb : b ∈ l.accepted) {i j : ℕ} (hi : i < a.size) (hj : j < b.size)
    (hid : a.firstId + i = b.firstId + j) : a = b := by
  by_contra hne
  rcases pairwise_iff_getElem.mp h.apart with hapart
  obtain ⟨m, hm, rfl⟩ := mem_iff_getElem.mp ha
  obtain ⟨n, hn, rfl⟩ := mem_iff_getElem.mp hb
  rcases lt_trichotomy m n with hmn | rfl | hmn
  · have := (hapart m n hm hn hmn).2
    omega
  · exact hne rfl
  · have := (hapart n m hn hm hmn).2
    omega

variable {a : Accepted} {head tail : Flit}

theorem HeadOf.mono {now later : ℤ} {h : Flit}
    (hh : HeadOf cfg actualNode now a h) (hle : now ≤ later) : HeadOf cfg actualNode later a h :=
  { hh with itime := ⟨hh.itime.1, hh.itime.2.trans hle⟩ }

theorem ReportOf.mono {now later : ℤ} {r : RetiredPacket}
    (hr : ReportOf actualNode now a r) (hle : now ≤ later) : ReportOf actualNode later a r := by
  obtain ⟨itime, atime, hi, hia, ha, hlat⟩ := hr.times
  exact { hr with times := ⟨itime, atime, hi, hia, ha.trans hle, hlat⟩ }

theorem FlitsBalanced.cl (h : FlitsBalanced tm l arrived) {n c : ℕ} {f : Flit}
    (hf : f ∈ tm.partialPackets n c) : f.cl = c := by
  have hx : f.label ∈ queueLabels tm n c := mem_map_of_mem hf
  obtain ⟨a, ha, hpid, rfl, rfl⟩ := h.queued n c f.label hx
  have hmem : f.label ∈ a.labels.drop (arrived a.pid) := by
    rw [← h.flow a ha]
    exact mem_append_right _ (mem_ofPid.mpr ⟨hx, hpid.symm⟩)
  obtain ⟨i, -, -, hlabel⟩ := Accepted.mem_labels_drop.mp hmem
  exact congrArg FlitLabel.cl hlabel

/-! ### Injection -/

theorem FlitsBalanced.send (h : FlitsBalanced tm l arrived) (hnum : Numbered cfg tm l arrived)
    (hbooks : SameBooks tm tm') {n : ℕ} {f : Flit} {rest : List FlitLabel}
    (htime : f.itime = tm.time)
    (hfront : queueLabels tm n f.cl = f.label :: rest)
    (hqueues : queueLabels tm' = update₂ (queueLabels tm) n f.cl rest) :
    FlitsBalanced tm' { l with network := l.network ++ [f] } arrived := by
  obtain ⟨b, hb, hpid, hlane, hcl⟩ := h.queued n f.cl f.label (hfront ▸ mem_cons_self)
  refine ⟨fun a ha => ?_, fun m c x hx => ?_, fun g hg => ?_, ?_⟩
  · rw [← h.flow a ha, hqueues, update₂_apply, map_append, ofPid_append, append_assoc,
      map_singleton]
    congr 1
    by_cases hplace : a.lane = n ∧ a.cl = f.cl
    · rw [if_pos hplace, hplace.1, hplace.2, hfront, ← ofPid_append, singleton_append]
    · have hne : f.label.pid ≠ a.pid := by
        intro heq
        obtain rfl := hnum.eq_of_pid hb ha (hpid.trans heq)
        exact hplace ⟨hlane, hcl⟩
      rw [if_neg hplace, ofPid_cons_ne hne]
      rfl
  · rw [hqueues, update₂_apply] at hx
    split_ifs at hx with hplace
    · obtain ⟨rfl, rfl⟩ := hplace
      exact h.queued m f.cl x (hfront ▸ mem_cons_of_mem _ hx)
    · exact h.queued m c x hx
  · rw [hbooks]
    rcases mem_append.mp hg with hg | hg
    · exact h.sent g hg
    · obtain rfl := mem_singleton.mp hg
      exact ⟨b, hb, hpid, htime ▸ (hnum.place b hb).2.2.2.2, htime.le⟩
  · rw [hbooks]
    exact h.inFlight

theorem Balanced.of_sameBooks (h : Balanced cfg actualNode tm l arrived)
    (hbooks : SameBooks tm tm') {network : List Flit}
    (hflits : FlitsBalanced tm' { l with network := network } arrived) :
    Balanced cfg actualNode tm' { l with network := network } arrived := by
  rw [hbooks] at hflits ⊢
  exact ⟨{ h.numbers with }, hflits, { h.packets with }⟩

theorem FlitsBalanced.of_sameBooks (h : FlitsBalanced tm l arrived) (hbooks : SameBooks tm tm')
    (hqueues : queueLabels tm' = queueLabels tm) : FlitsBalanced tm' l arrived := by
  refine ⟨hqueues ▸ h.flow, hqueues ▸ h.queued, ?_, ?_⟩
  · rw [hbooks]
    exact h.sent
  · rw [hbooks]
    exact h.inFlight

theorem Balanced.receiveCredits (h : Balanced cfg actualNode tm l arrived)
    (hr : receiveCredits cfg net tm = .ok tm') : Balanced cfg actualNode tm' l arrived := by
  obtain ⟨hbooks, hqueues⟩ := receiveCredits_books hr
  exact h.of_sameBooks hbooks (h.flits.of_sameBooks hbooks hqueues)

/-- The ledger after the flits `sent` have been written. -/
def write (l : Ledger) (sent : List (ℕ × ℕ × Flit)) : Ledger :=
  { l with network := l.network ++ sent.map fun p => p.2.2 }

theorem Balanced.injectAt {s s' : TrafficManager × List (ℕ × ℕ × Flit)} {place : ℕ × ℕ}
    (h : Balanced cfg actualNode s.1 (l.write s.2) arrived)
    (hs' : injectAt cfg net s place = .ok s') :
    Balanced cfg actualNode s'.1 (l.write s'.2) arrived := by
  obtain ⟨hbooks, ⟨hqueues, hsent⟩ | ⟨f, rest, hfront, hqueues, hsent, hitime⟩⟩ :=
    injectAt_eq_ok (fun _ _ hf => h.flits.cl hf) hs'
  · rw [hsent]
    exact h.of_sameBooks hbooks (h.flits.of_sameBooks hbooks hqueues)
  · have hflits := h.flits.send h.numbers hbooks hitime hfront hqueues
    rw [hsent, write, map_append, ← append_assoc]
    exact h.of_sameBooks hbooks hflits

theorem Balanced.inject {s : TrafficManager × List (ℕ × ℕ × Flit)}
    (h : Balanced cfg actualNode tm l arrived) (hs : inject cfg net tm = .ok s) :
    Balanced cfg actualNode s.1 (l.write s.2) arrived := by
  refine inv_of_foldlM_eq_ok (I := fun s => Balanced cfg actualNode s.1 (l.write s.2) arrived) hs
    (fun _ _ _ _ hs' h => h.injectAt hs') ?_
  simpa [write] using h

/-! ### Arrivals -/

theorem FlitsBalanced.front (h : FlitsBalanced tm l arrived) {ahead behind : List Flit} {g : Flit}
    (hnet : l.network = ahead ++ g :: behind) (hahead : ∀ f ∈ ahead, f.pid ≠ g.pid) :
    ∃ a ∈ l.accepted, a.time ≤ g.itime ∧ g.itime ≤ tm.time ∧ arrived a.pid < a.size ∧
      g.label = a.label (arrived a.pid) ∧
      ofPid a.pid ((ahead ++ behind).map Flit.label) ++
        ofPid a.pid (queueLabels tm a.lane a.cl) = a.labels.drop (arrived a.pid + 1) := by
  have hg : g ∈ l.network := hnet ▸ mem_append_right _ mem_cons_self
  obtain ⟨a, ha, hpid, hsince, huntil⟩ := h.sent g hg
  have hnone : ofPid a.pid (ahead.map Flit.label) = [] := by
    refine ofPid_eq_nil fun x hx => ?_
    obtain ⟨f, hf, rfl⟩ := mem_map.mp hx
    rw [hpid]
    exact hahead f hf
  have hflow := h.flow a ha
  rw [hnet, map_append, ofPid_append, hnone, nil_append, map_cons,
    ofPid_cons_self hpid.symm, cons_append] at hflow
  obtain ⟨hlt, hlabel, hrest⟩ := Accepted.labels_drop_eq_cons hflow.symm
  refine ⟨a, ha, hsince, huntil, hlt, hlabel, ?_⟩
  rw [map_append, ofPid_append, hnone, nil_append, hrest]

theorem Numbered.arrive (h : Numbered cfg tm l arrived) (ha : a ∈ l.accepted)
    (hlt : arrived a.pid < a.size) (hid : tm'.curId = tm.curId) (hpid : tm'.curPid = tm.curPid)
    (htime : tm'.time = tm.time) (network : List Flit) :
    Numbered cfg tm' { l with network := network } (update arrived a.pid (arrived a.pid + 1)) := by
  refine ⟨?_, h.apart, ?_, fun b hb => ?_, fun p hp => ?_, ?_⟩
  · rw [hid, hpid]
    exact h.below
  · rw [htime]
    exact h.place
  · by_cases hb' : b.pid = a.pid
    · obtain rfl := h.eq_of_pid hb ha hb'
      rwa [update_self]
    · rw [update_of_ne hb']
      exact h.arrived_le b hb
  · rw [hpid] at hp
    rw [update_of_ne (by have := (h.below a ha).1; omega)]
    exact h.fresh p hp
  · rw [htime]
    exact h.time

theorem FlitsBalanced.arrive (h : FlitsBalanced tm l arrived) (hnum : Numbered cfg tm l arrived)
    {ahead behind : List Flit} {g : Flit} (ha : a ∈ l.accepted)
    (hnet : l.network = ahead ++ g :: behind) (hlabel : g.label = a.label (arrived a.pid))
    (hlt : arrived a.pid < a.size)
    (hrest : ofPid a.pid ((ahead ++ behind).map Flit.label) ++
      ofPid a.pid (queueLabels tm a.lane a.cl) = a.labels.drop (arrived a.pid + 1))
    (hqueues : tm'.partialPackets = tm.partialPackets) (htime : tm'.time = tm.time)
    (hflight : tm'.totalInFlightFlits = update tm.totalInFlightFlits a.cl
      ((tm.totalInFlightFlits a.cl).erase (a.firstId + arrived a.pid))) :
    FlitsBalanced tm' { l with network := ahead ++ behind }
      (update arrived a.pid (arrived a.pid + 1)) := by
  have hsame : queueLabels tm' = queueLabels tm := by
    unfold queueLabels
    rw [hqueues]
  refine ⟨fun b hb => ?_, ?_, fun f hf => ?_, fun cl id => ?_⟩
  · rw [hsame]
    by_cases hb' : b.pid = a.pid
    · obtain rfl := hnum.eq_of_pid hb ha hb'
      rwa [update_self]
    · have hne : g.label.pid ≠ b.pid := hlabel ▸ Ne.symm hb'
      rw [update_of_ne hb', ← h.flow b hb, hnet, map_append, map_append,
        map_cons, ofPid_append, ofPid_append, ofPid_cons_ne hne]
  · rw [hsame]
    exact h.queued
  · rw [htime]
    refine h.sent f (hnet ▸ ?_)
    rcases mem_append.mp hf with hf | hf
    · exact mem_append_left _ hf
    · exact mem_append_right _ (mem_cons_of_mem _ hf)
  · -- the number of the flit that arrives is gone, and belongs to no other flit
    have hiff : id ∈ tm'.totalInFlightFlits cl ↔
        id ∈ tm.totalInFlightFlits cl ∧ ¬ (cl = a.cl ∧ id = a.firstId + arrived a.pid) := by
      rw [hflight, Function.update_apply]
      split_ifs with hcl
      · subst hcl
        rw [Finset.mem_erase]
        tauto
      · tauto
    rw [hiff, h.inFlight]
    constructor
    · rintro ⟨⟨b, hb, rfl, k, hk, hk', rfl⟩, hne⟩
      refine ⟨b, hb, rfl, k, ?_, hk', rfl⟩
      by_cases hb' : b.pid = a.pid
      · obtain rfl := hnum.eq_of_pid hb ha hb'
        rw [update_self]
        have : k ≠ arrived b.pid := fun heq => hne ⟨rfl, heq ▸ rfl⟩
        omega
      · rwa [update_of_ne hb']
    · rintro ⟨b, hb, rfl, k, hk, hk', rfl⟩
      by_cases hb' : b.pid = a.pid
      · obtain rfl := hnum.eq_of_pid hb ha hb'
        rw [update_self] at hk
        exact ⟨⟨b, hb, rfl, k, by omega, hk', rfl⟩, by omega⟩
      · rw [update_of_ne hb'] at hk
        refine ⟨⟨b, hb, rfl, k, hk, hk', rfl⟩, fun heq => hb' ?_⟩
        rw [hnum.eq_of_id hb ha hk' hlt heq.2]

theorem PacketsBalanced.mem_completed (h : PacketsBalanced cfg actualNode tm l arrived) {pid : ℕ}
    (hpid : pid ∈ completed cfg tm l) : ∃ a ∈ l.accepted, a.pid = pid ∧ arrived a.pid = a.size := by
  rcases mem_append.mp hpid with hpid | hpid
  · obtain ⟨r, hr, rfl⟩ := mem_map.mp hpid
    obtain ⟨a, ha, hall, hreport⟩ := h.returned r hr
    exact ⟨a, ha, hreport.pid.symm, hall⟩
  · obtain ⟨p, -, hpid⟩ := mem_flatMap.mp hpid
    obtain ⟨e, he, rfl⟩ := mem_map.mp hpid
    obtain ⟨-, -, a, ha, hall, hhead, -⟩ := h.ejected _ _ e he
    exact ⟨a, ha, hhead.pid.symm, hall⟩

theorem mem_ejectionPlaces {p : ℕ × ℕ} :
    p ∈ ejectionPlaces cfg ↔ p.1 < cfg.classes ∧ p.2 < cfg.nodes := by
  rw [← mem_range, ← mem_range]
  exact mem_product

theorem nodup_ejectionPlaces (cfg : TrafficConfig) : (ejectionPlaces cfg).Nodup :=
  nodup_range.product nodup_range

theorem completed_push (hcl : head.cl < cfg.classes) (hn : head.dest < cfg.nodes)
    (hqueue : tm'.ejectionQueue = update₂ tm.ejectionQueue head.cl head.dest
      (tm.ejectionQueue head.cl head.dest ++ [(head, tail)])) (network : List Flit) :
    completed cfg tm' { l with network := network } ~ head.pid :: completed cfg tm l := by
  have hplaces := flatMap_perm_cons (p := (head.cl, head.dest)) (x := head.pid)
    (f := fun p => (tm.ejectionQueue p.1 p.2).map fun e => e.1.pid)
    (g := fun p => (tm'.ejectionQueue p.1 p.2).map fun e => e.1.pid)
    (nodup_ejectionPlaces cfg) (mem_ejectionPlaces.mpr ⟨hcl, hn⟩) ?_ ?_
  · exact (hplaces.append_left _).trans perm_middle
  · intro q hq
    have hne : ¬ (q.1 = head.cl ∧ q.2 = head.dest) := fun h => hq (Prod.ext h.1 h.2)
    simp only [hqueue, update₂_apply, if_neg hne]
  · simp only [hqueue, update₂_apply, and_self, if_true, map_append, map_singleton]
    exact perm_append_singleton ..

/-- When the `k`-th flit of a packet has arrived, its head is kept, and put into an ejection queue
if the flit was the last one. -/
structure HeadKept (tm tm' : TrafficManager) (a : Accepted) (k : ℕ) (head : Flit) : Prop where
  others : ∀ cl pid, pid ≠ a.pid → tm'.retiredPackets cl pid = tm.retiredPackets cl pid
  more : k < a.size →
    tm'.retiredPackets a.cl a.pid = some head ∧ tm'.ejectionQueue = tm.ejectionQueue
  last : k = a.size → ∃ tail : Flit, tail.atime = tm.time ∧
    tm'.ejectionQueue = update₂ tm.ejectionQueue head.cl head.dest
      (tm.ejectionQueue head.cl head.dest ++ [(head, tail)])

theorem PacketsBalanced.arrive (h : PacketsBalanced cfg actualNode tm l arrived)
    (hnum : Numbered cfg tm l arrived) (ha : a ∈ l.accepted) (hlt : arrived a.pid < a.size)
    {head : Flit} (hhead : HeadOf cfg actualNode tm.time a head)
    (hkept : HeadKept tm tm' a (arrived a.pid + 1) head) (htime : tm'.time = tm.time)
    (network : List Flit) :
    PacketsBalanced cfg actualNode tm' { l with network := network }
      (update arrived a.pid (arrived a.pid + 1)) := by
  have hcl : head.cl < cfg.classes := hhead.cl ▸ (hnum.place a ha).2.2.1
  -- the other packets have the flits they had
  have hother : ∀ {b : Accepted}, b ∈ l.accepted → b ≠ a →
      update arrived a.pid (arrived a.pid + 1) b.pid = arrived b.pid := fun hb hne =>
    update_of_ne (fun hpid => hne (hnum.eq_of_pid hb ha hpid)) _ _
  have hall : ∀ b ∈ l.accepted, arrived b.pid = b.size →
      update arrived a.pid (arrived a.pid + 1) b.pid = b.size := fun b hb hsize =>
    (hother hb (by rintro rfl; omega)).trans hsize
  -- all but the ejection queues
  have hrest : (∀ cl n, ∀ e ∈ tm'.ejectionQueue cl n, e ∈ tm.ejectionQueue cl n ∨
        cl < cfg.classes ∧ n < cfg.nodes ∧ arrived a.pid + 1 = a.size ∧
          HeadOf cfg actualNode tm.time a e.1 ∧ e.1.itime ≤ e.2.atime ∧ e.2.atime ≤ tm.time) →
      (∀ b ∈ l.accepted, update arrived a.pid (arrived a.pid + 1) b.pid = b.size →
        b.pid ∈ completed cfg tm' { l with network := network }) →
      (completed cfg tm' { l with network := network }).Nodup →
      PacketsBalanced cfg actualNode tm' { l with network := network }
        (update arrived a.pid (arrived a.pid + 1)) := by
    intro hejected hcomplete hnodup
    refine ⟨fun cl pid hzero => ?_, fun b hb hpos hb' => ?_, fun cl n e he => ?_, fun r hr => ?_,
      hcomplete, hnodup⟩
    · by_cases hpid : pid = a.pid
      · rw [hpid, update_self] at hzero
        exact nomatch hzero
      · rw [update_of_ne hpid] at hzero
        rw [hkept.others cl pid hpid]
        exact h.unparked cl pid hzero
    · rw [htime]
      by_cases hb₀ : b = a
      · subst hb₀
        rw [update_self] at hb'
        exact ⟨head, (hkept.more hb').1, hhead⟩
      · rw [hother hb hb₀] at hpos hb'
        rw [hkept.others b.cl b.pid fun hpid => hb₀ (hnum.eq_of_pid hb ha hpid)]
        exact h.parked b hb hpos hb'
    · rw [htime]
      rcases hejected cl n e he with he | ⟨hcl, hn, hsize, hnew⟩
      · obtain ⟨hcl, hn, b, hb, hsize, hold⟩ := h.ejected cl n e he
        exact ⟨hcl, hn, b, hb, hall b hb hsize, hold⟩
      · exact ⟨hcl, hn, a, ha, update_self a.pid _ arrived ▸ hsize, hnew⟩
    · obtain ⟨b, hb, hsize, hreport⟩ := h.returned r hr
      rw [htime]
      exact ⟨b, hb, hall b hb hsize, hreport⟩
  rcases Nat.lt_or_eq_of_le (Nat.succ_le_of_lt hlt) with hlt' | hsize
  · have hqueue := (hkept.more hlt').2
    have hcompleted : completed cfg tm' { l with network := network } = completed cfg tm l := by
      rw [completed, waiting, hqueue, completed, waiting]
    refine hrest (fun cl n e he => .inl (hqueue ▸ he)) (fun b hb hb' => ?_) (hcompleted ▸ h.once)
    rw [hcompleted]
    have hne : b ≠ a := by
      rintro rfl
      rw [update_self] at hb'
      omega
    exact h.complete b hb (hother hb hne ▸ hb')
  · obtain ⟨tail, htail, hqueue⟩ := hkept.last hsize
    have hcompleted := completed_push (l := l) hcl hhead.lane hqueue network
    refine hrest (fun cl n e he => ?_) (fun b hb hb' => ?_) ?_
    · rw [hqueue, update₂_apply] at he
      split_ifs at he with hplace
      · obtain ⟨rfl, rfl⟩ := hplace
        refine (mem_append.mp he).imp_right fun he => ?_
        obtain rfl := mem_singleton.mp he
        exact ⟨hcl, hhead.lane, hsize, hhead, htail ▸ hhead.itime.2, htail.le⟩
      · exact .inl he
    · refine hcompleted.mem_iff.mpr (mem_cons.mpr ?_)
      by_cases hb₀ : b = a
      · exact .inl (hb₀ ▸ hhead.pid.symm)
      · exact .inr (h.complete b hb (hother hb hb₀ ▸ hb'))
    · refine hcompleted.nodup_iff.mpr (nodup_cons.mpr ⟨fun hmem => ?_, h.once⟩)
      -- not all its flits had arrived, so it was not complete before
      obtain ⟨b, hb, hpid, hb'⟩ := h.mem_completed hmem
      obtain rfl := hnum.eq_of_pid hb ha (hpid.trans hhead.pid)
      omega

theorem retirePacketFlits_eq (hpid : head.pid = tail.pid)
    (hcl : head.cl = tail.cl) : tm.retirePacketFlits head tail = .ok { tm with
      ejectionQueue := update₂ tm.ejectionQueue head.cl head.dest
        (tm.ejectionQueue head.cl head.dest ++ [(head, tail)]) } := by
  rw [retirePacketFlits, require_bind hpid, require_bind hcl]
  rfl

theorem Balanced.retireFlit (h : Balanced cfg actualNode tm l arrived)
    {ahead behind : List Flit} {f g : Flit} {lane : ℕ}
    (hnet : l.network = ahead ++ g :: behind) (hahead : ∀ f ∈ ahead, f.pid ≠ g.pid)
    (hflabel : f.label = g.label) (hitime : f.itime = g.itime) (hdest : actualNode lane = g.dest)
    (hlane : lane < cfg.nodes) :
    ∃ tm' arrived', tm.retireFlit actualNode { f with atime := tm.time } lane = .ok tm' ∧
      tm'.partialPackets = tm.partialPackets ∧
      Balanced cfg actualNode tm' { l with network := ahead ++ behind } arrived' := by
  obtain ⟨a, ha, hsince, huntil, hlt, hglabel, hrest⟩ := h.flits.front hnet hahead
  have hlabel : f.label = a.label (arrived a.pid) := hflabel.trans hglabel
  have hid : f.id = a.firstId + arrived a.pid := congrArg FlitLabel.id hlabel
  have hpid : f.pid = a.pid := congrArg FlitLabel.pid hlabel
  have hcl : f.cl = a.cl := congrArg FlitLabel.cl hlabel
  have hhead : f.head = decide (arrived a.pid = 0) := congrArg FlitLabel.head hlabel
  have htail : f.tail = decide (arrived a.pid + 1 = a.size) := congrArg FlitLabel.tail hlabel
  have hfdest : f.dest = actualNode lane := (congrArg FlitLabel.dest hflabel).trans hdest.symm
  have hinflight : f.id ∈ tm.totalInFlightFlits f.cl := by
    rw [hid, hcl]
    exact (h.flits.inFlight _ _).mpr ⟨a, ha, rfl, _, le_refl _, hlt, rfl⟩
  -- what the outcomes have in common
  have hfinish : ∀ tm' head, HeadOf cfg actualNode tm.time a head → tm' = { tm with
        totalInFlightFlits := update tm.totalInFlightFlits f.cl
          ((tm.totalInFlightFlits f.cl).erase f.id)
        retiredPackets := tm'.retiredPackets
        ejectionQueue := tm'.ejectionQueue } →
      HeadKept tm tm' a (arrived a.pid + 1) head →
      tm'.partialPackets = tm.partialPackets ∧
        Balanced cfg actualNode tm' { l with network := ahead ++ behind }
        (update arrived a.pid (arrived a.pid + 1)) := by
    intro tm' head hhead htm' hkept
    have hqueues : tm'.partialPackets = tm.partialPackets := by rw [htm']
    have htime : tm'.time = tm.time := by rw [htm']
    refine ⟨hqueues, h.numbers.arrive ha hlt (by rw [htm']) (by rw [htm']) htime _,
      h.flits.arrive h.numbers ha hnet hglabel hlt hrest hqueues htime ?_,
      h.packets.arrive h.numbers ha hlt hhead hkept htime _⟩
    rw [htm', hid, hcl]
  have hheadOf : f.head = true →
      HeadOf cfg actualNode tm.time a { f with atime := tm.time, dest := lane } := by
    intro hf
    refine ⟨hpid, hcl, congrArg FlitLabel.src hlabel, congrArg FlitLabel.packetSize hlabel, hf,
      hlane, ?_, congrArg FlitLabel.ctime hlabel, ?_⟩
    · exact hdest.trans (congrArg FlitLabel.dest hglabel)
    · rw [← hitime] at hsince huntil
      exact ⟨hsince, huntil⟩
  have hsome : ¬ f.head = true → ∃ head, tm.retiredPackets a.cl a.pid = some head ∧
      HeadOf cfg actualNode tm.time a head := by
    intro hf
    refine h.packets.parked a ha (Nat.pos_of_ne_zero fun hzero => hf ?_) hlt
    exact hhead.trans (decide_eq_true hzero)
  have houtput : ¬ (f.head = true ∧ f.dest ≠ actualNode lane) := fun hbad => hbad.2 hfdest
  unfold TrafficManager.retireFlit
  rw [require_bind hinflight, require_bind houtput]
  dsimp only
  by_cases htl : f.tail = true
  · have hlast : arrived a.pid + 1 = a.size := of_decide_eq_true (htail.symm.trans htl)
    rw [if_pos htl]
    by_cases hhd : f.head = true
    · rw [if_pos hhd, retirePacketFlits_eq rfl rfl]
      exact ⟨_, _, rfl, hfinish _ _ (hheadOf hhd) rfl
        ⟨fun _ _ _ => rfl, fun hmore => absurd hlast hmore.ne, fun _ => ⟨_, rfl, rfl⟩⟩⟩
    · obtain ⟨head, hparked, hhead'⟩ := hsome hhd
      simp only [if_neg hhd, hcl, hpid, hparked]
      rw [require_bind hhead'.head, retirePacketFlits_eq hhead'.pid hhead'.cl]
      exact ⟨_, _, rfl, hfinish _ _ hhead' (by rw [hcl])
        ⟨fun _ _ hne => update₂_apply.trans (if_neg fun heq => hne heq.2),
          fun hmore => absurd hlast hmore.ne, fun _ => ⟨_, rfl, rfl⟩⟩⟩
  · have hmore : ¬ arrived a.pid + 1 = a.size := fun heq =>
      htl (htail.trans (decide_eq_true heq))
    rw [if_neg htl]
    by_cases hhd : f.head = true
    · have hnone := h.packets.unparked a.cl a.pid (of_decide_eq_true (hhead.symm.trans hhd))
      rw [if_pos hhd]
      refine ⟨_, _, rfl, hfinish _ _ (hheadOf hhd) rfl ⟨fun _ _ hne => ?_, fun _ => ⟨?_, rfl⟩,
        fun hlast => absurd hlast hmore⟩⟩
      · rw [hpid]
        exact update₂_apply.trans (if_neg fun heq => hne heq.2)
      · rw [hcl, hpid, hnone]
        exact update₂_apply.trans (if_pos ⟨rfl, rfl⟩)
    · obtain ⟨head, hparked, hhead'⟩ := hsome hhd
      rw [if_neg hhd]
      exact ⟨_, _, rfl, hfinish _ _ hhead' rfl
        ⟨fun _ _ _ => rfl, fun _ => ⟨hparked, rfl⟩, fun hlast => absurd hlast hmore⟩⟩

theorem Balanced.arrive {before rest : List Flit} {es : List (ℕ × Flit)}
    (hdelivers : Delivers actualNode before es rest) (hlanes : ∀ e ∈ es, e.1 < cfg.nodes) :
    ∀ {tm : TrafficManager} {l : Ledger} {arrived : ℕ → ℕ}, l.network = before →
      Balanced cfg actualNode tm l arrived →
      ∃ tm' arrived', es.foldlM (fun tm e =>
          tm.retireFlit actualNode { e.2 with atime := tm.time } e.1) tm = .ok tm' ∧
        tm'.partialPackets = tm.partialPackets ∧
        Balanced cfg actualNode tm' { l with network := rest } arrived' := by
  induction hdelivers with
  | nil before =>
    rintro tm l arrived rfl h
    exact ⟨tm, arrived, rfl, rfl, h⟩
  | cons hahead hlabel hitime hdest _ ih =>
    rintro tm l arrived hnet h
    obtain ⟨tm₁, arrived₁, hfirst, hqueues₁, h₁⟩ := h.retireFlit hnet hahead hlabel hitime hdest
      (hlanes _ mem_cons_self)
    obtain ⟨tm₂, arrived₂, hothers, hqueues₂, h₂⟩ :=
      ih (fun e he => hlanes e (mem_cons_of_mem _ he)) rfl h₁
    refine ⟨tm₂, arrived₂, ?_, hqueues₂.trans hqueues₁, h₂⟩
    rw [foldlM_cons]
    exact bind_ok.mpr ⟨tm₁, hfirst, hothers⟩

theorem lane_of_mem_arrivals {e : ℕ × Flit} (h : e ∈ arrivals cfg net) : e.1 < cfg.nodes := by
  obtain ⟨place, hplace, he⟩ := mem_filterMap.mp h
  obtain ⟨f, -, rfl⟩ := Option.map_eq_some_iff.mp he
  obtain ⟨subnet, -, hplace⟩ := mem_flatMap.mp hplace
  obtain ⟨n, hn, rfl⟩ := mem_map.mp hplace
  exact mem_range.mp hn

theorem Balanced.retire {rest : List Flit} (h : Balanced cfg actualNode tm l arrived)
    (hdelivers : Delivers actualNode l.network (arrivals cfg net) rest) :
    ∃ tm' arrived', retire cfg actualNode net tm = .ok tm' ∧
      tm'.partialPackets = tm.partialPackets ∧
      Balanced cfg actualNode tm' { l with network := rest } arrived' :=
  Balanced.arrive hdelivers (fun _ => lane_of_mem_arrivals) rfl h

/-! ### Generating -/

/-- What accepting a packet does to the traffic manager. -/
structure Enqueued (tm tm' : TrafficManager) (a : Accepted) : Prop where
  pid : a.pid = tm.curPid
  firstId : a.firstId = tm.curId
  acceptedAt : a.time = tm.time
  curPid : tm'.curPid = tm.curPid + 1
  curId : tm'.curId = tm.curId + a.size
  time : tm'.time = tm.time
  parked : tm'.retiredPackets = tm.retiredPackets
  ejection : tm'.ejectionQueue = tm.ejectionQueue
  queues : ∀ n c, queueLabels tm' n c =
    queueLabels tm n c ++ if n = a.lane ∧ c = a.cl then a.labels else []
  inFlight : ∀ cl id, id ∈ tm'.totalInFlightFlits cl ↔
    id ∈ tm.totalInFlightFlits cl ∨ cl = a.cl ∧ ∃ k < a.size, id = a.firstId + k

theorem enqueued_of_generatePacket {source dest size cl pid : ℕ} {u : ℕ × Option ℕ} {delay : ℤ}
    (h : w.generatePacket cfg u source dest size cl delay = .ok (w', some pid)) :
    Enqueued w.tm w'.tm (entry u w source dest size cl delay pid) := by
  obtain ⟨tm', lanes'⟩ := w'
  rcases generatePacket_eq_ok
    (Wrapper.generatePacket_eq_ok.mp h).1 with ⟨hnone, -⟩ | ⟨hsome, pri, rfl⟩
  · exact nomatch hnone
  obtain rfl := Option.some.inj hsome
  refine ⟨rfl, rfl, rfl, rfl, rfl, rfl, rfl, rfl, fun n c => ?_, fun c id => ?_⟩
  · simp only [queueLabels, update₂_apply]
    split_ifs with hplace hentry hentry
    · rw [hplace.1, hplace.2, map_append, packetFlits, map_map]
      rfl
    · exact absurd hplace hentry
    · exact absurd hentry hplace
    · rw [append_nil]
  · have hids : id ∈ ((packetFlits w.tm.curId w.tm.curPid (w.getVirtualNode u source).1
        (dest : ℤ).toNat size cl (w.tm.time - delay) pri).map Flit.id).toFinset ↔
        ∃ k < size, id = w.tm.curId + k := by
      simp only [packetFlits, map_map, mem_toFinset, mem_map, mem_range,
        Function.comp_apply, eq_comm]
    by_cases hc : c = cl
    · subst hc
      simp only [update_self, Finset.mem_union, hids, entry, true_and]
    · simp only [update_of_ne hc, hc, entry, false_and, or_false]

theorem mem_accept {P : Accepted → Prop} (hold : ∀ b ∈ l.accepted, P b) (ha : P a) :
    ∀ b ∈ l.accepted ++ [a], P b := by
  intro b hb
  rcases mem_append.mp hb with hb | hb
  · exact hold b hb
  · exact mem_singleton.mp hb ▸ ha

theorem Numbered.pid_ne (h : Numbered cfg tm l arrived) {a b : Accepted}
    (ha : a.pid = tm.curPid) (hb : b ∈ l.accepted) : b.pid ≠ a.pid :=
  ha ▸ ((h.below b hb).1).ne

theorem Numbered.accept (h : Numbered cfg tm l arrived)
    (hgen : Enqueued tm tm' a) (hlane : a.lane < cfg.nodes) (hcl : a.cl < cfg.classes)
    (hsize : 1 ≤ a.size) :
    Numbered cfg tm' { l with accepted := l.accepted ++ [a] } arrived := by
  refine ⟨?_, ?_, ?_, ?_, ?_, hgen.time ▸ h.time⟩
  · rw [hgen.curPid, hgen.curId]
    refine mem_accept (fun b hb => ?_) ⟨hgen.pid ▸ Nat.lt_succ_self _, hgen.firstId ▸ le_refl _⟩
    obtain ⟨hpid, hid⟩ := h.below b hb
    exact ⟨Nat.lt_succ_of_lt hpid, Nat.le_add_right_of_le hid⟩
  · refine pairwise_append.mpr ⟨h.apart, pairwise_singleton _ _, ?_⟩
    intro b hb b' hb'
    obtain rfl := mem_singleton.mp hb'
    exact ⟨h.pid_ne hgen.pid hb, hgen.firstId ▸ (h.below b hb).2⟩
  · rw [hgen.time]
    exact mem_accept h.place ⟨hsize, hlane, hcl, hgen.acceptedAt ▸ h.time, hgen.acceptedAt.le⟩
  · exact mem_accept h.arrived_le (h.fresh a.pid hgen.pid.ge ▸ Nat.zero_le _)
  · intro pid hle
    rw [hgen.curPid] at hle
    exact h.fresh pid ((Nat.le_succ _).trans hle)

theorem FlitsBalanced.accept (h : FlitsBalanced tm l arrived) (hnum : Numbered cfg tm l arrived)
    (hgen : Enqueued tm tm' a) :
    FlitsBalanced tm' { l with accepted := l.accepted ++ [a] } arrived := by
  have hpids : ∀ x ∈ a.labels, x.pid = a.pid := by
    intro x hx
    obtain ⟨k, -, rfl⟩ := mem_map.mp hx
    rfl
  have hzero : arrived a.pid = 0 := hnum.fresh a.pid hgen.pid.ge
  refine ⟨mem_accept (fun b hb => ?_) ?_, fun n c x hx => ?_, ?_, fun cl id => ?_⟩
  · have hne := hnum.pid_ne hgen.pid hb
    have hnone : ofPid b.pid (if b.lane = a.lane ∧ b.cl = a.cl then a.labels else []) = [] := by
      split_ifs
      · exact ofPid_eq_nil fun x hx => hpids x hx ▸ hne.symm
      · rfl
    rw [hgen.queues, ofPid_append, hnone, append_nil, ← h.flow b hb]
  · -- no flit of the new packet was there before
    have hnet : ofPid a.pid (l.network.map Flit.label) = [] := by
      refine ofPid_eq_nil fun x hx => ?_
      obtain ⟨f, hf, rfl⟩ := mem_map.mp hx
      obtain ⟨b, hb, hpid, -⟩ := h.sent f hf
      exact fun heq => hnum.pid_ne hgen.pid hb (hpid.trans heq)
    have hqueue : ofPid a.pid (queueLabels tm a.lane a.cl) = [] := by
      refine ofPid_eq_nil fun x hx => ?_
      obtain ⟨b, hb, hpid, -⟩ := h.queued _ _ x hx
      exact hpid ▸ hnum.pid_ne hgen.pid hb
    have hnew : ofPid a.pid a.labels = a.labels :=
      filter_eq_self.mpr fun x hx => decide_eq_true (hpids x hx)
    rw [hgen.queues, if_pos ⟨rfl, rfl⟩, ofPid_append, hnet, hqueue, hnew, hzero]
    rfl
  · rw [hgen.queues] at hx
    rcases mem_append.mp hx with hx | hx
    · obtain ⟨b, hb, hb'⟩ := h.queued n c x hx
      exact ⟨b, mem_append_left _ hb, hb'⟩
    · simp_all
  · intro f hf
    obtain ⟨b, hb, hb'⟩ := h.sent f hf
    exact ⟨b, mem_append_left _ hb, hgen.time ▸ hb'⟩
  · rw [hgen.inFlight, h.inFlight]
    simp only [mem_append, mem_singleton, or_and_right, exists_or, exists_eq_left]
    refine or_congr_right ⟨?_, ?_⟩
    · rintro ⟨rfl, k, hk, rfl⟩
      exact ⟨rfl, k, hzero ▸ Nat.zero_le _, hk, rfl⟩
    · rintro ⟨rfl, k, -, hk, rfl⟩
      exact ⟨rfl, k, hk, rfl⟩

theorem PacketsBalanced.accept (h : PacketsBalanced cfg actualNode tm l arrived)
    (hnum : Numbered cfg tm l arrived) (hgen : Enqueued tm tm' a)
    (hsize : 1 ≤ a.size) :
    PacketsBalanced cfg actualNode tm' { l with accepted := l.accepted ++ [a] } arrived := by
  have hzero : arrived a.pid = 0 := hnum.fresh a.pid hgen.pid.ge
  have hcompleted : completed cfg tm' { l with accepted := l.accepted ++ [a] } =
      completed cfg tm l := by
    rw [completed, waiting, hgen.ejection, completed, waiting]
  refine ⟨hgen.parked ▸ h.unparked, ?_, ?_, ?_, ?_, hcompleted ▸ h.once⟩
  · rw [hgen.parked, hgen.time]
    exact mem_accept h.parked fun hpos => absurd hzero hpos.ne'
  · rw [hgen.ejection, hgen.time]
    intro cl n e he
    obtain ⟨hcl, hn, b, hb, hb'⟩ := h.ejected cl n e he
    exact ⟨hcl, hn, b, mem_append_left _ hb, hb'⟩
  · rw [hgen.time]
    intro r hr
    obtain ⟨b, hb, hb'⟩ := h.returned r hr
    exact ⟨b, mem_append_left _ hb, hb'⟩
  · rw [hcompleted]
    exact mem_accept h.complete fun heq => by omega

theorem Balanced.accept (h : Balanced cfg actualNode tm l arrived)
    (hgen : Enqueued tm tm' a) (hlane : a.lane < cfg.nodes) (hcl : a.cl < cfg.classes)
    (hsize : 1 ≤ a.size) :
    Balanced cfg actualNode tm' { l with accepted := l.accepted ++ [a] } arrived :=
  ⟨h.numbers.accept hgen hlane hcl hsize, h.flits.accept h.numbers hgen,
    h.packets.accept h.numbers hgen hsize⟩

/-! ### Handing packets out, and whole runs -/

/-- `RetirePacket` finds every ejection queue empty, or takes the first packet of one. -/
theorem retirePacket_eq (cfg : TrafficConfig) (actualNode : ℕ → ℕ) (tm : TrafficManager) :
    (∀ p ∈ ejectionPlaces cfg, tm.ejectionQueue p.1 p.2 = []) ∧
      retirePacket cfg actualNode tm = (tm, none) ∨
    ∃ p ∈ ejectionPlaces cfg, ∃ head tail rest, tm.ejectionQueue p.1 p.2 = (head, tail) :: rest ∧
      retirePacket cfg actualNode tm =
        ({ tm with ejectionQueue := update₂ tm.ejectionQueue p.1 p.2 rest },
          some (report actualNode head tail)) := by
  unfold retirePacket
  cases hfind : (ejectionPlaces cfg).find? fun p => tm.ejectionQueue p.1 p.2 ≠ [] with
  | none =>
    refine .inl ⟨fun p hp => ?_, rfl⟩
    simpa using List.find?_eq_none.mp hfind p hp
  | some p =>
    grind

theorem HeadOf.reportOf (h : HeadOf cfg actualNode tm.time a head) (hle : head.itime ≤ tail.atime)
    (hnow : tail.atime ≤ tm.time) :
    ReportOf actualNode tm.time a (report actualNode head tail) where
  pid := h.pid
  src := congrArg actualNode h.src
  dest := h.dest
  cl := h.cl
  size := h.size
  times := ⟨head.itime, tail.atime, h.itime.1, hle, hnow, congrArg toInt (h.ctime ▸ rfl), rfl⟩

theorem waiting_pop {p : ℕ × ℕ} {rest : List (Flit × Flit)}
    (hp : p ∈ ejectionPlaces cfg) (hqueue : tm.ejectionQueue p.1 p.2 = (head, tail) :: rest) :
    waiting cfg tm ~ head.pid ::
      waiting cfg { tm with ejectionQueue := update₂ tm.ejectionQueue p.1 p.2 rest } := by
  refine flatMap_perm_cons (nodup_ejectionPlaces cfg) hp (fun q hq => ?_) ?_
  · have hne : ¬ (q.1 = p.1 ∧ q.2 = p.2) := fun h => hq (Prod.ext h.1 h.2)
    simp only [update₂_apply, if_neg hne]
  · simp only [hqueue, update₂_apply, and_self, if_true, map_cons]
    exact .refl _

theorem Balanced.retirePacket (h : Balanced cfg actualNode tm l arrived) :
    Balanced cfg actualNode (retirePacket cfg actualNode tm).1
      { l with returned := l.returned ++ (retirePacket cfg actualNode tm).2.toList } arrived := by
  rcases retirePacket_eq cfg actualNode tm with ⟨-, heq⟩ | ⟨p, hp, head, tail, rest, hqueue, heq⟩
  · rwa [heq, Option.toList_none, append_nil]
  rw [heq, Option.toList_some]
  obtain ⟨-, -, a, ha, hsize, hhead, hle, hnow⟩ := h.packets.ejected p.1 p.2 (head, tail)
    (hqueue ▸ mem_cons_self)
  have hcompleted : (completed cfg tm l).Perm (completed cfg
      { tm with ejectionQueue := update₂ tm.ejectionQueue p.1 p.2 rest }
      { l with returned := l.returned ++ [report actualNode head tail] }) := by
    rw [completed, completed, map_append, append_assoc]
    exact (waiting_pop hp hqueue).append_left _
  refine ⟨{ h.numbers with }, { h.flits with }, { h.packets with
    ejected := fun cl n e he => ?_
    returned := fun r hr => ?_
    complete := fun b hb hb' => hcompleted.mem_iff.mp (h.packets.complete b hb hb')
    once := hcompleted.nodup_iff.mp h.packets.once }⟩
  · refine h.packets.ejected cl n e ?_
    simp only [update₂_apply] at he
    split_ifs at he with hplace
    · rw [hplace.1, hplace.2, hqueue]
      exact mem_cons_of_mem _ he
    · exact he
  · rcases mem_append.mp hr with hr | hr
    · exact h.packets.returned r hr
    · obtain rfl := mem_singleton.mp hr
      exact ⟨a, ha, hsize, hhead.reportOf hle hnow⟩

theorem Balanced.tick (h : Balanced cfg actualNode tm l arrived) :
    Balanced cfg actualNode { tm with time := tm.time + 1 } l arrived := by
  have hle : tm.time ≤ tm.time + 1 := by omega
  refine ⟨{ h.numbers with place := fun a ha => ?_, time := h.numbers.time.trans hle },
    { h.flits with sent := fun f hf => ?_ },
    { h.packets with
      parked := fun a ha hpos hlt => ?_
      ejected := fun cl n e he => ?_
      returned := fun r hr => ?_ }⟩
  · obtain ⟨hsize, hlane, hcl, hpos, hnow⟩ := h.numbers.place a ha
    exact ⟨hsize, hlane, hcl, hpos, hnow.trans hle⟩
  · obtain ⟨a, ha, hpid, hsince, huntil⟩ := h.flits.sent f hf
    exact ⟨a, ha, hpid, hsince, huntil.trans hle⟩
  · obtain ⟨head, hhead, hof⟩ := h.packets.parked a ha hpos hlt
    exact ⟨head, hhead, hof.mono hle⟩
  · obtain ⟨hcl, hn, a, ha, hsize, hof, hitime, hnow⟩ := h.packets.ejected cl n e he
    exact ⟨hcl, hn, a, ha, hsize, hof.mono hle, hitime, hnow.trans hle⟩
  · obtain ⟨a, ha, hsize, hreport⟩ := h.packets.returned r hr
    exact ⟨a, ha, hsize, hreport.mono hle⟩

/-- The books after the credits and the injection of a cycle; what arrives is then retired. -/
theorem Balanced.step {received : TrafficManager} {injected : TrafficManager × List (ℕ × ℕ × Flit)}
    {rest : List Flit} (h : Balanced cfg actualNode tm l arrived)
    (hdelivers : Delivers actualNode l.network (arrivals cfg net) rest)
    (hreceived : TrafficManager.receiveCredits cfg net tm = .ok received)
    (hinjected : TrafficManager.inject cfg net received = .ok injected) :
    ∃ tm' arrived', step cfg actualNode net tm = .ok (tm', injected.2) ∧
      tm'.partialPackets = injected.1.partialPackets ∧
      Balanced cfg actualNode tm' { l with network := rest ++ injected.2.map fun p => p.2.2 }
        arrived' := by
  have hbalanced := (h.receiveCredits hreceived).inject hinjected
  obtain ⟨retired, arrived', hretired, hqueues, hend⟩ := hbalanced.retire (hdelivers.append _)
  refine ⟨{ retired with time := retired.time + 1 }, arrived', ?_, hqueues, hend.tick⟩
  rw [TrafficManager.step, hreceived]
  refine bind_ok.mpr ⟨received, rfl, ?_⟩
  refine bind_ok.mpr ⟨injected, hinjected, ?_⟩
  exact bind_ok.mpr ⟨retired, hretired, rfl⟩

theorem Run.reached (h : Run cfg topology undefined w l) :
    Wrapper.Reached cfg topology Set.univ w := by
  induction h with
  | new bufs gEndVCs => exact .new bufs gEndVCs
  | refuse _ hsource hcl hgen ih => exact .generate ih hsource hcl trivial hgen
  | accept _ hsource hcl _ _ hgen ih => exact .generate ih hsource hcl trivial hgen
  | step _ _ hstep ih => exact .step ih hstep
  | retire _ ih => exact .retire ih

theorem Run.balanced (h : Run cfg topology undefined w l) :
    ∃ arrived, Balanced cfg topology.actualNode w.tm l arrived := by
  induction h with
  | new bufs gEndVCs =>
    have hnone : ∀ {α : Type} {P : α → Prop}, ∀ a ∈ ([] : List α), P a :=
      fun a ha => absurd ha not_mem_nil
    refine ⟨fun _ => 0, ⟨hnone, .nil, hnone, hnone, fun _ _ => rfl, le_refl _⟩,
      ⟨hnone, fun _ _ => hnone, hnone, fun cl id => ?_⟩,
      ⟨fun _ _ _ => rfl, hnone, fun _ _ => hnone, hnone, hnone, ?_⟩⟩
    · exact ⟨fun h => absurd h (Finset.notMem_empty id), fun ⟨_, h, _⟩ => (nomatch h)⟩
    · have hempty : waiting cfg (Wrapper.new topology bufs gEndVCs).tm = [] :=
        flatMap_eq_nil_iff.mpr fun _ _ => rfl
      rw [completed, hempty]
      exact nodup_nil
  | refuse _ _ _ hgen ih =>
    rcases generatePacket_eq_ok
      (Wrapper.generatePacket_eq_ok.mp hgen).1 with ⟨-, hsame⟩ | ⟨hsome, -⟩
    · rwa [hsame]
    · exact nomatch hsome
  | accept _ _ hcl hlane hsize hgen ih =>
    obtain ⟨arrived, h⟩ := ih
    exact ⟨arrived, h.accept (enqueued_of_generatePacket hgen) hlane hcl hsize⟩
  | step hrun hdelivers hstep ih =>
    obtain ⟨arrived, h⟩ := ih
    rw [hrun.reached.actualNode_eq] at hdelivers hstep
    obtain ⟨received, hreceived, hrest⟩ := bind_ok.mp hstep
    obtain ⟨injected, hinjected, hrest⟩ := bind_ok.mp hrest
    obtain ⟨tm', arrived', hok, -, hend⟩ := h.step hdelivers hreceived hinjected
    cases hstep.symm.trans hok
    exact ⟨arrived', hend⟩
  | retire hrun ih =>
    obtain ⟨arrived, h⟩ := ih
    rw [hrun.reached.actualNode_eq]
    exact ⟨arrived, h.retirePacket⟩

/-! ## The lanes -/

/-- After the read at `end()` the iterator of a node stands at one of its lanes, or still there. -/
def MovesOn (topology : Topology) (undefined : ℕ → ℕ × Option ℕ) : Prop :=
  ∀ num_dgx1, topology = .dgx1 num_dgx1 → ∀ node < 14 * num_dgx1, ∀ v ∈ (undefined node).2,
    topology.actualNode v = node

theorem Run.own (h : Run cfg topology undefined w l) (hnext : MovesOn topology undefined) :
    ∀ lanes, w.lanes = some lanes → NVIDIADGX1.Own (topology.nodes cfg) lanes := by
  have hcall : ∀ {w w' : Wrapper} {source size cl : ℕ} {dest delay : ℤ} {pid : Option ℕ},
      Wrapper.Reached cfg topology Set.univ w → source < topology.nodes cfg →
      w.generatePacket cfg (undefined source) source dest size cl delay = .ok (w', pid) →
      (∀ lanes, w.lanes = some lanes → NVIDIADGX1.Own (topology.nodes cfg) lanes) →
      ∀ lanes, w'.lanes = some lanes → NVIDIADGX1.Own (topology.nodes cfg) lanes := by
    intro w w' source size cl dest delay pid hw hsource hgen hown lanes hlanes
    rw [(Wrapper.generatePacket_eq_ok.mp hgen).2, Wrapper.getVirtualNode] at hlanes
    cases hbefore : w.lanes with
    | none =>
      rw [hbefore] at hlanes
      cases hlanes
    | some before =>
      rw [hbefore] at hlanes
      obtain rfl := Option.some.inj hlanes
      refine (hown before hbefore).getVirtualNode fun v hv => ?_
      have hactual : w.actualNode = before.actualNode := by
        funext v
        rw [Wrapper.actualNode, hbefore]
      rw [← hactual, hw.actualNode_eq]
      cases topology with
      | plain => cases hw.lanes_plain.symm.trans hbefore
      | dgx1 num_dgx1 => exact hnext num_dgx1 rfl source hsource v hv
  induction h with
  | new bufs gEndVCs =>
    intro lanes hlanes
    cases topology with
    | plain => cases hlanes
    | dgx1 num_dgx1 =>
      obtain rfl := Option.some.inj hlanes
      exact NVIDIADGX1.own_buildNet num_dgx1
  | refuse hrun hsource _ hgen ih => exact hcall hrun.reached hsource hgen ih
  | accept hrun hsource _ _ _ hgen ih => exact hcall hrun.reached hsource hgen ih
  | step _ _ _ ih | retire _ ih => exact ih

theorem lane_entry (h : Run cfg topology undefined w l) (hnext : MovesOn topology undefined)
    {source dest size cl pid : ℕ} {delay : ℤ} (hsource : source < topology.nodes cfg) :
    let a := entry (undefined source) w source dest size cl delay pid
    topology ≠ .plain ∧ a.atEnd = true ∧ a.lane = (undefined source).1 ∨
      a.atEnd = false ∧ topology.actualNode a.lane = source := by
  intro a
  have hactual := h.reached.actualNode_eq
  rw [← hactual]
  cases hlanes : w.lanes with
  | none =>
    refine .inr ⟨by simp [a, entry, readsEnd, hlanes], ?_⟩
    simp [a, entry, Wrapper.getVirtualNode, Wrapper.actualNode, hlanes]
  | some lanes =>
    cases hlast : lanes.lastVnode source with
    | none =>
      refine .inl ⟨?_, by simp [a, entry, readsEnd, hlanes, hlast], ?_⟩
      · rintro rfl
        cases h.reached.lanes_plain.symm.trans hlanes
      · simp [a, entry, Wrapper.getVirtualNode, NVIDIADGX1.getVirtualNode, hlanes, hlast]
    | some v =>
      refine .inr ⟨by simp [a, entry, readsEnd, hlanes, hlast], ?_⟩
      have hv := (h.own hnext lanes hlanes).iterator source hsource v hlast
      change w.actualNode (w.getVirtualNode (undefined source) source).1 = source
      rwa [Wrapper.getVirtualNode_of_iterator hlanes hlast, Wrapper.actualNode, hlanes]

theorem Run.lane (h : Run cfg topology undefined w l) (hnext : MovesOn topology undefined) :
    ∀ a ∈ l.accepted, topology ≠ .plain ∧ a.atEnd = true ∧ a.lane = (undefined a.source).1 ∨
      a.atEnd = false ∧ topology.actualNode a.lane = a.source := by
  induction h with
  | new bufs gEndVCs => exact fun a ha => absurd ha not_mem_nil
  | refuse _ _ _ _ ih => exact ih
  | accept hrun hsource _ _ _ _ ih => exact mem_accept ih (lane_entry hrun hnext hsource)
  | step _ _ _ ih | retire _ ih => exact ih

/-! ## Conservation -/

/-- A flit that is queued or in the network. -/
def Live (tm : TrafficManager) (l : Ledger) (f : Flit) : Prop :=
  f ∈ l.network ∨ ∃ n c, f ∈ tm.partialPackets n c

/-- The packets and flits are accounted for. -/
structure Conserved (cfg : TrafficConfig) (actualNode : ℕ → ℕ) (tm : TrafficManager)
    (l : Ledger) : Prop where
  /-- Packet numbers are not reused. -/
  pids : (l.accepted.map Accepted.pid).Nodup
  /-- A packet is returned at most once, and as it was generated. -/
  once : (l.returned.map RetiredPacket.pid).Nodup
  asGenerated : ∀ r ∈ l.returned, ∃ a ∈ l.accepted, r.pid = a.pid ∧ r.src = a.source ∧
    r.dest = a.dest ∧ r.cl = a.cl ∧ r.size = a.size
  /-- No packet is lost: once all flits have arrived, every packet can be had. -/
  allReturned : (∀ f, ¬ Live tm l f) → ∀ fuel, (waiting cfg tm).length < fuel →
    ∀ a ∈ l.accepted, ∃ r ∈ l.returned ++ (retirePackets cfg actualNode fuel tm).2, r.pid = a.pid
  inFlight : ∀ cl id, id ∈ tm.totalInFlightFlits cl ↔ ∃ f, Live tm l f ∧ f.id = id ∧ f.cl = cl
  idle : checkInFlightPackets cfg tm = false ↔ ∀ a ∈ l.accepted, ∃ r ∈ l.returned, r.pid = a.pid
  /-- The latencies, as long as the times are within the range of an `int`. -/
  latencies : ∀ r ∈ l.returned, ∀ a ∈ l.accepted, r.pid = a.pid → tm.time < 2 ^ 31 →
    0 ≤ r.nlat ∧ (0 ≤ a.delay → tm.time + a.delay < 2 ^ 31 → r.nlat ≤ r.plat)
  /-- No flit that the networks deliver makes `_Step` fail. -/
  retires : ∀ net rest received injected, Delivers actualNode l.network (arrivals cfg net) rest →
    receiveCredits cfg net tm = .ok received → inject cfg net received = .ok injected →
    ∃ tm', step cfg actualNode net tm = .ok (tm', injected.2)

theorem ReportOf.latencies {r : RetiredPacket} (h : ReportOf actualNode tm.time a r)
    (ha : 0 ≤ a.time) (hnow : tm.time < 2 ^ 31) :
    0 ≤ r.nlat ∧ (0 ≤ a.delay → tm.time + a.delay < 2 ^ 31 → r.nlat ≤ r.plat) := by
  obtain ⟨itime, atime, hsince, hle, huntil, hplat, hnlat⟩ := h.times
  rw [hplat, hnlat, toInt_eq (by omega) (by omega)]
  refine ⟨by omega, fun hdelay hrange => ?_⟩
  rw [toInt_eq (by omega) (by omega)]
  omega

theorem Balanced.live (h : Balanced cfg actualNode tm l arrived)
    (ha : a ∈ l.accepted) {k : ℕ} (hk : arrived a.pid ≤ k) (hk' : k < a.size) :
    ∃ f, Live tm l f ∧ f.label = a.label k := by
  have hmem : a.label k ∈ a.labels.drop (arrived a.pid) :=
    Accepted.mem_labels_drop.mpr ⟨k, hk, hk', rfl⟩
  rw [← h.flits.flow a ha] at hmem
  rcases mem_append.mp hmem with hmem | hmem
  · obtain ⟨f, hf, hlabel⟩ := mem_map.mp (mem_ofPid.mp hmem).1
    exact ⟨f, .inl hf, hlabel⟩
  · obtain ⟨f, hf, hlabel⟩ := mem_map.mp (mem_ofPid.mp hmem).1
    exact ⟨f, .inr ⟨_, _, hf⟩, hlabel⟩

theorem Balanced.label_of_live (h : Balanced cfg actualNode tm l arrived) {f : Flit}
    (hf : Live tm l f) :
    ∃ a ∈ l.accepted, ∃ k, arrived a.pid ≤ k ∧ k < a.size ∧ f.label = a.label k := by
  have hflow : ∀ a ∈ l.accepted, f.label ∈ ofPid a.pid (l.network.map Flit.label) ++
      ofPid a.pid (queueLabels tm a.lane a.cl) →
      ∃ a ∈ l.accepted, ∃ k, arrived a.pid ≤ k ∧ k < a.size ∧ f.label = a.label k := by
    intro a ha hmem
    rw [h.flits.flow a ha] at hmem
    obtain ⟨k, hk, hk', hlabel⟩ := Accepted.mem_labels_drop.mp hmem
    exact ⟨a, ha, k, hk, hk', hlabel⟩
  rcases hf with hf | ⟨n, c, hf⟩
  · obtain ⟨a, ha, hpid, -⟩ := h.flits.sent f hf
    refine hflow a ha (mem_append_left _ (mem_ofPid.mpr ⟨?_, hpid.symm⟩))
    exact mem_map_of_mem hf
  · have hx : f.label ∈ queueLabels tm n c := mem_map_of_mem hf
    obtain ⟨a, ha, hpid, rfl, rfl⟩ := h.flits.queued n c f.label hx
    exact hflow a ha (mem_append_right _ (mem_ofPid.mpr ⟨hx, hpid.symm⟩))

theorem Balanced.mem_inFlight (h : Balanced cfg actualNode tm l arrived) (cl id : ℕ) :
    id ∈ tm.totalInFlightFlits cl ↔ ∃ f, Live tm l f ∧ f.id = id ∧ f.cl = cl := by
  rw [h.flits.inFlight]
  constructor
  · rintro ⟨a, ha, rfl, k, hk, hk', rfl⟩
    obtain ⟨f, hf, hlabel⟩ := h.live ha hk hk'
    exact ⟨f, hf, congrArg FlitLabel.id hlabel, congrArg FlitLabel.cl hlabel⟩
  · rintro ⟨f, hf, rfl, rfl⟩
    obtain ⟨a, ha, k, hk, hk', hlabel⟩ := h.label_of_live hf
    exact ⟨a, ha, (congrArg FlitLabel.cl hlabel).symm, k, hk, hk', congrArg FlitLabel.id hlabel⟩

theorem Balanced.returned_of_drained (h : Balanced cfg actualNode tm l arrived)
    (hflits : ∀ cl < cfg.classes, tm.totalInFlightFlits cl = ∅) (hwaiting : waiting cfg tm = []) :
    ∀ a ∈ l.accepted, ∃ r ∈ l.returned, r.pid = a.pid := by
  intro a ha
  have hall : arrived a.pid = a.size := by
    refine le_antisymm (h.numbers.arrived_le a ha) (not_lt.mp fun hlt => ?_)
    have hmem := (h.flits.inFlight a.cl _).mpr ⟨a, ha, rfl, _, le_refl _, hlt, rfl⟩
    rw [hflits a.cl (h.numbers.place a ha).2.2.1] at hmem
    exact absurd hmem (Finset.notMem_empty _)
  have hmem := h.packets.complete a ha hall
  rw [completed, hwaiting, append_nil] at hmem
  exact mem_map.mp hmem

theorem waiting_eq_nil : waiting cfg tm = [] ↔
    ∀ cl < cfg.classes, ∀ n < cfg.nodes, tm.ejectionQueue cl n = [] := by
  rw [waiting, flatMap_eq_nil_iff]
  constructor
  · exact fun h cl hcl n hn => map_eq_nil_iff.mp (h (cl, n) (mem_ejectionPlaces.mpr ⟨hcl, hn⟩))
  · intro h p hp
    obtain ⟨hcl, hn⟩ := mem_ejectionPlaces.mp hp
    exact map_eq_nil_iff.mpr (h p.1 hcl p.2 hn)

theorem checkInFlightPackets_eq_false : checkInFlightPackets cfg tm = false ↔
    (∀ cl < cfg.classes, tm.totalInFlightFlits cl = ∅) ∧ waiting cfg tm = [] := by
  rw [waiting_eq_nil]
  simp only [checkInFlightPackets, any_eq_false, mem_range, Bool.not_eq_true,
    Bool.or_eq_false_iff, decide_eq_false_iff_not, ne_eq, not_not]
  exact ⟨fun h => ⟨fun cl hcl => (h cl hcl).1, fun cl hcl => (h cl hcl).2⟩,
    fun h cl hcl => ⟨h.1 cl hcl, h.2 cl hcl⟩⟩

theorem Balanced.idle_iff (h : Balanced cfg actualNode tm l arrived) :
    checkInFlightPackets cfg tm = false ↔ ∀ a ∈ l.accepted, ∃ r ∈ l.returned, r.pid = a.pid := by
  rw [checkInFlightPackets_eq_false]
  refine ⟨fun hidle => h.returned_of_drained hidle.1 hidle.2, fun hall => ⟨fun cl _ => ?_, ?_⟩⟩
  · refine Finset.eq_empty_of_forall_notMem fun id hid => ?_
    obtain ⟨a, ha, -, k, hk, hk', -⟩ := (h.flits.inFlight cl id).mp hid
    obtain ⟨r, hr, hpid⟩ := hall a ha
    obtain ⟨b, hb, hsize, hreport⟩ := h.packets.returned r hr
    obtain rfl := h.numbers.eq_of_pid hb ha (hreport.pid.symm.trans hpid)
    omega
  · refine eq_nil_iff_forall_not_mem.mpr fun pid hmem => ?_
    -- a packet that waits has been accepted, so it was returned as well
    obtain ⟨a, ha, rfl, -⟩ := h.packets.mem_completed (mem_append_right _ hmem)
    obtain ⟨r, hr, hpid⟩ := hall a ha
    have hdisjoint := (nodup_append.mp h.packets.once).2.2
    exact hdisjoint r.pid (mem_map_of_mem hr) a.pid hmem hpid

/-- `RetirePackets` keeps the books balanced, and with enough rounds leaves no packet. -/
theorem Balanced.retirePackets : ∀ {fuel : ℕ} {tm : TrafficManager} {l : Ledger},
    Balanced cfg actualNode tm l arrived → (waiting cfg tm).length < fuel →
    (retirePackets cfg actualNode fuel tm).1.totalInFlightFlits = tm.totalInFlightFlits ∧
    waiting cfg (retirePackets cfg actualNode fuel tm).1 = [] ∧
    Balanced cfg actualNode (retirePackets cfg actualNode fuel tm).1
      { l with returned := l.returned ++ (retirePackets cfg actualNode fuel tm).2 } arrived
  | 0, _, _, _, hfuel => absurd hfuel (Nat.not_lt_zero _)
  | fuel + 1, tm, l, h, hfuel => by
    have hnext := h.retirePacket
    rcases retirePacket_eq cfg actualNode tm with
      ⟨hempty, heq⟩ | ⟨p, hp, head, tail, rest, hqueue, heq⟩
    · simp only [TrafficManager.retirePackets, heq, append_nil]
      refine ⟨trivial, waiting_eq_nil.mpr fun cl hcl n hn => ?_, h⟩
      exact hempty (cl, n) (mem_ejectionPlaces.mpr ⟨hcl, hn⟩)
    · simp only [heq, Option.toList_some] at hnext
      have hshorter := (waiting_pop hp hqueue).length_eq
      rw [length_cons] at hshorter
      obtain ⟨hflits, hwaiting, hend⟩ :=
        hnext.retirePackets (Nat.lt_of_succ_lt_succ (hshorter ▸ hfuel))
      simp only [TrafficManager.retirePackets, heq]
      refine ⟨hflits, hwaiting, ?_⟩
      rwa [append_assoc, singleton_append] at hend

theorem Balanced.allReturned (h : Balanced cfg actualNode tm l arrived)
    (hlive : ∀ f, ¬ Live tm l f) {fuel : ℕ} (hfuel : (waiting cfg tm).length < fuel) :
    ∀ a ∈ l.accepted, ∃ r ∈ l.returned ++ (TrafficManager.retirePackets cfg actualNode fuel tm).2,
        r.pid = a.pid := by
  obtain ⟨hflits, hwaiting, hend⟩ := h.retirePackets hfuel
  refine hend.returned_of_drained (fun cl _ => ?_) hwaiting
  rw [hflits]
  refine Finset.eq_empty_of_forall_notMem fun id hid => ?_
  obtain ⟨f, hf, -⟩ := (h.mem_inFlight cl id).mp hid
  exact hlive f hf

theorem conserved_iff_lanes (h : Balanced cfg actualNode tm l arrived) :
    Conserved cfg actualNode tm l ↔
      ∀ a ∈ l.accepted, (∃ r ∈ l.returned, r.pid = a.pid) → actualNode a.lane = a.source := by
  have hreport : ∀ r ∈ l.returned, ∀ a ∈ l.accepted, r.pid = a.pid →
      ReportOf actualNode tm.time a r := by
    intro r hr a ha hpid
    obtain ⟨b, hb, -, hreport⟩ := h.packets.returned r hr
    obtain rfl := h.numbers.eq_of_pid hb ha (hreport.pid.symm.trans hpid)
    exact hreport
  constructor
  · rintro hconserved a ha ⟨r, hr, hpid⟩
    obtain ⟨b, hb, hpid', hsource, -⟩ := hconserved.asGenerated r hr
    obtain rfl := h.numbers.eq_of_pid hb ha (hpid'.symm.trans hpid)
    exact (hreport r hr b hb hpid).src.symm.trans hsource
  · intro hlanes
    refine ⟨?_, (nodup_append.mp h.packets.once).1, fun r hr => ?_,
      fun hlive fuel => h.allReturned hlive, h.mem_inFlight, h.idle_iff, ?_, ?_⟩
    · exact pairwise_map.mpr (h.numbers.apart.imp And.left)
    · obtain ⟨a, ha, -, hr'⟩ := h.packets.returned r hr
      have hsource := hlanes a ha ⟨r, hr, hr'.pid⟩
      exact ⟨a, ha, hr'.pid, hr'.src.trans hsource, hr'.dest, hr'.cl, hr'.size⟩
    · exact fun r hr a ha hpid => (hreport r hr a ha hpid).latencies (h.numbers.place a ha).2.2.2.1
    · intro net rest received injected hdelivers hreceived hinjected
      obtain ⟨tm', -, hstep, -, -⟩ := h.step hdelivers hreceived hinjected
      exact ⟨tm', hstep⟩

/-- **Packet conservation**: in every run on networks that deliver, the packets and flits are
accounted for, always if the network is not a DGX-1, and on a DGX-1 exactly if every packet that
was returned and whose lane had been read at `end()` was put on a lane of its source by that. -/
theorem conserved_iff (h : Run cfg topology undefined w l) (hnext : MovesOn topology undefined) :
    Conserved cfg w.actualNode w.tm l ↔ topology = .plain ∨
      ∀ a ∈ l.accepted, (∃ r ∈ l.returned, r.pid = a.pid) → a.atEnd = true →
        topology.actualNode (undefined a.source).1 = a.source := by
  obtain ⟨arrived, hbalanced⟩ := h.balanced
  rw [h.reached.actualNode_eq, conserved_iff_lanes hbalanced]
  constructor
  · refine fun hlanes => .inr fun a ha hreturned hend => ?_
    rcases h.lane hnext a ha with ⟨-, -, hlane⟩ | ⟨hother, -⟩
    · exact hlane ▸ hlanes a ha hreturned
    · exact absurd (hend.symm.trans hother) nofun
  · intro hfirst a ha hreturned
    rcases h.lane hnext a ha with ⟨hdgx1, hend, hlane⟩ | ⟨-, hown⟩
    · rw [hlane]
      exact hfirst.resolve_left hdgx1 a ha hreturned hend
    · exact hown

end Invariant

/-! ## A packet on a DGX-1 -/

section DGX1

variable {cfg : TrafficConfig} {net : NetworkSide}

theorem injectAt_idle {s : TrafficManager × List (ℕ × ℕ × Flit)} {place : ℕ × ℕ}
    (h : ∀ c, s.1.partialPackets place.2 c = []) : injectAt cfg net s place = .ok s := by
  have hselect : selectFlit cfg net s.1 place.1 place.2 =
      .ok (s.1.partialPackets place.2, none) := by
    unfold selectFlit heldFlit
    rw [h]
    refine foldlM_of_idle fun c _ => ?_
    simp only [considerClass, h, ite_self]
  unfold injectAt
  rw [hselect]
  refine congrArg Except.ok (Prod.ext ?_ rfl)
  simp only [Function.update_eq_self]

theorem receiveCredits_silent {tm : TrafficManager} (h : ∀ subnet n, net.credits subnet n = none) :
    receiveCredits cfg net tm = .ok tm := by
  refine foldlM_of_idle fun place _ => ?_
  rw [receiveCredit, h]
  rfl

/-- The lanes of one DGX-1, and one class. -/
def dgx1 : TrafficConfig where
  nodes := 14 * 64
  classes := 1
  subnets := 1
  subnet := fun _ => 0
  injSize := 8
  holdSwitchForPacket := false
  noq := false
  priType := .none
  classPriority := fun _ => 0

/-- A network that hands over `f` at node `lane`. -/
def handsOver (f : Flit) (lane : ℕ) : NetworkSide :=
  { vcZero with ejected := fun subnet n => if (subnet, n) = (0, lane) then some f else none }

theorem nodup_places (cfg : TrafficConfig) : (places cfg).Nodup :=
  nodup_range.product nodup_range

theorem arrivals_vcZero : arrivals cfg vcZero = [] :=
  filterMap_eq_nil_iff.mpr fun _ _ => rfl

variable {f : Flit}

theorem arrivals_handsOver {lane : ℕ} (hlane : lane < cfg.nodes) (hs : 0 < cfg.subnets) :
    arrivals cfg (handsOver f lane) = [(lane, f)] := by
  refine filterMap_of_single (a := (0, lane)) (nodup_places cfg) (mem_places.mpr ⟨hs, hlane⟩) ?_ ?_
  · exact congrArg (Option.map _) (if_pos rfl)
  · exact fun p hp => congrArg (Option.map _) (if_neg hp)

theorem inject_single {tm tm' : TrafficManager} {n : ℕ} (hn : n < cfg.nodes)
    (hsubnets : cfg.subnets = 1) (hcl : ∀ c, ∀ f ∈ tm.partialPackets n c, f.cl = c)
    (hidle : ∀ m, m ≠ n → ∀ c, tm.partialPackets m c = [])
    (h : injectAt cfg net (tm, []) (0, n) = .ok (tm', [(0, n, f)])) :
    inject cfg net tm = .ok (tm', [(0, n, f)]) := by
  refine foldlM_of_single h (fun p hp hne => ?_) (nodup_places cfg)
    (mem_places.mpr ⟨hsubnets ▸ Nat.one_pos, hn⟩)
  have hm : p.2 ≠ n := by
    have := (mem_places.mp hp).1
    exact fun heq => hne (Prod.ext (by omega) heq)
  refine ⟨injectAt_idle (hidle p.2 hm), injectAt_idle fun c => ?_⟩
  have hlabels : queueLabels tm' p.2 c = queueLabels tm p.2 c := by
    rcases (injectAt_eq_ok hcl h).2 with ⟨hqueues, -⟩ | ⟨g, rest, -, hqueues, -⟩
    · rw [hqueues]
    · rw [hqueues, update₂_row_ne hm]
  exact map_eq_nil_iff.mp (hlabels.trans (congrArg (List.map _) (hidle p.2 hm c)))

theorem Balanced.queues_of_single {actualNode : ℕ → ℕ} {tm : TrafficManager} {arrived : ℕ → ℕ}
    {a : Accepted} {returned : List RetiredPacket} (hsize : a.size = 1)
    (h : Balanced cfg actualNode tm ⟨[a], [f], returned⟩ arrived) (n c : ℕ) :
    tm.partialPackets n c = [] := by
  refine eq_nil_iff_forall_not_mem.mpr fun g hg => ?_
  have hx : g.label ∈ queueLabels tm n c := mem_map_of_mem hg
  obtain ⟨b, hb, hpid, rfl, rfl⟩ := h.flits.queued n c g.label hx
  obtain ⟨b', hb', hpid', -⟩ := h.flits.sent f mem_cons_self
  obtain rfl := mem_singleton.mp hb
  obtain rfl := mem_singleton.mp hb'
  have hflow := congrArg List.length (h.flits.flow _ hb)
  have hqueue := length_pos_of_mem (mem_ofPid.mpr ⟨hx, hpid.symm⟩)
  rw [map_singleton, ofPid_cons_self hpid'.symm, length_append, length_cons,
    length_drop, Accepted.labels, length_map, length_range, hsize] at hflow
  omega

/-- A packet of one flit for node 2 has been put on lane `lane`. -/
def onePacket (lane : ℕ) : Except Fault (TrafficManager × Option ℕ) :=
  generatePacket dgx1 (TrafficManager.new (fun _ _ => fourSlots) fun _ => 0) lane (2 : ℕ) 1 0
  (0 - 0)

theorem run_onePacket (undefined : ℕ → ℕ × Option ℕ) (lane : ℕ) {tm₁ tm₂ : TrafficManager}
    (hlane : lane < dgx1.nodes) (hfirst : (undefined 0).1 = lane)
    (hgen : onePacket lane = .ok (tm₁, some 0))
    (hinject : injectAt dgx1 vcZero (tm₁, []) (0, lane) = .ok (tm₂, [(0, lane, f)])) :
    ∃ w a, Run dgx1 (.dgx1 1) undefined w { accepted := [a] } ∧ a.source = 0 ∧ a.lane = lane ∧
      ∀ n c, w.tm.partialPackets n c = [] := by
  obtain ⟨w₀, hrun₀, htm, lanes, hcall⟩ : ∃ w₀, Run dgx1 (.dgx1 1) undefined w₀ {} ∧
      w₀.tm = TrafficManager.new (fun _ _ => fourSlots) (fun _ => 0) ∧
      ∃ lanes, w₀.getVirtualNode (undefined 0) 0 = (lane, some lanes) := by
    obtain ⟨lanes, hcall, -⟩ :=
      Wrapper.first_call 1 (fun _ _ => fourSlots) (fun _ => 0) (undefined 0) 0
    exact ⟨_, .new _ _, rfl, lanes, hfirst ▸ hcall⟩
  have hgen' : w₀.generatePacket dgx1 (undefined 0) 0 (2 : ℕ) 1 0 0 =
      .ok (⟨tm₁, some lanes⟩, some 0) :=
    Wrapper.generatePacket_eq_ok.mpr (by rw [hcall, htm]; exact ⟨hgen, rfl⟩)
  have hrun₁ := Run.accept hrun₀ (by decide) Nat.one_pos (by rw [hcall]; exact hlane)
      (le_refl 1) hgen'
  obtain ⟨arrived₁, hbal₁⟩ := hrun₁.balanced
  -- the first cycle: the flit goes
  have hidle : ∀ m, m ≠ lane → ∀ c, tm₁.partialPackets m c = [] := by
    intro m hm c
    rcases generatePacket_eq_ok hgen with ⟨hnone, -⟩ | ⟨-, pri, rfl⟩
    · exact nomatch hnone
    · exact congrFun (update₂_row_ne hm) c
  have hinjected₁ := inject_single hlane rfl (fun c f hf => hbal₁.flits.cl hf) hidle hinject
  obtain ⟨tm₃, arrived₃, hstep₁, -, hbal₃⟩ := hbal₁.step (arrivals_vcZero.symm ▸ Delivers.nil _)
    (receiveCredits_silent fun _ _ => rfl) hinjected₁
  have hrun₃ := Run.step hrun₁ (arrivals_vcZero.symm ▸ Delivers.nil _)
    (hrun₁.reached.actualNode_eq ▸ hstep₁)
  have hempty := hbal₃.queues_of_single rfl
  -- the second cycle: it arrives
  obtain ⟨a, ha, k, -, -, hlabel⟩ := hbal₃.label_of_live (.inl mem_cons_self)
  obtain rfl := mem_singleton.mp ha
  have hdelivers : Delivers (Topology.actualNode (.dgx1 1)) [f]
      (arrivals dgx1 (handsOver f 128)) [] := by
    rw [arrivals_handsOver (by decide) Nat.one_pos]
    refine (Delivers.cons nofun rfl rfl ?_ (.nil _) : Delivers _ ([] ++ f :: []) _ _)
    exact ((NVIDIADGX1.buildNet_spec 14).2.2.2 128 (by decide)).trans
      (congrArg FlitLabel.dest hlabel).symm
  have hinjected₂ : inject dgx1 (handsOver f 128) tm₃ = .ok (tm₃, []) :=
    foldlM_of_idle fun place _ => injectAt_idle (hempty place.2)
  obtain ⟨tm₄, arrived₄, hstep₂, hqueues₄, -⟩ := hbal₃.step hdelivers
    (receiveCredits_silent fun _ _ => rfl) hinjected₂
  have hactual := hrun₃.reached.actualNode_eq
  refine ⟨_, _, Run.step hrun₃ (hactual ▸ hdelivers) (hactual ▸ hstep₂), rfl,
    congrArg Prod.fst hcall, fun n c => ?_⟩
  change tm₄.partialPackets n c = []
  rw [hqueues₄]
  exact hempty n c

theorem run_retire {topology : Topology} {undefined : ℕ → ℕ × Option ℕ} {w : Wrapper} {a : Accepted}
    (h : Run cfg topology undefined w { accepted := [a] })
    (hempty : ∀ n c, w.tm.partialPackets n c = []) :
    ∃ w' r, Run cfg topology undefined w' { accepted := [a], returned := [r] } ∧ r.pid = a.pid ∧
      r.src = topology.actualNode a.lane := by
  have hretired := h.retire
  rcases retirePacket_eq cfg w.actualNode w.tm with ⟨hnone, -⟩ | ⟨p, -, head, tail, rest, -, heq⟩
  · -- otherwise the packet would be lost
    obtain ⟨arrived, hbal⟩ := h.balanced
    have hwaiting : waiting cfg w.tm = [] :=
      flatMap_eq_nil_iff.mpr fun p hp => map_eq_nil_iff.mpr (hnone p hp)
    have hflits : ∀ cl < cfg.classes, w.tm.totalInFlightFlits cl = ∅ := by
      refine fun cl _ => Finset.eq_empty_of_forall_notMem fun id hid => ?_
      obtain ⟨f, hf | ⟨n, c, hf⟩, -⟩ := (hbal.mem_inFlight cl id).mp hid
      · exact nomatch hf
      · rw [hempty n c] at hf
        exact nomatch hf
    obtain ⟨r, hr, -⟩ := hbal.returned_of_drained hflits hwaiting a mem_cons_self
    exact nomatch hr
  · rw [heq] at hretired
    obtain ⟨arrived, hbal⟩ := hretired.balanced
    obtain ⟨b, hb, -, hreport⟩ := hbal.packets.returned _ mem_cons_self
    obtain rfl := mem_singleton.mp hb
    exact ⟨_, _, hretired, hreport.pid, hreport.src⟩

/-- The read at `end()` gives the first lane of the node, and moves on to the second. -/
def fromFirst (node : ℕ) : ℕ × Option ℕ := (64 * node, some (64 * node + 1))

theorem actualNode_dgx1 {v : ℕ} (hv : v < 64 * 14) : Topology.actualNode (.dgx1 1) v = v / 64 :=
  (NVIDIADGX1.buildNet_spec 14).2.2.2 v hv

theorem conserved_iff_onePacket : ∃ w a r,
    Run dgx1 (.dgx1 1) fromFirst w { accepted := [a], returned := [r] } ∧ a.source = 0 ∧
      a.lane = 0 ∧ Conserved dgx1 w.actualNode w.tm { accepted := [a], returned := [r] } := by
  obtain ⟨w₁, a, hrun₁, hsource, hlane, hempty⟩ :=
    run_onePacket fromFirst 0 (by decide) rfl rfl rfl
  obtain ⟨w, r, hrun, -⟩ := run_retire hrun₁ hempty
  have hnext : MovesOn (.dgx1 1) fromFirst := by
    rintro num_dgx1 ⟨⟩ node hnode v hv
    obtain rfl := Option.mem_some.mp hv
    rw [actualNode_dgx1 (by omega)]
    omega
  refine ⟨w, a, r, hrun, hsource, hlane, (conserved_iff hrun hnext).mpr (.inr fun b hb _ _ => ?_)⟩
  obtain rfl := mem_singleton.mp hb
  rw [hsource]
  exact actualNode_dgx1 (by decide)

/-- As the GNU library reads `end()`, the packet of node 0 goes to lane 64, and is reported to
come from node 1. -/
theorem source_not_conserved : ∃ w a r,
    Run dgx1 (.dgx1 1) NVIDIADGX1.gnuEnd w { accepted := [a], returned := [r] } ∧
      MovesOn (.dgx1 1) NVIDIADGX1.gnuEnd ∧ a.source = 0 ∧ r.src = 1 ∧
      ¬ Conserved dgx1 w.actualNode w.tm { accepted := [a], returned := [r] } := by
  obtain ⟨w₁, a, hrun₁, hsource, hlane, hempty⟩ :=
    run_onePacket NVIDIADGX1.gnuEnd 64 (by decide) rfl rfl rfl
  obtain ⟨w, r, hrun, -, hsrc⟩ := run_retire hrun₁ hempty
  rw [hlane, actualNode_dgx1 (by decide)] at hsrc
  refine ⟨w, a, r, hrun, ?_, hsource, hsrc, fun hconserved => ?_⟩
  · rintro num_dgx1 ⟨⟩ node hnode v hv
    obtain rfl := Option.mem_some.mp hv
    rw [actualNode_dgx1 (by omega)]
    omega
  · obtain ⟨b, hb, -, hsrc', -⟩ := hconserved.asGenerated r mem_cons_self
    obtain rfl := mem_singleton.mp hb
    rw [hsource, hsrc] at hsrc'
    exact absurd hsrc' (by decide)

end DGX1

end Ledger

end BookSim
