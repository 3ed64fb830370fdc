/-
# Routes on the torus — minimal, one way around each ring, and without deadlock

What the single decisions of `dim_order_torus` and `dim_order_bal_torus` add up to.  Each hop
brings a packet one closer in the torus distance, and no channel brings anything closer by
more, so the routes are shortest paths over the wires.  A packet stays in the ring, the
direction and the partition it turned into until its coordinate there is right.  And a
channel in a partition ranks by its dimension first, and then by how near it is to the
dateline: a packet only ever asks for channels that rank higher (`rank`).

The valiant functions keep the partition in a variable that `dor_next_torus` writes in a turn
only, and read it at every hop (`valiant_partitionKnown_iff`).
-/
import BookSim.Networks.KNTorus

namespace BookSim.KNCube

open CKNCube Routing RingWay

variable {net : KNCube} {vcs : ClassVCs} {balance : Bool} {cl dest : ℕ} {s t : Flight}

theorem onTorus_of_start (h : (net.flights vcs (torusFunction balance)).start s) :
    net.OnTorus vcs balance s.flit.cl s.flit.dest s ∧ s.flit.src = s.router := by
  obtain ⟨hunder, hsrc, hport⟩ := underway_of_start (injectsClass_torus balance) h
  exact ⟨⟨hunder, .inl hport⟩, hsrc⟩

/-! ## Delivery by the shortest way -/

theorem torusDist_self (x : ℕ) : net.torusDist x x = 0 := gridDist_self (dist_self net.k) _

theorem torus_deliversIn (hs : net.OnTorus vcs balance cl dest s)
    (h2 : vcs.gBeginVCs cl < vcs.gEndVCs cl) :
    (net.flights vcs (torusFunction balance)).DeliversIn dest (net.torusDist s.router dest) s := by
  refine RouteSystem.deliversIn_of_distance (net.OnTorus vcs balance cl dest)
    (fun s => net.torusDist s.router dest) (fun s _ => flights_moves _ _ _ s)
    (fun s o hs ho => ?_) hs rfl
  rcases torus_outcome hs h2 ho with ⟨heq, rfl⟩ | ⟨a, t, port, rfl, hhop, ht⟩
  · exact .inl ⟨heq ▸ torusDist_self _, rfl⟩
  · refine .inr ⟨a, t, rfl, ht, ?_⟩
    rw [hhop.next]
    exact hhop.ring.ring.closer hs.underway.router_lt hhop.ring.differs

theorem torusDist_le_of_linked {x y : ℕ} (h : net.wiring.Linked x y) (dest : ℕ) :
    net.torusDist x dest ≤ net.torusDist y dest + 1 := by
  obtain ⟨hx, port, hport, rfl⟩ := linked_neighbour h
  have hset := gridDist_neighbour hx hport (RingWay.dist net.k) dest
  have hle := dist_le_move (net.coord_lt x (port / 2)) (net.coord_lt dest (port / 2)) (toRight port)
  unfold torusDist
  omega

theorem isLeast_torusDist (hs : net.OnTorus vcs balance cl dest s)
    (h2 : vcs.gBeginVCs cl < vcs.gEndVCs cl) :
    IsLeast {m | net.wiring.Path s.router m dest} (net.torusDist s.router dest) := by
  constructor
  · obtain ⟨hops, t, hroute, hlen, hleave⟩ := (torus_deliversIn hs h2).exists_route
    have ht : net.OnTorus vcs balance cl dest t := by
      refine hroute.keeps (fun s a t hs hhop => ?_) hs
      rcases torus_outcome hs h2 hhop with ⟨-, hleave⟩ | ⟨a', t', -, heq, -, ht⟩
      · cases hleave
      · cases heq
        exact ht
    have hpath := path_of_route hroute
    rcases torus_outcome ht h2 hleave with ⟨heq, -⟩ | ⟨_, _, -, heq, -, -⟩
    · rwa [hlen, heq] at hpath
    · cases heq
  · intro m hm
    exact hm.le_length (fun x y hxy => torusDist_le_of_linked hxy dest) (torusDist_self dest)

/-! ## One way around each ring -/

theorem TorusHop.inRing {a : Sent} {port : ℕ} (h : net.TorusHop balance dest s a t port)
    (hs : net.OnTorus vcs balance cl dest s) :
    net.InRing balance dest t.router port t.flit.ph := by
  rw [h.next]
  exact h.ring.ring.hop hs.underway.router_lt h.ring.differs

/-- A packet that came in along the ring of `q` stays in it, in its direction and partition,
or goes on to higher dimensions. -/
theorem ring_of_mem {hops : List Sent} (h2 : vcs.gBeginVCs cl < vcs.gEndVCs cl)
    (hroute : (net.flights vcs (torusFunction balance)).Route s hops t)
    (hs : net.OnTorus vcs balance cl dest s) {q : ℕ} (hq : s.inPort = q ^^^ 1)
    (hring : net.InRing balance dest s.router q s.flit.ph) :
    ∀ a ∈ hops, q / 2 ≤ a.port.toNat / 2 ∧
      (q / 2 = a.port.toNat / 2 → a.port = q ∧ a.flit.ph = s.flit.ph) := by
  induction hroute generalizing q with
  | nil => exact fun a ha => absurd ha List.not_mem_nil
  | @cons s u t a hops ha _ ih =>
    rcases torus_outcome hs h2 ha with ⟨-, hleave⟩ | ⟨a', u', port, heq, hhop, hu⟩
    · cases hleave
    · cases heq
      obtain ⟨hle, hsame⟩ := hhop.ring.straight q hq hring
      have hport : a.port.toNat = port := by rw [hhop.port_eq, Int.toNat_natCast]
      intro b hb
      rcases List.mem_cons.mp hb with rfl | hb
      · rw [hport]
        refine ⟨hle, fun hdim => ?_⟩
        obtain ⟨rfl, hph⟩ := hsame hdim
        exact ⟨hhop.port_eq, by rw [hhop.flit, hph]⟩
      · obtain ⟨hle', hsame'⟩ := ih hu hhop.inPort (hhop.inRing hs) b hb
        refine ⟨hle.trans hle', fun hdim => ?_⟩
        obtain ⟨rfl, hph⟩ := hsame (by omega)
        obtain ⟨hbport, hbph⟩ := hsame' hdim
        exact ⟨hbport, by rw [hbph, hph]⟩

/-- Two hops of a route in the same dimension go the same way, in the same partition. -/
theorem one_way {hops : List Sent} (h2 : vcs.gBeginVCs cl < vcs.gEndVCs cl)
    (hroute : (net.flights vcs (torusFunction balance)).Route s hops t)
    (hs : net.OnTorus vcs balance cl dest s) :
    ∀ a ∈ hops, ∀ b ∈ hops, a.port.toNat / 2 = b.port.toNat / 2 →
      a.port = b.port ∧ a.flit.ph = b.flit.ph := by
  induction hroute with
  | nil => exact fun a ha => absurd ha List.not_mem_nil
  | @cons s u t a hops ha hrest ih =>
    rcases torus_outcome hs h2 ha with ⟨-, hleave⟩ | ⟨a', u', port, heq, hhop, hu⟩
    · cases hleave
    · cases heq
      have hport : a.port.toNat = port := by rw [hhop.port_eq, Int.toNat_natCast]
      have hfirst : ∀ b ∈ hops, a.port.toNat / 2 = b.port.toNat / 2 →
          b.port = a.port ∧ b.flit.ph = a.flit.ph := by
        intro b hb hdim
        rw [hport] at hdim
        obtain ⟨hbport, hbph⟩ := (ring_of_mem h2 hrest hu hhop.inPort (hhop.inRing hs) b hb).2 hdim
        exact ⟨hbport.trans hhop.port_eq.symm, by rw [hbph, hhop.flit]⟩
      intro b hb c hc hdim
      rcases List.mem_cons.mp hb with rfl | hb'
      · grind
      · rcases List.mem_cons.mp hc with rfl | hc'
        · exact hfirst b hb' hdim.symm
        · exact ih hu b hb' c hc' hdim

/-! ## No deadlock -/

/-- The rank of a channel in a partition. -/
def rank (net : KNCube) (balance : Bool) (held : ℕ × ℤ) : ℕ :=
  let port := held.1 % (2 * net.n)
  let router := held.1 / (2 * net.n)
  port / 2 * net.k + (net.k - 1 - way net.k (toRight port) (coord net.k router (port / 2))
    (dateline net.k balance (toRight port) held.2))

theorem rank_eq {router port : ℕ} (hport : port < 2 * net.n) (ph : ℤ) :
    net.rank balance (2 * net.n * router + port, ph) =
      port / 2 * net.k + (net.k - 1 - way net.k (toRight port) (coord net.k router (port / 2))
        (dateline net.k balance (toRight port) ph)) := by
  rw [rank, Nat.mul_add_mod, Nat.mod_eq_of_lt hport, Nat.mul_add_div (by omega),
    Nat.div_eq_of_lt hport, Nat.add_zero]

theorem InRing.rank_lt {router port : ℕ} {ph : ℤ} (h : net.InRing balance dest router port ph)
    (hrouter : router < net.size)
    (hne : coord net.k router (port / 2) ≠ coord net.k dest (port / 2)) :
    net.rank balance (2 * net.n * router + port, ph) <
      net.rank balance (2 * net.n * net.neighbour router port + port, ph) := by
  have hx := net.coord_lt router (port / 2)
  have hline := dateline_lt (two_le_of_ne hne) balance (toRight port) ph
  have hmove := way_move hx hline (toRight port) (h.ne_dateline hne)
  have hlt := way_lt hx hline (toRight port)
  rw [rank_eq h.port_lt, rank_eq h.port_lt, coord_neighbour hrouter h.port_lt]
  omega

theorem rank_lt_of_depends (h2 : ∀ cl, vcs.gBeginVCs cl < vcs.gEndVCs cl) {a b : ℕ × ℤ}
    (h : (net.flights vcs (torusFunction balance)).Depends Sent.phaseHeld a b) :
    net.rank balance a < net.rank balance b := by
  obtain ⟨s, t, u, x, y, hroute, hx, hy, rfl, rfl⟩ := h
  obtain ⟨cl, dest, hs⟩ : ∃ cl dest, net.OnTorus vcs balance cl dest s := by
    refine hroute.holds (fun s => ∃ cl dest, net.OnTorus vcs balance cl dest s)
      (fun s hstart => ⟨_, _, (onTorus_of_start hstart).1⟩) ?_
    rintro s a t ⟨cl, dest, hs⟩ hhop
    rcases torus_outcome hs (h2 cl) hhop with ⟨-, hleave⟩ | ⟨a', t', -, heq, -, ht⟩
    · cases hleave
    · cases heq
      exact ⟨cl, dest, ht⟩
  rcases torus_outcome hs (h2 cl) hx with ⟨-, hleave⟩ | ⟨x', t', p, heq, hhop, ht⟩
  · cases hleave
  · cases heq
    rcases torus_outcome ht (h2 cl) hy with ⟨-, hleave⟩ | ⟨y', u', q, heq, hhop', -⟩
    · cases hleave
    · cases heq
      obtain ⟨hle, hsame⟩ := hhop'.ring.straight p hhop.inPort (hhop.inRing hs)
      simp only [Sent.phaseHeld, hhop.channel, hhop'.channel, hhop.flit, hhop'.flit]
      rcases Nat.lt_or_eq_of_le hle with hlt | heq
      · -- A higher dimension outranks every position of a lower one.
        have hk := net.k_pos
        have hmul : (p / 2 + 1) * net.k ≤ q / 2 * net.k := Nat.mul_le_mul_right _ hlt
        rw [Nat.succ_mul] at hmul
        rw [rank_eq hhop.ring.ring.port_lt, rank_eq hhop'.ring.ring.port_lt]
        omega
      · obtain ⟨rfl, hph⟩ := hsame heq
        rw [hph, hhop.next]
        exact hhop.ring.ring.rank_lt hs.underway.router_lt hhop.ring.differs

/-- What the torus functions should do with every packet. -/
structure TorusRouting (net : KNCube) (vcs : ClassVCs) (balance : Bool) : Prop where
  starts : ∀ src < net.size, ∀ dest < net.size, ∀ cl,
    ∃ s, (net.flights vcs (torusFunction balance)).start s ∧ s.flit.src = src ∧
      s.flit.dest = dest ∧ s.flit.cl = cl
  delivered : ∀ s, (net.flights vcs (torusFunction balance)).start s →
    ∃ m, IsLeast {m | net.wiring.Path s.flit.src m s.flit.dest} m ∧
      (net.flights vcs (torusFunction balance)).DeliversIn s.flit.dest m s
  one_way : ∀ s, (net.flights vcs (torusFunction balance)).start s → ∀ hops t,
    (net.flights vcs (torusFunction balance)).Route s hops t →
    ∀ a ∈ hops, ∀ b ∈ hops, a.port.toNat / 2 = b.port.toNat / 2 →
      a.port = b.port ∧ a.flit.ph = b.flit.ph
  acyclic : (net.flights vcs (torusFunction balance)).Acyclic Sent.phaseHeld

/-- **Dimension-order routing on the torus.**  With two VCs or more in every class, both
functions let a packet start at every node, deliver it over a shortest path of the wires, keep to
one direction and one partition in each ring, and no channels wait for each other in a circle. -/
theorem torusRouting (net : KNCube) (vcs : ClassVCs) (balance : Bool)
    (h2 : ∀ cl, vcs.gBeginVCs cl < vcs.gEndVCs cl) : net.TorusRouting vcs balance where
  starts _ hsrc _ hdest := (injectsClass_torus balance).starts hdest (sink_inject hsrc)
  delivered s hstart := by
    obtain ⟨hs, hsrc⟩ := onTorus_of_start hstart
    exact ⟨_, hsrc ▸ isLeast_torusDist hs (h2 _), torus_deliversIn hs (h2 _)⟩
  one_way s hstart hops t hroute :=
    KNCube.one_way (h2 _) hroute (onTorus_of_start hstart).1
  acyclic := RouteSystem.acyclic_of_rank (net.rank balance) fun _ _ h => rank_lt_of_depends h2 h

/-- On a 4 by 4 torus. -/
theorem torusRouting_four : (⟨4, 2, by decide⟩ : KNCube).TorusRouting CKNCube.fourVCs true :=
  torusRouting _ CKNCube.fourVCs true fun _ => show (0 : ℤ) < 3 by decide

/-! ## The valiant functions -/

/-- The two functions, by whether the VCs are divided among the destinations. -/
def valiantFunction : Bool → RoutingFunction
  | false => .valiant_torus
  | true => .valiant_ni_torus

/-- What a valiant function asks `dor_next_torus` for: the node to go to, and the input port,
which is that of the injection at the intermediate node. -/
def valiantQuery (g : Globals) (ni : Bool) (c : Call) : ℕ × ℕ :=
  let source := c.inChannel = 2 * g.gN
  let intm : ℤ := if source then c.randomInt 2 (g.gNodes - 1) else c.flit.intm
  let first : ℤ := if ni then c.flit.ph else if source then 0 else c.flit.ph.tdiv 2
  let reached := first = 0 ∧ (c.router.id : ℤ) = intm
  (if first = 0 ∧ ¬reached then intm.toNat else c.flit.dest,
    if reached then 2 * g.gN else c.inChannel)

/-- The first dimension in which the packet has not arrived. -/
def valiantDim (g : Globals) (ni : Bool) (c : Call) : ℕ :=
  (skipAgreeing g.gK g.gN 0 c.router.id (valiantQuery g ni c).1).1

/-- The packet goes on in the ring in which it came. -/
def GoesStraight (g : Globals) (ni : Bool) (c : Call) : Prop :=
  valiantDim g ni c < g.gN ∧ (valiantQuery g ni c).2 / 2 = valiantDim g ni c

instance (g : Globals) (ni : Bool) (c : Call) : Decidable (GoesStraight g ni c) :=
  inferInstanceAs (Decidable (_ ∧ _))

def valiantNext (g : Globals) (ni : Bool) (c : Call) : ℕ × Option ℤ :=
  dorNextTorus g c c.router.id (valiantQuery g ni c).1 (valiantQuery g ni c).2 false

/-- What this call has written into the variable `ring_part` when the VC range is chosen, if
anything: otherwise the value read is undefined. -/
def usedPart (g : Globals) (ni : Bool) (c : Call) : Option ℤ := (valiantNext g ni c).2

/-- The partition of the packet in its ring: decided when it comes in, and kept on the way
straight on.  Before the hop it is `part`. -/
def decidedPart (g : Globals) (ni : Bool) (part : Option ℤ) (c : Call) : Option ℤ :=
  if GoesStraight g ni c then part else (valiantNext g ni c).2

/-- At every hop the partition that is used is defined, and the one that was decided. -/
def PartitionKnown (g : Globals) (ni : Bool) : Option ℤ → List Sent → Prop
  | _, [] => True
  | part, a :: hops =>
    (∃ p, usedPart g ni a.call = some p ∧ decidedPart g ni part a.call = some p) ∧
      PartitionKnown g ni (decidedPart g ni part a.call) hops

section Valiant

variable {net : KNCube} {vcs : ClassVCs} {g : Globals} {ni : Bool} {c : Call} {s t : Flight}

theorem valiantNext_cases (g : Globals) (ni : Bool) (c : Call) :
    GoesStraight g ni c ∧ (valiantNext g ni c).2 = none ∨
      ¬ GoesStraight g ni c ∧ (valiantNext g ni c = (2 * g.gN, none) ∨
        ∃ p : ℤ, (valiantNext g ni c).2 = some p) := by
  unfold GoesStraight valiantNext dorNextTorus valiantDim
  generalize skipAgreeing g.gK g.gN 0 c.router.id (valiantQuery g ni c).1 = left
  obtain ⟨dim, cur, dest⟩ := left
  dsimp only
  by_cases hdim : dim < g.gN
  · grind
  · exact .inr ⟨fun h => hdim h.1, .inl (if_neg hdim)⟩

theorem valiantStep_eq (ni : Bool) (r : VCRange) : ∃ (phase : ℤ) (f : Flit), valiantStep g c ni r =
      if c.router.id ≠ c.flit.dest then
        (r.ringPhase ((usedPart g ni c).getD c.uninit) phase).map fun r =>
          ⟨single (valiantNext g ni c).1 r, f⟩
      else some ⟨single (valiantNext g ni c).1 r, f⟩ :=
  ⟨_, _, rfl⟩

theorem valiantStep_eq_some {r : VCRange} {res : Routed} (h : valiantStep g c ni r = some res) :
    ∃ r', res.outputs = single (valiantNext g ni c).1 r' := by
  obtain ⟨phase, f, hstep⟩ := @valiantStep_eq g c ni r
  rw [hstep] at h
  split at h
  · obtain ⟨r', -, rfl⟩ := Option.map_eq_some_iff.mp h
    exact ⟨r', rfl⟩
  · cases h
    exact ⟨r, rfl⟩

theorem valiantStep_of_some {res : Routed} (hinject : c.inject = false)
    (h : gRoutingFunctionMap (valiantFunction ni) g c = some res) :
    ∃ r, valiantStep g c ni r = some res := by
  cases ni with
  | false =>
    obtain ⟨r, -, h⟩ := Option.bind_eq_some_iff.mp h
    exact ⟨r, by simpa [hinject] using h⟩
  | true =>
    obtain ⟨r, -, h⟩ := Option.bind_eq_some_iff.mp h
    obtain ⟨r', -, h⟩ := Option.bind_eq_some_iff.mp h
    exact ⟨r', by simpa [hinject] using h⟩

theorem valiantNext_of_hop {a : Sent}
    (h : (net.flights vcs (valiantFunction ni)).outcome s (.hop a t)) :
    valiantNext (net.globals vcs) ni a.call ≠ (2 * net.n, none) := by
  have hrouter := (linked_neighbour (linked_of_hop h)).1
  obtain ⟨c, hc, hdecided⟩ := h
  generalize hx : gRoutingFunctionMap (valiantFunction ni) (net.globals vcs) c = x at hdecided
  generalize ho : Outcome.hop a t = o at hdecided
  cases hdecided with
  | failed | empty => cases ho
  | @granted res e v he hv =>
    obtain ⟨r, hstep⟩ := valiantStep_of_some hc.inject hx
    obtain ⟨r', houtputs⟩ := valiantStep_eq_some hstep
    obtain ⟨rfl, -, -, -⟩ := of_sentTo_hop ho.symm
    intro heject
    rw [houtputs] at he
    obtain rfl := mem_getSet_single.mp he
    rw [heject, sentTo_eject (channelAt_eject (hc.router ▸ hrouter))] at ho
    cases ho

/-- **The ring partition of the valiant functions.**  On a route it is at every hop defined, and
the one decided when the packet came into the ring, if and only if no hop goes straight on. -/
theorem valiant_partitionKnown_iff (net : KNCube) (vcs : ClassVCs) (ni : Bool) {s t : Flight}
    {hops : List Sent} (hroute : (net.flights vcs (valiantFunction ni)).Route s hops t)
    (part : Option ℤ) :
    PartitionKnown (net.globals vcs) ni part hops ↔
      ∀ a ∈ hops, ¬ GoesStraight (net.globals vcs) ni a.call := by
  induction hroute generalizing part with
  | nil => exact iff_of_true trivial (by simp)
  | @cons s u t a hops ha _ ih =>
    rw [List.forall_mem_cons, PartitionKnown, ih]
    refine and_congr_left fun _ => ?_
    rcases valiantNext_cases (net.globals vcs) ni a.call with
      ⟨hstraight, hkeep⟩ | ⟨hturn, heject | ⟨p, hp⟩⟩
    · -- nothing was written
      refine iff_of_false ?_ (not_not.mpr hstraight)
      rintro ⟨p, hused, -⟩
      rw [usedPart, hkeep] at hused
      cases hused
    · exact absurd heject (valiantNext_of_hop ha)
    · exact iff_of_true ⟨p, hp, by rw [decidedPart, if_neg hturn, hp]⟩ hturn

end Valiant

/-- A ring of five routers. -/
def ring5 : KNCube := ⟨5, 1, by decide⟩

/-- A packet from node 0 to node 3 by way of node 2. -/
def detour (ph vc : ℤ) : Flit :=
  { id := 0, pid := 0, cl := 0, src := 0, dest := 3, vc := vc, intm := 2, ph := ph }

/-- … at the router of node 0 or 1, where it came in by that port. -/
def detourCall (router inChannel : ℕ) (ph vc uninit : ℤ) : Call where
  router := ⟨router, fun _ => 0, fun _ => false⟩
  flit := detour ph vc
  inChannel := inChannel
  inject := false
  rnd := fun _ => 2
  uninit := uninit

/-- Its first two hops, with that value in the variable at the second. -/
def detourHops (uninit : ℤ) : List Sent :=
  [⟨detourCall 0 2 (-1) 0 0, 0, 0, detour 0 0⟩,
    ⟨detourCall 1 1 0 0 uninit, 0, 2, detour uninit (2 * uninit)⟩]

theorem detour_start : (ring5.flights CKNCube.fourVCs .valiant_torus).start ⟨0, 2, detour (-1) 0⟩ :=
  ⟨⟨{ detourCall 0 2 (-1) (-1) 0 with inject := true }, _, rfl, by decide, rfl, ⟨0, 3, 0, -1⟩,
    List.mem_cons_self, 0, by decide, rfl⟩, by decide, sink_inject (by decide)⟩

theorem detour_route : (ring5.flights CKNCube.fourVCs .valiant_torus).Route
    ⟨0, 2, detour (-1) 0⟩ (detourHops 1) ⟨2, 1, detour 1 2⟩ := by
  have hfirst := @hop_of_single ring5 CKNCube.fourVCs .valiant_torus ⟨0, 2, detour (-1) 0⟩
    (detourCall 0 2 (-1) 0 0) 0 ⟨0, 0⟩ (detour 0 0) 0 ⟨rfl, rfl, rfl, rfl⟩ rfl (by decide)
    (by decide) (by decide)
  have hsecond := @hop_of_single ring5 CKNCube.fourVCs .valiant_torus ⟨1, 1, detour 0 0⟩
    (detourCall 1 1 0 0 1) 0 ⟨2, 2⟩ (detour 1 0) 2 ⟨rfl, rfl, rfl, rfl⟩ rfl (by decide)
    (by decide) (by decide)
  exact .cons hfirst (.cons hsecond .nil)

/-- It goes straight on at the router of node 1.  With 1 in the variable, that is in the VCs of
the other partition, though it has not come to the dateline. -/
theorem partition_unknown :
    (ring5.flights CKNCube.fourVCs .valiant_torus).start ⟨0, 2, detour (-1) 0⟩ ∧
    (ring5.flights CKNCube.fourVCs .valiant_torus).Route ⟨0, 2, detour (-1) 0⟩ (detourHops 1)
      ⟨2, 1, detour 1 2⟩ ∧
    ¬ PartitionKnown (ring5.globals CKNCube.fourVCs) false none (detourHops 1) := by
  refine ⟨detour_start, detour_route, fun h => ?_⟩
  obtain ⟨p, hused, -⟩ := h.2.1
  rw [show usedPart (ring5.globals CKNCube.fourVCs) false (detourCall 1 1 0 0 1) = none from rfl]
    at hused
  cases hused

/-- A torus of three by three routers. -/
def torus9 : KNCube := ⟨3, 2, Nat.succ_pos 2⟩

/-- A packet from node 0 to node 8 by way of node 4. -/
def corner (ph vc : ℤ) : Flit :=
  { id := 0, pid := 0, cl := 0, src := 0, dest := 8, vc := vc, intm := 4, ph := ph }

def cornerCall (router inChannel : ℕ) (ph vc : ℤ) : Call where
  router := ⟨router, fun _ => 0, fun _ => false⟩
  flit := corner ph vc
  inChannel := inChannel
  inject := false
  rnd := fun _ => 4
  uninit := 1

/-- It turns at every router, and changes its phase at that of node 4. -/
def cornerHops : List Sent :=
  [⟨cornerCall 0 4 (-1) 0, 0, 0, corner 0 0⟩, ⟨cornerCall 1 1 0 0, 2, 6, corner 0 0⟩,
    ⟨cornerCall 4 3 0 0, 0, 16, corner 2 1⟩, ⟨cornerCall 5 1 2 1, 2, 22, corner 2 1⟩]

theorem corner_hop {router inPort port : ℕ} {ph ph' vc vc' : ℤ} (hrouter : router < 9)
    (hport : port < 4)
    (hroute : gRoutingFunctionMap .valiant_torus (torus9.globals CKNCube.fourVCs)
      (cornerCall router inPort ph vc) = some ⟨single port ⟨vc', vc'⟩, corner ph' vc⟩) :
    (torus9.flights CKNCube.fourVCs .valiant_torus).outcome ⟨router, inPort, corner ph vc⟩
      (.hop ⟨cornerCall router inPort ph vc, port, 4 * router + port, corner ph' vc'⟩
        ⟨torus9.neighbour router port, port ^^^ 1, corner ph' vc'⟩) :=
  hop_of_single ⟨rfl, rfl, rfl, rfl⟩ hroute ⟨le_rfl, le_rfl⟩ hrouter hport

theorem corner_route : (torus9.flights CKNCube.fourVCs .valiant_torus).Route
    ⟨0, 4, corner (-1) 0⟩ cornerHops ⟨8, 3, corner 2 1⟩ :=
  .cons (corner_hop (by decide) (by decide) rfl) <| .cons
    (corner_hop (by decide) (by decide) rfl) <| .cons (corner_hop (by decide) (by decide) rfl) <|
    .cons (corner_hop (by decide) (by decide) rfl) .nil

theorem partitionKnown_corner :
    PartitionKnown (torus9.globals CKNCube.fourVCs) false none cornerHops :=
  (valiant_partitionKnown_iff torus9 CKNCube.fourVCs false corner_route none).mpr (by decide)

end BookSim.KNCube
