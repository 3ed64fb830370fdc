/-
# Routes on the dragonfly

`dragonfly_port` sends a packet for node `d` from router `r`

    to the node              d is a node of r
    to d's router            d is in r's group
    over the optical link    r has the link to d's group
    to the router with it    otherwise

and `landing` is the router it gets to.  The output ports are computed from the numbers of
routers and groups, without a look at the wires; `exists_channel` shows that the channel
at the port goes where it is meant to.

`min_dragonflynew` follows these hops on VC 0 up to the optical link and on VC 1 from there
on.  Local channels on VC 0, optical channels, local channels on VC 1: that order is all
the deadlock argument needs.
-/
import BookSim.Networks.DragonFlyNew

namespace BookSim.Routing

/-- `dragonflynew_hopcnt`. -/
def dragonflynewHopcnt (g : Globals) (src dest : ℕ) : ℕ :=
  let grpNumNodes := g.gA * g.gP
  let destGrpID := dest / grpNumNodes
  let srcGrpID := src / grpNumNodes
  if destGrpID = srcGrpID then
    if dest / g.gP = src / g.gP then 0 else 1
  else
    let grpOutput := if srcGrpID > destGrpID then destGrpID else destGrpID - 1
    let destGrpOutput := if srcGrpID > destGrpID then srcGrpID - 1 else srcGrpID
    let srcIntm := (grpOutput / g.gP + srcGrpID * g.gA) * g.gP
    let destIntm := (destGrpOutput / g.gP + destGrpID * g.gA) * g.gP
    let srcHopcnt := if srcIntm / g.gP = src / g.gP then 0 else 1
    let destHopcnt := if destIntm / g.gP = dest / g.gP then 0 else 1
    srcHopcnt + 1 + destHopcnt

end BookSim.Routing

namespace BookSim.DragonFlyNew

open Routing

variable (net : DragonFlyNew)

/-! ## Where a packet goes next -/

/-- The router of a node, and its group. -/
def routerOf (d : ℕ) : ℕ := d / net.p

def groupOf (d : ℕ) : ℕ := net.routerOf d / net.a

/-- The router of a group with the optical link to another group. -/
def gate (group other : ℕ) : ℕ := net.router group (net.exit group other)

/-- The packet is where the optical link to the group of its destination starts. -/
def Optical (r d : ℕ) : Prop := r / net.a ≠ net.groupOf d ∧ r = net.gate (r / net.a) (net.groupOf d)

instance (r d : ℕ) : Decidable (net.Optical r d) := inferInstanceAs (Decidable (_ ∧ _))

/-- The router of its own group that a packet at `r` has to get to. -/
def ahead (r d : ℕ) : ℕ :=
  if r / net.a = net.groupOf d then net.routerOf d else net.gate (r / net.a) (net.groupOf d)

/-- The router after `r` on the way to `d`. -/
def landing (r d : ℕ) : ℕ :=
  if net.Optical r d then net.gate (net.groupOf d) (r / net.a) else net.ahead r d

/-- How many channels there are on the way to `d`. -/
def hopsTo (r d : ℕ) : ℕ :=
  if r = net.routerOf d then 0
  else if r / net.a = net.groupOf d then 1
  else (if r = net.gate (r / net.a) (net.groupOf d) then 0 else 1) + 1 +
    if net.gate (net.groupOf d) (r / net.a) = net.routerOf d then 0 else 1

/-- The place of the next channel among those of the router. -/
def place (r d : ℕ) : ℕ :=
  if net.Optical r d then 2 * net.p - 1 + grpOutput (r / net.a) (net.groupOf d) % net.p
  else if r < net.ahead r d then net.ahead r d % net.a - 1 else net.ahead r d % net.a

/-- The next channel. -/
def channelTo (r d : ℕ) : ℕ := net.numPortsPerSwitch * r + net.place r d

variable {net}

section Node

variable {d : ℕ} (hd : d < net.nodes)

include hd

theorem routerOf_lt : net.routerOf d < net.size := by
  refine Nat.div_lt_of_lt_mul (hd.trans_eq ?_)
  unfold nodes size
  ring

theorem groupOf_lt : net.groupOf d < net.g := group_lt (routerOf_lt hd)

end Node

theorem gate_div {group other : ℕ} (hgroup : group < net.g) (hother : other < net.g)
    (hne : group ≠ other) : net.gate group other / net.a = group :=
  router_div (exit_lt hgroup hother hne)

theorem gate_lt {group other : ℕ} (hgroup : group < net.g) (hother : other < net.g)
    (hne : group ≠ other) : net.gate group other < net.size :=
  router_lt hgroup (exit_lt hgroup hother hne)

variable {r d : ℕ} {vcs : ClassVCs} {dest : ℕ}

/-- The router ahead is in the same group, and it is another one until the packet gets to the
optical link or to its destination. -/
theorem ahead_div (hr : r < net.size) (hd : d < net.nodes) : net.ahead r d / net.a = r / net.a := by
  unfold ahead
  split
  next h => exact h.symm
  next h => exact gate_div (group_lt hr) (groupOf_lt hd) h

theorem ahead_ne (hne : r ≠ net.routerOf d) (hlocal : ¬ net.Optical r d) : net.ahead r d ≠ r := by
  unfold ahead
  split
  next => exact hne.symm
  next h => exact fun heq => hlocal ⟨h, heq.symm⟩

theorem ne_routerOf_of_optical (h : net.Optical r d) : r ≠ net.routerOf d :=
  fun heq => h.1 (heq ▸ rfl)

/-! ## The ports -/

theorem div_nodes_eq (d : ℕ) : d / (net.a * net.p) = net.groupOf d := by
  rw [groupOf, routerOf, Nat.div_div_eq_div_mul, Nat.mul_comm]

theorem mem_nodes_iff : r * net.p ≤ d ∧ d < (r + 1) * net.p ↔ r = net.routerOf d := by
  rw [routerOf, ← Nat.le_div_iff_mul_le net.p_pos, ← Nat.div_lt_iff_lt_mul net.p_pos]
  omega

theorem ahead_eq (r d : ℕ) : net.ahead r d = if net.groupOf d = r / net.a then d / net.p
      else grpOutput (r / net.a) (net.groupOf d) / net.p + r / net.a * net.a := by
  unfold ahead
  by_cases h : r / net.a = net.groupOf d
  · rw [if_pos h, if_pos h.symm, routerOf]
  · rw [if_neg h, if_neg (Ne.symm h), gate, router, exit, Nat.mul_comm, Nat.add_comm]

theorem dragonflyPort_of_eq (h : r = net.routerOf d) :
    dragonflyPort (net.globals vcs) r d = d % net.p := by
  simp only [dragonflyPort, globals, mem_nodes_iff, if_pos h]

theorem mod_lt_mod_iff {x y : ℕ} (h : x / net.a = y / net.a) : x % net.a < y % net.a ↔ x < y := by
  have hx := Nat.div_add_mod x net.a
  have hy := Nat.div_add_mod y net.a
  rw [h] at hx
  omega

section Next

variable {vcs : ClassVCs} {r d : ℕ} (hr : r < net.size) (hd : d < net.nodes)
  (hne : r ≠ net.routerOf d)

include hr hd hne

theorem dragonflyPort_of_ne : dragonflyPort (net.globals vcs) r d = net.p + net.place r d := by
  have hp := net.p_pos
  have ha : net.a = 2 * net.p := rfl
  have hport : dragonflyPort (net.globals vcs) r d = if net.ahead r d = r then
      net.p + (net.a - 1) + grpOutput (r / net.a) (net.groupOf d) % net.p
      else if r < net.ahead r d then net.ahead r d % net.a + net.p - 1
      else net.ahead r d % net.a + net.p := by
    simp only [dragonflyPort, globals, mem_nodes_iff, if_neg hne, div_nodes_eq, ahead_eq, grpOutput]
  rw [hport, place]
  by_cases hopt : net.Optical r d
  · rw [if_pos hopt, if_pos (by rw [ahead, if_neg hopt.1]; exact hopt.2.symm)]
    omega
  · rw [if_neg hopt, if_neg (ahead_ne hne hopt)]
    have hiff := mod_lt_mod_iff (ahead_div hr hd).symm
    split <;> omega

theorem place_of_local (hlocal : ¬ net.Optical r d) : net.place r d < 2 * net.p - 1 := by
  have ha : net.a = 2 * net.p := rfl
  have hmod : net.ahead r d % net.a < net.a := Nat.mod_lt _ a_pos
  have hrmod : r % net.a < net.a := Nat.mod_lt _ a_pos
  have hiff := mod_lt_mod_iff (ahead_div hr hd).symm
  have hiff' := mod_lt_mod_iff (ahead_div hr hd)
  have hahead := ahead_ne hne hlocal
  rw [place, if_neg hlocal]
  split <;> omega

theorem place_lt : net.place r d < net.numPortsPerSwitch := by
  rw [numPortsPerSwitch_eq]
  by_cases hopt : net.Optical r d
  · have hmod : grpOutput (r / net.a) (net.groupOf d) % net.p < net.p := Nat.mod_lt _ net.p_pos
    rw [place, if_pos hopt]
    omega
  · have := place_of_local hr hd hne hopt
    omega

theorem target_place : net.target r (net.place r d) = net.landing r d := by
  by_cases hopt : net.Optical r d
  · rw [place, landing, if_pos hopt, if_pos hopt]
    have htarget := target_exit (group_lt hr) (groupOf_lt hd) hopt.1
    change net.target (net.gate _ _) _ = net.gate _ _ at htarget
    rwa [← hopt.2] at htarget
  · have hi := place_of_local hr hd hne hopt
    have hj : r % net.a < net.a := Nat.mod_lt _ a_pos
    have hiff := mod_lt_mod_iff (ahead_div hr hd).symm
    have hiff' := mod_lt_mod_iff (ahead_div hr hd)
    have hahead := ahead_ne hne hopt
    rw [landing, if_neg hopt]
    conv_lhs => rw [← net.router_eta r, target_router_of_lt hj (by rwa [router_eta]), router_eta]
    conv_rhs => rw [← net.router_eta (net.ahead r d), ahead_div hr hd]
    rw [place, if_neg hopt]
    congr 1
    split_ifs <;> omega

omit hne in

theorem landing_lt : net.landing r d < net.size := by
  unfold landing
  split
  next hopt => exact gate_lt (groupOf_lt hd) (group_lt hr) hopt.1.symm
  next =>
    unfold ahead
    split
    next => exact routerOf_lt hd
    next hgroup => exact gate_lt (group_lt hr) (groupOf_lt hd) hgroup

theorem hopsTo_landing : net.hopsTo r d = net.hopsTo (net.landing r d) d + 1 := by
  have hG := group_lt hr
  have hD := groupOf_lt hd
  by_cases hgroup : r / net.a = net.groupOf d
  · rw [landing, if_neg (fun hopt => hopt.1 hgroup), ahead, if_pos hgroup, hopsTo, if_neg hne,
      if_pos hgroup, hopsTo, if_pos rfl]
  · by_cases hgate : r = net.gate (r / net.a) (net.groupOf d)
    · have hdiv := gate_div hD hG (Ne.symm hgroup)
      rw [landing, if_pos ⟨hgroup, hgate⟩, hopsTo, if_neg hne, if_neg hgroup, if_pos hgate, hopsTo,
        if_pos hdiv]
      omega
    · have hdiv := gate_div hG hD hgroup
      have hne' : net.gate (r / net.a) (net.groupOf d) ≠ net.routerOf d :=
        fun heq => hgroup (hdiv.symm.trans (heq ▸ rfl))
      rw [landing, if_neg (fun hopt => hgate hopt.2), ahead, if_neg hgroup, hopsTo, if_neg hne,
        if_neg hgroup, if_neg hgate, hopsTo, if_neg hne', hdiv, if_neg hgroup, if_pos rfl]
      omega

end Next

theorem hopsTo_le (r d : ℕ) : net.hopsTo r d ≤ 3 := by
  unfold hopsTo
  split_ifs <;> omega

theorem dragonflynewHopcnt_eq (vcs : ClassVCs) (src dest : ℕ) :
    dragonflynewHopcnt (net.globals vcs) src dest = net.hopsTo (net.routerOf src) dest := by
  have hgate : ∀ group other,
      (grpOutput group other / net.p + group * net.a) * net.p / net.p = net.gate group other := by
    intro group other
    rw [Nat.mul_div_cancel _ net.p_pos, gate, router, exit, Nat.mul_comm, Nat.add_comm]
  simp only [dragonflynewHopcnt, globals, div_nodes_eq, hopsTo]
  change (if net.groupOf dest = net.groupOf src then
    if net.routerOf dest = net.routerOf src then 0 else 1 else _) = _
  rw [← groupOf]
  by_cases hgroup : net.groupOf dest = net.groupOf src
  · rw [if_pos hgroup, if_pos hgroup.symm]
    simp only [eq_comm]
  · have hne : net.routerOf src ≠ net.routerOf dest := fun heq =>
      hgroup (by rw [groupOf, ← heq]; rfl)
    have hback : (if net.groupOf src > net.groupOf dest then net.groupOf src - 1
        else net.groupOf src) = grpOutput (net.groupOf dest) (net.groupOf src) := by
      unfold grpOutput
      split_ifs <;> omega
    rw [if_neg hgroup, if_neg hne, if_neg (Ne.symm hgroup), hback, ← grpOutput, hgate, hgate]
    simp only [eq_comm, routerOf]
    rfl

/-! ## Sending on -/

section Sending

variable {vcs : ClassVCs} {c : Call} {d : ℕ} (f : Flit) (hr : c.router.id < net.size)

include hr

theorem sentTo_node (h : c.router.id = net.routerOf d) :
    sentTo net.wiring c (dragonflyPort (net.globals vcs) c.router.id d : ℕ) f = .leave d := by
  refine sentTo_eject ?_
  rw [dragonflyPort_of_eq h, channelAt_eject hr (Nat.mod_lt _ net.p_pos), h, routerOf,
    Nat.div_add_mod]

theorem sentTo_landing (hd : d < net.nodes) (hne : c.router.id ≠ net.routerOf d) :
    ∃ inPort port, net.p ≤ inPort ∧
      sentTo net.wiring c (dragonflyPort (net.globals vcs) c.router.id d : ℕ) f =
        .hop ⟨c, port, net.channelTo c.router.id d, f⟩ ⟨net.landing c.router.id d, inPort, f⟩ := by
  have hplace := place_lt hr hd hne
  obtain ⟨inPort, hle, hsink⟩ := sink_chan hr hplace
  rw [target_place hr hd hne] at hsink
  refine ⟨inPort, _, hle, sentTo_chan ?_ hsink⟩
  rw [dragonflyPort_of_ne hr hd hne, channelAt_chan hr hplace, channelTo]

end Sending

/-! ## New packets -/

/-- A packet that was injected on VC 0. -/
def packet (src dest : ℕ) : Flit :=
    { id := 0, pid := 0, cl := 0, src := src, dest := dest, vc := 0 }

/-- At injection the function offers a VC of its choice. -/
def OffersAny (g : Globals) (fn : RoutingFunction) : Prop :=
  ∀ c, c.inject = true → gRoutingFunctionMap fn g c =
    some ⟨single (-1) ⟨injectVC g c, injectVC g c⟩, c.flit⟩

theorem start_packet {fn : RoutingFunction} (hfn : OffersAny (net.globals vcs) fn)
    {r q dest : ℕ} (hr : r < net.size) (hq : q < net.p) (hdest : dest < net.nodes) :
    (net.flights vcs fn).start ⟨r, q, packet (net.p * r + q) dest⟩ := by
  refine ⟨⟨⟨⟨r, fun _ => 0, fun _ => false⟩, { packet (net.p * r + q) dest with vc := -1 }, q, true,
    fun _ => 0, 0⟩, _, rfl, show (-1 : ℤ) < 0 by decide, hfn _ rfl, _, mem_getSet_single.mpr rfl, 0,
    OutputSet.mem_vcs.mpr ?_, rfl⟩, hdest, sink_inject hr hq⟩
  simp [injectVC, Call.randomInt]

/-! ## The minimal routes -/

/-- The packet has been routed by `min_dragonflynew` so far: what it may still have ahead of it,
and in which phase. -/
structure OnMin (net : DragonFlyNew) (dest : ℕ) (s : Flight) : Prop where
  router_lt : s.router < net.size
  dest_lt : dest < net.nodes
  dest_eq : s.flit.dest = dest
  phase : s.inPort < net.p ∨ s.router = net.routerOf dest ∨ net.Optical s.router dest ∨
    s.router / net.a = net.groupOf dest ∧ s.flit.ph = 1

/-- The phase in which the packet leaves the router. -/
def minPhase (net : DragonFlyNew) (dest : ℕ) (s : Flight) : ℤ :=
  if net.Optical s.router dest then 1 else if s.inPort < net.p then 0 else s.flit.ph

/-- A hop of a minimal route. -/
structure MinHop (net : DragonFlyNew) (dest : ℕ) (s : Flight) (a : Sent) (t : Flight) : Prop where
  away : s.router ≠ net.routerOf dest
  channel : a.channel = net.channelTo s.router dest
  vc : a.flit.vc = net.minPhase dest s
  next : t.router = net.landing s.router dest
  inPort : net.p ≤ t.inPort
  flit : t.flit.ph = net.minPhase dest s

theorem dateline_iff (hr : r < net.size) (hd : d < net.nodes) :
    dragonflyPort (net.globals vcs) r d ≥ (net.globals vcs).gP + ((net.globals vcs).gA - 1) ↔
      net.Optical r d := by
  change _ ≥ net.p + (net.a - 1) ↔ _
  have ha : net.a = 2 * net.p := rfl
  have hp := net.p_pos
  by_cases heq : r = net.routerOf d
  · have hmod : d % net.p < net.p := Nat.mod_lt _ hp
    rw [dragonflyPort_of_eq heq]
    exact iff_of_false (by omega) fun hopt => ne_routerOf_of_optical hopt heq
  · rw [dragonflyPort_of_ne hr hd heq]
    by_cases hopt : net.Optical r d
    · refine iff_of_true ?_ hopt
      rw [place, if_pos hopt]
      omega
    · have := place_of_local hr hd heq hopt
      exact iff_of_false (by omega) hopt

theorem minDragonflyFlit_eq {s : Flight} {c : Call} (hs : net.OnMin dest s) (hc : s.Calls c) :
    minDragonflyFlit (net.globals vcs) c = { c.flit with ph := net.minPhase dest s } := by
  have hline := @dateline_iff net _ _ vcs hs.router_lt hs.dest_lt
  rw [← hs.dest_eq, ← hc.router, ← hc.flit] at hline
  rw [minPhase, ← hs.dest_eq, ← hc.router, ← hc.flit, ← hc.inChannel]
  simp only [minDragonflyFlit]
  by_cases hopt : net.Optical c.router.id c.flit.dest
  · rw [if_pos (hline.mpr hopt), if_pos hopt]
    split <;> rfl
  · rw [if_neg (mt hline.mp hopt), if_neg hopt]
    by_cases hin : c.inChannel < net.p
    · rw [if_pos hin]
      exact if_pos hin
    · rw [if_neg hin]
      exact if_neg hin

theorem MinHop.onMin {s t : Flight} {a : Sent} (h : net.MinHop dest s a t)
    (hs : net.OnMin dest s) (hdest : t.flit.dest = dest) : net.OnMin dest t where
  router_lt := h.next ▸ landing_lt hs.router_lt hs.dest_lt
  dest_lt := hs.dest_lt
  dest_eq := hdest
  phase := by
    have hG := group_lt hs.router_lt
    have hD := groupOf_lt hs.dest_lt
    rw [h.next, h.flit, minPhase]
    unfold landing ahead
    by_cases hopt : net.Optical s.router dest
    · rw [if_pos hopt, if_pos hopt]
      exact .inr (.inr (.inr ⟨gate_div hD hG hopt.1.symm, rfl⟩))
    · rw [if_neg hopt]
      by_cases hgroup : s.router / net.a = net.groupOf dest
      · rw [if_pos hgroup]
        exact .inr (.inl rfl)
      · have hdiv := gate_div hG hD hgroup
        rw [if_neg hgroup]
        refine .inr (.inr (.inl ⟨?_, ?_⟩))
        · rwa [hdiv]
        · rw [hdiv]

/-- **Each step of a minimal route.**  At the router of its destination the packet leaves
there; anywhere else it goes on to the next router. -/
theorem min_outcome {s : Flight} {o : Outcome Flight Sent ℕ}
    (hs : net.OnMin dest s) (ho : (net.flights vcs .min_dragonflynew).outcome s o) :
    s.router = net.routerOf dest ∧ o = .leave dest ∨
      ∃ a t, o = .hop a t ∧ net.MinHop dest s a t ∧ net.OnMin dest t := by
  obtain ⟨c, hc, hdecided⟩ := ho
  have hroute : gRoutingFunctionMap .min_dragonflynew (net.globals vcs) c =
      some ⟨single (dragonflyPort (net.globals vcs) c.router.id dest)
        ⟨net.minPhase dest s, net.minPhase dest s⟩, { c.flit with ph := net.minPhase dest s }⟩ := by
    simp [gRoutingFunctionMap, minDragonflynew, hc.inject, minDragonflyFlit_eq hs hc, hc.flit,
      hs.dest_eq]
  rw [hroute, decided_single le_rfl] at hdecided
  obtain ⟨v, hlo, hhi, rfl⟩ := hdecided
  obtain rfl := le_antisymm hhi hlo
  have hr : c.router.id < net.size := hc.router ▸ hs.router_lt
  by_cases heq : s.router = net.routerOf dest
  · exact .inl ⟨heq, sentTo_node _ hr (hc.router.trans heq)⟩
  · obtain ⟨inPort, port, hle, hsent⟩ := @sentTo_landing net vcs c dest
      { c.flit with vc := net.minPhase dest s, ph := net.minPhase dest s } hr hs.dest_lt
      (by rwa [hc.router])
    have hhop : ∀ f : Flit, f.vc = net.minPhase dest s → f.ph = net.minPhase dest s →
        net.MinHop dest s ⟨c, port, net.channelTo c.router.id dest, f⟩
          ⟨net.landing c.router.id dest, inPort, f⟩ :=
      fun f hvc hph => ⟨heq, by rw [hc.router], hvc, by rw [hc.router], hle, hph⟩
    have hdest : c.flit.dest = dest := hc.flit ▸ hs.dest_eq
    exact .inr ⟨_, _, hsent, hhop _ rfl rfl, (hhop _ rfl rfl).onMin hs hdest⟩

theorem offersAny_min (vcs : ClassVCs) : OffersAny (net.globals vcs) .min_dragonflynew :=
  fun _ hinject => if_pos hinject

theorem onMin_of_start {s : Flight} (h : (net.flights vcs .min_dragonflynew).start s) :
    net.OnMin s.flit.dest s ∧ s.router = net.routerOf s.flit.src := by
  obtain ⟨-, hdest, hsink⟩ := h
  obtain ⟨hr, hport, hsrc⟩ := of_sink_inject hsink
  refine ⟨⟨hr, hdest, rfl, .inl hport⟩, ?_⟩
  rw [hsrc, routerOf, Nat.mul_add_div net.p_pos, Nat.div_eq_of_lt hport, Nat.add_zero]

theorem onMin_of_hop {s t : Flight} {a : Sent}
    (hs : net.OnMin dest s) (h : (net.flights vcs .min_dragonflynew).outcome s (.hop a t)) :
    net.MinHop dest s a t ∧ net.OnMin dest t := by
  rcases min_outcome hs h with ⟨-, hleave⟩ | ⟨a', t', heq, hhop⟩
  · cases hleave
  · cases heq
    exact hhop

theorem min_deliversIn {s : Flight} (hs : net.OnMin dest s) :
    (net.flights vcs .min_dragonflynew).DeliversIn dest (net.hopsTo s.router dest) s := by
  refine RouteSystem.deliversIn_of_distance (net.OnMin dest) (fun s => net.hopsTo s.router dest)
    (fun s _ => flights_moves _ _ _ s) (fun s o hs ho => ?_) hs rfl
  rcases min_outcome hs ho with ⟨heq, rfl⟩ | ⟨a, t, rfl, hhop, ht⟩
  · exact .inl ⟨if_pos heq, rfl⟩
  · refine .inr ⟨a, t, rfl, ht, ?_⟩
    rw [hhop.next]
    exact hopsTo_landing hs.router_lt hs.dest_lt hhop.away

/-! ## No deadlock -/

/-- The rank of a channel and a VC on it: local before the optical links, then the optical
links, then local after them. -/
def minRank (net : DragonFlyNew) (held : ℕ × ℤ) : ℕ :=
  if 2 * net.p - 1 ≤ held.1 % net.numPortsPerSwitch then 1 else if held.2 = 0 then 0 else 2

theorem minRank_channelTo (hr : r < net.size) (hd : d < net.nodes)
    (hne : r ≠ net.routerOf d) (vc : ℤ) : net.minRank (net.channelTo r d, vc) =
      if net.Optical r d then 1 else if vc = 0 then 0 else 2 := by
  rw [minRank, channelTo, Nat.mul_add_mod, Nat.mod_eq_of_lt (place_lt hr hd hne)]
  by_cases hopt : net.Optical r d
  · rw [if_pos hopt, place, if_pos hopt, if_pos (by omega)]
  · have := place_of_local hr hd hne hopt
    rw [if_neg hopt, if_neg (by omega)]

theorem minRank_lt_of_hops {s t u : Flight} {x y : Sent}
    (hs : net.OnMin dest s) (hx : (net.flights vcs .min_dragonflynew).outcome s (.hop x t))
    (hy : (net.flights vcs .min_dragonflynew).outcome t (.hop y u)) :
    net.minRank x.vcHeld < net.minRank y.vcHeld := by
  obtain ⟨hhop, ht⟩ := onMin_of_hop hs hx
  obtain ⟨hhop', -⟩ := onMin_of_hop ht hy
  have hG := group_lt hs.router_lt
  have hD := groupOf_lt hs.dest_lt
  rw [Sent.vcHeld, Sent.vcHeld, hhop.channel, hhop'.channel,
    minRank_channelTo hs.router_lt hs.dest_lt hhop.away,
    minRank_channelTo ht.router_lt hs.dest_lt hhop'.away, hhop.vc, hhop'.vc]
  by_cases hopt : net.Optical s.router dest
  · -- After the optical link the packet is in the group of its destination, in phase 1.
    have hdiv : t.router / net.a = net.groupOf dest := by
      rw [hhop.next, landing, if_pos hopt, gate_div hD hG hopt.1.symm]
    have hopt' : ¬ net.Optical t.router dest := fun h => h.1 hdiv
    have hphase : net.minPhase dest t = 1 := by
      rw [minPhase, if_neg hopt', if_neg (Nat.not_lt.mpr hhop.inPort), hhop.flit, minPhase,
        if_pos hopt]
    rw [if_pos hopt, if_neg hopt', hphase]
    decide
  · have hgroup : s.router / net.a ≠ net.groupOf dest := by
      intro hgroup
      refine hhop'.away ?_
      rw [hhop.next, landing, if_neg hopt, ahead, if_pos hgroup]
    have hphase : net.minPhase dest s = 0 := by
      rw [minPhase, if_neg hopt, if_pos]
      rcases hs.phase with hin | heq | h | ⟨h, -⟩
      · exact hin
      · exact absurd heq hhop.away
      · exact absurd h hopt
      · exact absurd h hgroup
    have hopt' : net.Optical t.router dest := by
      have hdiv := gate_div hG hD hgroup
      rw [hhop.next, landing, if_neg hopt, ahead, if_neg hgroup, Optical, hdiv]
      exact ⟨hgroup, rfl⟩
    rw [if_neg hopt, if_pos hopt', hphase]
    decide

theorem MinHop.vc_lt {s t : Flight} {a : Sent} (h : net.MinHop dest s a t)
    (hs : net.OnMin dest s) : 0 ≤ a.flit.vc ∧ a.flit.vc < 2 := by
  rw [h.vc, minPhase]
  split
  · decide
  next hopt =>
    split
    · decide
    next hin =>
      rcases hs.phase with h' | heq | h' | ⟨-, hph⟩
      · exact absurd h' hin
      · exact absurd heq h.away
      · exact absurd h' hopt
      · rw [hph]
        decide

theorem vc_lt_of_route {s t : Flight} {hops : List Sent}
    (hroute : (net.flights vcs .min_dragonflynew).Route s hops t) (hs : net.OnMin dest s) :
    ∀ a ∈ hops, 0 ≤ a.flit.vc ∧ a.flit.vc < 2 := by
  induction hroute with
  | nil => exact fun a ha => absurd ha List.not_mem_nil
  | cons ha _ ih =>
    obtain ⟨hhop, ht⟩ := onMin_of_hop hs ha
    intro b hb
    rcases List.mem_cons.mp hb with rfl | hb
    · exact hhop.vc_lt hs
    · exact ih ht b hb

/-- What minimal routing should do with every packet. -/
structure MinRouting (net : DragonFlyNew) (vcs : ClassVCs) : Prop where
  starts : ∀ src < net.nodes, ∀ dest < net.nodes,
    ∃ s, (net.flights vcs .min_dragonflynew).start s ∧ s.flit.src = src ∧ s.flit.dest = dest
  delivered : ∀ s, (net.flights vcs .min_dragonflynew).start s →
    (net.flights vcs .min_dragonflynew).DeliversIn s.flit.dest
      (dragonflynewHopcnt (net.globals vcs) s.flit.src s.flit.dest) s
  hopcnt_le : ∀ src dest, dragonflynewHopcnt (net.globals vcs) src dest ≤ 3
  vc_lt : ∀ s, (net.flights vcs .min_dragonflynew).start s → ∀ hops t,
    (net.flights vcs .min_dragonflynew).Route s hops t →
    ∀ a ∈ hops, 0 ≤ a.flit.vc ∧ a.flit.vc < vcs.gNumVCs
  acyclic : (net.flights vcs .min_dragonflynew).Acyclic Sent.vcHeld

/-- **Minimal routing on the dragonfly.**  Every packet is delivered after exactly
`dragonflynew_hopcnt` hops, which are at most 3, over VCs that exist, and no channels and VCs
wait for each other in a circle. -/
theorem minRouting (net : DragonFlyNew) (vcs : ClassVCs) (h2 : 2 ≤ vcs.gNumVCs) :
    net.MinRouting vcs where
  starts src hsrc dest hdest := by
    have hstart := start_packet (offersAny_min vcs) (routerOf_lt hsrc) (Nat.mod_lt src net.p_pos)
      hdest
    rw [routerOf, Nat.div_add_mod] at hstart
    exact ⟨_, hstart, rfl, rfl⟩
  delivered s hstart := by
    obtain ⟨hs, hsrc⟩ := onMin_of_start hstart
    rw [dragonflynewHopcnt_eq, ← hsrc]
    exact min_deliversIn hs
  hopcnt_le src dest := by
    rw [dragonflynewHopcnt_eq]
    exact hopsTo_le _ _
  vc_lt s hstart hops t hroute a ha := by
    obtain ⟨hlo, hhi⟩ := vc_lt_of_route hroute (onMin_of_start hstart).1 a ha
    exact ⟨hlo, by omega⟩
  acyclic := by
    refine RouteSystem.acyclic_of_rank net.minRank fun _ _ h => ?_
    obtain ⟨s, t, u, x, y, hroute, hx, hy, rfl, rfl⟩ := h
    obtain ⟨dest, hs⟩ : ∃ dest, net.OnMin dest s := by
      refine hroute.holds (fun s => ∃ dest, net.OnMin dest s)
        (fun s hstart => ⟨_, (onMin_of_start hstart).1⟩) ?_
      rintro s a t ⟨dest, hs⟩ hhop
      exact ⟨dest, (onMin_of_hop hs hhop).2⟩
    exact minRank_lt_of_hops hs hx hy

/-- Two VCs, for one class of packets. -/
def twoVCs : ClassVCs := ⟨fun _ => 0, fun _ => 1, 2, fun _ => by decide⟩

/-- With two nodes at each router. -/
theorem minRouting_two : (⟨2, by decide⟩ : DragonFlyNew).MinRouting twoVCs :=
  minRouting _ twoVCs (by decide)

end BookSim.DragonFlyNew
