/-
# UGAL on the dragonfly — a circle on VC 0

`ugal_dragonflynew` has three VCs, one for each phase, and its comment says that three are
needed for freedom from deadlock.  Phase 0 lasts from the source to the router of the
intermediate node.  That is a local channel, an optical link and another local channel,
all of them on VC 0, so nothing on VC 0 keeps the order that minimal routing has:

    a packet   from the gate of X to Y    through Y         holds the link X → Y,
                                                            asks for a channel within Y
    another    from the gate of Y to X    through Z         holds that channel,
                                                            asks for the link Y → Z

With three groups one comes back to where one started (`ugal_cyclic`), for every `p`.
-/
import BookSim.Networks.DragonFlyRoutes

namespace BookSim.DragonFlyNew

open Routing

variable {net : DragonFlyNew} {vcs : ClassVCs}

/-! ## The decisions in phase 0 -/

/-- The optical link from one group to another. -/
def opticalLink (net : DragonFlyNew) (group other : ℕ) : ℕ :=
  net.numPortsPerSwitch * net.gate group other + (2 * net.p - 1 + grpOutput group other % net.p)

theorem dragonflyPort_ne {r d m : ℕ} (hr : r < net.size) (hd : d < net.nodes) (hm : m < net.nodes)
    (hopt : net.Optical r d) (hne : net.groupOf d ≠ net.groupOf m) :
    dragonflyPort (net.globals vcs) r d ≠ dragonflyPort (net.globals vcs) r m := by
  by_cases hopt' : net.Optical r m
  · intro heq
    rw [dragonflyPort_of_ne hr hd (ne_routerOf_of_optical hopt),
      dragonflyPort_of_ne hr hm (ne_routerOf_of_optical hopt'), place, place, if_pos hopt,
      if_pos hopt'] at heq
    have hmod : grpOutput (r / net.a) (net.groupOf d) % net.p =
        grpOutput (r / net.a) (net.groupOf m) % net.p := by omega
    have hexit : net.exit (r / net.a) (net.groupOf d) = net.exit (r / net.a) (net.groupOf m) :=
      Nat.add_left_cancel (hopt.2.symm.trans hopt'.2)
    have hplace : grpOutput (r / net.a) (net.groupOf d) =
        grpOutput (r / net.a) (net.groupOf m) := by
      rw [← Nat.div_add_mod (grpOutput _ (net.groupOf d)) net.p, hmod, ← exit, hexit, exit,
        Nat.div_add_mod]
    refine hne ?_
    rw [← groupAt_grpOutput hopt.1, hplace, groupAt_grpOutput hopt'.1]
  · intro heq
    have hline := (@dateline_iff net _ _ vcs hr hd).mpr hopt
    rw [heq, dateline_iff hr hm] at hline
    exact hopt' hline

theorem ugal_phaseZero {c : Call} {f : Flit} {m : ℕ} (h3 : vcs.gNumVCs = 3)
    (hinject : c.inject = false)
    (hf : (if c.inChannel < (net.globals vcs).gP then ugalSource (net.globals vcs) c
      else c.flit) = f)
    (hph : f.ph = 0) (hintm : f.intm = m) (hne : c.router.id ≠ net.routerOf m) :
    gRoutingFunctionMap .ugal_dragonflynew (net.globals vcs) c =
      some ⟨single (dragonflyPort (net.globals vcs) c.router.id m) ⟨0, 0⟩, f⟩ := by
  have hne' : c.router.id ≠ f.intm.toNat / (net.globals vcs).gP := by
    rwa [hintm, Int.toNat_natCast]
  have hflit : ugalFlit (net.globals vcs) c =
      some (dragonflyPort (net.globals vcs) c.router.id m, f) := by
    simp only [ugalFlit, hf, hph, hne', and_false, if_false, if_true]
    rw [hintm, Int.toNat_natCast]
  have hvcs : (net.globals vcs).vcs.gNumVCs = 3 := h3
  simp only [gRoutingFunctionMap, ugalDragonflynew, hvcs, hinject, hflit, if_true, Option.map_some,
    hph, Bool.false_eq_true, if_false]

/-- At the source router: with a long queue on the minimal way, and none on the way to a node of
a third group, the packet goes there first. -/
theorem ugalSource_nonminimal {c : Call} {m : ℕ} (hm : m < net.nodes) (hrnd : c.rnd 0 = m)
    (hd : c.router.id / net.a ≠ net.groupOf c.flit.dest)
    (hgroup : c.router.id / net.a ≠ net.groupOf m)
    (hmin : c.router.usedCredit (dragonflyPort (net.globals vcs) c.router.id c.flit.dest) = 31)
    (hnon : c.router.usedCredit (dragonflyPort (net.globals vcs) c.router.id m) = 0) :
    ugalSource (net.globals vcs) c = { c.flit with intm := m, ph := 0 } := by
  have hpos : 0 < net.nodes := Nat.zero_lt_of_lt hm
  have hrandom : c.randomInt 0
      ((net.globals vcs).gA * (net.globals vcs).gP * (net.globals vcs).gG - 1) = m := by
    change c.rnd 0 % (net.nodes - 1 + 1) = m
    rw [hrnd, Nat.sub_add_cancel hpos, Nat.mod_eq_of_lt hm]
  have hd' : ¬ c.flit.dest / ((net.globals vcs).gA * (net.globals vcs).gP) =
      c.router.id / (net.globals vcs).gA := fun h => hd (h.symm.trans (div_nodes_eq _))
  have hm' : ¬ c.router.id / (net.globals vcs).gA =
      m / ((net.globals vcs).gA * (net.globals vcs).gP) :=
    fun h => hgroup (h.trans (div_nodes_eq _))
  simp only [ugalSource, hrandom, if_neg hd', if_neg hm', hmin, hnon]
  rfl

/-! ## What waits for what -/

theorem offersAny_ugal (h3 : vcs.gNumVCs = 3) : OffersAny (net.globals vcs) .ugal_dragonflynew := by
  intro c hinject
  have hvcs : (net.globals vcs).vcs.gNumVCs = 3 := h3
  simp only [gRoutingFunctionMap, ugalDragonflynew, hvcs, hinject, if_true]

/-- A decision for the port towards `m` is a hop to the next router on the way there. -/
theorem exists_hop {fn : RoutingFunction} {s : Flight} {c : Call} {m : ℕ} {vc : ℤ} {f : Flit}
    (hc : s.Calls c) (hr : s.router < net.size) (hm : m < net.nodes)
    (hne : s.router ≠ net.routerOf m)
    (hroute : gRoutingFunctionMap fn (net.globals vcs) c =
      some ⟨single (dragonflyPort (net.globals vcs) c.router.id m) ⟨vc, vc⟩, f⟩) :
    ∃ a inPort, net.p ≤ inPort ∧ a.vcHeld = (net.channelTo s.router m, vc) ∧
      (net.flights vcs fn).outcome s
        (.hop a ⟨net.landing s.router m, inPort, { f with vc := vc }⟩) := by
  rw [← hc.router] at hr hne ⊢
  obtain ⟨inPort, port, hle, hsent⟩ := @sentTo_landing net vcs c m { f with vc := vc } hr hm hne
  refine ⟨⟨c, port, net.channelTo c.router.id m, { f with vc := vc }⟩, inPort, hle, rfl, c, hc, ?_⟩
  rw [hroute, decided_single le_rfl]
  exact ⟨vc, le_rfl, le_rfl, hsent.symm⟩

/-- **Two hops in phase 0.**  A packet that starts at `r` and goes by way of node `m` takes two
channels towards `m` one after the other, both on VC 0. -/
theorem ugal_depends {r d m : ℕ} (h3 : vcs.gNumVCs = 3) (hr : r < net.size) (hd : d < net.nodes)
    (hm : m < net.nodes) (hdgroup : r / net.a ≠ net.groupOf d) (hgroup : r / net.a ≠ net.groupOf m)
    (hport : dragonflyPort (net.globals vcs) r d ≠ dragonflyPort (net.globals vcs) r m)
    (hnext : net.landing r m ≠ net.routerOf m) :
    (net.flights vcs .ugal_dragonflynew).Depends Sent.vcHeld (net.channelTo r m, 0)
      (net.channelTo (net.landing r m) m, 0) := by
  have hstart := start_packet (offersAny_ugal h3) hr net.p_pos hd
  have hne : r ≠ net.routerOf m := fun heq => hgroup (heq ▸ rfl)
  -- The queue at the port to `d` is long, and all others are empty.
  let c : Call := ⟨⟨r, fun q => if q = dragonflyPort (net.globals vcs) r d then 31 else 0,
    fun _ => false⟩, packet (net.p * r + 0) d, 0, false, fun _ => m, 0⟩
  have hsource : (if c.inChannel < (net.globals vcs).gP then ugalSource (net.globals vcs) c
      else c.flit) = { c.flit with intm := m, ph := 0 } :=
    (if_pos net.p_pos).trans
      (ugalSource_nonminimal hm rfl hdgroup hgroup (if_pos rfl) (if_neg hport.symm))
  have hcalls : (⟨r, 0, c.flit⟩ : Flight).Calls c := ⟨rfl, rfl, rfl, rfl⟩
  obtain ⟨a, inPort, hle, hview, hhop⟩ := exists_hop hcalls hr hm hne
    (ugal_phaseZero h3 rfl hsource rfl rfl hne)
  -- At the next router the phase is still 0.
  let c' : Call := ⟨⟨net.landing r m, fun _ => 0, fun _ => false⟩,
    { c.flit with intm := m, ph := 0, vc := 0 }, inPort, false, fun _ => 0, 0⟩
  have hcalls' : (⟨net.landing r m, inPort, c'.flit⟩ : Flight).Calls c' := ⟨rfl, rfl, rfl, rfl⟩
  obtain ⟨a', inPort', -, hview', hhop'⟩ := exists_hop hcalls' (landing_lt hr hm) hm hnext
    (ugal_phaseZero h3 rfl (if_neg (Nat.not_lt.mpr hle)) rfl rfl hnext)
  exact ⟨_, _, _, a, a', .of_start hstart, hhop, hhop', hview, hview'⟩

/-! ## The circle -/

/-- A node of router `r`. -/
def nodeAt (net : DragonFlyNew) (r : ℕ) : ℕ := net.p * r

theorem routerOf_nodeAt (r : ℕ) : net.routerOf (net.nodeAt r) = r :=
  Nat.mul_div_cancel_left r net.p_pos

theorem nodeAt_lt {r : ℕ} (hr : r < net.size) : net.nodeAt r < net.nodes := by
  have hnodes : net.nodes = net.p * net.size := by
    unfold nodes size
    ring
  rw [hnodes]
  exact Nat.mul_lt_mul_of_pos_left hr net.p_pos

section Triangle

variable {X Y Z : ℕ} (hX : X < net.g) (hY : Y < net.g) (hZ : Z < net.g)

include hX hY

theorem optical_gate {d : ℕ} (hne : X ≠ Y) (hd : net.groupOf d = Y) :
    net.Optical (net.gate X Y) d := by
  rw [Optical, gate_div hX hY hne, hd]
  exact ⟨hne, rfl⟩

theorem groupOf_nodeAt_gate (hne : X ≠ Y) : net.groupOf (net.nodeAt (net.gate X Y)) = X := by
  rw [groupOf, routerOf_nodeAt, gate_div hX hY hne]

theorem channelTo_gate {d : ℕ} (hne : X ≠ Y) (hd : net.groupOf d = Y) :
    net.channelTo (net.gate X Y) d = net.opticalLink X Y := by
  rw [channelTo, place, if_pos (optical_gate hX hY hne hd), gate_div hX hY hne, hd, opticalLink]

include hZ

theorem opticalLink_waits_local (h3 : vcs.gNumVCs = 3) (hXY : X ≠ Y) (hYZ : Y ≠ Z) (hXZ : X ≠ Z)
    (hgates : net.gate Y X ≠ net.gate Y Z) :
    (net.flights vcs .ugal_dragonflynew).Depends Sent.vcHeld (net.opticalLink X Y, 0)
      (net.channelTo (net.gate Y X) (net.nodeAt (net.gate Y Z)), 0) := by
  have hm := nodeAt_lt (gate_lt hY hZ hYZ)
  have hd := nodeAt_lt (gate_lt hZ hY hYZ.symm)
  have hmgroup := groupOf_nodeAt_gate hY hZ hYZ
  have hdgroup := groupOf_nodeAt_gate hZ hY hYZ.symm
  have hopt := optical_gate hX hY hXY hmgroup
  have hlanding : net.landing (net.gate X Y) (net.nodeAt (net.gate Y Z)) = net.gate Y X := by
    rw [landing, if_pos hopt, hmgroup, gate_div hX hY hXY]
  have hdiv := gate_div hX hY hXY
  have hdep := @ugal_depends net vcs _ _ _ h3 (gate_lt hX hY hXY) hd hm (by rwa [hdiv, hdgroup])
    hopt.1 (dragonflyPort_ne (gate_lt hX hY hXY) hm hd hopt (by rwa [hmgroup, hdgroup])).symm
    (by rwa [hlanding, routerOf_nodeAt])
  rwa [hlanding, channelTo_gate hX hY hXY hmgroup] at hdep

theorem local_waits_opticalLink (h3 : vcs.gNumVCs = 3) (hXY : X ≠ Y) (hYZ : Y ≠ Z) (hXZ : X ≠ Z)
    (hgates : net.gate Y X ≠ net.gate Y Z) :
    (net.flights vcs .ugal_dragonflynew).Depends Sent.vcHeld
      (net.channelTo (net.gate Y X) (net.nodeAt (net.gate Y Z)), 0) (net.opticalLink Y Z, 0) := by
  have hm := nodeAt_lt (gate_lt hZ hY hYZ.symm)
  have hd := nodeAt_lt (gate_lt hX hY hXY)
  have hmgroup := groupOf_nodeAt_gate hZ hY hYZ.symm
  have hdgroup := groupOf_nodeAt_gate hX hY hXY
  have hdiv := gate_div hY hX hXY.symm
  have hopt := optical_gate hY hX hXY.symm hdgroup
  have hlocal : ¬ net.Optical (net.gate Y X) (net.nodeAt (net.gate Z Y)) := by
    rw [Optical, hdiv, hmgroup]
    exact fun h => hgates h.2
  have hahead : net.ahead (net.gate Y X) (net.nodeAt (net.gate Z Y)) = net.gate Y Z := by
    rw [ahead, hdiv, hmgroup, if_neg hYZ]
  have hlanding : net.landing (net.gate Y X) (net.nodeAt (net.gate Z Y)) = net.gate Y Z := by
    rw [landing, if_neg hlocal, hahead]
  have hdep := @ugal_depends net vcs _ _ _ h3 (gate_lt hY hX hXY.symm) hd hm hopt.1
    (by rwa [hdiv, hmgroup])
    (dragonflyPort_ne (gate_lt hY hX hXY.symm) hd hm hopt (by rwa [hmgroup, hdgroup]))
    (by
      rw [hlanding, routerOf_nodeAt]
      intro heq
      exact hYZ ((gate_div hY hZ hYZ).symm.trans (heq ▸ gate_div hZ hY hYZ.symm)))
  -- Both packets go to the same router of `Y`, so they take the same channel.
  have hgroup' := groupOf_nodeAt_gate hY hZ hYZ
  have hlocal' : ¬ net.Optical (net.gate Y X) (net.nodeAt (net.gate Y Z)) :=
    fun h => h.1 (hdiv.trans hgroup'.symm)
  have hahead' : net.ahead (net.gate Y X) (net.nodeAt (net.gate Y Z)) = net.gate Y Z := by
    rw [ahead, hdiv, hgroup', if_pos rfl, routerOf_nodeAt]
  have hsame : net.channelTo (net.gate Y X) (net.nodeAt (net.gate Z Y)) =
      net.channelTo (net.gate Y X) (net.nodeAt (net.gate Y Z)) := by
    simp only [channelTo, place, if_neg hlocal, if_neg hlocal', hahead, hahead']
  rwa [hlanding, channelTo_gate hY hZ hYZ hmgroup, hsame] at hdep

theorem opticalLink_waits (h3 : vcs.gNumVCs = 3) (hXY : X ≠ Y) (hYZ : Y ≠ Z) (hXZ : X ≠ Z)
    (hexit : net.exit Y X ≠ net.exit Y Z) :
    Relation.TransGen ((net.flights vcs .ugal_dragonflynew).Depends Sent.vcHeld)
      (net.opticalLink X Y, 0) (net.opticalLink Y Z, 0) := by
  have hgates : net.gate Y X ≠ net.gate Y Z := fun heq => hexit (Nat.add_left_cancel heq)
  exact .tail (.single (opticalLink_waits_local hX hY hZ h3 hXY hYZ hXZ hgates))
    (local_waits_opticalLink hX hY hZ h3 hXY hYZ hXZ hgates)

end Triangle

/-- The links between the first group, group `p` and the last one wait for each other. -/
theorem opticalLink_circle (net : DragonFlyNew) (h3 : vcs.gNumVCs = 3) :
    Relation.TransGen ((net.flights vcs .ugal_dragonflynew).Depends Sent.vcHeld)
      (net.opticalLink 0 net.p, 0) (net.opticalLink 0 net.p, 0) := by
  have hp := net.p_pos
  have hlast : 2 * net.p * net.p = (2 * net.p - 1) * net.p + net.p := by
    rw [← Nat.succ_mul, Nat.succ_eq_add_one, Nat.sub_add_cancel (by omega)]
  have hle : net.p ≤ (2 * net.p - 1) * net.p := Nat.le_mul_of_pos_left _ (by omega)
  have hg : net.g = 2 * net.p * net.p + 1 := rfl
  -- The place of the last group among the links of the others.
  have hexit : (2 * net.p * net.p - 1) / net.p = 2 * net.p - 1 := by
    rw [hlast, Nat.add_sub_assoc hp, Nat.add_comm, Nat.add_mul_div_right _ _ hp,
      Nat.div_eq_of_lt (by omega), Nat.zero_add]
  have hfirst : net.exit 0 net.p = 0 := by
    rw [exit, grpOutput, if_neg (by omega), Nat.div_eq_of_lt (by omega)]
  have hfirst' : net.exit 0 (2 * net.p * net.p) = 2 * net.p - 1 := by
    rw [exit, grpOutput, if_neg (by omega), hexit]
  have hmid : net.exit net.p 0 = 0 := by
    rw [exit, grpOutput, if_pos hp, Nat.zero_div]
  have hmid' : net.exit net.p (2 * net.p * net.p) = 2 * net.p - 1 := by
    rw [exit, grpOutput, if_neg (by omega), hexit]
  have hend : net.exit (2 * net.p * net.p) 0 = 0 := by
    rw [exit, grpOutput, if_pos (by omega), Nat.zero_div]
  have hend' : net.exit (2 * net.p * net.p) net.p = 1 := by
    rw [exit, grpOutput, if_pos (by omega), Nat.div_self hp]
  have h₁ := @opticalLink_waits net vcs 0 net.p (2 * net.p * net.p) (by omega) (by omega) (by omega)
    h3 (by omega) (by omega) (by omega) (by omega)
  have h₂ := @opticalLink_waits net vcs net.p (2 * net.p * net.p) 0 (by omega) (by omega) (by omega)
    h3 (by omega) (by omega) (by omega) (by omega)
  have h₃ := @opticalLink_waits net vcs (2 * net.p * net.p) 0 net.p (by omega) (by omega) (by omega)
    h3 (by omega) (by omega) (by omega) (by omega)
  exact (h₁.trans h₂).trans h₃

/-- **UGAL can deadlock on VC 0.**  Whatever the size of the dragonfly, the channels and VCs of
`ugal_dragonflynew` wait for each other in a circle. -/
theorem ugal_cyclic (net : DragonFlyNew) (vcs : ClassVCs) (h3 : vcs.gNumVCs = 3) :
    ¬ (net.flights vcs .ugal_dragonflynew).Acyclic Sent.vcHeld :=
  fun h => h _ (net.opticalLink_circle h3)

/-- Three VCs, for one class of packets. -/
def ugalVCs : ClassVCs := ⟨fun _ => 0, fun _ => 2, 3, fun _ => by decide⟩

theorem ugal_cyclic_two :
    ¬ ((⟨2, by decide⟩ : DragonFlyNew).flights ugalVCs .ugal_dragonflynew).Acyclic Sent.vcHeld :=
  ugal_cyclic _ ugalVCs rfl

/-- In the smallest dragonfly, with three groups of two routers, the channel from router 0 to
group 1 waits for itself. -/
theorem ugal_circle_of_three : Relation.TransGen (((⟨1, by decide⟩ : DragonFlyNew).flights ugalVCs
      .ugal_dragonflynew).Depends Sent.vcHeld) (1, 0) (1, 0) :=
  opticalLink_circle ⟨1, by decide⟩ rfl

end BookSim.DragonFlyNew
