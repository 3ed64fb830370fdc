/-
# AnyNetRoute — the routing tables of an AnyNet

`AnyNet::route` searches the routers from `r_start` outwards, by Dijkstra's algorithm with the
latencies of the links in an `int`, and then follows the predecessors of each router back to
the first hop.  The port to that hop goes into the table of `r_start`, for each node of the
router.  `min_anynet` looks the port up.

    routeEnds_iff      when the loop of the search ends
    route_eq_ok        the table of a router
    minAnynet_delivers      following the tables is a shortest path to the node

The search marks the routers it has not reached by the largest `int`.  One that is that far
away counts as not reached, and so does one that cannot be reached at all; in either case the
loop finds no candidate and goes on for ever.
-/
import BookSim.Flight
import BookSim.Lib.Dijkstra
import BookSim.Networks.AnyNetBuild

namespace BookSim.AnyNet

open List
open Dijkstra (Search Walk)
open Function (update)
open Routing

variable (net : AnyNet)

/-! ## The search -/

/-- `numeric_limits<int>::max()`. -/
def intMax : ℤ := 2 ^ 31 - 1

/-- The sum of two `int`s. -/
def plus (a b : ℤ) : ℤ := toInt (a + b)

/-- The neighbours of a router, with the latencies to them. -/
def adj (u : ℕ) : List (ℕ × ℤ) := (net.row .router u).map fun e => (e.1, (e.2.lat : ℤ))

/-- The search of `route(r_start)` after that many rounds of its loop. -/
def search (rStart rounds : ℕ) : Search := Dijkstra.run intMax plus net.adj net.size rStart rounds

/-- The loop of `route(r_start)` ends. -/
def RouteEnds (rStart : ℕ) : Prop := Dijkstra.Ends intMax plus net.adj net.size rStart

/-- No sum of the search overflows: a shortest distance, and one more link. -/
def SumsFit (rStart : ℕ) : Prop :=
  ∀ u, ∀ d < intMax, IsLeast {d | Walk net.adj rStart u d} d → ∀ e ∈ net.adj u, d + e.2 < 2 ^ 31

/-! ## The tables -/

/-- The ends of `route` without a table: the loop goes on for ever, or an assertion fails. -/
inductive RouteError where
  | endless
  | unreached (router : ℕ)
  | noWayBack (router : ℕ)
  deriving DecidableEq, Repr

/-- The ports of `r_start` for the nodes at router `i`, each a function of the entry of the node. -/
def outPort (rStart : ℕ) (s : Search) (i : ℕ) : Except RouteError (Link → ℤ) :=
  match s.prev i with
  | none => do
    require (.unreached i) (i = rStart)
    return Link.port
  | some _ =>
    -- Every hop takes at least one cycle, so there are not more of them than the distance.
    let back := fun v u => (net.link? .router v u).isSome
    match Dijkstra.firstHop back s.prev rStart (s.dist i).toNat i with
    | none => .error (.noWayBack i)
    | some neighbor =>
      match net.link? .router rStart neighbor with
      | none => .error (.noWayBack neighbor)
      | some l => .ok fun _ => l.port

/-- Write the ports for a row of nodes into the table. -/
def fill (port : Link → ℤ) (nodes : List (ℕ × Link)) (table : ℕ → Option ℤ) : ℕ → Option ℤ :=
  nodes.foldl (fun table e => update table e.1 (some (port e.2))) table

/-- A round of the loop over the routers. -/
def fillRouter (rStart : ℕ) (s : Search) (table : ℕ → Option ℤ) (i : ℕ) :
    Except RouteError (ℕ → Option ℤ) := do
  return fill (← net.outPort rStart s i) (net.row .node i) table

/-- `route`: the search, and the table made from it.  A search that ends does so after a round
for each router. -/
def route (rStart : ℕ) : Except RouteError (ℕ → Option ℤ) := do
  let s := net.search rStart net.size
  require .endless (s.rlist = [])
  (List.range net.size).foldlM (net.fillRouter rStart s) fun _ => none

/-- `buildRoutingTable`. -/
def buildRoutingTable : Except RouteError (List (ℕ → Option ℤ)) :=
  (List.range net.size).mapM net.route

/-- `min_anynet`, on the tables. -/
def minAnynet (tables : List (ℕ → Option ℤ)) (vcs : ClassVCs) (c : Call) : Option Routed :=
  let r : VCRange := ⟨vcs.gBeginVCs c.flit.cl, vcs.gEndVCs c.flit.cl⟩
  if c.inject then some ⟨single (-1) r, c.flit⟩
  else
    match tables[c.router.id]?.bind (· c.flit.dest) with
    | none => none
    | some outPort => some ⟨single outPort r, c.flit⟩

variable {net} {rStart : ℕ}

/-! ## When the loop ends -/

theorem mem_adj_iff {u : ℕ} {e : ℕ × ℤ} :
    e ∈ net.adj u ↔ ∃ l, net.link? .router u e.1 = some l ∧ (l.lat : ℤ) = e.2 := by
  simp only [adj, mem_map, mem_row_iff, Prod.exists]
  constructor
  · rintro ⟨b, l, hl, rfl⟩
    exact ⟨l, hl, rfl⟩
  · rintro ⟨l, hl, hlat⟩
    exact ⟨e.1, l, hl, Prod.ext rfl hlat⟩

theorem adj_numberPorts : net.numberPorts.adj = net.adj := by
  funext u
  refine ext_getElem? fun i => ?_
  simp only [adj, row_numberPorts, List.getElem?_map, List.getElem?_mapIdx, Option.map_map,
    Function.comp_def]

theorem adj_nonneg (u : ℕ) (e : ℕ × ℤ) (he : e ∈ net.adj u) : 0 ≤ e.2 := by
  obtain ⟨l, -, hlat⟩ := mem_adj_iff.mp he
  omega

theorem adj_lt (h : net.Numbered) (u : ℕ) (_ : u < net.size) (e : ℕ × ℤ) (he : e ∈ net.adj u) :
    e.1 < net.size := by
  obtain ⟨l, hl, -⟩ := mem_adj_iff.mp he
  exact h.ends u e.1 (Option.isSome_of_eq_some hl)

theorem SumsFit.exact (h : net.SumsFit rStart) : Dijkstra.Exact intMax plus net.adj rStart := by
  intro u d hd hleast e he
  have hsum := h u d hd hleast e he
  have hd0 := hleast.1.nonneg adj_nonneg
  have he0 := adj_nonneg u e he
  exact toInt_eq (by omega) (by omega)

theorem intMax_pos : 0 < intMax := by decide

theorem routeEnds_iff (h : net.Numbered) (hr : rStart < net.size) (hsums : net.SumsFit rStart) :
    net.RouteEnds rStart ↔ ∀ v < net.size, ∃ d < intMax, Walk net.adj rStart v d :=
  Dijkstra.ends_iff adj_nonneg hr (adj_lt h) intMax_pos hsums.exact

theorem routeEnds_numberPorts : net.numberPorts.RouteEnds rStart ↔ net.RouteEnds rStart := by
  rw [RouteEnds, adj_numberPorts, size_numberPorts, ← RouteEnds]

/-! ## The table of a router -/

section Fill

variable {m : ℕ} {l : Link} {port : Link → ℤ}

theorem fill_of_not_mem : ∀ {es : List (ℕ × Link)} {table : ℕ → Option ℤ}, (∀ e ∈ es, e.1 ≠ m) →
    fill port es table m = table m
  | [], _, _ => rfl
  | e :: es, table, h => by
    rw [fill, foldl_cons, ← fill, fill_of_not_mem fun e' he' => h e' (mem_cons_of_mem _ he')]
    exact Function.update_of_ne (h e mem_cons_self).symm ..

theorem fill_of_mem : ∀ {es : List (ℕ × Link)} {table : ℕ → Option ℤ},
    es.Pairwise (fun a b => a.1 < b.1) → (m, l) ∈ es → fill port es table m = some (port l)
  | e :: es, table, hsorted, h => by
    obtain ⟨hhead, htail⟩ := pairwise_cons.mp hsorted
    rw [fill, foldl_cons, ← fill]
    rcases mem_cons.mp h with rfl | h
    · rw [fill_of_not_mem fun e he => (hhead e he).ne']
      exact Function.update_self ..
    · exact fill_of_mem htail h

theorem row_sorted (t : ParseType) (r : ℕ) : (net.row t r).Pairwise (fun a b => a.1 < b.1) := by
  unfold row
  cases (net.routerList t).get? r with
  | none => exact .nil
  | some entries => exact entries.sorted

end Fill

/-- What holds of a net whose tables are made: latencies are positive, links go both ways, every
router is near enough to every other, and no sum overflows. -/
structure Routable (net : AnyNet) : Prop extends net.WellFormed where
  positive : ∀ t a b l, net.link? t a b = some l → 0 < l.lat
  back : ∀ a b, (net.link? .router a b).isSome → (net.link? .router b a).isSome
  reach : ∀ r < net.size, ∀ v < net.size, ∃ d < intMax, Walk net.adj r v d
  sums : ∀ r < net.size, net.SumsFit r

section Table

variable (h : net.Routable) (hr : rStart < net.size)

include h hr

theorem search_ended : (net.search rStart net.size).rlist = [] :=
  Dijkstra.ends_iff_run.mp ((routeEnds_iff h.toNumbered hr (h.sums _ hr)).mpr (h.reach _ hr))

theorem search_inv : Dijkstra.Inv intMax net.adj net.size rStart (net.search rStart net.size) :=
  Dijkstra.inv_run adj_nonneg hr (adj_lt h.toNumbered) intMax_pos (h.sums _ hr).exact _

theorem outPort_self : net.outPort rStart (net.search rStart net.size) rStart = .ok Link.port := by
  rw [outPort, (search_inv h hr).start_eq.2]
  exact require_bind rfl _

theorem outPort_other {i : ℕ} (hi : i < net.size) (hne : i ≠ rStart) :
    ∃ neighbor l d, net.outPort rStart (net.search rStart net.size) i = .ok (fun _ => l.port) ∧
      net.link? .router rStart neighbor = some l ∧ IsLeast {d | Walk net.adj neighbor i d} d ∧
      IsLeast {d | Walk net.adj rStart i d} (l.lat + d) := by
  have hinv := search_inv h hr
  have hended := search_ended h hr
  have hleast := Dijkstra.dist_isLeast adj_nonneg hr (adj_lt h.toNumbered) intMax_pos
    (h.sums _ hr).exact hended hi
  have hfar := hinv.done i hi (by rw [hended]; exact not_mem_nil)
  rw [← search] at hleast
  generalize net.search rStart net.size = s at *
  have hpos : ∀ u, ∀ e ∈ net.adj u, 0 < e.2 := by
    intro u e he
    obtain ⟨l, hl, hlat⟩ := mem_adj_iff.mp he
    have := h.positive _ _ _ _ hl
    omega
  have hback : ∀ u < net.size, ∀ e ∈ net.adj u, (net.link? .router e.1 u).isSome = true := by
    intro u _ e he
    obtain ⟨l, hl, -⟩ := mem_adj_iff.mp he
    exact h.back _ _ (Option.isSome_of_eq_some hl)
  have hd0 := hleast.1.nonneg adj_nonneg
  obtain ⟨hop, w, d, hfirst, hmem, hwalk, hsum⟩ := @Dijkstra.Inv.firstHop_spec _ _ _ _ s hinv hpos
    (fun v u => (net.link? .router v u).isSome) hback (s.dist i).toNat i hne hfar (by omega)
  obtain ⟨l, hl, rfl⟩ := mem_adj_iff.mp hmem
  obtain ⟨u, -, hprev, -⟩ := hinv.pred i hne hfar
  refine ⟨hop, l, d, ?_, hl, ⟨hwalk, fun d' hd' => ?_⟩, hsum ▸ hleast⟩
  · simp only [outPort, hprev, hfirst, hl]
  · have hle := hleast.2 ((Walk.single hmem).trans hd')
    omega

theorem exists_outPort {i : ℕ} (hi : i < net.size) :
    ∃ port, net.outPort rStart (net.search rStart net.size) i = .ok port := by
  by_cases hne : i = rStart
  · subst hne
    exact ⟨_, outPort_self h hi⟩
  · obtain ⟨_, l, _, hport, -⟩ := outPort_other h hr hi hne
    exact ⟨_, hport⟩

theorem foldlM_fillRouter : ∀ k ≤ net.size, ∃ table,
    (List.range k).foldlM (net.fillRouter rStart (net.search rStart net.size)) (fun _ => none) =
      .ok table ∧ ∀ i m l, net.link? .node i m = some l → i < k →
        ∃ port, net.outPort rStart (net.search rStart net.size) i = .ok port ∧
          table m = some (port l)
  | 0, _ => ⟨_, rfl, fun i _ _ _ hi => absurd hi (Nat.not_lt_zero i)⟩
  | k + 1, hk => by
    obtain ⟨table, hrun, htable⟩ := foldlM_fillRouter k (Nat.le_of_succ_le hk)
    obtain ⟨port, hport⟩ := exists_outPort h hr hk
    refine ⟨fill port (net.row .node k) table, ?_, fun i m l hl hi => ?_⟩
    · rw [range_succ, foldlM_append, hrun]
      refine bind_ok.mpr ⟨_, rfl, ?_⟩
      rw [foldlM_cons, fillRouter, hport]
      rfl
    · by_cases hik : i = k
      · subst hik
        exact ⟨port, hport, fill_of_mem (row_sorted ..) ((@mem_row_iff _ i .node (m, l)).mpr hl)⟩
      · obtain ⟨port', hport', hm⟩ := htable i m l hl (by omega)
        refine ⟨port', hport', (fill_of_not_mem fun e he hem => hik ?_).trans hm⟩
        -- The node would be at two routers.
        have hi' := (h.nodes i m).mp (Option.isSome_of_eq_some hl)
        have hk' := (h.nodes k m).mp (Option.isSome_of_eq_some (hem ▸ mem_row_iff.mp he))
        exact Option.some_inj.mp (hi'.symm.trans hk')

/-- The table of a router has a port for every node, as the loop over the routers found it. -/
theorem route_eq_ok : ∃ table, net.route rStart = .ok table ∧ ∀ i m l,
    net.link? .node i m = some l → i < net.size →
      ∃ port, net.outPort rStart (net.search rStart net.size) i = .ok port ∧
        table m = some (port l) := by
  unfold route
  rw [require_bind (search_ended h hr)]
  exact foldlM_fillRouter h hr net.size le_rfl

end Table

/-! ## The way of a packet -/

theorem Routable.numberPorts (h : net.Routable) : net.numberPorts.Routable where
  toWellFormed := h.toWellFormed.numberPorts
  positive t a b l hl := by
    obtain ⟨i, l', hi, rfl⟩ := link?_numberPorts.mp hl
    exact h.positive t a b l' (mem_row_iff.mp (mem_of_getElem? hi))
  back a b hab := by
    rw [isSome_link?_numberPorts] at hab ⊢
    exact h.back a b hab
  reach := by
    rw [size_numberPorts, adj_numberPorts]
    exact h.reach
  sums r hr := by
    rw [size_numberPorts] at hr
    unfold SumsFit
    rw [adj_numberPorts]
    exact h.sums r hr

theorem buildRoutingTable_eq_ok (h : net.Routable) : ∃ tables, net.buildRoutingTable = .ok tables ∧
    ∀ r < net.size, ∃ table, tables[r]? = some table ∧ net.route r = .ok table := by
  have hroutes : ∀ r ∈ List.range net.size, ∃ table, net.route r = .ok table := by
    intro r hr
    obtain ⟨table, htable, -⟩ := route_eq_ok h (mem_range.mp hr)
    exact ⟨table, htable⟩
  obtain ⟨tables, hbuild, hall⟩ := mapM_eq_ok hroutes
  refine ⟨tables, hbuild, fun r hr => hall r r ?_⟩
  rw [List.getElem?_range hr]

theorem outcome_minAnynet {w : Wiring} {nodes : ℕ} {tables : List (ℕ → Option ℤ)} {vcs : ClassVCs}
    {s : Flight} {table : ℕ → Option ℤ} {port : ℤ} {o : Outcome Flight Sent ℕ}
    (htable : tables[s.router]? = some table) (hport : table s.flit.dest = some port)
    (ho : (flights w nodes (minAnynet tables vcs)).outcome s o) :
    ∃ c v, c.router.id = s.router ∧ o = sentTo w c port { s.flit with vc := v } := by
  obtain ⟨c, hc, ho⟩ := ho
  have hroute : minAnynet tables vcs c =
      some ⟨single port ⟨vcs.gBeginVCs c.flit.cl, vcs.gEndVCs c.flit.cl⟩, c.flit⟩ := by
    rw [minAnynet, hc.inject, hc.router, hc.flit, htable]
    simp [hport]
  rw [hroute, decided_single (vcs.begin_le_end _)] at ho
  obtain ⟨v, -, -, rfl⟩ := ho
  exact ⟨c, v, hc.router, by rw [hc.flit]⟩

section Delivery

variable (h : net.Routable) {tables : List (ℕ → Option ℤ)}
  (htables : ∀ r < net.size, ∃ table, tables[r]? = some table ∧ net.numberPorts.route r = .ok table)
  {t m : ℕ} {l : Link} (hm : net.numberPorts.link? .node t m = some l) (ht : t < net.size)
  {vcs : ClassVCs} {nodes : ℕ}

include h htables hm ht

theorem table_port {r : ℕ} (hr : r < net.size) : ∃ table port, tables[r]? = some table ∧
    net.numberPorts.outPort r (net.numberPorts.search r net.size) t = .ok port ∧
    table m = some (port l) := by
  obtain ⟨table, hget, hroute⟩ := htables r hr
  have hnumbered := h.numberPorts
  obtain ⟨table', hroute', hports⟩ := route_eq_ok hnumbered (hr.trans_eq size_numberPorts.symm)
  obtain rfl : table = table' := Except.ok.inj (hroute.symm.trans hroute')
  obtain ⟨port, hport, hentry⟩ := hports t m l hm (ht.trans_eq size_numberPorts.symm)
  exact ⟨table, port, hget, size_numberPorts ▸ hport, hentry⟩

theorem outcome_home {s : Flight} (hs : s.router = t) (hdest : s.flit.dest = m)
    {o : Outcome Flight Sent ℕ}
    (ho : (flights net.wiring nodes (minAnynet tables vcs)).outcome s o) : o = .leave m := by
  obtain ⟨table, port, hget, hport, hentry⟩ := table_port h htables hm ht ht
  have hself := outPort_self h.numberPorts (ht.trans_eq size_numberPorts.symm)
  rw [size_numberPorts] at hself
  obtain rfl := Except.ok.inj (hport.symm.trans hself)
  obtain ⟨c, v, hc, rfl⟩ := outcome_minAnynet (hs ▸ hget) (hdest ▸ hentry) ho
  exact sentTo_eject (by rw [hc, hs]; exact channelAt_node h.toNumbered ht hm)

/-- At another router, the table leads to a neighbour that is nearer by the latency of the link. -/
theorem outcome_away {r : ℕ} (hr : r < net.size) (hne : t ≠ r) : ∃ neighbor d, ∃ lat > 0,
    neighbor < net.size ∧ IsLeast {d | Walk net.adj neighbor t d} d ∧
    IsLeast {d | Walk net.adj r t d} (lat + d) ∧
    ∀ s : Flight, s.router = r → s.flit.dest = m →
      ∀ o, (flights net.wiring nodes (minAnynet tables vcs)).outcome s o →
        ∃ a u, o = .hop a u ∧ u.router = neighbor ∧ u.flit.dest = m ∧
          (net.channelLat a.channel : ℤ) = lat := by
  obtain ⟨table, port, hget, hport, hentry⟩ := table_port h htables hm ht hr
  obtain ⟨neighbor, l', d, hport', hl', hleast, hsum⟩ :=
    outPort_other h.numberPorts (hr.trans_eq size_numberPorts.symm)
      (ht.trans_eq size_numberPorts.symm) hne
  rw [size_numberPorts] at hport'
  rw [adj_numberPorts] at hleast hsum
  obtain rfl := Except.ok.inj (hport.symm.trans hport')
  obtain ⟨index, l'', hchan, hlink, hlat⟩ := channelAt_link h.toNumbered hr hl'
  have hpos := h.numberPorts.positive _ _ _ _ hl'
  have hlt := h.numberPorts.ends _ _ (Option.isSome_of_eq_some hl')
  rw [size_numberPorts] at hlt
  obtain ⟨⟨next, inPort⟩, hsink, hnext⟩ := Option.map_eq_some_iff.mp (sink_link hlink)
  refine ⟨neighbor, d, l'.lat, by omega, hlt, hleast, hsum, fun s hs hdest o ho => ?_⟩
  obtain ⟨c, v, hc, rfl⟩ := outcome_minAnynet (hs ▸ hget) (hdest ▸ hentry) ho
  refine ⟨_, _, sentTo_chan (by rw [hc, hs]; exact hchan) hsink, hnext, hdest, ?_⟩
  rw [channelLat, hlink, ← hlat]
  rfl

/-- **Following the tables.**  The induction is on the distance. -/
theorem follow_tables : ∀ (k r : ℕ) (d : ℤ), r < net.size → IsLeast {d | Walk net.adj r t d} d →
    d ≤ k → ∃ n, ∀ s : Flight, s.router = r → s.flit.dest = m →
      (flights net.wiring nodes (minAnynet tables vcs)).DeliversIn m n s ∧
      ∀ as u, (flights net.wiring nodes (minAnynet tables vcs)).Route s as u →
        (flights net.wiring nodes (minAnynet tables vcs)).outcome u (.leave m) →
        ((as.map fun a => net.channelLat a.channel).sum : ℤ) = d
  | k, r, d, hr, hleast, hk => by
    have hd0 := hleast.1.nonneg adj_nonneg
    by_cases hrt : t = r
    · subst hrt
      obtain rfl : d = 0 := le_antisymm (hleast.2 .nil) hd0
      refine ⟨0, fun s hs hdest => ⟨⟨flights_moves .., fun o ho => ?_⟩, fun as u hroute _ => ?_⟩⟩
      · exact outcome_home h htables hm ht hs hdest ho
      · cases hroute with
        | nil => rfl
        | cons hhop _ => cases outcome_home h htables hm ht hs hdest hhop
    · obtain ⟨neighbor, d', lat, hlat, hlt, hleast', hsum, hstep⟩ :=
        @outcome_away net h tables htables t m l hm ht vcs nodes r hr hrt
      obtain rfl := hleast.unique hsum
      have hd' := hleast'.1.nonneg adj_nonneg
      obtain ⟨k, rfl⟩ : ∃ k', k = k' + 1 := ⟨k - 1, by omega⟩
      obtain ⟨n, hn⟩ := follow_tables k neighbor d' hlt hleast' (by omega)
      refine ⟨n + 1, fun s hs hdest =>
        ⟨⟨flights_moves .., fun o ho => ?_⟩, fun as u hroute hu => ?_⟩⟩
      · obtain ⟨a, u, rfl, hu, hdest', -⟩ := hstep s hs hdest o ho
        exact ⟨a, u, rfl, (hn u hu hdest').1⟩
      · cases hroute with
        | nil =>
          obtain ⟨a, u, hhop, -⟩ := hstep s hs hdest _ hu
          cases hhop
        | @cons _ next _ _ _ hhop hrest =>
          grind

end Delivery

/-- **Shortest paths.**  From any router, a packet that follows the tables comes to its node,
and the channels it takes are a path of the least total latency. -/
theorem minAnynet_delivers (net : AnyNet) (h : net.Routable) : ∃ built tables,
    net.buildNet = .ok built ∧ built.net.buildRoutingTable = .ok tables ∧
      ∀ (vcs : ClassVCs) (s : Flight) (t : ℕ), s.router < net.size →
        net.nodeList.get? s.flit.dest = some t →
        let S := flights built.wiring net.nodes (minAnynet tables vcs)
        ∃ n, S.DeliversIn s.flit.dest n s ∧
          ∀ as u, S.Route s as u → S.outcome u (.leave s.flit.dest) →
            IsLeast {d | Walk net.adj s.router t d}
              ((as.map fun a => net.channelLat a.channel).sum : ℤ) := by
  obtain ⟨tables, hbuild, htables⟩ := buildRoutingTable_eq_ok h.numberPorts
  rw [size_numberPorts] at htables
  refine ⟨⟨net.numberPorts, net.wiring⟩, tables, buildNet_eq_ok h.positive, hbuild, ?_⟩
  intro vcs s t hr ht
  have hnode := (isSome_link?_numberPorts ..).mpr ((h.nodes t s.flit.dest).mpr ht)
  obtain ⟨l, hl⟩ := Option.isSome_iff_exists.mp hnode
  have htsize := (h.numberPorts.lt_size hl).trans_eq size_numberPorts
  -- The distance is what the search finds.
  have hleast := Dijkstra.dist_isLeast adj_nonneg hr (adj_lt h.toNumbered) intMax_pos
    (h.sums _ hr).exact (search_ended h hr) htsize
  obtain ⟨n, hn⟩ := @follow_tables net h tables htables t s.flit.dest l hl htsize vcs net.nodes
    _ s.router _ hr hleast (Int.self_le_toNat _)
  obtain ⟨hdelivers, hcost⟩ := hn s rfl rfl
  exact ⟨n, hdelivers, fun as u hroute hu => hcost as u hroute hu ▸ hleast⟩

/-! ## Two routers -/

/-- Two routers with a node each, and the latencies between them. -/
def pairNet (there back : ℕ) : AnyNet where
  nodeList := (OrdMap.empty.insert 0 0).insert 1 1
  routerList
    | .node => (OrdMap.empty.insert 0 (OrdMap.empty.insert 0 ⟨-1, 1⟩)).insert 1
        (OrdMap.empty.insert 1 ⟨-1, 1⟩)
    | .router => (OrdMap.empty.insert 0 (OrdMap.empty.insert 1 ⟨-1, there⟩)).insert 1
        (OrdMap.empty.insert 0 ⟨-1, back⟩)

section Pair

variable {there back : ℕ}

theorem link?_pairNet {t : ParseType} {a b : ℕ} {l : Link}
    (h : (pairNet there back).link? t a b = some l) :
    t = .node ∧ a < 2 ∧ b = a ∧ l.lat = 1 ∨ t = .router ∧ a = 0 ∧ b = 1 ∧ l.lat = there ∨
      t = .router ∧ a = 1 ∧ b = 0 ∧ l.lat = back := by
  cases t <;> simp only [link?, pairNet] at h <;> grind [OrdMap.get?_insert, OrdMap.get?_empty]

theorem mem_adj_pairNet {u : ℕ} {e : ℕ × ℤ} : e ∈ (pairNet there back).adj u ↔
    u = 0 ∧ e = (1, (there : ℤ)) ∨ u = 1 ∧ e = (0, (back : ℤ)) := by
  rw [mem_adj_iff]
  constructor
  · rintro ⟨l, hl, hlat⟩
    rcases link?_pairNet hl with ⟨h, -⟩ | ⟨-, ha, hb, hl⟩ | ⟨-, ha, hb, hl⟩
    · cases h
    · exact .inl ⟨ha, Prod.ext hb (by rw [← hlat, hl])⟩
    · exact .inr ⟨ha, Prod.ext hb (by rw [← hlat, hl])⟩
  · rintro (⟨rfl, rfl⟩ | ⟨rfl, rfl⟩)
    · exact ⟨⟨-1, there⟩, rfl, rfl⟩
    · exact ⟨⟨-1, back⟩, rfl, rfl⟩

theorem wellFormed_pairNet : (pairNet there back).WellFormed where
  routers t := by cases t <;> rfl
  ends a b h := by
    obtain ⟨l, hl⟩ := Option.isSome_iff_exists.mp h
    change b < 2
    rcases link?_pairNet hl with h | h | h <;> omega
  nodes r m := by
    simp only [link?, pairNet]
    grind [OrdMap.get?_insert, OrdMap.get?_empty]

theorem back_pairNet (a b : ℕ) (h : ((pairNet there back).link? .router a b).isSome) :
    ((pairNet there back).link? .router b a).isSome := by
  obtain ⟨l, hl⟩ := Option.isSome_iff_exists.mp h
  rcases link?_pairNet hl with ⟨h, -⟩ | ⟨-, rfl, rfl, -⟩ | ⟨-, rfl, rfl, -⟩
  · cases h
  · rfl
  · rfl

theorem walk_pairNet {r v : ℕ} (hr : r < 2) (hv : v < 2) : Walk (pairNet there back).adj r v
    (if r = v then 0 else if r = 0 then there else back) := by
  obtain rfl | rfl : r = 0 ∨ r = 1 := by omega
  all_goals obtain rfl | rfl : v = 0 ∨ v = 1 := by omega
  · exact .nil
  · exact .single (mem_adj_pairNet.mpr (.inl ⟨rfl, rfl⟩))
  · exact .single (mem_adj_pairNet.mpr (.inr ⟨rfl, rfl⟩))
  · exact .nil

theorem routable_pairNet (hthere : 0 < there) (hback : 0 < back) (hsum : there + back < 2 ^ 31) :
    (pairNet there back).Routable where
  toWellFormed := wellFormed_pairNet
  positive t a b l hl := by
    rcases link?_pairNet hl with h | h | h <;> omega
  back := back_pairNet
  reach r hr v hv := by
    refine ⟨_, ?_, walk_pairNet hr hv⟩
    unfold intMax
    split_ifs <;> omega
  sums r hr u d _ hleast e he := by
    have hr : r < 2 := hr
    rcases mem_adj_pairNet.mp he with ⟨rfl, rfl⟩ | ⟨rfl, rfl⟩
    · have hle := hleast.2 (walk_pairNet hr (show 0 < 2 by omega))
      change d + (there : ℤ) < _
      split_ifs at hle <;> omega
    · have hle := hleast.2 (walk_pairNet hr (show 1 < 2 by omega))
      change d + (back : ℤ) < _
      split_ifs at hle <;> omega

end Pair

theorem minAnynet_delivers_pair : (pairNet 15 1).Routable ∧ ∃ built tables,
    (pairNet 15 1).buildNet = .ok built ∧ built.net.buildRoutingTable = .ok tables ∧
      ∀ (vcs : ClassVCs) (s : Flight), s.router = 0 → s.flit.dest = 1 →
        ∃ n, (flights built.wiring 2 (minAnynet tables vcs)).DeliversIn 1 n s := by
  have hroutable : (pairNet 15 1).Routable :=
    routable_pairNet (by decide) (by decide) (by decide)
  obtain ⟨built, tables, hbuild, htables, hall⟩ := minAnynet_delivers (pairNet 15 1) hroutable
  refine ⟨hroutable, built, tables, hbuild, htables, fun vcs s hr hdest => ?_⟩
  obtain ⟨n, hn, -⟩ := hall vcs s 1 (by rw [hr]; decide) (by rw [hdest]; rfl)
  rw [hdest] at hn
  exact ⟨n, hn⟩

/-- The latency along a list of routers, if each is linked to the next. -/
def pathLat (net : AnyNet) : List ℕ → Option ℕ
  | a :: b :: path => do return (← net.lat? .router a b) + (← pathLat net (b :: path))
  | _ => some 0

theorem lat?_pairNet {there back a b w : ℕ} (h : (pairNet there back).lat? .router a b = some w) :
    a = 0 ∧ b = 1 ∧ w = there ∨ a = 1 ∧ b = 0 ∧ w = back := by
  obtain ⟨l, hl, rfl⟩ := Option.map_eq_some_iff.mp h
  rcases link?_pairNet hl with ⟨h, -⟩ | ⟨-, h⟩ | ⟨-, h⟩
  · cases h
  · exact .inl h
  · exact .inr h

theorem pathLat_pairNet {there back d : ℕ} : ∀ {path : List ℕ}, path.Nodup →
    (pairNet there back).pathLat path = some d → d ≤ max there back
  | [], _, h => by
    cases h
    exact Nat.zero_le _
  | [_], _, h => by
    cases h
    exact Nat.zero_le _
  | [a, b], _, h => by
    obtain ⟨w, hw, hd⟩ := Option.bind_eq_some_iff.mp h
    cases hd
    rcases lat?_pairNet hw with ⟨-, -, rfl⟩ | ⟨-, -, rfl⟩
    · exact Nat.le_max_left ..
    · exact Nat.le_max_right ..
  | a :: b :: c :: path, hnodup, h => by
    obtain ⟨w, hw, h⟩ := Option.bind_eq_some_iff.mp h
    obtain ⟨d', hd', -⟩ := Option.bind_eq_some_iff.mp h
    obtain ⟨w', hw', -⟩ := Option.bind_eq_some_iff.mp hd'
    have hac : a = c := by
      rcases lat?_pairNet hw with h | h <;> rcases lat?_pairNet hw' with h' | h' <;> omega
    simp [hac] at hnodup

/-- With the largest `int` in both directions, every path stays below `2 ^ 31`, but the other
router counts as not reached. -/
theorem pairNet_endless :
    let net := pairNet (2 ^ 31 - 1) (2 ^ 31 - 1)
    net.WellFormed ∧
    (∀ t a b l, net.link? t a b = some l → 0 < l.lat) ∧
    (∀ a b, (net.link? .router a b).isSome → (net.link? .router b a).isSome) ∧
    (∀ r < net.size, ∀ v < net.size, ∃ d, Walk net.adj r v d) ∧
    (∀ path d, path.Nodup → net.pathLat path = some d → d < 2 ^ 31) ∧
    ¬ net.RouteEnds 0 ∧ net.numberPorts.buildRoutingTable = .error .endless := by
  refine ⟨wellFormed_pairNet, fun t a b l hl => ?_, back_pairNet,
    fun r hr v hv => ⟨_, walk_pairNet hr hv⟩, fun path d hnodup hpath => ?_, ?_, rfl⟩
  · rcases link?_pairNet hl with h | h | h <;> omega
  · have hle := pathLat_pairNet hnodup hpath
    omega
  · rw [RouteEnds, Dijkstra.ends_iff_run]
    decide

end BookSim.AnyNet
