/-
# AnyNetBuild — the wires of an AnyNet

`AnyNet::_BuildNet` makes a router of every entry of the maps.  Its output ports are counted
in the order of the maps, first those to its nodes and then those to other routers, and
written into the maps; the channels between routers are numbered in one count over all of
them.

    numberPorts      the maps with the ports
    links            the channels, in the order of their numbers
    buildNet         both, and the wires; a latency of 0 is an error of `SetLatency`

On a `Numbered` net the port in an entry of the maps is where the wire of that entry is:
`channelAt_node` and `channelAt_link`.
-/
import BookSim.Networks.AnyNet
import BookSim.Networks.Wiring
import Mathlib.Data.List.Basic

namespace BookSim.AnyNet

open List

variable (net : AnyNet)

/-! ## Building the network -/

/-- The entries of a router, in the order of the map. -/
def row (t : ParseType) (r : ℕ) : List (ℕ × Link) :=
  ((net.routerList t).get? r).elim [] OrdMap.entries

def size : ℕ := (net.routerList .router).size

def nodes : ℕ := net.nodeList.size

/-- What `outport` of a router is before its entries of a map are numbered. -/
def firstPort : ParseType → ℕ → ℕ
  | .node, _ => 0
  | .router, r => (net.row .node r).length

/-- The ports that `_BuildNet` writes into the maps. -/
def numberPorts : AnyNet where
  nodeList := net.nodeList
  routerList t := (net.routerList t).map fun r entries =>
    entries.mapIdx fun i _ l => { l with port := net.firstPort t r + i }

/-- The channels between routers, in the order of their numbers: from, to, and the entry. -/
def links : List (ℕ × ℕ × Link) :=
  (net.routerList .node).keys.flatMap fun r => (net.row .router r).map fun e => (r, e)

/-- The latency of a channel. -/
def channelLat (index : ℕ) : ℕ := (net.links[index]?.map fun c => c.2.2.lat).getD 0

/-- The calls for the nodes of a router. -/
def attachNodes (r : ℕ) : List Attach :=
  (net.row .node r).flatMap fun e => [.input r (.inject e.1), .output r (.eject e.1)]

/-- The calls for a channel between routers. -/
def attachLink (c : (ℕ × ℕ × Link) × ℕ) : List Attach :=
  [.output c.1.1 (.chan c.2), .input c.1.2.1 (.chan c.2)]

def calls : List Attach :=
  (net.routerList .node).keys.flatMap net.attachNodes ++ net.links.zipIdx.flatMap attachLink

def wiring : Wiring := Wiring.wire net.calls

/-- The error of `Channel::SetLatency`. -/
inductive BuildError where
  | channelDelay
  deriving DecidableEq, Repr

/-- What `_BuildNet` has made when it comes to the routing tables. -/
structure Built where
  net : AnyNet
  wiring : Wiring

/-- `_BuildNet`, up to the routing tables. -/
def buildNet : Except BuildError Built := do
  require .channelDelay (∀ r ∈ (net.routerList .node).keys, ∀ e ∈ net.row .node r, 0 < e.2.lat)
  require .channelDelay (∀ c ∈ net.links, 0 < c.2.2.lat)
  return ⟨net.numberPorts, net.wiring⟩

/-- The routers are numbered from 0, as the arrays of the size of the network require. -/
structure Numbered : Prop where
  routers : ∀ t, (net.routerList t).keys = List.range net.size
  ends : ∀ a b, (net.link? .router a b).isSome → b < net.size

/-- The two maps of the nodes agree as well. -/
structure WellFormed : Prop extends net.Numbered where
  nodes : ∀ r m, (net.link? .node r m).isSome ↔ net.nodeList.get? m = some r

variable {net} {r b m : ℕ} {l : Link}

theorem mem_row_iff {t : ParseType} {e : ℕ × Link} :
    e ∈ net.row t r ↔ net.link? t r e.1 = some e.2 := by
  unfold row link?
  cases (net.routerList t).get? r with
  | none => simp
  | some entries => exact OrdMap.mem_entries_iff

theorem Numbered.lt_size (h : net.Numbered) {t : ParseType} (hl : net.link? t r b = some l) :
    r < net.size := by
  obtain ⟨entries, hentries, -⟩ := Option.bind_eq_some_iff.mp hl
  have hkey := OrdMap.mem_keys_iff.mpr (Option.isSome_of_eq_some hentries)
  rwa [h.routers, mem_range] at hkey

theorem buildNet_eq_ok (hpos : ∀ t a b l, net.link? t a b = some l → 0 < l.lat) :
    net.buildNet = .ok ⟨net.numberPorts, net.wiring⟩ := by
  unfold buildNet
  rw [require_bind fun r _ e he => hpos _ _ _ _ (mem_row_iff.mp he), require_bind fun c hc => ?_]
  · rfl
  · obtain ⟨r, -, e, he, rfl⟩ := by simpa only [links, mem_flatMap, mem_map] using hc
    exact hpos _ _ _ _ (mem_row_iff.mp he)

theorem net_of_buildNet {built : Built} (h : net.buildNet = .ok built) :
    built.net = net.numberPorts := by
  obtain ⟨-, h⟩ := require_ok.mp h
  obtain ⟨-, rfl⟩ := require_return_ok.mp h
  rfl

theorem buildNet_eq_error_iff (h : net.Numbered) : (∃ e, net.buildNet = .error e) ↔
    ∃ t a b l, net.link? t a b = some l ∧ l.lat = 0 := by
  constructor
  · rintro ⟨e, he⟩
    by_contra hnone
    push Not at hnone
    have hok := buildNet_eq_ok fun t a b l hl => Nat.pos_of_ne_zero (hnone t a b l hl)
    cases he.symm.trans hok
  · rintro ⟨t, a, b, l, hl, hzero⟩
    have hkey : a ∈ (net.routerList .node).keys := by
      rw [h.routers, mem_range]
      exact h.lt_size hl
    have hrow := (@mem_row_iff _ a t (b, l)).mpr hl
    cases hbuild : net.buildNet with
    | error e => exact ⟨e, rfl⟩
    | ok built =>
      obtain ⟨hnodes, hbuild⟩ := require_ok.mp hbuild
      obtain ⟨hlinks, -⟩ := require_ok.mp hbuild
      cases t with
      | node => exact absurd hzero (hnodes a hkey _ hrow).ne'
      | router =>
        have hmem : (a, b, l) ∈ net.links :=
          mem_flatMap.mpr ⟨a, hkey, mem_map.mpr ⟨(b, l), hrow, rfl⟩⟩
        exact absurd hzero (hlinks _ hmem).ne'

theorem row_numberPorts (t : ParseType) (r : ℕ) : net.numberPorts.row t r =
    (net.row t r).mapIdx fun i e => (e.1, ⟨net.firstPort t r + i, e.2.lat⟩) := by
  unfold row numberPorts
  rw [OrdMap.get?_map]
  cases (net.routerList t).get? r with
  | none | some entries => rfl

theorem link?_numberPorts {t : ParseType} : net.numberPorts.link? t r b = some l ↔
    ∃ (i : ℕ) (l' : Link), (net.row t r)[i]? = some (b, l') ∧
      ⟨net.firstPort t r + i, l'.lat⟩ = l := by
  have hmem := @mem_row_iff net.numberPorts r t (b, l)
  rw [← hmem, row_numberPorts, mem_iff_getElem?]
  simp only [List.getElem?_mapIdx, Option.map_eq_some_iff, Prod.mk.injEq, Prod.exists]
  constructor
  · rintro ⟨i, _, l', hi, rfl, hl⟩
    exact ⟨i, l', hi, hl⟩
  · rintro ⟨i, l', hi, hl⟩
    exact ⟨i, b, l', hi, rfl, hl⟩

theorem keys_numberPorts (t : ParseType) :
    (net.numberPorts.routerList t).keys = (net.routerList t).keys :=
  OrdMap.keys_map ..

theorem size_numberPorts : net.numberPorts.size = net.size :=
  length_map ..

theorem isSome_link?_numberPorts (t : ParseType) (a b : ℕ) :
    (net.numberPorts.link? t a b).isSome ↔ (net.link? t a b).isSome := by
  simp only [Option.isSome_iff_exists, link?_numberPorts]
  constructor
  · rintro ⟨_, i, l, hi, -⟩
    exact ⟨l, mem_row_iff.mp (mem_of_getElem? hi)⟩
  · rintro ⟨l, hl⟩
    obtain ⟨i, hi⟩ := mem_iff_getElem?.mp ((@mem_row_iff _ a t (b, l)).mpr hl)
    exact ⟨_, i, l, hi, rfl⟩

theorem WellFormed.numberPorts (h : net.WellFormed) : net.numberPorts.WellFormed where
  routers t := by rw [keys_numberPorts, size_numberPorts, h.routers]
  ends a b hab := by
    rw [size_numberPorts]
    exact h.ends a b ((isSome_link?_numberPorts ..).mp hab)
  nodes r m := by
    rw [isSome_link?_numberPorts]
    exact h.nodes r m

/-! ## The wires -/

section Wires

variable (h : net.Numbered) (hr : r < net.size)

include h hr

theorem links_of_router :
    (net.links.zipIdx.filter (·.1.1 = r)).map Prod.fst = (net.row .router r).map (r, ·) := by
  have hfilter : ∀ r', ((net.row .router r').map (r', ·)).filter (·.1 = r) =
      if r' = r then (net.row .router r).map (r, ·) else [] := by
    intro r'
    rw [filter_map]
    by_cases hrr : r' = r
    · subst hrr
      simp [Function.comp_def]
    · simp [Function.comp_def, hrr]
  have hmap : net.links.filter (·.1 = r) = (net.links.zipIdx.filter (·.1.1 = r)).map Prod.fst := by
    conv_lhs => rw [← zipIdx_map_fst 0 net.links]
    exact filter_map
  rw [← hmap, links, h.routers, filter_flatMap]
  simp only [hfilter]
  rw [flatMap_range_ite, if_pos hr]

theorem outputs_eq : net.wiring.outputChannels r =
    (net.row .node r).map (fun e => Channel.eject e.1) ++
      (net.links.zipIdx.filter (·.1.1 = r)).map (fun c => Channel.chan c.2) := by
  have hnodes : ∀ r', (net.attachNodes r').filterMap (Wiring.outputOf r) =
      if r' = r then (net.row .node r).map (fun e => Channel.eject e.1) else [] := by
    intro r'
    rw [attachNodes, filterMap_flatMap]
    by_cases hrr : r' = r
    · subst hrr
      rw [if_pos rfl, map_eq_flatMap]
      exact congrArg (List.flatMap · _) (funext fun e => by simp [filterMap_cons, Wiring.outputOf])
    · simp [filterMap_cons, Wiring.outputOf, hrr]
  have hlinks : ∀ cs : List ((ℕ × ℕ × Link) × ℕ),
      (cs.flatMap attachLink).filterMap (Wiring.outputOf r) =
        (cs.filter (·.1.1 = r)).map (fun c => Channel.chan c.2) := by
    intro cs
    induction cs with
    | nil => rfl
    | cons c cs ih =>
      rw [flatMap_cons, filterMap_append, ih]
      by_cases hc : c.1.1 = r
      · simp [attachLink, Wiring.outputOf, hc]
      · simp [attachLink, Wiring.outputOf, hc]
  rw [wiring, Wiring.outputChannels_wire, calls, filterMap_append, filterMap_flatMap,
    h.routers, hlinks]
  simp only [hnodes]
  rw [flatMap_range_ite, if_pos hr]

theorem channelAt_node (hm : net.numberPorts.link? .node r m = some l) :
    net.wiring.channelAt r l.port = some (.eject m) := by
  obtain ⟨i, l', hi, rfl⟩ := link?_numberPorts.mp hm
  have hport : ((net.firstPort .node r : ℤ) + i) = (i : ℕ) := by simp [firstPort]
  have hlt := (List.getElem?_eq_some_iff.mp hi).1
  rw [hport, Wiring.channelAt_natCast, outputs_eq h hr,
    List.getElem?_append_left (by simpa using hlt), List.getElem?_map, hi]
  rfl

theorem channelAt_link (hb : net.numberPorts.link? .router r b = some l) :
    ∃ index l', net.wiring.channelAt r l.port = some (.chan index) ∧
      net.links[index]? = some (r, b, l') ∧ l'.lat = l.lat := by
  obtain ⟨i, l', hi, rfl⟩ := link?_numberPorts.mp hb
  -- The channels of the router are in the same places as the entries of its row.
  have hplace : ((net.links.zipIdx.filter (·.1.1 = r)).map Prod.fst)[i]? = some (r, b, l') := by
    rw [links_of_router h hr, List.getElem?_map, hi]
    rfl
  rw [List.getElem?_map, Option.map_eq_some_iff] at hplace
  obtain ⟨⟨c, index⟩, hc, rfl⟩ := hplace
  have hindex : net.links[index]? = some (r, b, l') :=
    mk_mem_zipIdx_iff_getElem?.mp (mem_filter.mp (mem_of_getElem? hc)).1
  refine ⟨index, l', ?_, hindex, rfl⟩
  have hport : ((net.firstPort .router r : ℤ) + i) = ((net.row .node r).length + i : ℕ) := by
    simp [firstPort]
  rw [hport, Wiring.channelAt_natCast, outputs_eq h hr,
    List.getElem?_append_right (by simp), length_map, Nat.add_sub_cancel_left,
    List.getElem?_map, hc]
  rfl

end Wires

theorem sink_link {a index : ℕ} (hindex : net.links[index]? = some (a, b, l)) :
    (net.wiring.sink (.chan index)).map Prod.fst = some b := by
  have hinput : ∀ r, Attach.input r (.chan index) ∈ net.calls ↔
      ∃ a l, net.links[index]? = some (a, r, l) := by
    intro r
    simp only [calls, attachNodes, attachLink, mem_append, mem_flatMap]
    constructor
    · grind
    · rintro ⟨a, l, hl⟩
      exact .inr ⟨((a, r, l), index), mk_mem_zipIdx_iff_getElem?.mpr hl, by simp⟩
  refine Wiring.sink_wire ((hinput b).mpr ⟨a, l, hindex⟩) fun r hr => ?_
  obtain ⟨a', l', hl⟩ := (hinput r).mp hr
  cases hindex.symm.trans hl
  rfl

end BookSim.AnyNet
