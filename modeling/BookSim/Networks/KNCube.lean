/-
# KNCube — the wires of the k-ary n-cube

`KNCube::_BuildNet` builds mesh and torus alike: a mesh has the channels around the edge,
too, and its routing functions do not use them.  Port `2·dim` of a router goes to its right
neighbour in `dim`, port `2·dim + 1` to the left one, and port `2·n` to its node; the
channel numbers follow suit.  What comes of it is

    output port p of r      channel 2·n·r + p                        `channelAt_port`
    channel 2·n·r + p       the neighbour of r, its input p ^ 1      `sink_port`
    output port 2·n of r    node r                                   `channelAt_eject`
    node r                  input port 2·n of r                      `sink_inject`

so a flit that goes straight on leaves by its input port with the last bit flipped.
-/
import BookSim.Flight
import BookSim.Networks.CKNMesh

namespace BookSim

open List

/-- The parameters `_ComputeSize` reads. -/
structure KNCube where
  k : ℕ
  n : ℕ
  k_pos : 0 < k

namespace KNCube

open MixedRadix CKNCube Routing RingWay

variable (net : KNCube)

/-! ## Building the network -/

def size : ℕ := net.k ^ net.n

def leftChannel (node dim : ℕ) : ℕ := 2 * net.n * node + (2 * dim + 1)

def rightChannel (node dim : ℕ) : ℕ := 2 * net.n * node + 2 * dim

def leftNode (node dim : ℕ) : ℕ :=
  let kToDim := net.k ^ dim
  let locInDim := node / kToDim % net.k
  if locInDim = 0 then node + (net.k - 1) * kToDim else node - kToDim

def rightNode (node dim : ℕ) : ℕ :=
  let kToDim := net.k ^ dim
  let locInDim := node / kToDim % net.k
  if locInDim = net.k - 1 then node - (net.k - 1) * kToDim else node + kToDim

/-- The calls `_BuildNet` makes for one router. -/
def attachRouter (node : ℕ) : List Attach :=
  ((List.range net.n).flatMap fun dim =>
    [.input node (.chan (net.leftChannel (net.rightNode node dim) dim)),
     .input node (.chan (net.rightChannel (net.leftNode node dim) dim)),
     .output node (.chan (net.rightChannel node dim)),
     .output node (.chan (net.leftChannel node dim))]) ++
  [.input node (.inject node), .output node (.eject node)]

def buildNet : List Attach := (List.range net.size).flatMap net.attachRouter

def wiring : Wiring := Wiring.wire net.buildNet

/-- The globals the routing functions read on this network. -/
def globals (vcs : ClassVCs) : Globals where
  gK := net.k
  gN := net.n
  gNodes := net.size
  gP := 0
  gA := 0
  gG := 0
  vcs := vcs

/-- The flits a registered routing function sends over the network. -/
def flights (vcs : ClassVCs) (fn : RoutingFunction) : RouteSystem Flight Sent ℕ :=
  Routing.flights net.wiring net.size (gRoutingFunctionMap fn (net.globals vcs))

/-! ## Positions -/

/-- The coordinates of a router. -/
def position (node : ℕ) : List ℕ := digits (List.replicate net.n net.k) node

/-- The router on the other side of an output port. -/
def neighbour (node port : ℕ) : ℕ :=
  if port % 2 = 0 then net.rightNode node (port / 2) else net.leftNode node (port / 2)

variable {net} {node dim : ℕ}

theorem fits_position (node : ℕ) : Fits (List.replicate net.n net.k) (net.position node) :=
  fits_digits (fun _ hk => eq_of_mem_replicate hk ▸ net.k_pos) node

@[simp] theorem length_position (node : ℕ) : (net.position node).length = net.n := by
  simp [position]

theorem prod_radices (n k : ℕ) : (List.replicate n k).prod = k ^ n := by simp

theorem value_position (h : node < net.size) :
    value (List.replicate net.n net.k) (net.position node) = node :=
  value_digits (by rwa [prod_radices])

theorem position_inj {node' : ℕ} (h : node < net.size) (h' : node' < net.size)
    (heq : net.position node = net.position node') : node = node' := by
  rw [← value_position h, ← value_position h', heq]

theorem getD_radices (hdim : dim < net.n) : (List.replicate net.n net.k).getD dim 0 = net.k := by
  simp [getD_eq_getElem?_getD, hdim]

theorem prod_take_radices (hdim : dim < net.n) :
    ((List.replicate net.n net.k).take dim).prod = net.k ^ dim := by
  rw [take_replicate, Nat.min_eq_left hdim.le, prod_radices]

theorem getD_position (hdim : dim < net.n) :
    (net.position node).getD dim 0 = node / net.k ^ dim % net.k := by
  rw [position, getD_digits node (by simpa using hdim), prod_take_radices hdim, getD_radices hdim]

theorem getD_position_lt (hdim : dim < net.n) : (net.position node).getD dim 0 < net.k := by
  have h := getD_lt_of_fits (@fits_position net node)
    (show dim < (List.replicate net.n net.k).length by simpa using hdim)
  rwa [getD_radices hdim] at h

theorem position_of_value {node' d : ℕ} (h : node < net.size) (hdim : dim < net.n) (hd : d < net.k)
    (heq : node' + net.k ^ dim * (net.position node).getD dim 0 = node + net.k ^ dim * d) :
    node' < net.size ∧ net.position node' = (net.position node).set dim d := by
  have hset := value_set d (show (net.position node).length = (List.replicate net.n net.k).length
    by simp) (show dim < (List.replicate net.n net.k).length by simpa using hdim)
  have hfits : Fits (List.replicate net.n net.k) ((net.position node).set dim d) :=
    fits_set (fits_position node) (by rwa [getD_radices hdim])
  rw [prod_take_radices hdim, value_position h] at hset
  obtain rfl : node' = value (List.replicate net.n net.k) ((net.position node).set dim d) := by
    omega
  exact ⟨(value_lt hfits).trans_eq (prod_radices _ _), digits_value hfits⟩

theorem position_neighbour {port : ℕ} (h : node < net.size) (hport : port < 2 * net.n) :
    net.neighbour node port < net.size ∧ net.position (net.neighbour node port) =
      (net.position node).set (port / 2)
        (move net.k (toRight port) ((net.position node).getD (port / 2) 0)) := by
  have hdim : port / 2 < net.n := by omega
  have hlt : (net.position node).getD (port / 2) 0 < net.k := getD_position_lt hdim
  refine position_of_value h hdim (move_lt hlt _) ?_
  simp only [neighbour, move, toRight, decide_eq_true_eq]
  split
  · rw [rightNode, ← getD_position hdim]
    by_cases hedge : (net.position node).getD (port / 2) 0 = net.k - 1
    · have hle : (net.k - 1) * net.k ^ (port / 2) ≤ node := by
        rw [← hedge, getD_position hdim]
        exact (Nat.mul_le_mul_right _ (Nat.mod_le _ _)).trans (Nat.div_mul_le_self _ _)
      simp only [hedge, if_true, RingWay.next, Nat.mul_comm (net.k ^ (port / 2))]
      omega
    · simp only [hedge, if_false, RingWay.next, Nat.mul_add_one]
      omega
  · rw [leftNode, ← getD_position hdim]
    by_cases hedge : (net.position node).getD (port / 2) 0 = 0
    · simp only [hedge, if_true, RingWay.prev, Nat.mul_comm (net.k ^ (port / 2))]
      omega
    · have hle : net.k ^ (port / 2) ≤ node := by
        have hdiv : 0 < node / net.k ^ (port / 2) := by
          rw [getD_position hdim] at hedge
          exact Nat.pos_of_ne_zero fun h0 => hedge (by rw [h0, Nat.zero_mod])
        exact Nat.le_of_not_lt fun hn => hdiv.ne' (Nat.div_eq_of_lt hn)
      obtain ⟨d, hd⟩ : ∃ d, (net.position node).getD (port / 2) 0 = d + 1 :=
        Nat.exists_eq_succ_of_ne_zero hedge
      simp only [hd, Nat.succ_ne_zero, if_false, RingWay.prev, Nat.mul_add_one, Nat.add_sub_cancel]
      omega

theorem isGrid (net : KNCube) :
    IsGrid (List.replicate net.n net.k) net.size net.position net.neighbour := by
  refine ⟨fits_position, position_inj, fun {r p} h hp => ?_, fun {r p} h hp => ?_⟩
  · rw [length_replicate] at hp
    exact (position_neighbour h hp).1
  · rw [length_replicate] at hp
    rw [getD_radices (by omega)]
    exact (position_neighbour h hp).2

/-! ## The ports of a router -/

theorem filterMap_outputOf_attachRouter (router r : ℕ) :
    (net.attachRouter r).filterMap (Wiring.outputOf router) =
      if r = router then
        ((List.range net.n).flatMap fun dim =>
          [.chan (net.rightChannel router dim), .chan (net.leftChannel router dim)]) ++
        [.eject router]
      else [] := by
  rw [attachRouter, filterMap_append, filterMap_flatMap]
  by_cases h : r = router
  · subst h
    simp [Wiring.outputOf, filterMap_cons]
  · simp [Wiring.outputOf, filterMap_cons, h]

theorem filterMap_inputOf_attachRouter (router r : ℕ) :
    (net.attachRouter r).filterMap (Wiring.inputOf router) =
      if r = router then
        ((List.range net.n).flatMap fun dim =>
          [.chan (net.leftChannel (net.rightNode router dim) dim),
           .chan (net.rightChannel (net.leftNode router dim) dim)]) ++ [.inject router]
      else [] := by
  rw [attachRouter, filterMap_append, filterMap_flatMap]
  by_cases h : r = router
  · subst h
    simp [Wiring.inputOf, filterMap_cons]
  · simp [Wiring.inputOf, filterMap_cons, h]

theorem outputChannels_wiring (node : ℕ) : net.wiring.outputChannels node = if node < net.size then
      ((List.range net.n).flatMap fun dim =>
        [.chan (net.rightChannel node dim), .chan (net.leftChannel node dim)]) ++
      [.eject node] else [] := by
  rw [wiring, Wiring.outputChannels_wire, buildNet, filterMap_flatMap]
  simp only [filterMap_outputOf_attachRouter]
  rw [flatMap_range_ite]

theorem output_port (h : node < net.size) (p : ℕ) :
    net.wiring.channelAt node p = if p < 2 * net.n then some (.chan (2 * net.n * node + p))
      else if p = 2 * net.n then some (.eject node) else none := by
  rw [Wiring.channelAt_natCast, outputChannels_wiring, if_pos h,
    getElem?_ports (fun dim => Channel.chan (net.rightChannel node dim))
      (fun dim => .chan (net.leftChannel node dim)), getElem?_singleton, rightChannel, leftChannel]
  split_ifs <;> try omega
  · rw [show 2 * (p / 2) = p by omega]
  · rw [show 2 * (p / 2) + 1 = p by omega]
  · rfl
  · rfl

theorem channelAt_port {port : ℕ} (h : node < net.size) (hport : port < 2 * net.n) :
    net.wiring.channelAt node port = some (.chan (2 * net.n * node + port)) := by
  rw [output_port h, if_pos hport]

theorem channelAt_eject (h : node < net.size) :
    net.wiring.channelAt node (2 * net.n : ℕ) = some (.eject node) := by
  rw [output_port h, if_neg (by omega), if_pos rfl]

/-! ## Where the channels lead -/

/-- The input ports: what comes in by a port was sent by the neighbour on that side.  Routers that
do not exist have no ports. -/
theorem input_port (node p : ℕ) :
    (net.buildNet.filterMap (Wiring.inputOf node))[p]? = if node < net.size then
      if p < 2 * net.n then some (.chan (2 * net.n * net.neighbour node p + (p ^^^ 1)))
      else if p = 2 * net.n then some (.inject node) else none
    else none := by
  rw [buildNet, filterMap_flatMap]
  simp only [filterMap_inputOf_attachRouter]
  rw [flatMap_range_ite]
  by_cases h : node < net.size
  · rw [if_pos h, if_pos h, getElem?_ports (fun dim => Channel.chan
      (net.leftChannel (net.rightNode node dim) dim)) (fun dim => .chan
      (net.rightChannel (net.leftNode node dim) dim)), getElem?_singleton, xor_one_eq, neighbour,
      leftChannel, rightChannel]
    split_ifs <;> try omega
    · rw [show 2 * (p / 2) + 1 = p + 1 by omega]
    · rw [show 2 * (p / 2) = p - 1 by omega]
    · rfl
    · rfl
  · rw [if_neg h, if_neg h]
    rfl

theorem sink_port {port : ℕ} (h : node < net.size) (hport : port < 2 * net.n) :
    net.wiring.sink (.chan (2 * net.n * node + port)) =
      some (net.neighbour node port, port ^^^ 1) := by
  have hsink := @IsGrid.sink_port _ _ _ _ net.isGrid _ _ h net.buildNet (fun {r p index} => ?_)
    (by rwa [length_replicate])
  · rwa [length_replicate] at hsink
  · rw [length_replicate, input_port]
    split_ifs <;> simp_all [eq_comm]

theorem input_inject {router p : ℕ} :
    (net.buildNet.filterMap (Wiring.inputOf router))[p]? = some (.inject node) ↔
      node < net.size ∧ router = node ∧ p = 2 * net.n := by
  rw [input_port]
  split_ifs <;> simp_all <;> omega

theorem sink_inject (h : node < net.size) :
    net.wiring.sink (.inject node) = some (node, 2 * net.n) :=
  Wiring.sink_wire_port (input_inject.mpr ⟨h, rfl, rfl⟩) fun _ _ hp => (input_inject.mp hp).2

theorem of_sink_inject {router inPort : ℕ}
    (h : net.wiring.sink (.inject node) = some (router, inPort)) :
    node < net.size ∧ router = node ∧ inPort = 2 * net.n := by
  have hlisted := Wiring.sinksListed_wire net.buildNet _ _ _ h
  rw [Wiring.inputChannels_wire] at hlisted
  exact input_inject.mp hlisted

theorem linked_neighbour {router next : ℕ} (h : net.wiring.Linked router next) :
    router < net.size ∧ ∃ port < 2 * net.n, next = net.neighbour router port := by
  obtain ⟨port, index, inPort, hchan, hsink⟩ := h
  have hlt : router < net.size := by
    by_contra hge
    rw [Wiring.channelAt, outputChannels_wiring, if_neg hge] at hchan
    simp at hchan
  have hneg : ¬ port < 0 := fun hneg => by simp [Wiring.channelAt, hneg] at hchan
  obtain ⟨p, rfl⟩ : ∃ p : ℕ, port = p := ⟨port.toNat, by omega⟩
  have hport : p < 2 * net.n := by
    by_contra hge
    rw [output_port hlt, if_neg hge] at hchan
    split at hchan
    · simp at hchan
    · simp at hchan
  rw [channelAt_port hlt hport] at hchan
  cases hchan
  rw [sink_port hlt hport] at hsink
  cases hsink
  exact ⟨hlt, p, hport, rfl⟩

/-! ## Flits on their way -/

/-- A flit of class `cl` for node `dest`, at a router and on a VC of its class. -/
structure Underway (net : KNCube) (vcs : ClassVCs) (cl dest : ℕ) (s : Flight) : Prop where
  router_lt : s.router < net.size
  dest_lt : dest < net.size
  dest_eq : s.flit.dest = dest
  cl_eq : s.flit.cl = cl
  holds : vcs.Holds s.flit

variable {vcs : ClassVCs} {fn : RoutingFunction}

theorem underway_of_start
    (hoffers : InjectsClass (net.globals vcs) (gRoutingFunctionMap fn (net.globals vcs)))
    {s : Flight} (h : (net.flights vcs fn).start s) :
    net.Underway vcs s.flit.cl s.flit.dest s ∧ s.flit.src = s.router ∧ s.inPort = 2 * net.n := by
  obtain ⟨hinjected, hdest, hsink⟩ := h
  obtain ⟨hsrc, hrouter, hport⟩ := of_sink_inject hsink
  have hholds : vcs.Holds s.flit := hoffers.holds hinjected
  exact ⟨⟨hrouter ▸ hsrc, hdest, rfl, rfl, hholds⟩, hrouter.symm, hport⟩

/-- With a single range on offer, the packet can take any VC of it to the neighbour. -/
theorem hop_of_single {s : Flight} {c : Call} {port : ℕ} {r : VCRange} {f : Flit} {v : ℤ}
    (hc : s.Calls c)
    (hroute : gRoutingFunctionMap fn (net.globals vcs) c = some ⟨single port r, f⟩)
    (hvc : r.vcBegin ≤ v ∧ v ≤ r.vcEnd) (hrouter : s.router < net.size) (hport : port < 2 * net.n) :
    (net.flights vcs fn).outcome s (.hop ⟨c, port, 2 * net.n * s.router + port, { f with vc := v }⟩
      ⟨net.neighbour s.router port, port ^^^ 1, { f with vc := v }⟩) := by
  refine ⟨c, hc, ?_⟩
  rw [← hc.router] at hrouter ⊢
  have hdecided : Decided net.wiring c (some ⟨single port r, f⟩)
      (sentTo net.wiring c port { f with vc := v }) :=
    (decided_single (hvc.1.trans hvc.2)).mpr ⟨v, hvc.1, hvc.2, rfl⟩
  rwa [sentTo_chan (channelAt_port hrouter hport) (sink_port hrouter hport), ← hroute] at hdecided

end KNCube

end BookSim
