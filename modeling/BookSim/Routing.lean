/-
# The routing functions of the mesh, the torus and the dragonfly

`routefunc.cpp` and `networks/dragonfly.cpp`.  A routing function looks at a router, a flit
and the input channel it came by, and fills an `OutputSet` with the output ports and VC
ranges the flit may take; it may also move the flit to another phase (`ph`) or choose an
intermediate destination for it (`intm`).

    mesh          dor  xy_yx  adaptive_xy_yx  dim_order  dim_order_ni  dim_order_pni
                  romm  romm_ni  min_adapt  planar_adapt  valiant  chaos
    torus         dim_order  dim_order_ni  dim_order_bal  min_adapt  valiant  valiant_ni
                  chaos
    dragonflynew  min  ugal

A result `none` stands for a failed assertion or a call of `Error`.  Each draw of
`RandomInt` has a number of its own in the function, and `rnd` says what the generator
returns there.  A flit that is in phase 0 of a two-phase route has been given an
intermediate destination, so `intm` is read as a node number there.
-/
import Mathlib.Data.List.Basic
import BookSim.Flit
import BookSim.OutputSet

namespace BookSim.Routing

/-! ## What a routing function sees -/

/-- The globals of the network, as `_ComputeSize` and `InitializeRoutingMap` set them. -/
structure Globals where
  gK : ℕ
  gN : ℕ
  gNodes : ℕ
  /-- Nodes per router, routers per group and groups of a dragonfly. -/
  gP : ℕ
  gA : ℕ
  gG : ℕ
  vcs : ClassVCs

/-- What is read of a router: its number, `GetUsedCredit` and `IsFaultyOutput`. -/
structure RouterView where
  id : ℕ
  usedCredit : ℕ → ℤ
  isFaultyOutput : ℕ → Bool

/-- One call of a routing function.  `uninit` is what a variable holds that the source reads
before writing it. -/
structure Call where
  router : RouterView
  flit : Flit
  inChannel : ℕ
  inject : Bool
  rnd : ℕ → ℕ
  uninit : ℤ

/-- What a call leaves behind: the route set, and the flit with its new phase. -/
structure Routed where
  outputs : OutputSet
  flit : Flit

/-- `RandomInt(max)` at its `site`-th place. -/
def Call.randomInt (c : Call) (site max : ℕ) : ℕ := c.rnd site % (max + 1)

/-- A range of VCs, as the pair `vcBegin`, `vcEnd` the functions narrow down. -/
structure VCRange where
  vcBegin : ℤ
  vcEnd : ℤ
  deriving DecidableEq, Repr

/-- The range of the flit's class. -/
def classRange (g : Globals) (c : Call) : VCRange :=
  ⟨g.vcs.gBeginVCs c.flit.cl, g.vcs.gEndVCs c.flit.cl⟩

/-- Keep the upper or the lower half of a range, which has to have two VCs at least. -/
def VCRange.half (r : VCRange) (upper : Bool) : Option VCRange :=
  let availableVCs := (r.vcEnd - r.vcBegin + 1) / 2
  if availableVCs > 0 then
    some (if upper then ⟨r.vcBegin + availableVCs, r.vcEnd⟩
      else ⟨r.vcBegin, r.vcEnd - availableVCs⟩)
  else none

/-- The half of a phase: the lower one for phase 0, the upper one for phase 1. -/
def VCRange.phaseHalf (r : VCRange) (ph : ℤ) : Option VCRange :=
  if ph = 0 then r.half false else if ph = 1 then r.half true else none

/-- Keep the `i`-th of `parts` equal slices of a range, none of which may be empty. -/
def VCRange.slice (r : VCRange) (parts i : ℕ) : Option VCRange :=
  let vcsPerDest := (r.vcEnd - r.vcBegin + 1) / parts
  if vcsPerDest > 0 then
    some ⟨r.vcBegin + i * vcsPerDest, r.vcBegin + i * vcsPerDest + vcsPerDest - 1⟩
  else none

/-- The two cuts of the valiant routes on a torus: by ring partition, then by phase. -/
def VCRange.ringPhase (r : VCRange) (ringPart phase : ℤ) : Option VCRange :=
  let ringAvailableVCs := (r.vcEnd - r.vcBegin + 1) / 2
  let phAvailableVCs := ringAvailableVCs / 2
  if ringAvailableVCs > 0 ∧ phAvailableVCs > 0 ∧ (ringPart = 0 ∨ ringPart = 1) ∧
      (phase = 0 ∨ phase = 1) then
    let ring : VCRange :=
      if ringPart = 0 then ⟨r.vcBegin, r.vcEnd - ringAvailableVCs⟩
      else ⟨r.vcBegin + ringAvailableVCs, r.vcEnd⟩
    some (if phase = 0 then ⟨ring.vcBegin, ring.vcEnd - phAvailableVCs⟩
      else ⟨ring.vcBegin + phAvailableVCs, ring.vcEnd⟩)
  else none

/-- The opening of most functions: the assertion on the flit's VC, then its class's range. -/
def admitted (g : Globals) (c : Call) : Option VCRange :=
  if g.vcs.Admits c.flit c.inject then some (classRange g c) else none

/-- `outputs->Clear(); outputs->AddRange(out_port, vcBegin, vcEnd)`. -/
def single (outPort : ℤ) (r : VCRange) : OutputSet :=
  OutputSet.clear.addRange outPort r.vcBegin r.vcEnd 0

/-! ## Ports -/

/-- The loop of dimension-order routing, upwards: skip the dimensions where the digits agree. -/
def skipAgreeing (gK : ℕ) : ℕ → ℕ → ℕ → ℕ → ℕ × ℕ × ℕ
  | 0, dimLeft, cur, dest => (dimLeft, cur, dest)
  | left + 1, dimLeft, cur, dest =>
    if cur % gK ≠ dest % gK then (dimLeft, cur, dest)
    else skipAgreeing gK left (dimLeft + 1) (cur / gK) (dest / gK)

/-- The same loop downwards, on the most significant digit. -/
def skipAgreeingDown (gK gNodes : ℕ) : ℕ → ℕ → ℕ → ℕ × ℕ × ℕ
  | 0, cur, dest => (0, cur, dest)
  | dimLeft + 1, cur, dest =>
    if cur * gK / gNodes ≠ dest * gK / gNodes then (dimLeft + 1, cur, dest)
    else skipAgreeingDown gK gNodes dimLeft (cur * gK % gNodes) (dest * gK % gNodes)

/-- `dor_next_mesh`. -/
def dorNextMesh (g : Globals) (cur dest : ℕ) (descending : Bool) : ℕ :=
  if cur = dest then 2 * g.gN
  else if descending then
    let (dimLeft, cur, dest) := skipAgreeingDown g.gK g.gNodes (g.gN - 1) cur dest
    if cur * g.gK / g.gNodes < dest * g.gK / g.gNodes then 2 * dimLeft else 2 * dimLeft + 1
  else
    let (dimLeft, cur, dest) := skipAgreeing g.gK (g.gN - 1) 0 cur dest
    if cur % g.gK < dest % g.gK then 2 * dimLeft else 2 * dimLeft + 1

/-- The size of the ring minus twice the way to the right: positive when right is shorter. -/
def dist2 (gK cur dest : ℕ) : ℤ := gK - 2 * (((dest : ℤ) - cur + gK) % gK)

/-- `dor_next_torus`: the output port, and the ring partition if it is written. -/
def dorNextTorus (g : Globals) (c : Call) (cur dest inPort : ℕ) (balance : Bool) : ℕ × Option ℤ :=
  let (dimLeft, cur, dest) := skipAgreeing g.gK g.gN 0 cur dest
  if dimLeft < g.gN then
    if inPort / 2 ≠ dimLeft then
      let cur := cur % g.gK
      let dest := dest % g.gK
      let right := dist2 g.gK cur dest > 0 ∨ dist2 g.gK cur dest = 0 ∧ c.randomInt 0 1 ≠ 0
      let mid := (g.gK - 1) / 2
      let partition : ℤ :=
        if balance then
          if right ∧ cur > dest ∨ ¬right ∧ cur < dest then 1
          else if right ∧ cur ≤ mid ∧ dest > mid ∨ ¬right ∧ cur > mid ∧ dest ≤ mid then 0
          else c.randomInt 1 1
        else if right ∧ cur > dest ∨ ¬right ∧ dest < cur then 1
        else 0
      (if right then 2 * dimLeft else 2 * dimLeft + 1, some partition)
    else (inPort ^^^ 1, none)
  else (2 * g.gN, none)

/-- `rand_min_intr_mesh`: a random node in the box spanned by source and destination. -/
def randMinIntrMesh (g : Globals) (c : Call) : ℕ → ℕ → ℕ → ℕ → ℕ → ℕ
  | 0, _, _, _, intm => intm
  | left + 1, src, dest, offset, intm =>
    let dist : ℤ := (dest % g.gK : ℕ) - (src % g.gK : ℕ)
    let coord :=
      if dist > 0 then src % g.gK + c.randomInt left dist.toNat
      else dest % g.gK + c.randomInt left (-dist).toNat
    randMinIntrMesh g c left (src / g.gK) (dest / g.gK) (offset * g.gK) (intm + offset * coord)

/-- Run `body` for each dimension in which the digits of `cur` and `dest` differ. -/
def forDiffering (gK : ℕ) (body : ℕ → ℕ → ℕ → OutputSet → OutputSet) :
    ℕ → ℕ → ℕ → ℕ → OutputSet → OutputSet
  | 0, _, _, _, outputs => outputs
  | left + 1, n, cur, dest, outputs =>
    forDiffering gK body left (n + 1) (cur / gK) (dest / gK)
      (if cur % gK ≠ dest % gK then body n (cur % gK) (dest % gK) outputs else outputs)

/-- `dragonfly_port`. -/
def dragonflyPort (g : Globals) (rID dest : ℕ) : ℕ :=
  let grpNumNodes := g.gA * g.gP
  let grpID := rID / g.gA
  let destGrpID := dest / grpNumNodes
  let grpOutput := if grpID > destGrpID then destGrpID else destGrpID - 1
  let grpRID := if destGrpID = grpID then dest / g.gP else grpOutput / g.gP + grpID * g.gA
  if rID * g.gP ≤ dest ∧ dest < (rID + 1) * g.gP then dest % g.gP
  else if grpRID = rID then g.gP + (g.gA - 1) + grpOutput % g.gP
  else if rID < grpRID then grpRID % g.gA + g.gP - 1
  else grpRID % g.gA + g.gP

/-! ## Mesh -/

section Functions

variable (g : Globals) (c : Call)

/-- The output port of the functions that route by dimension order alone. -/
def dorPort : ℤ := if c.inject then -1 else dorNextMesh g c.router.id c.flit.dest false

def dimOrderMesh : Option Routed := do
  let r ← admitted g c
  some ⟨single (dorPort g c) r, c.flit⟩

/-- The range of a destination of its own; at the destination router there is no need for it. -/
def sliceByDest (r : VCRange) : Option VCRange :=
  if c.inject ∨ c.router.id ≠ c.flit.dest then r.slice g.gNodes c.flit.dest else some r

def dimOrderNiMesh : Option Routed := do
  let r ← sliceByDest g c (← admitted g c)
  some ⟨single (dorPort g c) r, c.flit⟩

/-- `next_coord`: the coordinate of the destination in the dimension of the output port. -/
def nextCoord : ℕ :=
  if c.inject then c.flit.dest % g.gK
  else c.flit.dest / g.gK ^ (dorNextMesh g c.router.id c.flit.dest false / 2) % g.gK

def dimOrderPniMesh : Option Routed := do
  let r ← admitted g c
  let r ← (if c.inject ∨ c.router.id ≠ c.flit.dest then
      if nextCoord g c < g.gK then r.slice g.gK (nextCoord g c) else none
    else some r)
  some ⟨single (dorPort g c) r, c.flit⟩

/-- The common part of the two `xy_yx` functions: `fresh` is the choice at the source. -/
def xyYx (fresh : Bool) : Option Routed := do
  let r ← admitted g c
  if c.inject then some ⟨single (-1) r, c.flit⟩
  else if c.router.id = c.flit.dest then some ⟨single (2 * g.gN) r, c.flit⟩
  else
    let xThenY : Bool :=
      if c.inChannel < 2 * g.gN then
        decide (c.flit.vc < r.vcBegin + (r.vcEnd - r.vcBegin + 1) / 2)
      else fresh
    let r ← r.half (!xThenY)
    some ⟨single (dorNextMesh g c.router.id c.flit.dest (!xThenY)) r, c.flit⟩

def xyYxMesh : Option Routed := xyYx g c (c.randomInt 0 1 > 0)

def adaptiveXyYxMesh : Option Routed :=
  let creditXy := c.router.usedCredit (dorNextMesh g c.router.id c.flit.dest false)
  let creditYx := c.router.usedCredit (dorNextMesh g c.router.id c.flit.dest true)
  xyYx g c (if creditXy > creditYx then false
    else if creditXy < creditYx then true else c.randomInt 0 1 > 0)

/-- The phase of a two-phase route on the mesh, where `fresh` is the intermediate node a
packet is given at its source. -/
def meshPhase (fresh : ℕ) : Flit :=
  let f := if c.inChannel = 2 * g.gN then { c.flit with ph := 0, intm := fresh } else c.flit
  if f.ph = 0 ∧ (c.router.id : ℤ) = f.intm then { f with ph := 1 } else f

/-- Where a two-phase route is heading. -/
def phasePort (f : Flit) : ℕ :=
  dorNextMesh g c.router.id (if f.ph = 0 then f.intm.toNat else f.dest) false

/-- The two-phase functions with one half of the VCs for each phase. -/
def twoPhaseMesh (fresh : ℕ) : Option Routed := do
  let r ← admitted g c
  if c.inject then some ⟨single (-1) r, c.flit⟩
  else
    let f := meshPhase g c fresh
    let r ← (if c.router.id ≠ c.flit.dest then r.phaseHalf f.ph else some r)
    some ⟨single (phasePort g c f) r, f⟩

def rommMesh : Option Routed :=
  twoPhaseMesh g c (randMinIntrMesh g c g.gN c.flit.src c.flit.dest 1 0)

def valiantMesh : Option Routed := twoPhaseMesh g c (c.randomInt 0 (g.gNodes - 1))

def rommNiMesh : Option Routed := do
  let r ← sliceByDest g c (← admitted g c)
  if c.inject then some ⟨single (-1) r, c.flit⟩
  else
    let f := meshPhase g c (randMinIntrMesh g c g.gN c.flit.src c.flit.dest 1 0)
    some ⟨single (phasePort g c f) r, f⟩

/-- The VC the adaptive functions take the flit to be on: the injection VC does not count. -/
def inVC (r : VCRange) : ℤ := if c.inChannel = 2 * g.gN then r.vcEnd else c.flit.vc

def minAdaptMesh : Option Routed := do
  let r ← admitted g c
  if c.inject then some ⟨single (-1) r, c.flit⟩
  else if c.router.id = c.flit.dest then some ⟨single (2 * g.gN) r, c.flit⟩
  else
    -- The arguments stand one place off: the range is `[0, vcBegin]`, its priority `vcBegin`.
    let escape := OutputSet.clear.addRange
      (dorNextMesh g c.router.id c.flit.dest false) 0 r.vcBegin r.vcBegin
    if inVC g c r ≠ r.vcBegin then
      some ⟨forDiffering g.gK (fun n cur dest outputs =>
        outputs.addRange (if cur < dest then 2 * n else 2 * n + 1) (r.vcBegin + 1) r.vcEnd 1)
        g.gN 0 c.router.id c.flit.dest escape, c.flit⟩
    else some ⟨escape, c.flit⟩

/-- The plane `planar_adapt_mesh` routes in: the first differing dimension, except that a
packet on a low VC that came in by dimension 0 passes over that dimension. -/
def planarDim (g : Globals) (c : Call) (low : ℤ) : ℕ → ℕ → ℕ → ℕ → ℕ × ℕ × ℕ
  | 0, n, cur, dest => (n, cur, dest)
  | left + 1, n, cur, dest =>
    if cur % g.gK ≠ dest % g.gK ∧ ¬(c.inChannel / 2 = 0 ∧ n = 0 ∧ c.flit.vc < low) then
      (n, cur, dest)
    else planarDim g c low left (n + 1) (cur / g.gK) (dest / g.gK)

/-- The port of a misroute: away from the edge, else at random but not back. -/
def misroutePort (n cur : ℕ) : ℕ :=
  if cur % g.gK = 0 then 2 * n
  else if cur % g.gK = g.gK - 1 then 2 * n + 1
  else if 2 * n + c.randomInt 0 1 = c.inChannel then c.inChannel ^^^ 1
  else 2 * n + c.randomInt 0 1

/-- The second dimension of the plane: a productive port if there is one, a misroute when the
first dimension is at fault. -/
def planarSecond (n cur dest : ℕ) (fault : Bool) (r : VCRange) (outputs : OutputSet) :
    Option OutputSet :=
  let productive : Option ℕ :=
    if cur % g.gK < dest % g.gK then some (2 * n)
    else if cur % g.gK ≠ dest % g.gK then some (2 * n + 1) else none
  let d1MinC : Option ℕ :=
    if productive = some c.inChannel then if fault then some (c.inChannel ^^^ 1) else none
    else productive
  match d1MinC with
  | some port =>
    if !c.router.isFaultyOutput port then some (outputs.addRange port r.vcBegin r.vcEnd 0)
    else if fault then none
    else some outputs
  | none =>
    if fault then
      let atEdge : Bool := cur % g.gK = 0 ∨ cur % g.gK = g.gK - 1
      let port := misroutePort g c n cur
      if !c.router.isFaultyOutput port then some (outputs.addRange port r.vcBegin r.vcEnd 0)
      else if !atEdge && !c.router.isFaultyOutput (port ^^^ 1) then
        some (outputs.addRange (port ^^^ 1 : ℕ) r.vcBegin r.vcEnd 0)
      else none
    else some outputs

/-- Routing in adaptive plane `n`. -/
def planarRoute (r : VCRange) (n cur dest : ℕ) : Option Routed :=
  let vcMult := (r.vcEnd - r.vcBegin + 1) / 3
  let increase : Bool := cur % g.gK < dest % g.gK
  let port := if increase then 2 * n else 2 * n + 1
  let fault := c.router.isFaultyOutput port
  let outputs := if fault then OutputSet.clear
    else OutputSet.clear.addRange port (r.vcBegin + 2 * vcMult) r.vcEnd 0
  let vcBegin := if increase then r.vcBegin else r.vcBegin + vcMult
  (planarSecond g c ((n + 1) % g.gN) (cur / g.gK) (dest / g.gK) fault
    ⟨vcBegin, vcBegin + vcMult - 1⟩ outputs).map fun outputs => ⟨outputs, c.flit⟩

def planarAdaptMesh : Option Routed := do
  let r ← admitted g c
  if c.inject then some ⟨single (-1) r, c.flit⟩
  else if c.router.id ≠ c.flit.dest then
    let vcMult := (r.vcEnd - r.vcBegin + 1) / 3
    let plane := planarDim g c (r.vcBegin + 2 * vcMult) g.gN 0 c.router.id c.flit.dest
    if plane.1 < g.gN then planarRoute g c r plane.1 plane.2.1 plane.2.2 else none
  else some ⟨single (2 * g.gN) r, c.flit⟩

def chaosMesh : Option Routed :=
  if c.inject then some ⟨single (-1) ⟨0, 0⟩, c.flit⟩
  else if c.router.id ≠ c.flit.dest then
    some ⟨forDiffering g.gK (fun n cur dest outputs =>
      outputs.addRange (if cur < dest then 2 * n else 2 * n + 1) 0 0 0)
      g.gN 0 c.router.id c.flit.dest OutputSet.clear, c.flit⟩
  else some ⟨single (2 * g.gN) ⟨0, 0⟩, c.flit⟩

/-! ## Torus -/

/-- `dor_next_torus` for the flit itself: the port, and the flit with its ring partition. -/
def torusStep (cur dest inPort : ℕ) (balance : Bool) : ℕ × Flit :=
  let next := dorNextTorus g c cur dest inPort balance
  (next.1, { c.flit with ph := next.2.getD c.flit.ph })

def dimOrderTorus : Option Routed := do
  let r ← admitted g c
  if c.inject then some ⟨single (-1) r, c.flit⟩
  else
    let step := torusStep g c c.router.id c.flit.dest c.inChannel false
    let r ← (if c.router.id ≠ c.flit.dest then r.half (step.2.ph ≠ 0) else some r)
    some ⟨single step.1 r, step.2⟩

def dimOrderNiTorus : Option Routed := do
  let r ← admitted g c
  if c.inject then some ⟨single (-1) r, c.flit⟩
  else
    let next := dorNextTorus g c c.router.id c.flit.dest c.inChannel false
    let r ← (if c.router.id ≠ c.flit.dest then r.slice g.gNodes c.flit.dest else some r)
    some ⟨single next.1 r, c.flit⟩

def dimOrderBalTorus : Option Routed := do
  let r ← admitted g c
  if c.inject then some ⟨single (-1) r, c.flit⟩
  else
    let step := torusStep g c c.router.id c.flit.dest c.inChannel true
    let r ← (if c.router.id ≠ c.flit.dest then r.phaseHalf step.2.ph else some r)
    some ⟨single step.1 r, step.2⟩

/-- The two valiant functions on a torus differ in what decides that the intermediate node is
reached: `valiant_torus` asks the phase it computed, `valiant_ni_torus` the field `ph`. -/
def valiantStep (ni : Bool) (r : VCRange) : Option Routed :=
  let source := c.inChannel = 2 * g.gN
  -- the places 0 and 1 are those of `dor_next_torus`
  let intm : ℤ := if source then c.randomInt 2 (g.gNodes - 1) else c.flit.intm
  let phase : ℤ := if source then 0 else c.flit.ph.tdiv 2
  let first : ℤ := if ni then c.flit.ph else phase
  let reached := first = 0 ∧ (c.router.id : ℤ) = intm
  let inChannel := if reached then 2 * g.gN else c.inChannel
  let phase := if !ni ∧ reached then 1 else phase
  let target := if first = 0 ∧ ¬reached then intm.toNat else c.flit.dest
  let next := dorNextTorus g c c.router.id target inChannel false
  let ringPart := next.2.getD c.uninit
  let f := { c.flit with intm := intm, ph := 2 * phase + ringPart }
  if c.router.id ≠ c.flit.dest then
    (r.ringPhase ringPart phase).map fun r => ⟨single next.1 r, f⟩
  else some ⟨single next.1 r, f⟩

def valiantTorus : Option Routed := do
  let r ← admitted g c
  if c.inject then some ⟨single (-1) r, c.flit⟩ else valiantStep g c false r

def valiantNiTorus : Option Routed := do
  let r ← sliceByDest g c (← admitted g c)
  if c.inject then some ⟨single (-1) r, c.flit⟩ else valiantStep g c true r

/-- The flit after `min_adapt_torus`: off the escape VCs the partition is chosen as if the
packet had just been injected. -/
def minAdaptStep (r : VCRange) : ℕ × Flit :=
  torusStep g c c.router.id c.flit.dest
    (if inVC g c r > r.vcBegin + 1 then 2 * g.gN else c.inChannel) false

def minAdaptTorus : Option Routed := do
  let r ← admitted g c
  if c.inject then some ⟨single (-1) r, c.flit⟩
  else
    -- There is no `return` for a packet at its destination.
    let outputs := if c.router.id = c.flit.dest then single (2 * g.gN) r else OutputSet.clear
    let outputs := if inVC g c r > r.vcBegin + 1 then
        forDiffering g.gK (fun n cur dest outputs =>
          outputs.addRange (if dist2 g.gK cur dest > 0 then 2 * n else 2 * n + 1)
            (r.vcBegin + 3) (r.vcBegin + 3) 1)
          g.gN 0 c.router.id c.flit.dest outputs
      else outputs
    let step := minAdaptStep g c r
    let escapeVC := if step.2.ph = 0 then r.vcBegin else r.vcBegin + 1
    some ⟨outputs.addRange step.1 escapeVC escapeVC 0, step.2⟩

def chaosTorus : Option Routed :=
  if c.inject then some ⟨single (-1) ⟨0, 0⟩, c.flit⟩
  else if c.router.id ≠ c.flit.dest then
    some ⟨forDiffering g.gK (fun n cur dest outputs =>
      let outputs := if dist2 g.gK cur dest ≥ 0 then outputs.addRange (2 * n) 0 0 0 else outputs
      if dist2 g.gK cur dest ≤ 0 then outputs.addRange (2 * n + 1) 0 0 0 else outputs)
      g.gN 0 c.router.id c.flit.dest OutputSet.clear, c.flit⟩
  else some ⟨single (2 * g.gN) ⟨0, 0⟩, c.flit⟩

/-! ## Dragonfly -/

/-- The injection VC of the dragonfly functions: any VC there is. -/
def injectVC : ℤ := c.randomInt 0 (g.vcs.gNumVCs - 1)

/-- The flit after `min_dragonflynew`: phase 0 at the source router, phase 1 from the optical
link on.  The comparison with `dest_grp_ID`, which is still -1, never holds. -/
def minDragonflyFlit : Flit :=
  let f := if c.inChannel < g.gP then { c.flit with ph := 0 } else c.flit
  if dragonflyPort g c.router.id c.flit.dest ≥ g.gP + (g.gA - 1) then { f with ph := 1 } else f

def minDragonflynew : Option Routed :=
  if c.inject then some ⟨single (-1) ⟨injectVC g c, injectVC g c⟩, c.flit⟩
  else
    let f := minDragonflyFlit g c
    some ⟨single (dragonflyPort g c.router.id c.flit.dest) ⟨f.ph, f.ph⟩, f⟩

/-- The adaptive decision of `ugal_dragonflynew` at the source router. -/
def ugalSource : Flit :=
  let grpNumNodes := g.gA * g.gP
  let grpID := c.router.id / g.gA
  if c.flit.dest / grpNumNodes = grpID then { c.flit with ph := 2 }
  else
    let intm := c.randomInt 0 (g.gA * g.gP * g.gG - 1)
    if grpID = intm / grpNumNodes then { c.flit with intm := intm, ph := 1 }
    else
      let minQueueSize := max (c.router.usedCredit (dragonflyPort g c.router.id c.flit.dest)) 0
      let nonminQueueSize := max (c.router.usedCredit (dragonflyPort g c.router.id intm)) 0
      { c.flit with
        intm := intm, ph := if minQueueSize ≤ 2 * nonminQueueSize + 30 then 1 else 0 }

/-- The flit after `ugal_dragonflynew`; `none` when its phase is none of the three. -/
def ugalFlit : Option (ℕ × Flit) :=
  let f := if c.inChannel < g.gP then ugalSource g c else c.flit
  let f := if f.ph = 0 ∧ c.router.id = f.intm.toNat / g.gP then { f with ph := 1 } else f
  if f.ph = 0 then some (dragonflyPort g c.router.id f.intm.toNat, f)
  else if f.ph = 1 ∨ f.ph = 2 then
    let port := dragonflyPort g c.router.id f.dest
    some (port, if f.ph = 1 ∧ port ≥ g.gP + (g.gA - 1) then { f with ph := 2 } else f)
  else none

def ugalDragonflynew : Option Routed :=
  if g.vcs.gNumVCs = 3 then
    if c.inject then some ⟨single (-1) ⟨injectVC g c, injectVC g c⟩, c.flit⟩
    else (ugalFlit g c).map fun route => ⟨single route.1 ⟨route.2.ph, route.2.ph⟩, route.2⟩
  else none

end Functions

/-! ## The registered functions -/

/-- The names under which `InitializeRoutingMap` and `RegisterRoutingFunctions` register
routing functions for the mesh, the torus and the dragonfly. -/
inductive RoutingFunction where
  | dor_mesh | xy_yx_mesh | adaptive_xy_yx_mesh | dim_order_mesh | dim_order_ni_mesh
  | dim_order_pni_mesh | romm_mesh | romm_ni_mesh | min_adapt_mesh | planar_adapt_mesh
  | valiant_mesh | chaos_mesh
  | dim_order_torus | dim_order_ni_torus | dim_order_bal_torus | min_adapt_torus
  | valiant_torus | valiant_ni_torus | chaos_torus
  | min_dragonflynew | ugal_dragonflynew
  deriving DecidableEq, Repr

/-- `gRoutingFunctionMap`. -/
def gRoutingFunctionMap : RoutingFunction → Globals → Call → Option Routed
  | .dor_mesh => dimOrderMesh
  | .xy_yx_mesh => xyYxMesh
  | .adaptive_xy_yx_mesh => adaptiveXyYxMesh
  | .dim_order_mesh => dimOrderMesh
  | .dim_order_ni_mesh => dimOrderNiMesh
  | .dim_order_pni_mesh => dimOrderPniMesh
  | .romm_mesh => rommMesh
  | .romm_ni_mesh => rommNiMesh
  | .min_adapt_mesh => minAdaptMesh
  | .planar_adapt_mesh => planarAdaptMesh
  | .valiant_mesh => valiantMesh
  | .chaos_mesh => chaosMesh
  | .dim_order_torus => dimOrderTorus
  | .dim_order_ni_torus => dimOrderNiTorus
  | .dim_order_bal_torus => dimOrderBalTorus
  | .min_adapt_torus => minAdaptTorus
  | .valiant_torus => valiantTorus
  | .valiant_ni_torus => valiantNiTorus
  | .chaos_torus => chaosTorus
  | .min_dragonflynew => minDragonflynew
  | .ugal_dragonflynew => ugalDragonflynew

end BookSim.Routing
