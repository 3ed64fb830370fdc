/-
# AnyNet — reading the network file

`AnyNet::readFile` takes a file apart line by line and word by word.  A line has a head, a
router or a node with its number, and after it what the head is connected to, each with
a latency if one is written:

    router 0 router 1 15 router 2        links to routers 1 and 2
    router 0 node 0 node 1 5             nodes 0 and 1 are at router 0
    node 3 router 0                      so is node 3

The words drive a machine with five states.  A latency is written when it is read, into
the map of the head's type under the numbers of head and body, whatever the type of the
body is.  So for two routers it goes where it should, but a latency of a node goes to a link
between routers, or to a node of that router's number.  And a line with a node at its head
declares a router of that number.

What the maps then are, compared with what the file says, is in `AnyNetFile`.
-/
import BookSim.Lib.Fallible
import BookSim.Lib.OrdMap
import Mathlib.Data.Int.Notation

namespace BookSim

/-- A word of the file. -/
inductive Token where
  | router
  | node
  | number (n : ℕ)
  deriving DecidableEq, Repr

/-- `atoi` of a word. -/
def Token.atoi : Token → ℕ
  | .number n => n
  | _ => 0

/-- What heads and bodies are, and the index of `router_list`. -/
inductive ParseType where
  | node
  | router
  deriving DecidableEq, Repr

/-- The entries of `router_list`: output port and latency. -/
structure Link where
  port : ℤ := 0
  lat : ℕ := 0
  deriving DecidableEq, Repr

/-- The maps of an `AnyNet`: the router of each node, and the nodes and routers that are
connected to each router. -/
structure AnyNet where
  nodeList : OrdMap ℕ ℕ := .empty
  routerList : ParseType → OrdMap ℕ (OrdMap ℕ Link) := fun _ => .empty

/-- The failed assertions of `readFile`. -/
inductive ParseError where
  | unknownHead
  | unknownBody
  | nodeToNode
  | multipleRouters (node : ℕ)
  | sizesDiffer
  | notSequential
  deriving DecidableEq, Repr

/-- The states of the machine, with the variables that have been set. -/
inductive ParseState where
  | headType
  | headId (headType : ParseType)
  | bodyType (headType : ParseType) (headId : ℕ)
  | bodyId (headType : ParseType) (headId : ℕ) (bodyType : ParseType)
  | linkWeight (headType : ParseType) (headId bodyId : ℕ)
  deriving DecidableEq, Repr

namespace AnyNet

/-! ## The parser -/

/-- `router_list[t][a][b]`, if it is there. -/
def link? (net : AnyNet) (t : ParseType) (a b : ℕ) : Option Link :=
  ((net.routerList t).get? a).bind fun row => row.get? b

/-- `router_list[t][a][b] = l`. -/
def setLink (net : AnyNet) (t : ParseType) (a b : ℕ) (l : Link) : AnyNet :=
  let rows := net.routerList t
  { net with
    routerList := Function.update net.routerList t
      (rows.insert a (((rows.get? a).getD .empty).insert b l)) }

/-- Give a router its place in a map, if it has none. -/
def initRow (net : AnyNet) (t : ParseType) (id : ℕ) : AnyNet :=
  if ((net.routerList t).get? id).isSome then net
  else { net with
    routerList := Function.update net.routerList t ((net.routerList t).insert id .empty) }

/-- Initialise the router structures. -/
def initRouter (net : AnyNet) (id : ℕ) : AnyNet := (net.initRow .node id).initRow .router id

/-- `router_list[head_type][head_id][body_id].second = link_weight`. -/
def setWeight (net : AnyNet) (t : ParseType) (a b weight : ℕ) : AnyNet :=
  net.setLink t a b { (net.link? t a b).getD {} with lat := weight }

/-- Attach a node to a router; it may be attached there already, but nowhere else. -/
def attachNode (net : AnyNet) (node router : ℕ) : Except ParseError AnyNet := do
  require (.multipleRouters node) (∀ r, net.nodeList.get? node = some r → r = router)
  return { net with nodeList := net.nodeList.insert node router }.setLink .node router node ⟨-1, 1⟩

/-- Connect two routers; the way back has latency 1 unless there is one already. -/
def connect (net : AnyNet) (a b : ℕ) : AnyNet :=
  let net := net.setLink .router a b ⟨-1, 1⟩
  if (net.link? .router b a).isSome then net else net.setLink .router b a ⟨-1, 1⟩

/-- The keyword of a body. -/
def readBodyType (headType : ParseType) (headId : ℕ) : Token → Except ParseError ParseState
  | .router => .ok (.bodyId headType headId .router)
  | .node => .ok (.bodyId headType headId .node)
  | .number _ => .error .unknownBody

/-- The number of a body: make the connection. -/
def readBodyId (net : AnyNet) (headType : ParseType) (headId : ℕ) (bodyType : ParseType)
    (bodyId : ℕ) : Except ParseError AnyNet :=
  let net := if bodyType = .router then net.initRouter bodyId else net
  match headType, bodyType with
  | .node, .node => .error .nodeToNode
  | .node, .router => net.attachNode headId bodyId
  | .router, .node => net.attachNode bodyId headId
  | .router, .router => .ok (net.connect headId bodyId)

/-- What a word does. -/
def readToken : ParseState × AnyNet → Token → Except ParseError (ParseState × AnyNet)
  | (.headType, net), .router => .ok (.headId .router, net)
  | (.headType, net), .node => .ok (.headId .node, net)
  | (.headType, _), .number _ => .error .unknownHead
  | (.headId headType, net), word =>
    .ok (.bodyType headType word.atoi, net.initRouter word.atoi)
  | (.bodyType headType headId, net), word => do
    return (← readBodyType headType headId word, net)
  | (.bodyId headType headId bodyType, net), word => do
    return (.linkWeight headType headId word.atoi,
      ← net.readBodyId headType headId bodyType word.atoi)
  | (.linkWeight headType headId bodyId, net), .number weight =>
    .ok (.linkWeight headType headId bodyId, net.setWeight headType headId bodyId weight)
  | (.linkWeight headType headId _, net), word => do
    return (← readBodyType headType headId word, net)

/-- One line; whatever state it ends in, what was read of it counts. -/
def readLine (net : AnyNet) (line : List Token) : Except ParseError AnyNet := do
  return (← line.foldlM readToken (.headType, net)).2

/-- `readFile`: all lines, and then the checks of the maps. -/
def readFile (file : List (List Token)) : Except ParseError AnyNet := do
  let net ← file.foldlM readLine {}
  require .sizesDiffer ((net.routerList .node).size = (net.routerList .router).size)
  require .notSequential (net.nodeList.keys = List.range net.nodeList.size)
  return net

/-! ## The maps -/

/-- The router has its place in a map. -/
def Listed (net : AnyNet) (t : ParseType) (r : ℕ) : Prop := ((net.routerList t).get? r).isSome

/-- The latency in a map. -/
def lat? (net : AnyNet) (t : ParseType) (a b : ℕ) : Option ℕ := (net.link? t a b).map Link.lat

section Maps

variable (net : AnyNet) (t t' : ParseType) (a a' b b' : ℕ)

theorem link?_setLink (l : Link) : (net.setLink t a b l).link? t' a' b' =
    if t' = t ∧ a' = a ∧ b' = b then some l else net.link? t' a' b' := by
  unfold link? setLink
  by_cases ht : t' = t
  · subst ht
    simp only [Function.update_self, OrdMap.get?_insert, true_and]
    by_cases ha : a' = a
    · subst ha
      simp only [if_true, Option.bind_some, OrdMap.get?_insert, true_and]
      cases (net.routerList t').get? a' with
      | none | some row => simp
    · simp only [ha, false_and, if_false]
  · simp only [Function.update_of_ne ht, ht, false_and, if_false]

theorem listed_setLink (l : Link) : (net.setLink t a b l).Listed t' a' ↔
    t' = t ∧ a' = a ∨ net.Listed t' a' := by
  unfold Listed setLink
  by_cases ht : t' = t
  · subst ht
    simp only [Function.update_self, OrdMap.get?_insert, true_and]
    by_cases ha : a' = a
    · simp [ha]
    · simp [ha]
  · simp [ht]

theorem link?_initRow : (net.initRow t a).link? t' a' b' = net.link? t' a' b' := by
  unfold initRow
  split
  · rfl
  next hnone =>
    unfold link?
    by_cases ht : t' = t
    · subst ht
      simp only [Function.update_self, OrdMap.get?_insert]
      by_cases ha : a' = a
      · subst ha
        rw [Option.not_isSome_iff_eq_none] at hnone
        simp [hnone]
      · rw [if_neg ha]
    · simp only [Function.update_of_ne ht]

theorem listed_initRow : (net.initRow t a).Listed t' a' ↔ t' = t ∧ a' = a ∨ net.Listed t' a' := by
  unfold initRow
  split
  next hsome =>
    refine (or_iff_right_of_imp ?_).symm
    rintro ⟨rfl, rfl⟩
    exact hsome
  next =>
    unfold Listed
    by_cases ht : t' = t
    · subst ht
      simp only [Function.update_self, OrdMap.get?_insert, true_and]
      by_cases ha : a' = a
      · simp [ha]
      · simp [ha]
    · simp [ht]

theorem link?_initRouter : (net.initRouter a).link? t' a' b' = net.link? t' a' b' := by
  rw [initRouter, link?_initRow, link?_initRow]

theorem listed_initRouter : (net.initRouter a).Listed t' a' ↔ a' = a ∨ net.Listed t' a' := by
  rw [initRouter, listed_initRow, listed_initRow]
  cases t' with
  | node | router => simp

theorem nodeList_initRouter : (net.initRouter a).nodeList = net.nodeList := by
  unfold initRouter initRow
  split <;> split <;> rfl

theorem lat?_setLink (l : Link) : (net.setLink t a b l).lat? t' a' b' =
    if t' = t ∧ a' = a ∧ b' = b then some l.lat else net.lat? t' a' b' := by
  rw [lat?, link?_setLink]
  split <;> rfl

theorem lat?_initRouter : (net.initRouter a).lat? t' a' b' = net.lat? t' a' b' := by
  rw [lat?, link?_initRouter, lat?]

theorem lat?_setWeight (w : ℕ) : (net.setWeight t a b w).lat? t' a' b' =
    if t' = t ∧ a' = a ∧ b' = b then some w else net.lat? t' a' b' :=
  net.lat?_setLink ..

theorem listed_setWeight (w : ℕ) : (net.setWeight t a b w).Listed t' a' ↔
    t' = t ∧ a' = a ∨ net.Listed t' a' :=
  net.listed_setLink ..

theorem nodeList_connect : (net.connect a b).nodeList = net.nodeList := by
  simp only [connect]
  split <;> rfl

theorem lat?_connect : (net.connect a b).lat? t' a' b' =
    if t' = .router ∧ a' = a ∧ b' = b then some 1
    else if t' = .router ∧ a' = b ∧ b' = a then some ((net.lat? .router b a).getD 1)
    else net.lat? t' a' b' := by
  by_cases hback : ((net.setLink .router a b ⟨-1, 1⟩).link? .router b a).isSome
  · simp only [connect, if_pos hback]
    rw [lat?_setLink]
    by_cases hthere : t' = .router ∧ a' = a ∧ b' = b
    · rw [if_pos hthere, if_pos hthere]
    · rw [if_neg hthere, if_neg hthere]
      by_cases hto : t' = .router ∧ a' = b ∧ b' = a
      · obtain ⟨rfl, rfl, rfl⟩ := hto
        rw [link?_setLink, if_neg hthere] at hback
        obtain ⟨l, hl⟩ := Option.isSome_iff_exists.mp hback
        simp [lat?, hl]
      · rw [if_neg hto]
  · simp only [connect, if_neg hback]
    rw [lat?_setLink, lat?_setLink]
    by_cases hto : t' = .router ∧ a' = b ∧ b' = a
    · obtain ⟨rfl, rfl, rfl⟩ := hto
      rw [link?_setLink] at hback
      split at hback
      · simp at hback
      · rw [Option.not_isSome_iff_eq_none] at hback
        simp [lat?, hback]
    · rw [if_neg hto, if_neg hto]

theorem listed_connect (ha : net.Listed .router a) (hb : net.Listed .router b) :
    (net.connect a b).Listed t' a' ↔ net.Listed t' a' := by
  by_cases hback : ((net.setLink .router a b ⟨-1, 1⟩).link? .router b a).isSome
  · simp only [connect, if_pos hback]
    rw [listed_setLink, or_iff_right_of_imp]
    rintro ⟨rfl, rfl⟩
    exact ha
  · simp only [connect, if_neg hback]
    rw [listed_setLink, listed_setLink, or_iff_right_of_imp, or_iff_right_of_imp]
    · rintro ⟨rfl, rfl⟩
      exact ha
    · rintro ⟨rfl, rfl⟩
      exact .inr hb

end Maps

/-! ## Nodes -/

section Rows

variable {net net' : AnyNet} {m r : ℕ} {st st' : ParseState}

theorem attachNode_eq_ok (h : net.attachNode m r = .ok net') :
    (∀ r', net.nodeList.get? m = some r' → r' = r) ∧
      net' = { net with nodeList := net.nodeList.insert m r }.setLink .node r m ⟨-1, 1⟩ := by
  obtain ⟨hone, h⟩ := require_ok.mp h
  exact ⟨hone, (Except.ok.inj h).symm⟩

theorem listed_attachNode (h : net.attachNode m r = .ok net') (hr : net.Listed .node r)
    (t : ParseType) (r' : ℕ) : net'.Listed t r' ↔ net.Listed t r' := by
  obtain ⟨-, rfl⟩ := attachNode_eq_ok h
  rw [listed_setLink]
  refine or_iff_right_of_imp ?_
  rintro ⟨rfl, rfl⟩
  exact hr

end Rows

end AnyNet

end BookSim
