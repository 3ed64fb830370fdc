/-
# AnyNetFile — what a network file says, and what is read from it

A file of the documented form is a list of `Line`s.  It is a sequence of `Mention`s, and
says with them

    declared     which routers there are
    attached     which node is at which router
    latency      the latency between two routers, or of a node at its router: the one
                 written last, 1 where it is left out, and 1 for the way back of a link
                 unless the file mentions it

`Reads` describes the maps of the parser in the same terms.  There are two differences: a
node at the head of a line is listed as a router, and the numbers of a mention land, by the
place they are written in, where `puts` says.  `readFile_means_iff` is the comparison: an
accepted file is read as it is meant if and only if its lines are `Harmless`, as they are where
no node heads a line and no attachment has a weight (`harmless_of_unweighted`).
-/
import BookSim.Networks.AnyNet

namespace BookSim.AnyNet

open List

/-! ## The grammar -/

/-- What a head of the given type may be connected to, with its latency.  No node is
connected to a node. -/
inductive Body : ParseType → Type
  | router {head : ParseType} (id : ℕ) (weight : Option ℕ) : Body head
  | node (id : ℕ) (weight : Option ℕ) : Body .router

/-- A line: `router i (router j [w] | node m [w])*` or `node m (router i [w])*`. -/
structure Line where
  head : ParseType
  id : ℕ
  body : List (Body head)

/-- The keyword of a type. -/
def keyword : ParseType → Token
  | .node => .node
  | .router => .router

namespace Body

variable {head : ParseType}

/-- The type of a body. -/
def type : Body head → ParseType
  | .router .. => .router
  | .node .. => .node

/-- The number of a body. -/
def id : Body head → ℕ
  | .router id _ => id
  | .node id _ => id

/-- The latency of a body, if it is written. -/
def weight : Body head → Option ℕ
  | .router _ weight => weight
  | .node _ weight => weight

/-- The words of a body. -/
def tokens (b : Body head) : List Token :=
  keyword b.type :: .number b.id :: (b.weight.map Token.number).toList

end Body

/-- The words of a line. -/
def Line.tokens (line : Line) : List Token :=
  keyword line.head :: .number line.id :: line.body.flatMap Body.tokens

/-! ## What a file says -/

/-- What a line mentions: its head, and each connection of the head. -/
inductive Mention where
  | headRouter (i : ℕ)
  | headNode (m : ℕ)
  | link (i j : ℕ) (weight : Option ℕ)
  | nodeAt (i m : ℕ) (weight : Option ℕ)
  | routerOf (m i : ℕ) (weight : Option ℕ)
  deriving DecidableEq

/-- The head of a line. -/
def Line.headMention (line : Line) : Mention :=
  match line.head with
  | .router => .headRouter line.id
  | .node => .headNode line.id

/-- The connection between a head and a body. -/
def Body.mention (id : ℕ) : {head : ParseType} → Body head → Mention
  | .router, .router j weight => .link id j weight
  | .router, .node m weight => .nodeAt id m weight
  | .node, .router i weight => .routerOf id i weight

/-- The mentions of a line, in its order. -/
def Line.mentions (line : Line) : List Mention :=
  line.headMention :: line.body.map (Body.mention line.id)

namespace Mention

/-- The router is declared. -/
def Declares (r : ℕ) : Mention → Prop
  | .headRouter i => i = r
  | .headNode _ => False
  | .link i j _ => i = r ∨ j = r
  | .nodeAt i _ _ => i = r
  | .routerOf _ i _ => i = r

/-- The node is attached to the router. -/
def Attaches (m r : ℕ) : Mention → Prop
  | .nodeAt i m' _ => m' = m ∧ i = r
  | .routerOf m' i _ => m' = m ∧ i = r
  | _ => False

/-- The latency that is given, to two routers or to a router and a node. -/
def gives : ParseType → ℕ → ℕ → Mention → Option ℕ
  | .router, a, b, .link i j weight => if a = i ∧ b = j then some (weight.getD 1) else none
  | .node, a, b, .nodeAt i m weight => if a = i ∧ b = m then some (weight.getD 1) else none
  | .node, a, b, .routerOf m i weight => if a = i ∧ b = m then some (weight.getD 1) else none
  | _, _, _, _ => none

/-- There is a way back. -/
def implies : ParseType → ℕ → ℕ → Mention → Bool
  | .router, a, b, .link i j _ => a = j ∧ b = i
  | _, _, _, _ => false

/-- Where the numbers of a mention land.  Making the connection puts a 1; the weight goes to
the place that the type of the head and the two numbers, in the order of the line, give. -/
def puts : ParseType → ℕ → ℕ → Mention → Option ℕ
  | .router, a, b, .link i j weight => if a = i ∧ b = j then some (weight.getD 1) else none
  | .router, a, b, .nodeAt i m weight => if a = i ∧ b = m then weight else none
  | .node, a, b, .nodeAt i m _ => if a = i ∧ b = m then some 1 else none
  | .node, a, b, .routerOf m i weight =>
    (if a = m ∧ b = i then weight else none).or (if a = i ∧ b = m then some 1 else none)
  | _, _, _, _ => none

/-- The mention names the pair in this order, for an entry of the given type: a later one that does
replaces what is written there. -/
def Names (t : ParseType) (a b : ℕ) : Mention → Prop
  | .link i j _ => t = .router ∧ a = i ∧ b = j
  | .nodeAt i m weight => a = i ∧ b = m ∧ (t = .node ∨ weight.isSome = true)
  | .routerOf m i weight => t = .node ∧ (a = i ∧ b = m ∨ a = m ∧ b = i ∧ weight.isSome = true)
  | _ => False

end Mention

section File

variable (es : List Mention)

/-- The routers of a file. -/
def Declared (r : ℕ) : Prop := ∃ e ∈ es, e.Declares r

/-- The nodes of a file, at their routers. -/
def Attached (m r : ℕ) : Prop := ∃ e ∈ es, e.Attaches m r

/-- The last value a file has for something. -/
def last (value : Mention → Option ℕ) : Option ℕ :=
  es.foldl (fun old e => (value e).or old) none

/-- The latencies of a file, when mentions have the given values. -/
def latencyBy (value : ParseType → ℕ → ℕ → Mention → Option ℕ) (t : ParseType) (a b : ℕ) :
    Option ℕ :=
  (last es (value t a b)).or (if es.any (Mention.implies t a b) then some 1 else none)

/-- The latencies of a file. -/
def latency : ParseType → ℕ → ℕ → Option ℕ := latencyBy es Mention.gives

/-- The mention stands in the file, and no later one names the pair. -/
def LastFor (t : ParseType) (a b : ℕ) (e : Mention) : Prop :=
  ∃ before after, es = before ++ e :: after ∧ ∀ e' ∈ after, ¬ e'.Names t a b

/-- What a file has to observe.  A node that heads a line has the number of a router.  The weight
of an attachment, if it is not replaced, is 1; and unless node and router have the same number, it
is also the latency that the file gives to the pair read the other way: to the link between the
routers of the two numbers in a router's line, and to the attachment of the node numbered like the
router in a node's line. -/
structure Harmless : Prop where
  heads : ∀ m, .headNode m ∈ es → Declared es m
  nodeAt : ∀ i m w, LastFor es .node i m (.nodeAt i m (some w)) → w = 1
  nodeAt_link : ∀ i m w, LastFor es .router i m (.nodeAt i m (some w)) →
    latency es .router i m = some w
  routerOf : ∀ m i w, m ≠ i → LastFor es .node i m (.routerOf m i (some w)) → w = 1
  routerOf_node : ∀ m i w, m ≠ i → LastFor es .node m i (.routerOf m i (some w)) →
    latency es .node m i = some w

/-- The maps hold what the file says, and nothing else. -/
structure Means (net : AnyNet) : Prop where
  nodes : ∀ m r, net.nodeList.get? m = some r ↔ Attached es m r
  routers : ∀ t r, net.Listed t r ↔ Declared es r
  latencies : ∀ t a b, net.lat? t a b = latency es t a b

end File

/-! ## What is read from it -/

/-- The maps after the mentions so far. -/
structure Reads (es : List Mention) (net : AnyNet) : Prop where
  nodes : ∀ m r, net.nodeList.get? m = some r ↔ Attached es m r
  routers : ∀ t r, net.Listed t r ↔ Declared es r ∨ .headNode r ∈ es
  latencies : ∀ t a b, net.lat? t a b = latencyBy es Mention.puts t a b

/-- What reading one mention does to the maps. -/
structure Effect (e : Mention) (net net' : AnyNet) : Prop where
  nodes : ∀ m r, net'.nodeList.get? m = some r ↔ net.nodeList.get? m = some r ∨ e.Attaches m r
  routers : ∀ t r, net'.Listed t r ↔ net.Listed t r ∨ e.Declares r ∨ e = .headNode r
  latencies : ∀ t a b, net'.lat? t a b =
    (e.puts t a b).or ((net.lat? t a b).or (if e.implies t a b then some 1 else none))

theorem reads_nil : Reads [] {} where
  nodes m r := by simp [Attached]
  routers t r := by simp [Declared, Listed]
  latencies t a b := by simp [lat?, link?, latencyBy, last]

theorem latencyBy_snoc (value : ParseType → ℕ → ℕ → Mention → Option ℕ) (es : List Mention)
    (e : Mention) (t : ParseType) (a b : ℕ) : latencyBy (es ++ [e]) value t a b =
      (value t a b e).or ((latencyBy es value t a b).or
        (if e.implies t a b then some 1 else none)) := by
  simp only [latencyBy, last, foldl_append, foldl_cons, foldl_nil,
    any_append, any_cons, any_nil, Bool.or_false, Option.or_assoc]
  cases es.any (Mention.implies t a b) with
  | false | true => simp

variable {es : List Mention}

theorem Reads.snoc {e : Mention} {net net' : AnyNet} (h : Reads es net)
    (he : Effect e net net') : Reads (es ++ [e]) net' where
  nodes m r := by
    rw [he.nodes, h.nodes]
    simp [Attached, or_and_right, exists_or]
  routers t r := by
    rw [he.routers, h.routers]
    simp only [Declared, mem_append, mem_singleton, or_and_right, exists_or, exists_eq_left]
    grind
  latencies t a b := by
    rw [he.latencies, h.latencies, latencyBy_snoc]

/-! ## One mention -/

/-- Making the connection and then, if there is one, writing its weight. -/
def weigh (net : AnyNet) (head : ParseType) (a b : ℕ) : Option ℕ → AnyNet
  | none => net
  | some w => net.setWeight head a b w

theorem effect_head (line : Line) (net : AnyNet) :
    Effect line.headMention net (net.initRouter line.id) where
  nodes m r := by
    rw [nodeList_initRouter]
    cases h : line.head <;> simp [Line.headMention, h, Mention.Attaches]
  routers t r := by
    rw [listed_initRouter]
    cases h : line.head <;> simp [Line.headMention, h, Mention.Declares, eq_comm, or_comm]
  latencies t a b := by
    rw [lat?_initRouter]
    cases h : line.head <;> cases t <;>
      simp [Line.headMention, h, Mention.puts, Mention.implies]

section Attach

variable {net net' : AnyNet} {m r : ℕ}

theorem nodes_attachNode (h : net.attachNode m r = .ok net') (m' r' : ℕ) :
    net'.nodeList.get? m' = some r' ↔ net.nodeList.get? m' = some r' ∨ m = m' ∧ r = r' := by
  obtain ⟨hone, rfl⟩ := attachNode_eq_ok h
  change (net.nodeList.insert m r).get? m' = some r' ↔ _
  rw [OrdMap.get?_insert]
  by_cases hm : m' = m
  · simp_all
  · rw [if_neg hm, or_iff_left fun heq => hm heq.1.symm]

theorem lat?_attachNode (h : net.attachNode m r = .ok net') (t : ParseType) (a b : ℕ) :
    net'.lat? t a b = if t = .node ∧ a = r ∧ b = m then some 1 else net.lat? t a b := by
  obtain ⟨-, rfl⟩ := attachNode_eq_ok h
  exact lat?_setLink ..

end Attach

section Weigh

variable (net : AnyNet) (head t : ParseType) (a b a' b' : ℕ) (w : Option ℕ)

theorem nodeList_weigh : (net.weigh head a b w).nodeList = net.nodeList := by
  cases w <;> rfl

theorem listed_weigh (ha : net.Listed head a) :
    (net.weigh head a b w).Listed t a' ↔ net.Listed t a' := by
  cases w with
  | none => exact Iff.rfl
  | some w =>
    rw [weigh, listed_setWeight]
    refine or_iff_right_of_imp ?_
    rintro ⟨rfl, rfl⟩
    exact ha

theorem lat?_weigh : (net.weigh head a b w).lat? t a' b' =
    (if t = head ∧ a' = a ∧ b' = b then w else none).or (net.lat? t a' b') := by
  cases w with
  | none => simp [weigh]
  | some w =>
    rw [weigh, lat?_setWeight]
    split <;> simp

end Weigh

section Bodies

variable {net net' : AnyNet}

theorem effect_link (i j : ℕ) (w : Option ℕ) (hi : ∀ t, net.Listed t i)
    (h : net.readBodyId .router i .router j = .ok net') :
    Effect (.link i j w) net (net'.weigh .router i j w) := by
  obtain rfl : (net.initRouter j).connect i j = net' := Except.ok.inj h
  have hi' : (net.initRouter j).Listed .router i := (listed_initRouter ..).mpr (.inr (hi _))
  have hj' : (net.initRouter j).Listed .router j := (listed_initRouter ..).mpr (.inl rfl)
  refine ⟨fun m r => ?_, fun t r => ?_, fun t a b => ?_⟩
  · rw [nodeList_weigh, nodeList_connect, nodeList_initRouter]
    simp [Mention.Attaches]
  · rw [listed_weigh _ _ _ _ _ _ _ ((listed_connect _ _ _ _ _ hi' hj').mpr hi'),
      listed_connect _ _ _ _ _ hi' hj', listed_initRouter]
    simp only [Mention.Declares]
    grind
  · rw [lat?_weigh, lat?_connect, lat?_initRouter, lat?_initRouter]
    cases t <;> simp only [Mention.puts, Mention.implies]
    · simp
    · grind

theorem effect_nodeAt (i m : ℕ) (w : Option ℕ) (hi : ∀ t, net.Listed t i)
    (h : net.readBodyId .router i .node m = .ok net') :
    Effect (.nodeAt i m w) net (net'.weigh .router i m w) := by
  have hlisted := listed_attachNode h (hi _)
  refine ⟨fun m' r => ?_, fun t r => ?_, fun t a b => ?_⟩
  · rw [nodeList_weigh, nodes_attachNode h]
    rfl
  · rw [listed_weigh _ _ _ _ _ _ _ ((hlisted _ _).mpr (hi _)), hlisted]
    simp only [Mention.Declares]
    grind
  · rw [lat?_weigh, lat?_attachNode h]
    cases t <;> simp only [Mention.puts, Mention.implies] <;> grind

theorem effect_routerOf (m i : ℕ) (w : Option ℕ) (hm : ∀ t, net.Listed t m)
    (h : net.readBodyId .node m .router i = .ok net') :
    Effect (.routerOf m i w) net (net'.weigh .node m i w) := by
  have h : (net.initRouter i).attachNode m i = .ok net' := h
  have hm' : (net.initRouter i).Listed .node m := (listed_initRouter ..).mpr (.inr (hm _))
  have hlisted := listed_attachNode h ((listed_initRouter ..).mpr (.inl rfl))
  refine ⟨fun m' r => ?_, fun t r => ?_, fun t a b => ?_⟩
  · rw [nodeList_weigh, nodes_attachNode h, nodeList_initRouter]
    rfl
  · rw [listed_weigh _ _ _ _ _ _ _ ((hlisted _ _).mpr hm'), hlisted, listed_initRouter]
    simp only [Mention.Declares]
    grind
  · rw [lat?_weigh, lat?_attachNode h, lat?_initRouter]
    cases t <;> simp only [Mention.puts, Mention.implies] <;> grind

theorem effect_body {head : ParseType} (id : ℕ) (b : Body head) (hid : ∀ t, net.Listed t id)
    (h : net.readBodyId head id b.type b.id = .ok net') :
    Effect (b.mention id) net (net'.weigh head id b.id b.weight) := by
  cases b with
  | node m w => exact effect_nodeAt id m w hid h
  | router j w =>
    cases head with
    | router => exact effect_link id j w hid h
    | node => exact effect_routerOf id j w hid h

end Bodies

/-! ## The words of a line -/

/-- The state waits for a body of this head. -/
inductive Awaits (head : ParseType) (id : ℕ) : ParseState → Prop
  | first : Awaits head id (.bodyType head id)
  | next (bodyId : ℕ) : Awaits head id (.linkWeight head id bodyId)

theorem readToken_keyword {head : ParseType} {id : ℕ} {st : ParseState} (hst : Awaits head id st)
    (net : AnyNet) (t : ParseType) :
    readToken (st, net) (keyword t) = .ok (.bodyId head id t, net) := by
  cases hst <;> cases t <;> rfl

theorem foldlM_body {head : ParseType} {id : ℕ} {st : ParseState} (hst : Awaits head id st)
    (net : AnyNet) (b : Body head) : b.tokens.foldlM readToken (st, net) = do
      let net' ← net.readBodyId head id b.type b.id
      return (.linkWeight head id b.id, net'.weigh head id b.id b.weight) := by
  rw [Body.tokens, foldlM_cons, readToken_keyword hst]
  change (do
    let s ← (do return (ParseState.linkWeight head id b.id, ← net.readBodyId head id b.type b.id))
    List.foldlM readToken s (b.weight.map Token.number).toList) = _
  cases net.readBodyId head id b.type b.id with
  | error e => rfl
  | ok net' =>
    cases b.weight with
    | none => rfl
    | some w => rfl

theorem Reads.bodies {head : ParseType} {id : ℕ} : ∀ {bs : List (Body head)} {st st' : ParseState}
    {es : List Mention} {net net' : AnyNet}, Awaits head id st → (∀ t, net.Listed t id) →
    Reads es net → (bs.flatMap Body.tokens).foldlM readToken (st, net) = .ok (st', net') →
      Reads (es ++ bs.map (Body.mention id)) net'
  | [], _, _, es, _, _, _, _, h, hrun => by
    cases hrun
    simpa using h
  | b :: bs, _, _, es, net, net', hst, hid, h, hrun => by
    rw [flatMap_cons, foldlM_append, foldlM_body hst] at hrun
    obtain ⟨s, hs, hrun⟩ := bind_ok.mp hrun
    obtain ⟨net₁, hread, rfl⟩ := bind_return_ok.mp hs
    have heffect := effect_body id b hid hread
    have hrest := Reads.bodies (.next b.id) (fun t => (heffect.routers t id).mpr (.inl (hid t)))
      (h.snoc heffect) hrun
    simpa using hrest

theorem Reads.line {net net' : AnyNet} (h : Reads es net) (line : Line)
    (hline : net.readLine line.tokens = .ok net') : Reads (es ++ line.mentions) net' := by
  obtain ⟨⟨st, net₁⟩, hrun, hline⟩ := bind_ok.mp hline
  obtain rfl := return_ok.mp hline
  have hheads : line.tokens.foldlM readToken (.headType, net) =
      (line.body.flatMap Body.tokens).foldlM readToken
        (.bodyType line.head line.id, net.initRouter line.id) := by
    obtain ⟨head, id, body⟩ := line
    cases head <;> rfl
  rw [hheads] at hrun
  have hrest := Reads.bodies .first (fun t => (listed_initRouter ..).mpr (.inl rfl))
    (h.snoc (effect_head line net)) hrun
  simpa [Line.mentions] using hrest

theorem Reads.lines : ∀ {file : List Line} {es : List Mention} {net net' : AnyNet}, Reads es net →
    (file.map Line.tokens).foldlM readLine net = .ok net' →
      Reads (es ++ file.flatMap Line.mentions) net'
  | [], es, _, _, h, hrun => by
    cases hrun
    simpa using h
  | line :: file, es, _, _, h, hrun => by
    rw [map_cons, foldlM_cons] at hrun
    obtain ⟨net₁, hline, hrun⟩ := bind_ok.mp hrun
    simpa using Reads.lines (h.line line hline) hrun

theorem reads_readFile {file : List Line} {net : AnyNet}
    (h : readFile (file.map Line.tokens) = .ok net) : Reads (file.flatMap Line.mentions) net := by
  obtain ⟨net₁, hrun, h⟩ := bind_ok.mp h
  obtain ⟨-, h⟩ := require_ok.mp h
  obtain ⟨-, rfl⟩ := require_return_ok.mp h
  simpa using Reads.lines reads_nil hrun

/-! ## The comparison -/

theorem last_eq_none_iff {value : Mention → Option ℕ} :
    last es value = none ↔ ∀ e ∈ es, value e = none := by
  induction es using List.reverseRecOn with
  | nil => simp [last]
  | append_singleton es e ih =>
    rw [last, foldl_append, ← last, foldl_cons, foldl_nil, Option.or_eq_none_iff, ih]
    simp [or_imp, forall_and, and_comm]

theorem gives_eq_none {t : ParseType} {a b : ℕ} {e : Mention} (h : e.puts t a b = none) :
    e.gives t a b = none := by
  cases t <;> cases e <;> simp_all [Mention.puts, Mention.gives]

theorem latency_of_not_put {t : ParseType} {a b : ℕ} (h : last es (Mention.puts t a b) = none) :
    latencyBy es Mention.puts t a b = latency es t a b := by
  have hgives : last es (Mention.gives t a b) = none :=
    last_eq_none_iff.mpr fun e he => gives_eq_none (last_eq_none_iff.mp h e he)
  rw [latency, latencyBy, latencyBy, h, hgives]

theorem puts_eq_none_iff {t : ParseType} {a b : ℕ} {e : Mention} :
    e.puts t a b = none ↔ ¬ e.Names t a b := by
  cases e with
  | routerOf m i weight =>
    cases t with
    | router => simp [Mention.puts, Mention.Names]
    | node =>
      cases weight with
      | none => simp [Mention.puts, Mention.Names]
      | some w =>
        simp [Mention.puts, Mention.Names]
        grind
  | _ => cases t <;> simp [Mention.puts, Mention.Names]

theorem last_append {value : Mention → Option ℕ} (es : List Mention) {e : Mention}
    {after : List Mention} {v : ℕ} (he : value e = some v)
    (hafter : ∀ e' ∈ after, value e' = none) : last (es ++ e :: after) value = some v := by
  induction after using List.reverseRecOn with
  | nil => rw [last, foldl_append, foldl_cons, foldl_nil, he, Option.some_or]
  | append_singleton after e' ih =>
    rw [forall_mem_append] at hafter
    rw [← cons_append, ← append_assoc, last, foldl_append, ← last, ih hafter.1, foldl_cons,
      foldl_nil, hafter.2 e' mem_cons_self, Option.none_or]

theorem exists_of_last {value : Mention → Option ℕ} {v : ℕ} (h : last es value = some v) :
    ∃ before e after, es = before ++ e :: after ∧ value e = some v ∧
      ∀ e' ∈ after, value e' = none := by
  induction es using List.reverseRecOn with
  | nil => cases h
  | append_singleton es e ih =>
    rw [last, foldl_append, ← last, foldl_cons, foldl_nil] at h
    cases he : value e with
    | some v' =>
      rw [he, Option.some_or] at h
      exact ⟨es, e, [], rfl, he.trans h, nofun⟩
    | none =>
      grind

section LastFor

variable {t : ParseType} {a b v : ℕ} {e : Mention}

theorem LastFor.last_puts (h : LastFor es t a b e) (hv : e.puts t a b = some v) :
    last es (Mention.puts t a b) = some v := by
  obtain ⟨before, after, rfl, hafter⟩ := h
  exact last_append before hv fun e' he' => puts_eq_none_iff.mpr (hafter e' he')

theorem LastFor.latency_eq (h : LastFor es t a b e) (hv : e.gives t a b = some v) :
    latency es t a b = some v := by
  obtain ⟨before, after, rfl, hafter⟩ := h
  rw [latency, latencyBy, last_append before hv fun e' he' =>
    gives_eq_none (puts_eq_none_iff.mpr (hafter e' he')), Option.some_or]

/-- What lands last in a place is the latency of the place exactly in a harmless file. -/
theorem harmless_iff : Harmless es ↔ (∀ m, .headNode m ∈ es → Declared es m) ∧
    ∀ t a b v, last es (Mention.puts t a b) = some v → latency es t a b = some v := by
  constructor
  · intro h
    refine ⟨h.heads, fun t a b v hv => ?_⟩
    obtain ⟨before, e, after, hes, he, hafter⟩ := exists_of_last hv
    have hlast : LastFor es t a b e :=
      ⟨before, after, hes, fun e' he' => puts_eq_none_iff.mp (hafter e' he')⟩
    by_cases hgives : e.gives t a b = some v
    · exact hlast.latency_eq hgives
    cases e with
    | headRouter i | headNode m => cases t <;> cases he
    | link i j weight =>
      cases t with
      | node => cases he
      | router => exact absurd he hgives
    | nodeAt i m weight =>
      cases t with
      | node =>
        -- a 1 was written in place of the weight
        rw [Mention.puts, Option.ite_none_right_eq_some] at he
        obtain ⟨⟨rfl, rfl⟩, ⟨⟩⟩ := he
        rw [Mention.gives, if_pos ⟨rfl, rfl⟩] at hgives
        cases weight with
        | none => exact absurd rfl hgives
        | some w => exact absurd (by rw [h.nodeAt a b w hlast]; rfl) hgives
      | router =>
        rw [Mention.puts, Option.ite_none_right_eq_some] at he
        obtain ⟨⟨rfl, rfl⟩, rfl⟩ := he
        exact h.nodeAt_link a b v hlast
    | routerOf m i weight =>
      cases t with
      | router => cases he
      | node =>
        rw [Mention.puts, Option.or_eq_some_iff, Option.ite_none_right_eq_some] at he
        rw [Mention.gives] at hgives
        rcases he with ⟨⟨rfl, rfl⟩, rfl⟩ | ⟨hno, he⟩
        · refine h.routerOf_node a b v (fun hab => hgives ?_) hlast
          rw [if_pos ⟨hab, hab.symm⟩, Option.getD_some]
        · rw [Option.ite_none_right_eq_some] at he
          obtain ⟨⟨rfl, rfl⟩, ⟨⟩⟩ := he
          rw [if_pos ⟨rfl, rfl⟩] at hgives
          cases weight with
          | none => exact absurd rfl hgives
          | some w =>
            have hne : b ≠ a := fun hba => by
              rw [if_pos ⟨hba.symm, hba⟩] at hno
              cases hno
            exact absurd (by rw [h.routerOf b a w hne hlast]; rfl) hgives
  · rintro ⟨hheads, hputs⟩
    refine ⟨hheads, fun i m w hlast => ?_, fun i m w hlast => ?_, fun m i w hne hlast => ?_,
      fun m i w hne hlast => ?_⟩
    · have hone := hputs _ _ _ 1 (hlast.last_puts (by simp [Mention.puts]))
      rw [hlast.latency_eq (v := w) (by simp [Mention.gives])] at hone
      exact Option.some.inj hone
    · exact hputs _ _ _ w (hlast.last_puts (by simp [Mention.puts]))
    · have hone := hputs _ _ _ 1 (hlast.last_puts (by simp [Mention.puts, hne.symm]))
      rw [hlast.latency_eq (v := w) (by simp [Mention.gives])] at hone
      exact Option.some.inj hone
    · exact hputs _ _ _ w (hlast.last_puts (by simp [Mention.puts]))

end LastFor

theorem Reads.means_iff {net : AnyNet} (h : Reads es net) : Means es net ↔ Harmless es := by
  rw [harmless_iff]
  constructor
  · intro hmeans
    refine ⟨fun m hm => ?_, fun t a b v hv => ?_⟩
    · exact (hmeans.routers .router m).mp ((h.routers _ _).mpr (.inr hm))
    · rw [← hmeans.latencies, h.latencies, latencyBy, hv, Option.some_or]
  · rintro ⟨hheads, hputs⟩
    refine ⟨h.nodes, fun t r => ?_, fun t a b => ?_⟩
    · rw [h.routers]
      exact or_iff_left_of_imp (hheads r)
    · rw [h.latencies]
      cases hlast : last es (Mention.puts t a b) with
      | none => exact latency_of_not_put hlast
      | some v => rw [hputs t a b v hlast, latencyBy, hlast, Option.some_or]

/-- A file without weights of attachments is harmless if its nodes that head a line have numbers
of routers. -/
theorem harmless_of_not_mem (hheads : ∀ m, .headNode m ∈ es → Declared es m)
    (hnode : ∀ i m w, .nodeAt i m (some w) ∉ es) (hrouter : ∀ m i w, .routerOf m i (some w) ∉ es) :
    Harmless es := by
  have hmem : ∀ {t a b e}, LastFor es t a b e → e ∈ es := by
    rintro t a b e ⟨before, after, rfl, -⟩
    exact mem_append_right _ mem_cons_self
  exact ⟨hheads, fun i m w h => absurd (hmem h) (hnode i m w),
    fun i m w h => absurd (hmem h) (hnode i m w), fun m i w _ h => absurd (hmem h) (hrouter m i w),
    fun m i w _ h => absurd (hmem h) (hrouter m i w)⟩

theorem harmless_of_unweighted {file : List Line} (hheads : ∀ line ∈ file, line.head = .router)
    (hweights : ∀ line ∈ file, ∀ b ∈ line.body, b.type = .node → b.weight = none) :
    Harmless (file.flatMap Line.mentions) := by
  have hmention : ∀ e ∈ file.flatMap Line.mentions, (∃ i, e = .headRouter i) ∨
      (∃ i j w, e = .link i j w) ∨ ∃ i m, e = .nodeAt i m none := by
    intro e he
    obtain ⟨⟨head, id, body⟩, hline, he⟩ := mem_flatMap.mp he
    obtain rfl : head = .router := hheads _ hline
    rcases mem_cons.mp he with rfl | he
    · exact .inl ⟨id, rfl⟩
    · obtain ⟨b, hb, rfl⟩ := mem_map.mp he
      cases b with
      | router j w => exact .inr (.inl ⟨id, j, w, rfl⟩)
      | node m w =>
        obtain rfl : w = none := hweights _ hline _ hb rfl
        exact .inr (.inr ⟨id, m, rfl⟩)
  refine harmless_of_not_mem (fun m hm => ?_) (fun i m w hm => ?_) fun m i w hm => ?_
  · rcases hmention _ hm with ⟨_, h⟩ | ⟨_, _, _, h⟩ | ⟨_, _, h⟩ <;> cases h
  · rcases hmention _ hm with ⟨_, h⟩ | ⟨_, _, _, h⟩ | ⟨_, _, h⟩ <;> cases h
  · rcases hmention _ hm with ⟨_, h⟩ | ⟨_, _, _, h⟩ | ⟨_, _, h⟩ <;> cases h

/-- **Network files.**  An accepted file is read as it is meant exactly if its lines are
harmless. -/
theorem readFile_means_iff (file : List Line) (net : AnyNet)
    (h : readFile (file.map Line.tokens) = .ok net) :
    Means (file.flatMap Line.mentions) net ↔ Harmless (file.flatMap Line.mentions) :=
  (reads_readFile h).means_iff

/-- `router 0 router 1 15 node 0` and `node 1 router 1`. -/
def twoRouters : List Line :=
  [⟨.router, 0, [.router 1 (some 15), .node 0 none]⟩, ⟨.node, 1, [.router 1 none]⟩]

theorem means_twoRouters : ∃ net, readFile (twoRouters.map Line.tokens) = .ok net ∧
    Means (twoRouters.flatMap Line.mentions) net := by
  refine ⟨_, rfl, (readFile_means_iff twoRouters _ rfl).mpr (harmless_of_not_mem (fun m hm => ?_)
    (fun i m w hm => ?_) fun m i w hm => ?_)⟩
  · simp [twoRouters, Line.mentions, Line.headMention, Body.mention] at hm
    subst hm
    exact ⟨.link 0 1 (some 15), by decide, .inr rfl⟩
  · simp [twoRouters, Line.mentions, Line.headMention, Body.mention] at hm
  · simp [twoRouters, Line.mentions, Line.headMention, Body.mention] at hm

/-- The second example of the format, `router 0 node 0 node 1 5 node 2 5`. -/
def example2 : List Line := [⟨.router, 0, [.node 0 none, .node 1 (some 5), .node 2 (some 5)]⟩]

/-- Nodes 1 and 2 of the example are attached with latency 1, and their 5 cycles become links
to routers 1 and 2, which the file does not have. -/
theorem not_means_example2 : ∃ net, readFile (example2.map Line.tokens) = .ok net ∧
    net.lat? .node 0 1 = some 1 ∧ net.link? .router 0 1 = some ⟨0, 5⟩ ∧
    ¬ Means (example2.flatMap Line.mentions) net := by
  refine ⟨_, rfl, rfl, rfl, fun hmeans => ?_⟩
  exact absurd (hmeans.latencies .node 0 1) (by decide)

end BookSim.AnyNet
