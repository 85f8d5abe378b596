import DotLang.Journal
import DotLang.Registry.Query

/-
  This file defines what statements do to a registry.

  Names are resolved where they are mentioned, and a name that
  stands for nothing makes a node there.  Default attributes
  belong to the graph whose text sets them; a subgraph takes
  those of its parent when it is first opened.

  Key definitions include:
    * `Event`
    * `Build`
    * `Build.resolveNode`
    * `Build.openSubgraph`
    * `Build.connect`
    * `Stmt.run`
    * `GraphDecl.run`
-/

------------------------------------------------------------
-- Events
------------------------------------------------------------

namespace DotLang

/- What happens while statements are run. -/
inductive Event where
| graphMade
    (name : String)
    (parent : Option GraphId)
    (directed : Bool)
| nodeMade (name : String) (owner : GraphId)
| edgeMade (tail : String) (arrow : Arrow) (head : String)
| warned (d : Diagnostic)
deriving DecidableEq, Repr, Inhabited

namespace Event

/- The handle of a parent in words. -/
def describeParent : Option GraphId → String
| some g => "Some(" ++ toString g.index ++ ")"
| none => "None"

/- An event is about something that was made. -/
def isMade : Event → Bool
| warned _ => false
| _ => true

/- The journal entry about an event. -/
def entry : Event → Entry
| graphMade name parent directed =>
    { level := .debug
      origin := .builder
      message :=
        "graph \"" ++ name ++ "\" (parent " ++
          describeParent parent ++ ", directed " ++
          toString directed ++ ")" }
| nodeMade name owner =>
    { level := .debug
      origin := .builder
      message :=
        "node \"" ++ name ++ "\" in graph " ++
          toString owner.index }
| edgeMade tail arrow head =>
    { level := .debug
      origin := .builder
      message :=
        "edge " ++ tail ++ " " ++ arrow.spelling ++ " " ++ head }
| warned d => .warned d

end Event

/-
  The journal of a list of events.  What is made is passed over
  unless `debug` holds.
-/
def journalOf
    (debug : Bool)
    (events : List Event) : List Entry :=
  (events.filter fun event => debug || !event.isMade).map
    Event.entry

------------------------------------------------------------
-- Builds
------------------------------------------------------------

/- A registry that statements run on, and what happened. -/
structure Build (F : Factory) where
  registry : Registry F
  events : List Event

namespace Build

variable {F : Factory}

/- A build in which nothing has happened. -/
def start (r : Registry F) : Build F where
  registry := r
  events := []

/- Note an event. -/
def note (b : Build F) (event : Event) : Build F :=
  { b with events := b.events ++ [event] }

/- Change the registry. -/
def update
    (b : Build F)
    (change : Registry F → Registry F) : Build F :=
  { b with registry := change b.registry }

/- Make a graph. -/
def makeGraph
    (b : Build F)
    (graph : Graph)
    (parent : Option GraphId) : GraphId × Build F :=
  let (g, registry) := b.registry.addGraph graph parent
  (g,
    { b with registry := registry }.note
      (.graphMade graph.name parent graph.directed))

/- Make a node with the defaults of a graph. -/
def makeNode
    (b : Build F)
    (scope : GraphId)
    (name : String) : NodeId × Build F :=
  let (n, registry) :=
    b.registry.addNode scope name
      (b.registry.graph scope).nodeDefaults
  (n,
    { b with registry := registry }.note (.nodeMade name scope))

/- Make an edge. -/
def makeEdge
    (b : Build F)
    (scope : GraphId)
    (tail head : NodeId)
    (attributes : AttributeTable) : Build F :=
  let registry :=
    (b.registry.addEdge scope tail head attributes).2
  { b with registry := registry }.note
    (.edgeMade (b.registry.node tail).name
      (.ofDirected (b.registry.graph scope).directed)
      (b.registry.node head).name)

------------------------------------------------------------
-- Names
------------------------------------------------------------

/-
  The node that a name stands for in a graph.  It is made there
  if need be, and becomes a member of the graph.
-/
def resolveNode
    (b : Build F)
    (scope : GraphId)
    (name : String) : NodeId × Build F :=
  let (n, b) :=
    match b.registry.resolveNode? scope name with
    | some n => (n, b)
    | none => b.makeNode scope name
  (n, b.update (·.addMember scope n))

/-
  The subgraph with a name in a graph.  It is made if there is
  none, and always if the name is empty.
-/
def openSubgraph
    (b : Build F)
    (scope : GraphId)
    (name : String) : GraphId × Build F :=
  let existing :=
    if name.isEmpty then
      none
    else
      b.registry.findChild? scope name
  match existing with
  | some g => (g, b)
  | none =>
      b.makeGraph
        (.newSubgraph name (b.registry.graph scope)) (some scope)

------------------------------------------------------------
-- Edges
------------------------------------------------------------

/- The nodes at one end of an edge, and the port there. -/
structure Ends where
  nodes : List NodeId
  port : Option String
deriving DecidableEq, Repr, Inhabited

/- The warning about an operator that does not fit a graph. -/
def arrowWarning? (directed : Bool) : Arrow → Option String
| .undirected =>
    if directed then
      some "'--' used in a directed graph"
    else
      none
| .directed =>
    if directed then
      none
    else
      some "'->' used in an undirected graph"

/- Warn about an operator that does not fit its graph. -/
def checkArrow
    (b : Build F)
    (scope : GraphId)
    (arrow : Arrow)
    (location : Location) : Build F :=
  let directed := (b.registry.graph scope).directed
  match arrowWarning? directed arrow with
  | none => b
  | some message =>
      let d : Diagnostic := ⟨.semantic, message, location⟩
      (b.update (·.addDiagnostic d)).note (.warned d)

/- Give an edge the port at one of its ends, if there is one. -/
def withPort
    (name : String)
    (port : Option String)
    (t : AttributeTable) : AttributeTable :=
  match port with
  | some port => t.set name (.plain port)
  | none => t

/-
  Connect two nodes.  In a strict graph an edge that is there
  takes the attributes instead.
-/
def connectPair
    (b : Build F)
    (scope : GraphId)
    (attributes : AttributeTable)
    (tail head : NodeId) : Build F :=
  let existing :=
    if (b.registry.graph scope).strict then
      b.registry.findEdge? tail head
    else
      none
  match existing with
  | some e =>
      b.update (·.modifyEdge e
        (Edge.setAttributes attributes.entries))
  | none => b.makeEdge scope tail head attributes

/- Connect each node at one end with each node at the other. -/
def connect
    (b : Build F)
    (scope : GraphId)
    (attributes : AttributeTable)
    (tails heads : Ends) : Build F :=
  let attributes := withPort "tailport" tails.port attributes
  let attributes := withPort "headport" heads.port attributes
  tails.nodes.foldl
    (fun b tail =>
      heads.nodes.foldl
        (fun b head => b.connectPair scope attributes tail head) b)
    b

/- Make the members of one graph members of another one. -/
def adoptMembers
    (b : Build F)
    (scope : GraphId)
    (nodes : List NodeId) : Build F :=
  nodes.foldl
    (fun b n => b.update (·.addMember scope n)) b

/- Set attributes and defaults as a defaults statement says. -/
def applyDefaults
    (b : Build F)
    (scope : GraphId)
    (kind : EntityKind)
    (attributes : List Attribute) : Build F :=
  let b :=
    if kind = .graph then
      b.update (·.modifyGraph scope
        (Graph.setAttributes attributes))
    else
      b
  b.update (·.modifyGraph scope
    (Graph.setDefaults kind attributes))

end Build

------------------------------------------------------------
-- Running Statements
------------------------------------------------------------

section Running

variable {F : Factory}

mutual

/-
  The nodes at one end of an edge.  A subgraph is run first and
  stands for all of its members.
-/
def Endpoint.run
    (scope : GraphId)
    (b : Build F) : Endpoint → Build.Ends × Build F
| .node ref =>
    let (n, b) := b.resolveNode scope ref.name
    (⟨[n], ref.port⟩, b)
| .subgraph name body =>
    let (g, b) := b.openSubgraph scope name
    let b := runBody g (b.update (·.pushScope g)) body
    let b := b.update (·.popScope)
    let nodes := (b.registry.graph g).members
    (⟨nodes, none⟩, b.adoptMembers scope nodes)

/- Connect the ends of an edge statement, one after the other. -/
def runSteps
    (scope : GraphId)
    (attributes : AttributeTable)
    (tails : Build.Ends)
    (b : Build F) : List EdgeStep → Build F
| [] => b
| .mk arrow location head :: rest =>
    let b := b.checkArrow scope arrow location
    let (heads, b) := head.run scope b
    let b := b.connect scope attributes tails heads
    runSteps scope attributes heads b rest

/- Run a statement in a graph. -/
def Stmt.run
    (scope : GraphId)
    (b : Build F) : Stmt → Build F
| .edge tail steps attributes =>
    let attributes :=
      (b.registry.graph scope).edgeDefaults.setAll attributes
    let (tails, b) := tail.run scope b
    runSteps scope attributes tails b steps
| .node ref attributes =>
    let (n, b) := b.resolveNode scope ref.name
    b.update (·.modifyNode n (Node.setAttributes attributes))
| .defaults kind attributes =>
    b.applyDefaults scope kind attributes
| .assign attr =>
    b.update (·.modifyGraph scope (Graph.setAttributes [attr]))
| .subgraph name body =>
    let (g, b) := b.openSubgraph scope name
    let b := runBody g (b.update (·.pushScope g)) body
    b.update (·.popScope)

/- Run statements in a graph, one after the other. -/
def runBody
    (scope : GraphId)
    (b : Build F) : List Stmt → Build F
| [] => b
| stmt :: rest => runBody scope (stmt.run scope b) rest

end

/- Make a top level graph and run its statements. -/
def GraphDecl.run
    (b : Build F)
    (decl : GraphDecl) : Build F :=
  let (g, b) :=
    b.makeGraph (.new decl.name decl.directed decl.strict) none
  let b := runBody g (b.update (·.pushScope g)) decl.body
  b.update (·.popScope)

/- Make top level graphs, one after the other. -/
def runGraphs
    (r : Registry F)
    (decls : List GraphDecl) : Build F :=
  decls.foldl GraphDecl.run (.start r)

end Running

end DotLang
