import DotLang.AttributeTable.Basic
import DotLang.Diagnostic
import DotLang.Options
import DotLang.Stmt.Basic
import Std.Data.ExtTreeMap
import Std.Data.ExtTreeSet

/-
  This file defines the registry: all graphs, nodes and edges
  that were made, in the order in which they were made.

  Entities are named by handles, which count from zero.  A graph
  owns the nodes and edges that were made in it, and lists as
  its members the nodes that its statements mention.  Beside the
  two lists of nodes it keeps an index of names and a set, which
  answer what the lists would have to be searched for.

  Key definitions include:
    * `GraphId`
    * `NodeId`
    * `EdgeId`
    * `Graph`
    * `Node`
    * `Edge`
    * `Factory`
    * `Registry`
    * `Registry.addGraph`
    * `Registry.addNode`
    * `Registry.addMember`
    * `Registry.addEdge`
-/

------------------------------------------------------------
-- Handles
------------------------------------------------------------

namespace DotLang

/- The handle of a graph. -/
structure GraphId where
  index : Nat
deriving DecidableEq, Repr, Inhabited

/- The handle of a node. -/
structure NodeId where
  index : Nat
deriving DecidableEq, Repr, Inhabited

/- The handle of an edge. -/
structure EdgeId where
  index : Nat
deriving DecidableEq, Repr, Inhabited

namespace NodeId

/- Nodes come in the order of their making. -/
instance : Ord NodeId where
  compare m n := compare m.index n.index

instance : Std.TransOrd NodeId where
  eq_swap {m n} :=
    Std.OrientedOrd.eq_swap (a := m.index) (b := n.index)
  isLE_trans {l m n} :=
    Std.TransOrd.isLE_trans (a := l.index) (b := m.index)
      (c := n.index)

instance : Std.LawfulEqOrd NodeId where
  eq_of_compare {m n} h := by
    cases m
    cases n
    exact congrArg mk (Std.LawfulEqOrd.eq_of_compare h)

end NodeId

------------------------------------------------------------
-- Entities
------------------------------------------------------------

/-
  A graph or subgraph.  The index leads from names to nodes that
  it owns, and the set holds its members.  The defaults are the
  attributes that new subgraphs, nodes and edges in it start
  with.
-/
structure Graph where
  name : String
  directed : Bool
  strict : Bool
  parent : Option GraphId := none
  nodes : List NodeId := []
  nodeIndex : Std.ExtTreeMap String NodeId := ∅
  members : List NodeId := []
  memberSet : Std.ExtTreeSet NodeId := ∅
  edges : List EdgeId := []
  children : List GraphId := []
  attributes : AttributeTable := .empty
  graphDefaults : AttributeTable := .empty
  nodeDefaults : AttributeTable := .empty
  edgeDefaults : AttributeTable := .empty
deriving DecidableEq, Repr, Inhabited

namespace Graph

/- A graph that nothing was added to. -/
def new (name : String) (directed strict : Bool) : Graph where
  name := name
  directed := directed
  strict := strict

/-
  A subgraph that nothing was added to.  It is directed and
  strict like its parent and starts with the defaults there.
-/
def newSubgraph (name : String) (parent : Graph) : Graph where
  name := name
  directed := parent.directed
  strict := parent.strict
  attributes := parent.graphDefaults
  graphDefaults := parent.graphDefaults
  nodeDefaults := parent.nodeDefaults
  edgeDefaults := parent.edgeDefaults

/- A graph without a parent is a top level graph. -/
def isRoot (g : Graph) : Bool :=
  g.parent.isNone

/- The statements of the graph mention the node. -/
def isMember (g : Graph) (n : NodeId) : Bool :=
  g.memberSet.contains n

/- The default attributes for a kind of entity. -/
def defaults (g : Graph) : EntityKind → AttributeTable
| .graph => g.graphDefaults
| .node => g.nodeDefaults
| .edge => g.edgeDefaults

/- Set attributes of the graph itself. -/
def setAttributes
    (attributes : List Attribute)
    (g : Graph) : Graph :=
  { g with attributes := g.attributes.setAll attributes }

/- Set default attributes for a kind of entity. -/
def setDefaults
    (kind : EntityKind)
    (attributes : List Attribute)
    (g : Graph) : Graph :=
  match kind with
  | .graph =>
      { g with
        graphDefaults := g.graphDefaults.setAll attributes }
  | .node =>
      { g with nodeDefaults := g.nodeDefaults.setAll attributes }
  | .edge =>
      { g with edgeDefaults := g.edgeDefaults.setAll attributes }

/- Own a node, which an earlier one of its name gives way to. -/
def addNode (n : NodeId) (name : String) (g : Graph) : Graph :=
  { g with
    nodes := g.nodes ++ [n]
    nodeIndex := g.nodeIndex.insert name n }

/- Mention a node, unless it is mentioned already. -/
def addMember (n : NodeId) (g : Graph) : Graph :=
  if g.isMember n then
    g
  else
    { g with
      members := g.members ++ [n]
      memberSet := g.memberSet.insert n }

end Graph

/- A node, the graph that owns it, and the edges at it. -/
structure Node where
  name : String
  owner : GraphId
  attributes : AttributeTable
  outEdges : List EdgeId := []
  inEdges : List EdgeId := []
deriving DecidableEq, Repr, Inhabited

/- Set attributes of a node. -/
def Node.setAttributes
    (attributes : List Attribute)
    (n : Node) : Node :=
  { n with attributes := n.attributes.setAll attributes }

/- An edge from its tail to its head, and its owner. -/
structure Edge where
  tail : NodeId
  head : NodeId
  directed : Bool
  owner : GraphId
  attributes : AttributeTable
deriving DecidableEq, Repr, Inhabited

namespace Edge

/- Set attributes of an edge. -/
def setAttributes
    (attributes : List Attribute)
    (e : Edge) : Edge :=
  { e with attributes := e.attributes.setAll attributes }

/- The end that is not the given one; a loop has just one. -/
def other (e : Edge) (n : NodeId) : NodeId :=
  if e.tail = n then e.head else e.tail

/- The operator that an edge is written with. -/
def arrow (e : Edge) : Arrow :=
  .ofDirected e.directed

end Edge

------------------------------------------------------------
-- Factories
------------------------------------------------------------

/-
  A factory makes data to keep beside each entity.  It sees the
  entity as it is made, and a state of its own.
-/
structure Factory where
  State : Type
  GraphData : Type
  NodeData : Type
  EdgeData : Type
  makeGraph : Graph → State → GraphData × State
  makeNode : Node → State → NodeData × State
  makeEdge : Edge → State → EdgeData × State

/- The factory that keeps nothing. -/
def Factory.plain : Factory where
  State := Unit
  GraphData := Unit
  NodeData := Unit
  EdgeData := Unit
  makeGraph _ _ := ((), ())
  makeNode _ _ := ((), ())
  makeEdge _ _ := ((), ())

------------------------------------------------------------
-- Registries
------------------------------------------------------------

/-
  The entities with their data, the top level graphs, the graphs
  that are open with the innermost one first, and the problems
  met so far.
-/
structure Registry (F : Factory) where
  graphs : Array Graph := #[]
  nodes : Array Node := #[]
  edges : Array Edge := #[]
  graphData : Array F.GraphData := #[]
  nodeData : Array F.NodeData := #[]
  edgeData : Array F.EdgeData := #[]
  roots : List GraphId := []
  scope : List GraphId := []
  diagnostics : List Diagnostic := []
  options : Options := {}
  factory : F.State

namespace Registry

variable {F : Factory}

/- The registry without entities. -/
def empty
    (factory : F.State)
    (options : Options) : Registry F where
  options := options
  factory := factory

/- The registry without entities that keeps no data. -/
def plain (options : Options) : Registry .plain :=
  empty () options

/- The graph with a handle. -/
def graph (r : Registry F) (g : GraphId) : Graph :=
  r.graphs.getD g.index default

/- The node with a handle. -/
def node (r : Registry F) (n : NodeId) : Node :=
  r.nodes.getD n.index default

/- The edge with a handle. -/
def edge (r : Registry F) (e : EdgeId) : Edge :=
  r.edges.getD e.index default

/- Change a graph. -/
def modifyGraph
    (r : Registry F)
    (g : GraphId)
    (change : Graph → Graph) : Registry F :=
  { r with graphs := r.graphs.modify g.index change }

/- Change a node. -/
def modifyNode
    (r : Registry F)
    (n : NodeId)
    (change : Node → Node) : Registry F :=
  { r with nodes := r.nodes.modify n.index change }

/- Change an edge. -/
def modifyEdge
    (r : Registry F)
    (e : EdgeId)
    (change : Edge → Edge) : Registry F :=
  { r with edges := r.edges.modify e.index change }

------------------------------------------------------------
-- Making Entities
------------------------------------------------------------

/- Enter a graph under its parent or among the top level ones. -/
def enterGraph
    (r : Registry F)
    (g : GraphId) : Option GraphId → Registry F
| some parent =>
    r.modifyGraph parent fun graph =>
      { graph with children := graph.children ++ [g] }
| none => { r with roots := r.roots ++ [g] }

/- Add a graph. -/
def addGraph
    (r : Registry F)
    (graph : Graph)
    (parent : Option GraphId) : GraphId × Registry F :=
  let g : GraphId := ⟨r.graphs.size⟩
  let graph := { graph with parent := parent }
  let made := F.makeGraph graph r.factory
  let r := r.enterGraph g parent
  (g,
    { r with
      graphs := r.graphs.push graph
      graphData := r.graphData.push made.1
      factory := made.2 })

/- Add a node to a graph, whatever names there are already. -/
def addNode
    (r : Registry F)
    (g : GraphId)
    (name : String)
    (attributes : AttributeTable) : NodeId × Registry F :=
  let n : NodeId := ⟨r.nodes.size⟩
  let node : Node :=
    { name := name, owner := g, attributes := attributes }
  let made := F.makeNode node r.factory
  let r := r.modifyGraph g (Graph.addNode n name)
  (n,
    { r with
      nodes := r.nodes.push node
      nodeData := r.nodeData.push made.1
      factory := made.2 })

/- Mention a node in a graph. -/
def addMember
    (r : Registry F)
    (g : GraphId)
    (n : NodeId) : Registry F :=
  r.modifyGraph g (Graph.addMember n)

/- Add an edge to a graph, which tells whether it is directed. -/
def addEdge
    (r : Registry F)
    (g : GraphId)
    (tail head : NodeId)
    (attributes : AttributeTable) : EdgeId × Registry F :=
  let e : EdgeId := ⟨r.edges.size⟩
  let edge : Edge :=
    { tail := tail
      head := head
      directed := (r.graph g).directed
      owner := g
      attributes := attributes }
  let made := F.makeEdge edge r.factory
  let r := r.modifyGraph g fun graph =>
    { graph with edges := graph.edges ++ [e] }
  let r := r.modifyNode tail fun node =>
    { node with outEdges := node.outEdges ++ [e] }
  let r := r.modifyNode head fun node =>
    { node with inEdges := node.inEdges ++ [e] }
  (e,
    { r with
      edges := r.edges.push edge
      edgeData := r.edgeData.push made.1
      factory := made.2 })

------------------------------------------------------------
-- Scopes and Problems
------------------------------------------------------------

/- Open a graph. -/
def pushScope (r : Registry F) (g : GraphId) : Registry F :=
  { r with scope := g :: r.scope }

/- Close the innermost open graph. -/
def popScope (r : Registry F) : Registry F :=
  { r with scope := r.scope.tail }

/- The innermost open graph, or else the last top level one. -/
def currentGraph? (r : Registry F) : Option GraphId :=
  r.scope.head?.or r.roots.getLast?

/- Add a problem to those met so far. -/
def addDiagnostic
    (r : Registry F)
    (d : Diagnostic) : Registry F :=
  { r with diagnostics := r.diagnostics ++ [d] }

/- Ask for lines about what is made, or not. -/
def setDebug (r : Registry F) (debug : Bool) : Registry F :=
  { r with options := { r.options with debug := debug } }

/- The size of a registry in words. -/
def describe (r : Registry F) : String :=
  "Parse \x7b graphs: " ++ toString r.graphs.size ++
    ", nodes: " ++ toString r.nodes.size ++
    ", edges: " ++ toString r.edges.size ++
    ", diagnostics: " ++ toString r.diagnostics.length ++
    " \x7d"

end Registry

end DotLang
