import DotLang.Registry.Basic

/-
  This file defines the questions about a registry: which graphs
  lie inside and around a graph, and what names stand for.

  A name is looked up in a graph, then in the graphs around it
  from the inside out, then in the graphs inside it in the order
  in which they are written.

  Key definitions include:
    * `Registry.lineage`
    * `Registry.subgraphs`
    * `Registry.allNodes`
    * `Registry.allEdges`
    * `Registry.localNode?`
    * `Registry.resolveNode?`
    * `Registry.findChild?`
    * `Registry.findEdge?`
-/

------------------------------------------------------------
-- Graphs Around and Inside
------------------------------------------------------------

namespace DotLang

namespace Registry

variable {F : Factory}

/- A graph and those around it, at most `bound` in all. -/
def lineageWithin
    (r : Registry F) : Nat → GraphId → List GraphId
| 0, _ => []
| bound + 1, g =>
    match (r.graph g).parent with
    | some parent => g :: lineageWithin r bound parent
    | none => [g]

/- A graph and those around it, from the inside out. -/
def lineage (r : Registry F) (g : GraphId) : List GraphId :=
  r.lineageWithin r.graphs.size g

/-
  The graphs that a walk visits, at most `bound` in all.  The
  children of a graph come before what was pending.
-/
def walkWithin
    (r : Registry F) : Nat → List GraphId → List GraphId
| 0, _ => []
| _, [] => []
| bound + 1, g :: pending =>
    g :: walkWithin r bound ((r.graph g).children ++ pending)

/- All graphs inside a graph, each before those inside it. -/
def subgraphs (r : Registry F) (g : GraphId) : List GraphId :=
  r.walkWithin r.graphs.size (r.graph g).children

/- A graph and all graphs inside it. -/
def extent (r : Registry F) (g : GraphId) : List GraphId :=
  g :: r.subgraphs g

/- The nodes of a graph and of all graphs inside it. -/
def allNodes (r : Registry F) (g : GraphId) : List NodeId :=
  (r.extent g).flatMap fun h => (r.graph h).nodes

/- The edges of a graph and of all graphs inside it. -/
def allEdges (r : Registry F) (g : GraphId) : List EdgeId :=
  (r.extent g).flatMap fun h => (r.graph h).edges

/- The names of nodes. -/
def nodeNames
    (r : Registry F)
    (nodes : List NodeId) : List String :=
  nodes.map fun n => (r.node n).name

------------------------------------------------------------
-- Names
------------------------------------------------------------

/- The node of a graph that its index has for a name. -/
def localNode?
    (r : Registry F)
    (g : GraphId)
    (name : String) : Option NodeId :=
  (r.graph g).nodeIndex[name]?

/- The node with a name in a graph or in the ones around it. -/
def findNode?
    (r : Registry F)
    (g : GraphId)
    (name : String) : Option NodeId :=
  (r.lineage g).findSome? fun h => r.localNode? h name

/- The node with a name in the graphs inside a graph. -/
def findNestedNode?
    (r : Registry F)
    (g : GraphId)
    (name : String) : Option NodeId :=
  (r.subgraphs g).findSome? fun h => r.localNode? h name

/- The node that a name stands for in the text of a graph. -/
def resolveNode?
    (r : Registry F)
    (g : GraphId)
    (name : String) : Option NodeId :=
  (r.findNode? g name).or (r.findNestedNode? g name)

/- The first child of a graph with a name. -/
def findChild?
    (r : Registry F)
    (g : GraphId)
    (name : String) : Option GraphId :=
  (r.graph g).children.find? fun h => (r.graph h).name = name

/- The top level graphs with their names. -/
def namedRoots (r : Registry F) : List (String × GraphId) :=
  r.roots.map fun g => ((r.graph g).name, g)

/- The first top level graph with a name. -/
def findRoot?
    (r : Registry F)
    (name : String) : Option GraphId :=
  r.roots.find? fun g => (r.graph g).name = name

------------------------------------------------------------
-- Edges
------------------------------------------------------------

/-
  An edge between two nodes: one from the first to the second,
  or else an undirected one the other way round.
-/
def findEdge?
    (r : Registry F)
    (tail head : NodeId) : Option EdgeId :=
  let forward := (r.node tail).outEdges.find? fun e =>
    (r.edge e).head = head
  let backward := (r.node head).outEdges.find? fun e =>
    !(r.edge e).directed && (r.edge e).head = tail
  forward.or backward

end Registry

end DotLang
