import DotLang.AttributeTable.Typed
import DotLang.Partition
import DotLang.Registry.Query

/-
  This file defines the minimum spanning forest of a graph: the
  lightest edges that connect what the edges of the graph and of
  the graphs inside it connect.

  Edges are taken from the lightest on, and equally heavy ones
  in the order of the graph, unless they close a cycle.

  Key definitions include:
    * `PlacedNodes`
    * `PlacedNodes.meet`
    * `Registry.spannedNodes`
    * `Registry.weighedEdges`
    * `selectEdges`
    * `SpanningForest`
    * `Registry.spanningForest`
    * `Registry.ofForest`
    * `Registry.minimumSpanningTree`
-/

------------------------------------------------------------
-- Places of Nodes
------------------------------------------------------------

namespace DotLang

/-
  Nodes in the order in which they were met, each once, and an
  index of their places in this order.
-/
structure PlacedNodes where
  nodes : List NodeId := []
  places : Std.ExtTreeMap NodeId Nat := ∅
deriving DecidableEq, Repr, Inhabited

namespace PlacedNodes

/- Meet a node, which takes the next place unless it has one. -/
def meet (p : PlacedNodes) (n : NodeId) : PlacedNodes :=
  if p.places.contains n then
    p
  else
    { nodes := p.nodes ++ [n]
      places := p.places.insert n p.nodes.length }

/- The place of a node, or the next one if it was not met. -/
def placeOf (p : PlacedNodes) (n : NodeId) : Nat :=
  p.places.getD n p.nodes.length

end PlacedNodes

/-
  The nodes of a graph and inside it, and then the ends of its
  edges, as they are met.
-/
def Registry.spannedNodes
    {F : Factory}
    (r : Registry F)
    (g : GraphId) : PlacedNodes :=
  let ends := (r.allEdges g).flatMap fun e =>
    [(r.edge e).tail, (r.edge e).head]
  (r.allNodes g ++ ends).foldl PlacedNodes.meet {}

------------------------------------------------------------
-- Edges by Weight
------------------------------------------------------------

/- An edge and its weight. -/
structure WeighedEdge where
  weight : Binary64
  edge : EdgeId
deriving DecidableEq, Repr, Inhabited

namespace Registry

variable {F : Factory}

/- The edges of a graph and inside it, from the lightest on. -/
def weighedEdges
    (r : Registry F)
    (g : GraphId) : List WeighedEdge :=
  let edges := (r.allEdges g).map fun e =>
    ⟨(r.edge e).attributes.weight, e⟩
  edges.mergeSort fun a b => a.weight.rank ≤ b.weight.rank

end Registry

------------------------------------------------------------
-- Selection
------------------------------------------------------------

/-
  The edges that join two sets of a partition when they are
  taken one after the other, and the partition in the end.  Once
  `missing` edges are found the others are not looked at.
-/
def selectEdges
    (ends : EdgeId → Nat × Nat) :
    Nat → Partition → List WeighedEdge →
      List EdgeId × Partition
| _, p, [] => ([], p)
| 0, p, _ => ([], p)
| missing + 1, p, e :: rest =>
    let (joined, p) := p.union (ends e.edge).1 (ends e.edge).2
    if joined then
      let (selected, p) := selectEdges ends missing p rest
      (e.edge :: selected, p)
    else
      selectEdges ends (missing + 1) p rest

/-
  A forest: the nodes it spans, its edges in the order in which
  they were made, and the number of its trees.
-/
structure SpanningForest extends PlacedNodes where
  edges : List EdgeId
  trees : Nat
deriving DecidableEq, Repr, Inhabited

namespace Registry

variable {F : Factory}

/- The minimum spanning forest of a graph. -/
def spanningForest
    (r : Registry F)
    (g : GraphId) : SpanningForest :=
  let placed := r.spannedNodes g
  let ends := fun e =>
    (placed.placeOf (r.edge e).tail, placed.placeOf (r.edge e).head)
  let (selected, p) :=
    selectEdges ends (placed.nodes.length - 1)
      (.singletons placed.nodes.length) (r.weighedEdges g)
  { placed with
    edges :=
      selected.mergeSort fun a b => a.index ≤ b.index
    trees := p.count }

/- What looking for a spanning forest says. -/
def spanningForestJournal
    (r : Registry F)
    (g : GraphId) : List Entry :=
  let forest := r.spanningForest g
  ((r.allEdges g).flatMap fun e =>
      (r.edge e).attributes.weightWarnings) ++
    [{ level := .info
       origin := .forest
       message :=
        "Spanning tree of \"" ++ (r.graph g).name ++ "\": " ++
          toString forest.nodes.length ++ " nodes, " ++
          toString forest.edges.length ++ " edges, " ++
          toString forest.trees ++ " components." }]

------------------------------------------------------------
-- Forests as Registries
------------------------------------------------------------

/-
  Add a copy of a node of another registry, as a member, and
  put it behind the copies that were made before.
-/
def copyNode
    (source : Registry F)
    (root : GraphId)
    (made : List NodeId × Registry .plain)
    (n : NodeId) : List NodeId × Registry .plain :=
  let node := source.node n
  let (copy, r) := made.2.addNode root node.name node.attributes
  (made.1 ++ [copy], r.addMember root copy)

/-
  Add a copy of an edge of another registry, between the copies
  of its ends, which are in the places of the ends.
-/
def copyEdge
    (source : Registry F)
    (root : GraphId)
    (placed : PlacedNodes)
    (copies : List NodeId)
    (r : Registry .plain)
    (e : EdgeId) : Registry .plain :=
  let edge := source.edge e
  let tail := copies.getD (placed.placeOf edge.tail) default
  let head := copies.getD (placed.placeOf edge.head) default
  (r.addEdge root tail head edge.attributes).2

/-
  A registry with one graph, which has the name, the direction
  and the attributes of the given one, and holds copies of the
  nodes and edges of a forest.
-/
def ofForest
    (source : Registry F)
    (g : GraphId)
    (forest : SpanningForest) : Registry .plain :=
  let graph := source.graph g
  let (root, r) :=
    (Registry.plain {}).addGraph
      (.new graph.name graph.directed false) none
  let r := r.modifyGraph root
    (Graph.setAttributes graph.attributes.entries)
  let (copies, r) :=
    forest.nodes.foldl (source.copyNode root) ([], r)
  forest.edges.foldl
    (source.copyEdge root forest.toPlacedNodes copies) r

/- The minimum spanning forest of a graph as a registry. -/
def minimumSpanningTree
    (r : Registry F)
    (g : GraphId) : Registry .plain :=
  r.ofForest g (r.spanningForest g)

end Registry

end DotLang
