import DotLang.Registry.Query
import DotLang.Text.Layout
import DotLang.Text.Quoted

/-
  This file defines the text of a graph in the graph language.

  Nodes of a graph or of one around it come before the
  subgraphs, and members that a subgraph owns come after them,
  so that each is declared first where it belongs.

  Key definitions include:
    * `AttributeTable.suffix`
    * `Registry.dotLines`
    * `Registry.toDot`
-/

------------------------------------------------------------
-- Attributes
------------------------------------------------------------

namespace DotLang

/- A value as it is written. -/
def Value.written : Value → String
| plain text => quoteIdentifier text
| html text => "<" ++ text ++ ">"

/- An attribute as it is written. -/
def Attribute.written (a : Attribute) : String :=
  quoteIdentifier a.name ++ "=" ++ a.value.written

/- A table of attributes in brackets. -/
def AttributeTable.written (t : AttributeTable) : String :=
  "[" ++ joinWith ", " (t.entries.map Attribute.written) ++ "]"

/- A table of attributes behind a space, or nothing if empty. -/
def AttributeTable.suffix (t : AttributeTable) : String :=
  if t.isEmpty then "" else " " ++ t.written

------------------------------------------------------------
-- Lines of a Graph
------------------------------------------------------------

/- The first line of a graph. -/
def Graph.header (g : Graph) : String :=
  let keyword :=
    if g.isRoot then
      (if g.strict then "strict " else "") ++
        (if g.directed then "digraph" else "graph")
    else
      "subgraph"
  let name :=
    if g.name.isEmpty then "" else " " ++ quoteIdentifier g.name
  keyword ++ name ++ " \x7b"

namespace Registry

variable {F : Factory}

/-
  The line of a node in a graph.  Its attributes are written
  where it is owned.
-/
def nodeLine
    (r : Registry F)
    (g : GraphId)
    (n : NodeId) : String :=
  let node := r.node n
  let attributes :=
    if node.owner = g then node.attributes.suffix else ""
  quoteIdentifier node.name ++ attributes ++ ";"

/- The line of an edge in a graph. -/
def edgeLine
    (r : Registry F)
    (directed : Bool)
    (e : EdgeId) : String :=
  let edge := r.edge e
  quoteIdentifier (r.node edge.tail).name ++ " " ++
    (Arrow.ofDirected directed).spelling ++ " " ++
    quoteIdentifier (r.node edge.head).name ++
    edge.attributes.suffix ++ ";"

/-
  The members that a graph or one around it owns, then the
  nodes that it owns without mentioning them.
-/
def visibleNodes (r : Registry F) (g : GraphId) : List NodeId :=
  let graph := r.graph g
  graph.members.filter
      (fun n => (r.lineage g).contains (r.node n).owner) ++
    graph.nodes.filter fun n => !graph.isMember n

/- The members that only graphs inside a graph own. -/
def nestedNodes (r : Registry F) (g : GraphId) : List NodeId :=
  (r.graph g).members.filter fun n =>
    !(r.lineage g).contains (r.node n).owner

/-
  The lines of a graph, with those inside it down to a depth.
-/
def dotLines
    (r : Registry F) : Nat → Nat → GraphId → List String
| 0, _, _ => []
| depth + 1, level, g =>
    let graph := r.graph g
    let outer := spaces (2 * level)
    let inner := spaces (2 * (level + 1))
    let attributes := graph.attributes.entries.map fun a =>
      a.written ++ ";"
    let before := (r.visibleNodes g).map (r.nodeLine g)
    let children :=
      graph.children.flatMap (r.dotLines depth (level + 1))
    let behind := (r.nestedNodes g).map (r.nodeLine g)
    let edges := graph.edges.map (r.edgeLine graph.directed)
    [outer ++ graph.header] ++
      (attributes ++ before).map (inner ++ ·) ++
      children ++
      (behind ++ edges).map (inner ++ ·) ++
      [outer ++ "\x7d"]

/- The text of a graph. -/
def toDot (r : Registry F) (g : GraphId) : String :=
  unlines (r.dotLines r.graphs.size 0 g)

end Registry

end DotLang
