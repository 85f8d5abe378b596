import DotLang.Registry.Dot

/-
  This file defines the trace of a graph: what it holds as an
  indented list.

  Key definitions include:
    * `Registry.traceLines`
    * `Registry.trace`
-/

------------------------------------------------------------
-- Traces
------------------------------------------------------------

namespace DotLang

/- The kind and the size of a graph in words. -/
def Graph.summary (g : Graph) : String :=
  "Graph \"" ++ g.name ++ "\" (" ++
    (if g.strict then "strict " else "") ++
    (if g.directed then "directed" else "undirected") ++ ", " ++
    toString g.nodes.length ++ " nodes, " ++
    toString g.edges.length ++ " edges)"

namespace Registry

variable {F : Factory}

/- The line of a node in a trace. -/
def nodeSummary (r : Registry F) (n : NodeId) : String :=
  let node := r.node n
  " Node " ++ quoteIdentifier node.name ++ " " ++
    node.attributes.written

/- The line of an edge in a trace. -/
def edgeSummary (r : Registry F) (e : EdgeId) : String :=
  let edge := r.edge e
  " Edge " ++ quoteIdentifier (r.node edge.tail).name ++ " " ++
    edge.arrow.spelling ++ " " ++
    quoteIdentifier (r.node edge.head).name ++ " " ++
    edge.attributes.written

/-
  The lines of a graph, with those inside it down to a depth.
-/
def traceLines
    (r : Registry F) : Nat → Nat → GraphId → List String
| 0, _, _ => []
| depth + 1, level, g =>
    let graph := r.graph g
    let attributes :=
      if graph.attributes.isEmpty then
        []
      else
        [" Attributes " ++ graph.attributes.written]
    ([graph.summary] ++ attributes ++
        graph.nodes.map r.nodeSummary ++
        graph.edges.map r.edgeSummary).map (spaces level ++ ·) ++
      graph.children.flatMap (r.traceLines depth (level + 1))

/- The trace of a graph. -/
def trace (r : Registry F) (g : GraphId) : String :=
  unlines (r.traceLines r.graphs.size 0 g)

end Registry

end DotLang
