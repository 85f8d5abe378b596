import DotLang.AttributeTable.Typed
import DotLang.Binary64.Shortest
import DotLang.Registry.Query

/-
  This file defines routes between two nodes of a graph: those
  with the fewest edges, and those with the least weight.

  The edges of the graph and of the graphs inside it count.  A
  directed edge leads from its tail to its head only.  A route
  is the list of its nodes; there is none if the list is empty.

  Routes are weighed on a scale: that of the numbers of the
  binary64 format, or any other one.

  Key definitions include:
    * `Scale`
    * `Arc`
    * `Registry.arcs`
    * `lightestAlong`
    * `weightAlong`
    * `Registry.shortestRoute`
    * `Registry.lightestRoute`
    * `Registry.routeWeight`
-/

------------------------------------------------------------
-- Scales
------------------------------------------------------------

namespace DotLang

/-
  Numbers to weigh routes with: what an empty route weighs, what
  weighs more than all routes, sums, the comparison by value,
  and the order of service.
-/
class Scale (W : Type) where
  zero : W
  infinite : W
  add : W → W → W
  lt : W → W → Bool
  precedes : W → W → Bool

instance : Scale Binary64 where
  zero := .zero
  infinite := .infinite false
  add := Binary64.add
  lt := Binary64.lt
  precedes x y := x.rank < y.rank

------------------------------------------------------------
-- Arcs
------------------------------------------------------------

/- A way from one node to another. -/
structure Arc (W : Type) where
  source : NodeId
  target : NodeId
  weight : W
deriving DecidableEq, Repr, Inhabited

variable {W : Type}

/- A weight counts as it is, or as the default if negative. -/
def effectiveWeight (w : Binary64) : Binary64 :=
  if w.lt .zero then AttributeTable.defaultWeight else w

/- The ways along an edge. -/
def Edge.arcsBy
    (weigh : AttributeTable → W)
    (e : Edge) : List (Arc W) :=
  let weight := weigh e.attributes
  if e.directed then
    [⟨e.tail, e.head, weight⟩]
  else
    [⟨e.tail, e.head, weight⟩, ⟨e.head, e.tail, weight⟩]

namespace Registry

variable {F : Factory}

/-
  The ways along the edges of a graph and inside it, weighed by
  their attributes.
-/
def arcsBy
    (weigh : AttributeTable → W)
    (r : Registry F)
    (g : GraphId) : List (Arc W) :=
  (r.allEdges g).flatMap fun e => (r.edge e).arcsBy weigh

/- The ways along the edges with their effective weights. -/
def arcs (r : Registry F) (g : GraphId) : List (Arc Binary64) :=
  r.arcsBy (fun t => effectiveWeight t.weight) g

/- What looking at the weight of an edge says. -/
def weightJournal (r : Registry F) (e : EdgeId) : List Entry :=
  let edge := r.edge e
  let weight := edge.attributes.weight
  let negative : List Entry :=
    if weight.lt .zero then
      [{ level := .warning
         origin := .route
         message :=
          "Negative weight " ++ weight.display ++
            " on edge " ++ (r.node edge.tail).name ++ " - " ++
            (r.node edge.head).name ++ "; using 1.0" }]
    else
      []
  edge.attributes.weightWarnings ++ negative

/- What looking at all edges of a graph says. -/
def arcsJournal (r : Registry F) (g : GraphId) : List Entry :=
  (r.allEdges g).flatMap r.weightJournal

/- What looking for a route between two nodes says. -/
def routeJournal
    (r : Registry F)
    (g : GraphId)
    (source target : NodeId) : List Entry :=
  if source = target then [] else r.arcsJournal g

end Registry

/- The ways out of a node. -/
def arcsFrom
    (arcs : List (Arc W))
    (n : NodeId) : List (Arc W) :=
  arcs.filter fun arc => arc.source = n

------------------------------------------------------------
-- Steps Back
------------------------------------------------------------

/- For each node that was reached, the one before it. -/
abbrev Predecessors :=
  List (NodeId × NodeId)

/-
  The route to a node along at most `bound` steps back, with
  what follows the node behind it.
-/
def retrace
    (before : Predecessors)
    (source : NodeId) :
    Nat → NodeId → List NodeId → List NodeId
| 0, _, _ => []
| bound + 1, n, behind =>
    if n = source then
      n :: behind
    else
      match before.lookup n with
      | some earlier => retrace before source bound earlier (n :: behind)
      | none => []

/- The route from a source to a target that was reached. -/
def routeTo
    (before : Predecessors)
    (source target : NodeId) : List NodeId :=
  retrace before source (before.length + 1) target []

------------------------------------------------------------
-- Fewest Edges
------------------------------------------------------------

/-
  The nodes that are reached for the first time from a node,
  in their order, after those that were reached before.
-/
def discover
    (source : NodeId)
    (before : Predecessors) : List (Arc W) → Predecessors
| [] => []
| arc :: rest =>
    if arc.target = source ∨ (before.lookup arc.target).isSome then
      discover source before rest
    else
      (arc.target, arc.source) ::
        discover source ((arc.target, arc.source) :: before) rest

/-
  Search in the order in which nodes are reached, from at most
  `bound` of them, until the target is.
-/
def searchWidth
    (arcs : List (Arc W))
    (source target : NodeId) :
    Nat → Predecessors → List NodeId → List NodeId
| 0, _, _ => []
| _, _, [] => []
| bound + 1, before, n :: pending =>
    let found := discover source before (arcsFrom arcs n)
    let before := found.reverse ++ before
    if (found.lookup target).isSome then
      routeTo before source target
    else
      searchWidth arcs source target bound before
        (pending ++ found.map Prod.fst)

/- A route along arcs with the fewest of them. -/
def shortestAlong
    (arcs : List (Arc W))
    (source target : NodeId) : List NodeId :=
  if source = target then
    [source]
  else
    searchWidth arcs source target (arcs.length + 1) [] [source]

/- A route with the fewest edges. -/
def Registry.shortestRoute
    {F : Factory}
    (r : Registry F)
    (g : GraphId)
    (source target : NodeId) : List NodeId :=
  shortestAlong (r.arcs g) source target

------------------------------------------------------------
-- Least Weight
------------------------------------------------------------

/- A node in line, at a cost, and when it joined the line. -/
structure Candidate (W : Type) where
  cost : W
  turn : Nat
  node : NodeId
deriving DecidableEq, Repr, Inhabited

section Weighing

variable [Scale W]

/-
  A candidate is served before another one: at less cost, or at
  no more if it joined the line before it.
-/
def Candidate.precedes (a b : Candidate W) : Bool :=
  Scale.precedes a.cost b.cost ||
    (!Scale.precedes b.cost a.cost && a.turn < b.turn)

/- Put a candidate into a line that is in order. -/
def enqueue
    (a : Candidate W) : List (Candidate W) → List (Candidate W)
| [] => [a]
| b :: rest =>
    if a.precedes b then
      a :: b :: rest
    else
      b :: enqueue a rest

/-
  A search by weight: the least cost known for each node that
  was reached, the node before it, the line of candidates, and
  the number of candidates so far.
-/
structure WeightSearch (W : Type) where
  costs : List (NodeId × W)
  before : Predecessors
  line : List (Candidate W)
  turns : Nat
deriving Repr, Inhabited

namespace WeightSearch

/- The search that has reached its source only. -/
def start (source : NodeId) : WeightSearch W where
  costs := [(source, Scale.zero)]
  before := []
  line := [⟨Scale.zero, 0, source⟩]
  turns := 0

/- The cost is less than what is known for a node. -/
def improves
    (s : WeightSearch W)
    (cost : W)
    (n : NodeId) : Bool :=
  match s.costs.lookup n with
  | some known => Scale.lt cost known
  | none => true

/- Go along an arc whose source was reached at a cost. -/
def relax
    (cost : W)
    (s : WeightSearch W)
    (arc : Arc W) : WeightSearch W :=
  let total := Scale.add cost arc.weight
  if s.improves total arc.target then
    { costs := (arc.target, total) :: s.costs
      before := (arc.target, arc.source) :: s.before
      line := enqueue ⟨total, s.turns + 1, arc.target⟩ s.line
      turns := s.turns + 1 }
  else
    s

/- A candidate whose node was reached at less cost since. -/
def isStale (s : WeightSearch W) (c : Candidate W) : Bool :=
  match s.costs.lookup c.node with
  | some known => Scale.lt known c.cost
  | none => false

/-
  Serve at most `bound` candidates, until the target is served.
-/
def run
    (arcs : List (Arc W))
    (source target : NodeId) :
    Nat → WeightSearch W → List NodeId
| 0, _ => []
| bound + 1, s =>
    match s.line with
    | [] => []
    | c :: line =>
        let s := { s with line := line }
        if c.node = target then
          routeTo s.before source target
        else if s.isStale c then
          run arcs source target bound s
        else
          run arcs source target bound
            ((arcsFrom arcs c.node).foldl (relax c.cost) s)

end WeightSearch

/- A route along arcs with the least weight. -/
def lightestAlong
    (arcs : List (Arc W))
    (source target : NodeId) : List NodeId :=
  if source = target then
    [source]
  else
    WeightSearch.run arcs source target (arcs.length + 2)
      (.start source)

------------------------------------------------------------
-- Weight of a Route
------------------------------------------------------------

/-
  The weight of the lightest way between two nodes, which is
  infinite if there is none.
-/
def lightestArc
    (arcs : List (Arc W))
    (source target : NodeId) : W :=
  let ways := (arcsFrom arcs source).filter fun arc =>
    arc.target = target
  ways.foldl
    (fun least arc =>
      if Scale.lt arc.weight least then arc.weight else least)
    Scale.infinite

/- Add up the lightest ways along a route. -/
def addWeights
    (arcs : List (Arc W)) :
    W → List NodeId → W
| total, a :: b :: rest =>
    addWeights arcs (Scale.add total (lightestArc arcs a b))
      (b :: rest)
| total, _ => total

/- The weight of a route along arcs. -/
def weightAlong
    (arcs : List (Arc W))
    (route : List NodeId) : W :=
  addWeights arcs Scale.zero route

end Weighing

namespace Registry

variable {F : Factory}

/- A route with the least weight. -/
def lightestRoute
    (r : Registry F)
    (g : GraphId)
    (source target : NodeId) : List NodeId :=
  lightestAlong (r.arcs g) source target

/- The weight of a route. -/
def routeWeight
    (r : Registry F)
    (g : GraphId)
    (route : List NodeId) : Binary64 :=
  weightAlong (r.arcs g) route

end Registry

end DotLang
