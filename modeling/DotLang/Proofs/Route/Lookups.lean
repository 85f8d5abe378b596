import DotLang.Proofs.Registry.LookupsInTexts
import DotLang.Proofs.Route.Correctness

/-
  This file proves that the searches for routes end, and look up
  nothing that is not there.

  They are told once more without a bound on the nodes that are
  served.  Each candidate that is served must have a cost, and
  each step back from the target must find a predecessor until
  it is at the source.

  Key definitions include:
    * `Predecessors.retrace?`
    * `shortestAlong?`
    * `lightestAlong?`
    * `Registry.arcs?`

  Key theorems include:
    * `IsTraced.routeTo?_eq`
    * `shortestAlong?_eq`
    * `lightestAlong?_eq`
    * `Registry.IsConsistent.arcs?_eq`
-/

------------------------------------------------------------
-- Steps Back
------------------------------------------------------------

namespace DotLang

/-
  The route to a node, with what follows the node behind it.
  Each node on the way that is not the source has a predecessor.
-/
def Predecessors.retrace?
    (before : Predecessors)
    (source n : NodeId)
    (behind : List NodeId) : Option (List NodeId) :=
  if n = source then
    some (n :: behind)
  else do
    let earlier ← before.lookup n
    before |>.retrace? source earlier (n :: behind)
partial_fixpoint

/- The route from a source to a target that was reached. -/
def Predecessors.routeTo?
    (before : Predecessors)
    (source target : NodeId) : Option (List NodeId) :=
  before.retrace? source target []

namespace IsTraced

variable {before : Predecessors} {source n : NodeId}
variable {route : List NodeId}

/- The steps back go along the route by which a node was reached. -/
theorem retrace?_eq
    (h : IsTraced before source n route)
    (behind : List NodeId) :
    before.retrace? source n behind = some (route ++ behind) := by
  induction h generalizing behind with
  | source =>
      rw [Predecessors.retrace?, if_pos rfl]
      rfl
  | @step n p route hRoute hBefore hNew ih =>
      have hNe : n ≠ source := by
        rintro rfl
        exact hNew hRoute.source_mem
      rw [Predecessors.retrace?, if_neg hNe, bind_of_eq_some hBefore,
        List.append_assoc]
      exact ih (n :: behind)

theorem routeTo?_eq
    (h : IsTraced before source n route) :
    before.routeTo? source n = some (routeTo before source n) := by
  rw [Predecessors.routeTo?, h.retrace?_eq, h.routeTo_eq, List.append_nil]

end IsTraced

------------------------------------------------------------
-- Fewest Edges
------------------------------------------------------------

variable {W : Type} {arcs : List (Arc W)} {source target : NodeId}

/-
  Search in the order in which nodes are reached, until the
  target is or no node is pending.
-/
def Predecessors.searchWidth?
    (arcs : List (Arc W))
    (source target : NodeId)
    (before : Predecessors)
    (pending : List NodeId) : Option (List NodeId) :=
  match pending with
  | [] => some []
  | n :: pending =>
      let found := discover source before (arcsFrom arcs n)
      let before : Predecessors := found.reverse ++ before
      if (found.lookup target).isSome then
        before.routeTo? source target
      else
        before |>.searchWidth? arcs source target
          (pending ++ found.map Prod.fst)
partial_fixpoint

/- A route along arcs with the fewest of them. -/
def shortestAlong?
    (arcs : List (Arc W))
    (source target : NodeId) : Option (List NodeId) :=
  if source = target then
    some [source]
  else
    Predecessors.searchWidth? arcs source target [] [source]

/- The bound is never met, since each node is served once. -/
theorem IsWide.searchWidth?_eq
    {before : Predecessors}
    {pending served : List NodeId}
    (h : IsWide arcs source before pending served)
    {bound : Nat}
    (hBound : bound + served.length = arcs.length + 1) :
    before.searchWidth? arcs source target pending =
      some (searchWidth arcs source target bound before pending) := by
  induction bound generalizing before pending served with
  | zero =>
      have hLength := h.length_le
      have hPending : pending = [] := by
        rw [← List.length_eq_zero_iff]
        omega
      rw [hPending, Predecessors.searchWidth?, searchWidth]
  | succ bound ih =>
      rcases pending with _ | ⟨n, pending⟩
      · rw [Predecessors.searchWidth?]
        rfl
      have hNext := h.serve
      have hBound' :
          bound + (n :: served).length = arcs.length + 1 := by
        rw [List.length_cons]
        omega
      rw [Predecessors.searchWidth?, searchWidth]
      split
      case isTrue hFound =>
        have hMem :
            target ∈ source ::
              Predecessors.nodes
                ((discover source before
                  (arcsFrom arcs n)).reverse ++ before) :=
          Predecessors.mem_nodes_append.mpr
            (.inl (Predecessors.lookup_isSome_iff.mp hFound))
        rcases hNext.isTree.traced target hMem with ⟨_, hRoute, -⟩
        exact hRoute.routeTo?_eq
      case isFalse => exact ih hNext hBound'

theorem shortestAlong?_eq
    (arcs : List (Arc W))
    (source target : NodeId) :
    shortestAlong? arcs source target =
      some (shortestAlong arcs source target) := by
  rw [shortestAlong?, shortestAlong]
  split
  · rfl
  · exact (isWide_start arcs source).searchWidth?_eq rfl

------------------------------------------------------------
-- Least Weight
------------------------------------------------------------

section Weighing

variable [Scale W]

/-
  Serve candidates until the target is served or none is in
  line.  A candidate that is not the target has a known cost.
-/
def WeightSearch.run?
    (arcs : List (Arc W))
    (source target : NodeId)
    (s : WeightSearch W) : Option (List NodeId) :=
  match s.line with
  | [] => some []
  | c :: line =>
      let s := { s with line := line }
      if c.node = target then
        s.before.routeTo? source target
      else do
        let known ← s.costs.lookup c.node
        if Scale.lt known c.cost then
          s |>.run? arcs source target
        else
          (arcsFrom arcs c.node).foldl (relax c.cost) s
            |>.run? arcs source target
partial_fixpoint

/- A route along arcs with the least weight. -/
def lightestAlong?
    (arcs : List (Arc W))
    (source target : NodeId) : Option (List NodeId) :=
  if source = target then
    some [source]
  else
    WeightSearch.run? arcs source target (.start source)

variable {K : Type} [LinearOrder K] {value : W → K}
variable {IsCost IsWeight : W → Prop}
variable {floor : W} {served : List NodeId}
variable {s : WeightSearch W}

theorem IsSearch.run?_of_line
    (h : IsSearch value IsCost arcs source floor [] served s)
    {c : Candidate W}
    {line : List (Candidate W)}
    (hLine : s.line = c :: line)
    (hNe : c.node ≠ target) :
    s.run? arcs source target =
      WeightSearch.run? arcs source target
        (.settle arcs c { s with line := line }) := by
  have hMem : c ∈ s.line := hLine ▸ List.mem_cons_self
  rcases h.inLine c hMem with ⟨-, -, k, hk, -⟩
  rw [WeightSearch.run?, hLine, WeightSearch.settle,
    WeightSearch.isStale, hk]
  dsimp only
  rw [if_neg hNe, bind_of_eq_some hk]
  split <;> rfl

/- The bound is never met, since no arc is followed twice. -/
theorem IsSearch.run?_eq
    (hScale : IsScale value IsCost IsWeight)
    (hArcs : ∀ arc ∈ arcs, IsWeight arc.weight)
    (h : IsSearch value IsCost arcs source floor [] served s)
    (hTarget : target ∉ served)
    {bound : Nat}
    (hBound : s.line.length + unfollowed arcs served < bound) :
    s.run? arcs source target =
      some (s.run arcs source target bound) := by
  induction bound generalizing floor served s with
  | zero => cases hBound
  | succ bound ih =>
      rcases hLine : s.line with _ | ⟨c, line⟩
      · rw [WeightSearch.run?, WeightSearch.run, hLine]
      by_cases hEq : c.node = target
      · subst hEq
        have hMem : c ∈ s.line := hLine ▸ List.mem_cons_self
        rcases h.inLine c hMem with ⟨-, -, k, hk, -⟩
        rcases h.exists_traced hScale hArcs hk hTarget with
          ⟨_, hRoute, -⟩
        rw [WeightSearch.run?, WeightSearch.run, hLine]
        simp only [if_true]
        exact hRoute.routeTo?_eq
      · rcases h.settle hScale hArcs hLine with
          ⟨floor', served', hNext, hServed, hFewer⟩
        rw [h.run?_of_line hLine hEq,
          WeightSearch.run_of_line source bound hLine hEq]
        refine ih hNext (fun hMem => ?_) (by omega)
        rcases List.mem_cons.mp (hServed hMem) with hSame | hOld
        · exact hEq hSame.symm
        · exact hTarget hOld

theorem lightestAlong?_eq
    (hScale : IsScale value IsCost IsWeight)
    (hArcs : ∀ arc ∈ arcs, IsWeight arc.weight)
    (source target : NodeId) :
    lightestAlong? arcs source target =
      some (lightestAlong arcs source target) := by
  rw [lightestAlong?, lightestAlong]
  split
  · rfl
  · have hFew : unfollowed arcs [] ≤ arcs.length :=
      List.countP_le_length
    apply (isSearch_start hScale arcs source).run?_eq hScale hArcs
      List.not_mem_nil
    simp only [WeightSearch.start, List.length_singleton]
    omega

end Weighing

------------------------------------------------------------
-- Routes in a Graph
------------------------------------------------------------

namespace Registry

variable {F : Factory} {r : Registry F} {g : GraphId}

/-
  What looking at the weight of an edge says.  Only a warning
  looks the ends of the edge up.
-/
def weightJournal?
    (r : Registry F)
    (edge : Edge) : Option (List Entry) :=
  let weight := edge.attributes.weight
  if weight.lt .zero then do
    let tail ← r.node? edge.tail
    let head ← r.node? edge.head
    let negative : Entry :=
      { level := .warning
        origin := .route
        message :=
          "Negative weight " ++ weight.display ++
            " on edge " ++ tail.name ++ " - " ++
            head.name ++ "; using 1.0" }
    return edge.attributes.weightWarnings ++ [negative]
  else
    some edge.attributes.weightWarnings

/- The ways along an edge, and what looking at it says. -/
def arcsOfEdge?
    (r : Registry F)
    (e : EdgeId) : Option (List (Arc Binary64) × List Entry) := do
  let edge ← r.edge? e
  let journal ← r.weightJournal? edge
  return (edge.arcsBy fun t => effectiveWeight t.weight, journal)

/-
  The ways along the edges of a graph and inside it, and what
  looking at the edges says.
-/
def arcs?
    (r : Registry F)
    (g : GraphId) : Option (List (Arc Binary64) × List Entry) := do
  let edges ← r.allEdges? g
  let ways ← edges.mapM r.arcsOfEdge?
  return (ways.flatMap Prod.fst, ways.flatMap Prod.snd)

/- The route that a search along the arcs finds, and what is said. -/
def seekRoute?
    (search? :
      List (Arc Binary64) → NodeId → NodeId → Option (List NodeId))
    (r : Registry F)
    (g : GraphId)
    (source target : NodeId) :
    Option (List NodeId × List Entry) :=
  if source = target then
    some ([source], [])
  else do
    let (arcs, journal) ← r.arcs? g
    let route ← search? arcs source target
    return (route, journal)

/- A route with the fewest edges, and what is said. -/
def shortestRoute?
    (r : Registry F)
    (g : GraphId)
    (source target : NodeId) :
    Option (List NodeId × List Entry) :=
  r.seekRoute? shortestAlong? g source target

/- A route with the least weight, and what is said. -/
def lightestRoute?
    (r : Registry F)
    (g : GraphId)
    (source target : NodeId) :
    Option (List NodeId × List Entry) :=
  r.seekRoute? lightestAlong? g source target

/- The weight of a route, and what is said. -/
def routeWeight?
    (r : Registry F)
    (g : GraphId)
    (route : List NodeId) : Option (Binary64 × List Entry) := do
  let (arcs, journal) ← r.arcs? g
  return (weightAlong arcs route, journal)

theorem KeepsHandles.weightJournal?_eq
    (h : r.KeepsHandles)
    {e : EdgeId}
    (he : r.HasEdge e) :
    r.weightJournal? (r.edge e) = some (r.weightJournal e) := by
  rw [weightJournal?, weightJournal,
    bind_of_eq_some (node?_eq (h.tail he)),
    bind_of_eq_some (node?_eq (h.head he))]
  dsimp only
  split
  · rfl
  · rw [List.append_nil]

theorem IsConsistent.arcs?_eq
    (h : r.IsConsistent)
    (hg : r.HasGraph g) :
    r.arcs? g = some (r.arcs g, r.arcsJournal g) := by
  have hWays :
      ∀ e ∈ r.allEdges g,
        r.arcsOfEdge? e =
          some
            ((r.edge e).arcsBy fun t => effectiveWeight t.weight,
              r.weightJournal e) := by
    intro e he
    have hEdge := h.hasEdge_of_mem_allEdges hg e he
    rw [arcsOfEdge?, bind_of_eq_some (edge?_eq hEdge),
      bind_of_eq_some (h.keepsHandles.weightJournal?_eq hEdge)]
    rfl
  rw [arcs?, bind_of_eq_some (h.isForest.allEdges?_eq hg),
    bind_of_eq_some (mapM_eq_some_map hWays), List.flatMap_map,
    List.flatMap_map]
  rfl

theorem IsConsistent.seekRoute?_eq
    (h : r.IsConsistent)
    (hg : r.HasGraph g)
    {source target : NodeId}
    {search? :
      List (Arc Binary64) → NodeId → NodeId → Option (List NodeId)}
    {route : List NodeId}
    (hSearch : search? (r.arcs g) source target = some route)
    (hSelf : source = target → route = [source]) :
    r.seekRoute? search? g source target =
      some (route, r.routeJournal g source target) := by
  rw [seekRoute?, routeJournal]
  split
  case isTrue hSame => rw [hSelf hSame]
  case isFalse =>
    rw [bind_of_eq_some (h.arcs?_eq hg)]
    exact bind_of_eq_some hSearch _

theorem IsConsistent.shortestRoute?_eq
    (h : r.IsConsistent)
    (hg : r.HasGraph g)
    (source target : NodeId) :
    r.shortestRoute? g source target =
      some
        (r.shortestRoute g source target,
          r.routeJournal g source target) :=
  h.seekRoute?_eq hg (shortestAlong?_eq _ source target)
    fun hSame => if_pos hSame

theorem IsConsistent.lightestRoute?_eq
    (h : r.IsConsistent)
    (hg : r.HasGraph g)
    (source target : NodeId) :
    r.lightestRoute? g source target =
      some
        (r.lightestRoute g source target,
          r.routeJournal g source target) :=
  h.seekRoute?_eq hg
    (lightestAlong?_eq Binary64.isScale isWeight_of_mem_arcs source
      target)
    fun hSame => if_pos hSame

theorem IsConsistent.routeWeight?_eq
    (h : r.IsConsistent)
    (hg : r.HasGraph g)
    (route : List NodeId) :
    r.routeWeight? g route =
      some (r.routeWeight g route, r.arcsJournal g) := by
  rw [routeWeight?, bind_of_eq_some (h.arcs?_eq hg)]
  rfl

end Registry

end DotLang
