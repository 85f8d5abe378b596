import DotLang.Proofs.Lookups
import DotLang.Proofs.Registry.Traversal

/-
  This file proves that questions about a registry look up
  nothing that is not there.

  They are told once more with lookups that may fail, and with
  loops that have no bound.  A loop of that kind has a result
  only if it ends, and what is made of it has a result only if
  no lookup on the way fails.

  Key definitions include:
    * `Registry.graph?`
    * `Registry.node?`
    * `Registry.edge?`
    * `Registry.subgraphs?`
    * `Registry.isInScope?`
    * `Registry.seekEdge?`

  Key theorems include:
    * `Registry.IsForest.subgraphs?_eq`
    * `Registry.IsForest.isInScope?_eq`
    * `Registry.IsConsistent.seekEdge?_eq`
-/

------------------------------------------------------------
-- Handles
------------------------------------------------------------

namespace DotLang

namespace Registry

variable {F : Factory} {r : Registry F} {g : GraphId}

/- The graph with a handle, if there is one. -/
def graph? (r : Registry F) (g : GraphId) : Option Graph :=
  r.graphs[g.index]?

/- The node with a handle, if there is one. -/
def node? (r : Registry F) (n : NodeId) : Option Node :=
  r.nodes[n.index]?

/- The edge with a handle, if there is one. -/
def edge? (r : Registry F) (e : EdgeId) : Option Edge :=
  r.edges[e.index]?

theorem graph?_eq
    (hg : r.HasGraph g) :
    r.graph? g = some (r.graph g) :=
  getElem?_eq_some_getD hg default

theorem node?_eq
    {n : NodeId}
    (hn : r.HasNode n) :
    r.node? n = some (r.node n) :=
  getElem?_eq_some_getD hn default

theorem edge?_eq
    {e : EdgeId}
    (he : r.HasEdge e) :
    r.edge? e = some (r.edge e) :=
  getElem?_eq_some_getD he default

------------------------------------------------------------
-- Graphs Inside a Graph
------------------------------------------------------------

/-
  Take the last graph of the stack, look it up, and push its
  children so that the first of them is taken next.
-/
def subgraphsFrom?
    (r : Registry F)
    (visited stack : List GraphId) : Option (List GraphId) :=
  match stack.getLast? with
  | none => some visited
  | some g => do
      let graph ← r.graph? g
      r |>.subgraphsFrom? (visited ++ [g])
        (stack.dropLast ++ graph.children.reverse)
partial_fixpoint

/- All graphs inside a graph. -/
def subgraphs?
    (r : Registry F)
    (g : GraphId) : Option (List GraphId) := do
  let graph ← r.graph? g
  r.subgraphsFrom? [] graph.children.reverse

/- What a graph and the graphs inside it list. -/
def gather?
    {α : Type}
    (r : Registry F)
    (list : Graph → List α)
    (g : GraphId) : Option (List α) := do
  let graph ← r.graph? g
  let inside ← r.subgraphs? g
  let lists ← inside.mapM fun h => (r.graph? h).map list
  return list graph ++ lists.flatten

/- The nodes of a graph and of all graphs inside it. -/
def allNodes?
    (r : Registry F)
    (g : GraphId) : Option (List NodeId) :=
  r.gather? Graph.nodes g

/- The edges of a graph and of all graphs inside it. -/
def allEdges?
    (r : Registry F)
    (g : GraphId) : Option (List EdgeId) :=
  r.gather? Graph.edges g

/-
  As long as graphs in preorder are there, those on top of the
  stack are visited before what lies below.
-/
theorem IsPreorderOf.subgraphsFrom?_eq
    {gs hs : List GraphId}
    (hOrder : r.IsPreorderOf gs hs)
    (hGraphs : ∀ h ∈ hs, r.HasGraph h)
    (visited stack : List GraphId) :
    r.subgraphsFrom? visited (stack ++ gs.reverse) =
      r.subgraphsFrom? (visited ++ hs) stack := by
  induction hOrder generalizing visited stack with
  | nil => rw [List.reverse_nil, List.append_nil, List.append_nil]
  | @cons g beside inside rest _ _ ihInside ihBeside =>
      rcases List.forall_mem_cons.mp hGraphs with ⟨hg, hMore⟩
      rcases List.forall_mem_append.mp hMore with ⟨hInside, hRest⟩
      have hStep :
          r.subgraphsFrom? visited
              ((stack ++ beside.reverse) ++ [g]) =
            r.subgraphsFrom? (visited ++ [g])
              ((stack ++ beside.reverse) ++
                (r.graph g).children.reverse) := by
        rw [subgraphsFrom?, List.getLast?_concat]
        simp only [List.dropLast_concat]
        rw [bind_of_eq_some (graph?_eq hg)]
      rw [List.reverse_cons, ← List.append_assoc, hStep,
        ihInside hInside, ihBeside hRest, List.append_assoc,
        List.append_assoc]
      rfl

theorem IsForest.hasGraph_of_mem_subgraphs
    (hForest : r.IsForest)
    (hg : r.HasGraph g)
    (h : GraphId)
    (hMem : h ∈ r.subgraphs g) :
    r.HasGraph h :=
  ((hForest.mem_subgraphs_iff hg).mp hMem).hasGraph

theorem IsForest.subgraphs?_eq
    (hForest : r.IsForest)
    (hg : r.HasGraph g) :
    r.subgraphs? g = some (r.subgraphs g) := by
  have hOrder := hForest.isPreorderOf_subgraphs hg
  have hWalk :=
    hOrder.subgraphsFrom?_eq (hForest.hasGraph_of_mem_subgraphs hg)
      [] []
  rw [subgraphs?, bind_of_eq_some (graph?_eq hg)]
  refine hWalk.trans ?_
  rw [subgraphsFrom?, List.getLast?_nil]
  rfl

theorem IsForest.gather?_eq
    {α : Type}
    (hForest : r.IsForest)
    (hg : r.HasGraph g)
    (list : Graph → List α) :
    r.gather? list g =
      some ((r.extent g).flatMap fun h => list (r.graph h)) := by
  have hInside :
      ∀ h ∈ r.subgraphs g,
        (r.graph? h).map list = some (list (r.graph h)) := by
    intro h hMem
    rw [graph?_eq (hForest.hasGraph_of_mem_subgraphs hg h hMem)]
    rfl
  rw [gather?, bind_of_eq_some (graph?_eq hg),
    bind_of_eq_some (hForest.subgraphs?_eq hg),
    bind_of_eq_some (mapM_eq_some_map hInside), extent,
    List.flatMap_cons, List.flatMap_def]
  rfl

theorem IsForest.allNodes?_eq
    (hForest : r.IsForest)
    (hg : r.HasGraph g) :
    r.allNodes? g = some (r.allNodes g) :=
  hForest.gather?_eq hg Graph.nodes

theorem IsForest.allEdges?_eq
    (hForest : r.IsForest)
    (hg : r.HasGraph g) :
    r.allEdges? g = some (r.allEdges g) :=
  hForest.gather?_eq hg Graph.edges

------------------------------------------------------------
-- Graphs Around a Graph
------------------------------------------------------------

/-
  Climb from a graph along the parents until the owner is met,
  or until there is no parent.
-/
def isInScope?
    (r : Registry F)
    (owner g : GraphId) : Option Bool :=
  if g = owner then
    some true
  else do
    let graph ← r.graph? g
    match graph.parent with
    | some parent => r |>.isInScope? owner parent
    | none => some false
partial_fixpoint

theorem IsForest.isInScope?_eq
    (hForest : r.IsForest)
    (owner : GraphId)
    (hg : r.HasGraph g) :
    r.isInScope? owner g = some ((r.lineage g).contains owner) := by
  induction g, hg using hForest.ascending with
  | step g hg ih =>
      rw [isInScope?, hForest.lineage_eq_cons hg, List.contains_cons]
      by_cases hOwner : g = owner
      · simp [hOwner]
      rw [if_neg hOwner, bind_of_eq_some (graph?_eq hg),
        beq_false_of_ne (Ne.symm hOwner), Bool.false_or]
      cases hParent : (r.graph g).parent with
      | none => simp [lineage_of_root hg hParent]
      | some parent =>
          rw [hForest.lineage_of_parent hParent, List.tail_cons]
          exact ih parent hParent

------------------------------------------------------------
-- Edges between Nodes
------------------------------------------------------------

/-
  An edge between two nodes.  The edges out of the second node
  are looked at only if none leads there from the first one.
-/
def seekEdge?
    (r : Registry F)
    (tail head : NodeId) : Option (Option EdgeId) := do
  let first ← r.node? tail
  let forward ← first.outEdges.findM? fun e => do
    let edge ← r.edge? e
    return edge.head = head
  match forward with
  | some e => return some e
  | none =>
      let second ← r.node? head
      second.outEdges.findM? fun e => do
        let edge ← r.edge? e
        return !edge.directed && edge.head = tail

theorem IsConsistent.seekEdge?_eq
    (h : r.IsConsistent)
    {tail head : NodeId}
    (hTail : r.HasNode tail)
    (hHead : r.HasNode head) :
    r.seekEdge? tail head = some (r.findEdge? tail head) := by
  have hLook :
      ∀ (n : NodeId) (p : Edge → Bool),
        ((r.node n).outEdges.findM? fun e => do
            let edge ← r.edge? e
            return p edge) =
          some ((r.node n).outEdges.find? fun e => p (r.edge e)) := by
    intro n p
    apply findM?_eq_some_find?
    intro e he
    rw [bind_of_eq_some (edge?_eq (h.keepsHandles.outEdges he))]
    rfl
  rw [seekEdge?, bind_of_eq_some (node?_eq hTail),
    bind_of_eq_some (hLook tail fun edge => edge.head = head),
    findEdge?]
  cases (r.node tail).outEdges.find? fun e =>
      (r.edge e).head = head with
  | some e => rfl
  | none =>
      simp only [Option.none_or]
      rw [bind_of_eq_some (node?_eq hHead)]
      exact hLook head fun edge => !edge.directed && edge.head = tail

end Registry

end DotLang
