import DotLang.Proofs.Registry.Consistency
import Mathlib.Data.List.Find

/-
  This file proves that steps take nothing away from a registry:
  what is old stays where it is and under its name, and what is
  new comes after it.  A subgraph that was found by its name is
  therefore found again.

  Key definitions include:
    * `Registry.Retains`

  Key theorems include:
    * `Registry.Step.retains`
    * `Registry.Steps.retains`
    * `Registry.Retains.findChild?_eq_some`
    * `Build.findChild?_openSubgraph`
-/

------------------------------------------------------------
-- What Is Retained
------------------------------------------------------------

namespace DotLang

namespace Registry

variable {F : Factory} {r s t : Registry F}

/-
  Graphs keep their names and their children, of which new ones
  come last, and edges keep their ends.
-/
structure Retains (r s : Registry F) : Prop where
  grows : Grows r s
  name :
    ∀ {g : GraphId},
      r.HasGraph g → (s.graph g).name = (r.graph g).name
  children :
    ∀ {g : GraphId},
      r.HasGraph g →
        (r.graph g).children <+: (s.graph g).children
  hasEdge : ∀ {e : EdgeId}, r.HasEdge e → s.HasEdge e
  ends : ∀ {e : EdgeId}, r.HasEdge e → s.ends e = r.ends e

theorem Retains.refl
    (r : Registry F) :
    Retains r r where
  grows := .refl r
  name _ := rfl
  children _ := List.prefix_refl _
  hasEdge he := he
  ends _ := rfl

theorem Retains.trans
    (h : Retains r s)
    (h' : Retains s t) :
    Retains r t where
  grows := h.grows.trans h'.grows
  name hg := (h'.name (h.grows.graph hg)).trans (h.name hg)
  children hg :=
    (h.children hg).trans (h'.children (h.grows.graph hg))
  hasEdge he := h'.hasEdge (h.hasEdge he)
  ends he := (h'.ends (h.hasEdge he)).trans (h.ends he)

/- The tree of graphs and the edges are all that is looked at. -/
theorem Grows.retains
    (hGrows : Grows r s)
    (hTree : SameTree r s)
    (hEdges : SameEdges r s) :
    Retains r s where
  grows := hGrows
  name _ := hTree.name _
  children _ := (hTree.children _).symm ▸ List.prefix_rfl
  hasEdge := (hEdges.hasEdge _).mpr
  ends _ := Prod.ext (hEdges.tail _) (hEdges.head _)

theorem SameShape.retains
    (h : SameShape r s) :
    Retains r s :=
  h.grows.retains h.tree h.edges

------------------------------------------------------------
-- Steps
------------------------------------------------------------

theorem retains_addGraph
    {graph : Graph}
    {parent : Option GraphId}
    (hParent : ∀ g, parent = some g → r.HasGraph g) :
    Retains r (r.addGraph graph parent).2 where
  grows := grows_addGraph hParent
  name hg :=
    view_addGraph_of_hasGraph Graph.name hParent
      (fun _ _ => rfl) hg
  children hg := by
    rw [children_addGraph hParent hg]
    exact List.prefix_append _ _
  hasEdge he := by
    rw [← mem_edgeIds, edgeIds_addGraph]
    exact mem_edgeIds.mpr he
  ends _ := by rw [ends, edge_addGraph, ends]

theorem retains_addEdge
    (g : GraphId)
    (tail head : NodeId)
    (attributes : AttributeTable) :
    Retains r (r.addEdge g tail head attributes).2 := by
  have hTree := sameTree_addEdge (r := r) g tail head attributes
  constructor
  · exact grows_addEdge g tail head attributes
  · intro h _
    exact hTree.name h
  · intro h _
    exact (hTree.children h).symm ▸ List.prefix_rfl
  · intro e he
    exact (hasEdge_addEdge g tail head attributes e).mpr (.inl he)
  · intro e he
    rw [ends, edge_addEdge, if_neg he.ne_next, ends]

theorem Step.retains
    (hStep : Step r s) :
    Retains r s := by
  cases hStep with
  | addGraph graph parent _ hParent =>
      exact retains_addGraph hParent
  | addNode g name attributes =>
      exact (grows_addNode g name attributes).retains
        (sameTree_addNode g name attributes)
        (sameEdges_addNode g name attributes)
  | addMember g n hg =>
      exact (grows_addMember hg n).retains
        (sameTree_addMember g n) (sameEdges_addMember g n)
  | addEdge g tail head attributes =>
      exact retains_addEdge g tail head attributes
  | setGraph g change _ hChange =>
      exact (sameShape_modifyGraph hChange g).retains
  | setNode n change _ hChange =>
      exact (sameShape_modifyNode hChange n).retains
  | setEdge e change _ hChange =>
      exact (sameShape_modifyEdge hChange e).retains
  | pushScope | popScope | diagnose =>
      apply SameShape.retains
      exact sameShape_aside rfl rfl rfl rfl

theorem Steps.retains
    (hSteps : Steps r s) :
    Retains r s := by
  induction hSteps with
  | refl => exact .refl r
  | tail _ hStep ih => exact ih.trans hStep.retains

------------------------------------------------------------
-- Subgraphs by Their Names
------------------------------------------------------------

/- Among the old children a name is looked up as before. -/
theorem Retains.find?_children
    (h : Retains r s)
    (hForest : r.IsForest)
    {g : GraphId}
    (hg : r.HasGraph g)
    (name : String) :
    ((r.graph g).children.find? fun c =>
        (s.graph c).name = name) =
      r.findChild? g name := by
  apply List.find?_congr
  intro c hc
  have hParent := (hForest.mem_children hg).mp hc
  rw [h.name (hasGraph_of_parent hParent)]

theorem Retains.findChild?_eq_some
    (h : Retains r s)
    (hForest : r.IsForest)
    {g c : GraphId}
    {name : String}
    (hg : r.HasGraph g)
    (hFind : r.findChild? g name = some c) :
    s.findChild? g name = some c := by
  apply (h.children hg).find?_eq_some
  rw [h.find?_children hForest hg, hFind]

end Registry

/- A subgraph that was opened by its name is found by it. -/
theorem Build.findChild?_openSubgraph
    {F : Factory}
    {b : Build F}
    {scope : GraphId}
    {name : String}
    (hForest : b.registry.IsForest)
    (hScope : b.registry.HasGraph scope)
    (hName : name ≠ "") :
    (b.openSubgraph scope name).2.registry.findChild? scope name =
      some (b.openSubgraph scope name).1 := by
  rcases openSubgraph_cases b scope name with
    ⟨g, -, hFind, hOpen⟩ | ⟨hNew, hOpen⟩
  · rw [hOpen]
    exact hFind
  · let graph : Graph :=
      .newSubgraph name (b.registry.graph scope)
    have hParent :
        ∀ g, some scope = some g → b.registry.HasGraph g :=
      fun _ hEq => Option.some.inj hEq ▸ hScope
    rw [hOpen]
    change (b.registry.addGraph graph (some scope)).2.findChild?
      scope name = some b.registry.nextGraph
    rw [Registry.findChild?,
      Registry.children_addGraph hParent hScope, List.find?_append,
      (Registry.retains_addGraph hParent).find?_children hForest
        hScope,
      hNew hName, Option.none_or, if_pos rfl, List.find?_singleton,
      Registry.graph_addGraph_next hParent]
    exact if_pos (decide_eq_true rfl)

end DotLang
