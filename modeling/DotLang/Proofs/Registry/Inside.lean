import DotLang.Proofs.Registry.Persistence

/-
  This file proves that statements make edges in the graph in
  which they are run and in those inside it, and nowhere else.

  Key definitions include:
    * `Registry.WorksInside`

  Key theorems include:
    * `Registry.WorksInside.trans`
    * `Registry.WorksInside.outward`
    * `Stmt.run_worksInside`
-/

------------------------------------------------------------
-- Work Inside a Graph
------------------------------------------------------------

namespace DotLang

namespace Registry

variable {F : Factory} {r s t : Registry F} {c g : GraphId}

/-
  Steps after which all graphs list the same edges as before,
  apart from one graph and those inside it.
-/
structure WorksInside
    (c : GraphId)
    (r s : Registry F) : Prop where
  steps : Steps r s
  edges :
    ∀ h : GraphId,
      h ∉ s.extent c → (s.graph h).edges = (r.graph h).edges

theorem Steps.worksInside
    (hSteps : Steps r s)
    (hEdges : ∀ h, (s.graph h).edges = (r.graph h).edges)
    (c : GraphId) :
    WorksInside c r s where
  steps := hSteps
  edges h _ := hEdges h

/- What is inside a graph at first is inside it later. -/
theorem WorksInside.trans
    (h : WorksInside c r s)
    (h' : WorksInside c s t)
    (hs : s.IsConsistent)
    (hc : s.HasGraph c) :
    WorksInside c r t where
  steps := h.steps.trans h'.steps
  edges := by
    have hExtent :=
      h'.steps.retains.grows.extent_subset hs.isForest
        (h'.steps.isConsistent hs).isForest hc
    intro g hOutside
    rw [h'.edges g hOutside]
    exact h.edges g fun hInside => hOutside (hExtent hInside)

/- Steps before it that make no edge make no difference. -/
theorem WorksInside.prepend
    (h : WorksInside c s t)
    (hSteps : Steps r s)
    (hEdges : ∀ h, (s.graph h).edges = (r.graph h).edges) :
    WorksInside c r t where
  steps := hSteps.trans h.steps
  edges g hOutside := (h.edges g hOutside).trans (hEdges g)

/- Work inside a subgraph is work inside the graph around it. -/
theorem WorksInside.outward
    (h : WorksInside c r s)
    (hr : r.IsConsistent)
    (hParent : (s.graph c).parent = some g) :
    WorksInside g r s where
  steps := h.steps
  edges := by
    have hForest := (h.steps.isConsistent hr).isForest
    have hg := hForest.hasGraph_parent hParent
    have hMem := hForest.mem_extent_of_parent hParent
    intro f hOutside
    exact h.edges f fun hInside =>
      hOutside (hForest.extent_subset hg hMem hInside)

end Registry

------------------------------------------------------------
-- Work of a Build
------------------------------------------------------------

open Registry

namespace Build

variable {F : Factory} {b : Build F} {scope : GraphId}

theorem edges_resolveNode
    (b : Build F)
    (scope : GraphId)
    (name : String)
    (h : GraphId) :
    ((b.resolveNode scope name).2.registry.graph h).edges =
      (b.registry.graph h).edges := by
  cases hFind : b.registry.resolveNode? scope name with
  | none =>
      rw [resolveNode_of_none hFind]
      exact ((sameEdges_addNode scope name _).trans
        (sameEdges_addMember scope _)).edges h
  | some n =>
      rw [resolveNode_of_some hFind]
      exact (sameEdges_addMember scope n).edges h

theorem edges_openSubgraph
    (hScope : b.registry.HasGraph scope)
    (name : String)
    (h : GraphId) :
    ((b.openSubgraph scope name).2.registry.graph h).edges =
      (b.registry.graph h).edges := by
  rcases openSubgraph_cases b scope name with
    ⟨g, -, -, hOpen⟩ | ⟨-, hOpen⟩
  · rw [hOpen]
  · rw [hOpen]
    have hSame :
        SameEdges b.registry
          (b.registry.addGraph
            (.newSubgraph name (b.registry.graph scope))
            (some scope)).2 :=
      sameEdges_addGraph
        (fun _ hEq => Option.some.inj hEq ▸ hScope)
        (Graph.isBlank_newSubgraph _ _)
    exact hSame.edges h

theorem edges_adoptMembers
    (b : Build F)
    (scope : GraphId)
    (nodes : List NodeId)
    (h : GraphId) :
    ((b.adoptMembers scope nodes).registry.graph h).edges =
      (b.registry.graph h).edges := by
  refine List.foldlRecOn
    (motive := fun b' : Build F =>
      (b'.registry.graph h).edges = (b.registry.graph h).edges)
    nodes _ rfl ?_
  intro b' hBefore n _
  exact ((sameEdges_addMember scope n).edges h).trans hBefore

theorem edges_applyDefaults
    (b : Build F)
    (scope : GraphId)
    (kind : EntityKind)
    (attributes : List Attribute)
    (h : GraphId) :
    ((b.applyDefaults scope kind attributes).registry.graph h).edges =
      (b.registry.graph h).edges := by
  unfold applyDefaults
  by_cases hKind : kind = .graph
  · rw [if_pos hKind]
    exact ((sameShape_setDefaults scope kind attributes).edges.edges
      h).trans ((sameShape_setGraph scope attributes).edges.edges h)
  · rw [if_neg hKind]
    exact (sameShape_setDefaults scope kind attributes).edges.edges h

/- An edge is made in the graph of the statement. -/
theorem edges_connectPair
    (b : Build F)
    (attributes : AttributeTable)
    (tail head : NodeId)
    {h : GraphId}
    (hOther : h ≠ scope) :
    ((b.connectPair scope attributes tail head).registry.graph
        h).edges =
      (b.registry.graph h).edges := by
  rcases connectPair_cases b scope attributes tail head with
    ⟨e, -, -, hConnect⟩ | ⟨-, hConnect⟩
  · rw [hConnect]
    rfl
  · rw [hConnect]
    exact congrArg Graph.edges (graph_modifyGraph_of_ne hOther _)

theorem edges_connect
    (b : Build F)
    (attributes : AttributeTable)
    (tails heads : Ends)
    {h : GraphId}
    (hOther : h ≠ scope) :
    ((b.connect scope attributes tails heads).registry.graph
        h).edges =
      (b.registry.graph h).edges := by
  refine connect_induct
    (motive := fun b' =>
      (b'.registry.graph h).edges = (b.registry.graph h).edges)
    rfl ?_
  intro b' hBefore tail _ head _
  exact (edges_connectPair b' _ tail head hOther).trans hBefore

theorem connect_worksInside
    (h : b.registry.IsConsistent)
    (hScope : b.registry.HasGraph scope)
    (attributes : AttributeTable)
    {tails heads : Ends}
    (hTails : ∀ n ∈ tails.nodes, b.registry.HasNode n)
    (hHeads : ∀ n ∈ heads.nodes, b.registry.HasNode n) :
    WorksInside scope b.registry
      (b.connect scope attributes tails heads).registry where
  steps := connect_steps h hScope attributes hTails hHeads
  edges g hOutside := by
    apply edges_connect
    rintro rfl
    exact hOutside List.mem_cons_self

end Build

------------------------------------------------------------
-- Running Statements
------------------------------------------------------------

section Running

variable {F : Factory}

/- The work of a body is work inside the subgraph. -/
theorem subgraph_worksInside
    {scope : GraphId}
    {b : Build F}
    (h : b.registry.IsConsistent)
    (hScope : b.registry.HasGraph scope)
    (name : String)
    {body : List Stmt}
    (hBody :
      ∀ {g : GraphId} {b : Build F},
        b.registry.IsConsistent →
          b.registry.HasGraph g →
          WorksInside g b.registry (runBody g b body).registry) :
    WorksInside (b.openSubgraph scope name).1 b.registry
        ((Stmt.subgraph name body).run scope b).registry ∧
      (((Stmt.subgraph name body).run scope b).registry.graph
        (b.openSubgraph scope name).1).parent = some scope := by
  let g : GraphId := (b.openSubgraph scope name).1
  let inside : Build F :=
    (b.openSubgraph scope name).2.update (·.pushScope g)
  rcases Build.openSubgraph_steps h hScope name with ⟨hOpen, hg⟩
  have hPush : Steps b.registry inside.registry :=
    hOpen.tail (.pushScope _ _ hg)
  have hRun : WorksInside g inside.registry _ :=
    hBody (hPush.isConsistent h) hg
  have hPop :
      WorksInside g (runBody g inside body).registry
        (runBody g inside body).registry.popScope :=
    (Steps.single (.popScope _)).worksInside (fun _ => rfl) g
  have hParent : (inside.registry.graph g).parent = some scope :=
    Build.parent_openSubgraph h.isForest hScope name
  have hPopped :=
    hRun.trans hPop (hRun.steps.isConsistent (hPush.isConsistent h))
      (hRun.steps.hasGraph hg)
  exact ⟨hPopped.prepend hPush (Build.edges_openSubgraph hScope name),
    (hRun.steps.retains.grows.parent hg).trans hParent⟩

mutual

theorem Endpoint.run_worksInside
    {scope : GraphId}
    {b : Build F}
    (h : b.registry.IsConsistent)
    (hScope : b.registry.HasGraph scope) :
    ∀ e : Endpoint,
      WorksInside scope b.registry (e.run scope b).2.registry
| .node ref =>
    (Build.resolveNode_steps h hScope ref.name).1.worksInside
      (Build.edges_resolveNode b scope ref.name) scope
| .subgraph name body => by
    have hRun := subgraph_worksInside h hScope name
      (fun h hg => runBody_worksInside h hg body)
    have hOutward := hRun.1.outward h hRun.2
    have h' := hOutward.steps.isConsistent h
    have hScope' := hOutward.steps.hasGraph hScope
    have hAdopt := Build.adoptMembers_steps hScope'
      fun _ =>
        h'.listsNodes.hasNode (g := (b.openSubgraph scope name).1)
    exact hOutward.trans
      (hAdopt.worksInside (Build.edges_adoptMembers _ scope _) scope)
      h' hScope'

theorem runSteps_worksInside
    {scope : GraphId}
    (attributes : AttributeTable)
    {tails : Build.Ends}
    {b : Build F}
    (h : b.registry.IsConsistent)
    (hScope : b.registry.HasGraph scope)
    (hTails : ∀ n ∈ tails.nodes, b.registry.HasNode n) :
    ∀ steps : List EdgeStep,
      WorksInside scope b.registry
        (runSteps scope attributes tails b steps).registry
| [] => Steps.refl.worksInside (fun _ => rfl) scope
| .mk arrow location head :: rest => by
    have hArrow := Build.checkArrow_steps b scope arrow location
    have h' := hArrow.isConsistent h
    have hScope' := hArrow.hasGraph hScope
    have hHead := Endpoint.run_worksInside h' hScope' head
    have hHeads := (Endpoint.run_steps h' hScope' head).2
    have hResolved := hHead.steps.isConsistent h'
    have hScope'' := hHead.steps.hasGraph hScope'
    have hConnect := Build.connect_worksInside hResolved hScope''
      attributes
      (fun n hn => (hArrow.trans hHead.steps).hasNode (hTails n hn))
      hHeads
    have hConnected := hConnect.steps.isConsistent hResolved
    have hRest := runSteps_worksInside attributes hConnected
      (hConnect.steps.hasGraph hScope'')
      (fun n hn => hConnect.steps.hasNode (hHeads n hn)) rest
    have hBefore := hHead.trans hConnect hResolved hScope''
    refine (hBefore.trans hRest hConnected
      (hConnect.steps.hasGraph hScope'')).prepend hArrow ?_
    intro g
    rw [Build.graph_checkArrow]

theorem Stmt.run_worksInside
    {scope : GraphId}
    {b : Build F}
    (h : b.registry.IsConsistent)
    (hScope : b.registry.HasGraph scope) :
    ∀ stmt : Stmt,
      WorksInside scope b.registry (stmt.run scope b).registry
| .edge tail steps attributes => by
    have hTail := Endpoint.run_worksInside h hScope tail
    have h' := hTail.steps.isConsistent h
    have hScope' := hTail.steps.hasGraph hScope
    exact hTail.trans
      (runSteps_worksInside _ h' hScope'
        (Endpoint.run_steps h hScope tail).2 steps)
      h' hScope'
| .node ref attributes => by
    have hRun := Stmt.run_steps h hScope (.node ref attributes)
    refine hRun.worksInside ?_ scope
    exact Build.edges_resolveNode b scope ref.name
| .defaults kind attributes => by
    have hRun := Stmt.run_steps h hScope (.defaults kind attributes)
    refine hRun.worksInside ?_ scope
    exact Build.edges_applyDefaults b scope kind attributes
| .assign attr => by
    have hRun := Stmt.run_steps h hScope (.assign attr)
    refine hRun.worksInside ?_ scope
    exact (sameShape_setGraph scope [attr]).edges.edges
| .subgraph name body => by
    have hRun := subgraph_worksInside h hScope name
      (fun h hg => runBody_worksInside h hg body)
    exact hRun.1.outward h hRun.2

theorem runBody_worksInside
    {scope : GraphId}
    {b : Build F}
    (h : b.registry.IsConsistent)
    (hScope : b.registry.HasGraph scope) :
    ∀ body : List Stmt,
      WorksInside scope b.registry (runBody scope b body).registry
| [] => Steps.refl.worksInside (fun _ => rfl) scope
| stmt :: rest => by
    have hStmt := Stmt.run_worksInside h hScope stmt
    have h' := hStmt.steps.isConsistent h
    have hScope' := hStmt.steps.hasGraph hScope
    exact hStmt.trans (runBody_worksInside h' hScope' rest) h' hScope'

end

end Running

end DotLang
