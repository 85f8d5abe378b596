import DotLang.Proofs.Registry.Change

/-
  This file proves that all tables of attributes in a registry
  stay maps to good values as statements run.

  Key definitions include:
    * `Graph.HasMaps`
    * `Registry.IsTabled`

  Key theorems include:
    * `Registry.Change.isTabled`
-/

------------------------------------------------------------
-- Tables of a Graph
------------------------------------------------------------

namespace DotLang

namespace Graph

variable {IsGood : Value → Prop} {graph : Graph}

/- The attributes and the defaults of a graph are maps. -/
structure HasMaps
    (IsGood : Value → Prop)
    (graph : Graph) : Prop where
  attributes : graph.attributes.IsMap IsGood
  graphDefaults : graph.graphDefaults.IsMap IsGood
  nodeDefaults : graph.nodeDefaults.IsMap IsGood
  edgeDefaults : graph.edgeDefaults.IsMap IsGood

theorem hasMaps_new
    (name : String)
    (directed strict : Bool) :
    (new name directed strict).HasMaps IsGood where
  attributes := AttributeTable.isMap_empty
  graphDefaults := AttributeTable.isMap_empty
  nodeDefaults := AttributeTable.isMap_empty
  edgeDefaults := AttributeTable.isMap_empty

theorem HasMaps.newSubgraph
    (h : graph.HasMaps IsGood)
    (name : String) :
    (newSubgraph name graph).HasMaps IsGood where
  attributes := h.graphDefaults
  graphDefaults := h.graphDefaults
  nodeDefaults := h.nodeDefaults
  edgeDefaults := h.edgeDefaults

theorem HasMaps.setAttributes
    {attributes : List Attribute}
    (hValues : ∀ a ∈ attributes, IsGood a.value)
    (h : graph.HasMaps IsGood) :
    (graph.setAttributes attributes).HasMaps IsGood :=
  { h with attributes := h.attributes.setAll hValues }

theorem HasMaps.setDefaults
    {attributes : List Attribute}
    (hValues : ∀ a ∈ attributes, IsGood a.value)
    (kind : EntityKind)
    (h : graph.HasMaps IsGood) :
    (graph.setDefaults kind attributes).HasMaps IsGood := by
  cases kind with
  | graph =>
      exact { h with graphDefaults := h.graphDefaults.setAll hValues }
  | node =>
      exact { h with nodeDefaults := h.nodeDefaults.setAll hValues }
  | edge =>
      exact { h with edgeDefaults := h.edgeDefaults.setAll hValues }

/- The tables of a graph do not hang on what else it holds. -/
theorem HasMaps.congr
    {other : Graph}
    (h : graph.HasMaps IsGood)
    (hAttributes : other.attributes = graph.attributes)
    (hGraph : other.graphDefaults = graph.graphDefaults)
    (hNode : other.nodeDefaults = graph.nodeDefaults)
    (hEdge : other.edgeDefaults = graph.edgeDefaults) :
    other.HasMaps IsGood where
  attributes := hAttributes ▸ h.attributes
  graphDefaults := hGraph ▸ h.graphDefaults
  nodeDefaults := hNode ▸ h.nodeDefaults
  edgeDefaults := hEdge ▸ h.edgeDefaults

end Graph

------------------------------------------------------------
-- Tables of a Registry
------------------------------------------------------------

namespace Registry

variable {F : Factory} {r s : Registry F} {IsGood : Value → Prop}

/- All tables of graphs, nodes and edges are maps. -/
structure IsTabled
    (IsGood : Value → Prop)
    (r : Registry F) : Prop where
  graph : ∀ g, (r.graph g).HasMaps IsGood
  node : ∀ n, (r.node n).attributes.IsMap IsGood
  edge : ∀ e, (r.edge e).attributes.IsMap IsGood

/- What a change keeps in one entry it keeps in all of them. -/
theorem forall_getD_modify
    {α : Type}
    {P : α → Prop}
    {f : α → α}
    (hf : ∀ x, P x → P (f x))
    {a : Array α}
    {d : α}
    (hAll : ∀ j, P (a.getD j d))
    (i j : Nat) :
    P ((a.modify i f).getD j d) := by
  have hOne := hAll j
  simp only [Array.getD_eq_getD_getElem?,
    Array.getElem?_modify] at hOne ⊢
  by_cases hEq : i = j
  · rw [if_pos hEq]
    cases hEntry : a[j]? with
    | none => simpa [hEntry] using hOne
    | some x =>
        rw [hEntry] at hOne
        exact hf x hOne
  · rw [if_neg hEq]
    exact hOne

theorem IsTabled.modifyGraph
    (h : r.IsTabled IsGood)
    {f : Graph → Graph}
    (hf :
      ∀ graph : Graph,
        graph.HasMaps IsGood → (f graph).HasMaps IsGood)
    (g : GraphId) :
    (r.modifyGraph g f).IsTabled IsGood where
  graph k := forall_getD_modify hf (fun j => h.graph ⟨j⟩) _ k.index
  node := h.node
  edge := h.edge

theorem IsTabled.addGraph
    (h : r.IsTabled IsGood)
    {graph : Graph}
    (parent : Option GraphId)
    (hGraph : graph.HasMaps IsGood) :
    (r.addGraph graph parent).2.IsTabled IsGood where
  graph k := by
    -- the graphs with the new one among the children of its parent
    have hEntered :
        ((r.enterGraph r.nextGraph parent).graph k).HasMaps IsGood := by
      cases parent with
      | none => exact h.graph k
      | some g =>
          have hGraphs := h.modifyGraph
            (f := fun graph =>
              { graph with
                children := graph.children ++ [r.nextGraph] })
            (fun graph hGraph => hGraph.congr rfl rfl rfl rfl) g
          exact hGraphs.graph k
    have hPush :
        (r.addGraph graph parent).2.graph k =
          if k.index =
              (r.enterGraph r.nextGraph parent).graphs.size then
            { graph with parent := parent }
          else
            (r.enterGraph r.nextGraph parent).graph k :=
      getD_push _ _ _ k.index
    rw [hPush]
    split
    · exact hGraph.congr rfl rfl rfl rfl
    · exact hEntered
  node n := by
    rw [node_addGraph]
    exact h.node n
  edge e := by
    rw [edge_addGraph]
    exact h.edge e

theorem IsTabled.addMember
    (h : r.IsTabled IsGood)
    (g : GraphId)
    (n : NodeId) :
    (r.addMember g n).IsTabled IsGood := by
  apply h.modifyGraph
  intro graph hGraph
  rw [addMember_eq]
  exact hGraph.congr rfl rfl rfl rfl

theorem IsTabled.addNode
    (h : r.IsTabled IsGood)
    (g : GraphId)
    (name : String)
    {attributes : AttributeTable}
    (hTable : attributes.IsMap IsGood) :
    (r.addNode g name attributes).2.IsTabled IsGood where
  graph k := by
    have hGraphs := h.modifyGraph
      (f := Graph.addNode r.nextNode name)
      (fun graph hGraph => hGraph.congr rfl rfl rfl rfl) g
    exact hGraphs.graph k
  node n := by
    rw [node_addNode]
    by_cases hNext : n = r.nextNode
    · rw [if_pos hNext]
      exact hTable
    · rw [if_neg hNext]
      exact h.node n
  edge := h.edge

theorem IsTabled.addEdge
    (h : r.IsTabled IsGood)
    (g : GraphId)
    (tail head : NodeId)
    {attributes : AttributeTable}
    (hTable : attributes.IsMap IsGood) :
    (r.addEdge g tail head attributes).2.IsTabled IsGood where
  graph k := by
    have hGraphs := h.modifyGraph
      (f := fun graph =>
        { graph with edges := graph.edges ++ [r.nextEdge] })
      (fun graph hGraph => hGraph.congr rfl rfl rfl rfl) g
    exact hGraphs.graph k
  node n := by
    rw [view_node_addEdge g _ _ _ Node.attributes (fun _ _ => rfl)
      fun _ _ => rfl]
    exact h.node n
  edge e := by
    rw [edge_addEdge]
    by_cases hNext : e = r.nextEdge
    · rw [if_pos hNext]
      exact hTable
    · rw [if_neg hNext]
      exact h.edge e

------------------------------------------------------------
-- Changes
------------------------------------------------------------

/- Changes keep all tables maps to good values. -/
theorem Change.isTabled
    (hChange : Change IsGood r s)
    (h : r.IsTabled IsGood) :
    s.IsTabled IsGood := by
  cases hChange with
  | root name directed strict =>
      exact h.addGraph none (Graph.hasMaps_new _ _ _)
  | child scope name hScope hNew =>
      exact h.addGraph (some scope)
        ((h.graph scope).newSubgraph name)
  | node scope name hScope hNew =>
      exact (h.addNode scope name
        (h.graph scope).nodeDefaults).addMember scope _
  | member scope n hScope hMay => exact h.addMember scope n
  | edge scope tail head attributes hScope hTail hHead hNew hTable =>
      exact h.addEdge scope tail head hTable
  | setGraph g attributes hValues =>
      exact h.modifyGraph (fun _ => .setAttributes hValues) g
  | setDefaults g kind attributes hValues =>
      exact h.modifyGraph (fun _ => .setDefaults hValues kind) g
  | setNode n attributes hValues =>
      refine ⟨h.graph, fun m => ?_, h.edge⟩
      exact forall_getD_modify
        (P := fun node : Node => node.attributes.IsMap IsGood)
        (fun node hNode => hNode.setAll hValues)
        (fun j => h.node ⟨j⟩) n.index m.index
  | setEdge e attributes hValues =>
      refine ⟨h.graph, h.node, fun d => ?_⟩
      exact forall_getD_modify
        (P := fun edge : Edge => edge.attributes.IsMap IsGood)
        (fun edge hEdge => hEdge.setAll hValues)
        (fun j => h.edge ⟨j⟩) e.index d.index
  | aside _ hGraphs hNodes hEdges hRoots =>
      refine ⟨fun g => ?_, fun n => ?_, fun e => ?_⟩
      · rw [Registry.graph, hGraphs]
        exact h.graph g
      · rw [Registry.node, hNodes]
        exact h.node n
      · rw [Registry.edge, hEdges]
        exact h.edge e

end Registry

end DotLang
