import DotLang.Proofs.Dot.Copy

/-
  This file proves what the statements of a graph do to a
  registry that holds copies of its entities.

  A statement leaves the attributes and members of other graphs
  as they are, and the entities that it makes are copies.

  Key definitions include:
    * `Graph.contents`
    * `Numbering.Leads`

  Key theorems include:
    * `Numbering.IsCopying.extend`
    * `Numbering.Leads.trans`
    * `Numbering.leads_setAttributes`
    * `Numbering.leads_addMember`
    * `Numbering.leads_declareNode`
    * `Numbering.leads_addEdge`
-/

------------------------------------------------------------
-- Changes That Change Nothing
------------------------------------------------------------

namespace DotLang

namespace Registry

variable {H : Factory} {s : Registry H}

theorem modifyNode_setAttributes_nil
    (n : NodeId) :
    s.modifyNode n (Node.setAttributes []) = s := by
  have hSame :
      s.nodes.modify n.index (Node.setAttributes []) = s.nodes :=
    modify_of_fixed fun _ _ => rfl
  rw [modifyNode, hSame]

end Registry

------------------------------------------------------------
-- Steps
------------------------------------------------------------

/- What the statements of a graph change of it for good. -/
def Graph.contents (graph : Graph) : AttributeTable × List NodeId :=
  (graph.attributes, graph.members)

open Registry

namespace Numbering

variable
  {F H : Factory}
  {IsGood : Value → Prop}
  {φ : Numbering}
  {r : Registry F}
  {s s' s'' : Registry H}
  {root g : GraphId}
  {t t' : AttributeTable}
  {ms ms' : List NodeId}

/- What is new in a registry are copies as well. -/
theorem IsCopying.extend
    (hCopy : φ.IsCopying r root s)
    (hPlan : φ.IsPlan IsGood r root)
    (hBuilt : s'.IsBuilt fun _ => True)
    (hGraphs :
      ∀ x,
        s'.HasGraph x →
          (s.HasGraph x ∧
              (s'.graph x).outline = (s.graph x).outline) ∨
            ∃ g ∈ r.extent root,
              φ.graph g = x ∧
                (s'.graph x).outline = φ.copyGraph (r.graph g))
    (hNodes :
      ∀ x,
        s'.HasNode x →
          (s.HasNode x ∧
              (s'.node x).outline = (s.node x).outline) ∨
            ∃ n ∈ r.allNodes root,
              φ.node n = x ∧
                (s'.node x).outline = φ.copyNode (r.node n))
    (hEdges :
      ∀ x,
        s'.HasEdge x →
          (s.HasEdge x ∧ s'.edge x = s.edge x) ∨
            ∃ e ∈ r.madeEdges root,
              φ.edge e = x ∧ s'.edge x = φ.copyEdge (r.edge e)) :
    φ.IsCopying r root s' where
  isBuilt := hBuilt
  exists_graph := by
    intro x hx
    rcases hGraphs x hx with ⟨hOld, -⟩ | ⟨g, hg, hEq, -⟩
    · exact hCopy.exists_graph hOld
    · exact ⟨g, hg, hEq⟩
  exists_node := by
    intro x hx
    rcases hNodes x hx with ⟨hOld, -⟩ | ⟨n, hn, hEq, -⟩
    · exact hCopy.exists_node hOld
    · exact ⟨n, hn, hEq⟩
  exists_edge := by
    intro x hx
    rcases hEdges x hx with ⟨hOld, -⟩ | ⟨e, he, hEq, -⟩
    · exact hCopy.exists_edge hOld
    · exact ⟨e, he, hEq⟩
  graph := by
    intro h hh hs
    rcases hGraphs _ hs with ⟨hOld, hSame⟩ | ⟨g, hg, hEq, hNew⟩
    · rw [hSame, hCopy.graph hh hOld]
    · rw [hNew, hPlan.graph_inj hg hh hEq]
  node := by
    intro n hn hs
    rcases hNodes _ hs with ⟨hOld, hSame⟩ | ⟨m, hm, hEq, hNew⟩
    · rw [hSame, hCopy.node hn hOld]
    · rw [hNew, hPlan.node_inj hm hn hEq]
  edge := by
    intro e he hs
    rcases hEdges _ hs with ⟨hOld, hSame⟩ | ⟨d, hd, hEq, hNew⟩
    · rw [hSame, hCopy.edge he hOld]
    · rw [hNew, hPlan.edge_inj hd he hEq]

/-
  Statements of a graph lead from one registry to another one.
  They leave the graph with the given attributes and members,
  and make so many graphs, nodes and edges.
-/
structure Leads
    (φ : Numbering)
    (r : Registry F)
    (root g : GraphId)
    (s : Registry H)
    (t : AttributeTable)
    (ms : List NodeId)
    (i j k : Nat)
    (s' : Registry H) : Prop where
  isCopying : φ.IsCopying r root s'
  contents :
    (s'.graph (φ.graph g)).contents = (t, ms.map φ.node)
  keeps :
    ∀ {x},
      s.HasGraph x →
        x ≠ φ.graph g →
        (s'.graph x).contents = (s.graph x).contents
  graphs_size : s'.graphs.size = s.graphs.size + i
  nodes_size : s'.nodes.size = s.nodes.size + j
  edges_size : s'.edges.size = s.edges.size + k
  diagnostics : s'.diagnostics = s.diagnostics

namespace Leads

variable {i j k i' j' k' : Nat}

theorem refl
    (hCopy : φ.IsCopying r root s)
    (hContents :
      (s.graph (φ.graph g)).contents = (t, ms.map φ.node)) :
    φ.Leads r root g s t ms 0 0 0 s where
  isCopying := hCopy
  contents := hContents
  keeps _ _ := rfl
  graphs_size := rfl
  nodes_size := rfl
  edges_size := rfl
  diagnostics := rfl

theorem hasGraph
    (h : φ.Leads r root g s t ms i j k s')
    {x : GraphId}
    (hx : s.HasGraph x) :
    s'.HasGraph x := by
  have hSize := h.graphs_size
  unfold HasGraph at *
  omega

theorem hasNode
    (h : φ.Leads r root g s t ms i j k s')
    {x : NodeId}
    (hx : s.HasNode x) :
    s'.HasNode x := by
  have hSize := h.nodes_size
  unfold HasNode at *
  omega

theorem trans
    (h : φ.Leads r root g s t ms i j k s')
    (h' : φ.Leads r root g s' t' ms' i' j' k' s'') :
    φ.Leads r root g s t' ms' (i + i') (j + j') (k + k') s'' where
  isCopying := h'.isCopying
  contents := h'.contents
  keeps hx hNe :=
    (h'.keeps (h.hasGraph hx) hNe).trans (h.keeps hx hNe)
  graphs_size := by
    rw [h'.graphs_size, h.graphs_size, Nat.add_assoc]
  nodes_size := by
    rw [h'.nodes_size, h.nodes_size, Nat.add_assoc]
  edges_size := by
    rw [h'.edges_size, h.edges_size, Nat.add_assoc]
  diagnostics := h'.diagnostics.trans h.diagnostics

end Leads

------------------------------------------------------------
-- Attributes and Members
------------------------------------------------------------

/- What a step needs to know about the graph whose text is run. -/
structure IsOpen
    (φ : Numbering)
    (r : Registry F)
    (root g : GraphId)
    (t : AttributeTable)
    (ms : List NodeId)
    (s : Registry H) : Prop where
  isCopying : φ.IsCopying r root s
  hasGraph : s.HasGraph (φ.graph g)
  contents :
    (s.graph (φ.graph g)).contents = (t, ms.map φ.node)

theorem Leads.isOpen
    {i j k : Nat}
    (h : φ.Leads r root g s t' ms' i j k s')
    (hOpen : φ.IsOpen r root g t ms s) :
    φ.IsOpen r root g t' ms' s' where
  isCopying := h.isCopying
  hasGraph := h.hasGraph hOpen.hasGraph
  contents := h.contents

theorem IsOpen.attributes_eq
    (hOpen : φ.IsOpen r root g t ms s) :
    (s.graph (φ.graph g)).attributes = t :=
  congrArg Prod.fst hOpen.contents

theorem IsOpen.members_eq
    (hOpen : φ.IsOpen r root g t ms s) :
    (s.graph (φ.graph g)).members = ms.map φ.node :=
  congrArg Prod.snd hOpen.contents

theorem IsOpen.mem_members
    (hOpen : φ.IsOpen r root g t ms s)
    {n : NodeId}
    (hn : n ∈ ms) :
    φ.node n ∈ (s.graph (φ.graph g)).members := by
  rw [hOpen.members_eq]
  exact List.mem_map_of_mem hn

theorem leads_setAttributes
    (hPlan : φ.IsPlan IsGood r root)
    (hOpen : φ.IsOpen r root g t ms s)
    (attributes : List Attribute) :
    φ.Leads r root g s (t.setAll attributes) ms 0 0 0
      (s.modifyGraph (φ.graph g)
        (Graph.setAttributes attributes)) where
  isCopying := by
    have hShape := sameShape_setGraph (r := s) (φ.graph g) attributes
    have hBuilt := (Change.setGraph s (φ.graph g) attributes
      fun _ _ => trivial).isBuilt hOpen.isCopying.isBuilt
    apply hOpen.isCopying.extend hPlan hBuilt
    · intro x hx
      exact .inl ⟨(hShape.tree.hasGraph x).mp hx,
        view_modifyGraph (f := Graph.setAttributes attributes)
          Graph.outline (fun _ => rfl) _ x⟩
    · exact fun _ hx => .inl ⟨hx, rfl⟩
    · exact fun _ hx => .inl ⟨hx, rfl⟩
  contents := by
    rw [graph_modifyGraph hOpen.hasGraph, if_pos rfl,
      Graph.contents, Graph.setAttributes, hOpen.attributes_eq,
      hOpen.members_eq]
  keeps _ hNe := by
    rw [graph_modifyGraph hOpen.hasGraph, if_neg hNe]
  graphs_size := by simp [modifyGraph]
  nodes_size := rfl
  edges_size := rfl
  diagnostics := rfl

theorem leads_addMember
    (hPlan : φ.IsPlan IsGood r root)
    (hOpen : φ.IsOpen r root g t ms s)
    {n : NodeId}
    (hMay : s.MayMention (φ.graph g) (φ.node n))
    (hNew : φ.node n ∉ ms.map φ.node) :
    φ.Leads r root g s t (ms ++ [n]) 0 0 0
      (s.addMember (φ.graph g) (φ.node n)) where
  isCopying := by
    have hTree := sameTree_addMember (r := s) (φ.graph g) (φ.node n)
    have hBuilt := (Change.member s (φ.graph g) (φ.node n)
      hOpen.hasGraph hMay).isBuilt hOpen.isCopying.isBuilt
    apply hOpen.isCopying.extend hPlan hBuilt
    · intro x hx
      refine .inl ⟨(hTree.hasGraph x).mp hx,
        view_graph_addMember _ _ Graph.outline (fun _ _ _ => rfl) x⟩
    · exact fun _ hx => .inl ⟨hx, rfl⟩
    · exact fun _ hx => .inl ⟨hx, rfl⟩
  contents := by
    have hOut : φ.node n ∉ (s.graph (φ.graph g)).memberSet := by
      rwa [hOpen.isCopying.isBuilt.isIndexed.mem_memberSet,
        hOpen.members_eq]
    rw [addMember, graph_modifyGraph hOpen.hasGraph, if_pos rfl,
      addMember_eq, if_neg hOut, Graph.contents, hOpen.attributes_eq,
      hOpen.members_eq, List.map_append]
    rfl
  keeps _ hNe := by
    rw [addMember, graph_modifyGraph hOpen.hasGraph, if_neg hNe]
  graphs_size := by simp [addMember, modifyGraph]
  nodes_size := rfl
  edges_size := rfl
  diagnostics := rfl

------------------------------------------------------------
-- New Nodes
------------------------------------------------------------

theorem leads_declareNode
    (hPlan : φ.IsPlan IsGood r root)
    (hOpen : φ.IsOpen r root g t ms s)
    {n : NodeId}
    (hn : n ∈ r.allNodes root)
    (hOwner : (r.node n).owner = g)
    (hNext : φ.node n = s.nextNode)
    (hNone :
      s.resolveNode? (φ.graph g) (r.node n).name = none)
    (hPlain : (s.graph (φ.graph g)).nodeDefaults = .empty) :
    φ.Leads r root g s t (ms ++ [n]) 0 1 0
      ((s.declareNode (φ.graph g) (r.node n).name).modifyNode
        (φ.node n)
        (Node.setAttributes (r.node n).attributes.entries)) := by
  let declared := s.declareNode (φ.graph g) (r.node n).name
  have hScoped := hOpen.isCopying.isBuilt.isScoped
  have hDeclare : Change (fun _ => True) s declared :=
    .node s (φ.graph g) (r.node n).name hOpen.hasGraph hNone
  have hSet :
      Change (fun _ => True) declared
        (declared.modifyNode (φ.node n)
          (Node.setAttributes (r.node n).attributes.entries)) :=
    .setNode declared (φ.node n) _ fun _ _ => trivial
  have hBuilt := hSet.isBuilt
    (hDeclare.isBuilt hOpen.isCopying.isBuilt)
  have hTree : SameTree s declared :=
    sameTree_declareNode (φ.graph g) (r.node n).name
  have hGraph := hScoped.graph_declareNode hOpen.hasGraph
    (r.node n).name
  have hHas := hasNode_declareNode (r := s) (φ.graph g)
    (r.node n).name
  have hMade : declared.HasNode (φ.node n) :=
    (hHas _).mpr (.inr hNext)
  refine
    { isCopying := ?_
      contents := ?_
      keeps := ?_
      graphs_size := ?_
      nodes_size := ?_
      edges_size := rfl
      diagnostics := rfl }
  · apply hOpen.isCopying.extend hPlan hBuilt
    · intro x hx
      refine .inl ⟨(hTree.hasGraph x).mp hx, ?_⟩
      change (declared.graph x).outline = (s.graph x).outline
      rw [hGraph]
      by_cases hEq : x = φ.graph g
      · rw [if_pos hEq, hEq]
        rfl
      · rw [if_neg hEq]
    · intro x hx
      have hIn : declared.HasNode x := by
        rwa [← mem_nodeIds, nodeIds_modifyNode, mem_nodeIds] at hx
      rw [node_modifyNode hMade, hNext]
      rcases (hHas x).mp hIn with hOld | rfl
      · rw [if_neg hOld.ne_next, node_declareNode_of_hasNode hOld]
        exact .inl ⟨hOld, rfl⟩
      · refine .inr ⟨n, hn, hNext, ?_⟩
        rw [if_pos rfl, node_declareNode, if_pos rfl, hPlain, copyNode,
          hOwner]
        exact congrArg (Node.mk _ _ · [] [])
          (AttributeTable.setAll_empty
            (hPlan.isBuilt.isTabled.node n))
    · exact fun _ hx => .inl ⟨hx, rfl⟩
  · change (declared.graph (φ.graph g)).contents = _
    rw [hGraph, if_pos rfl, Graph.contents, hOpen.attributes_eq,
      hOpen.members_eq, ← hNext, List.map_append]
    rfl
  · intro x _ hNe
    change (declared.graph x).contents = _
    rw [hGraph, if_neg hNe]
  · simp [declareNode, addMember, addNode, modifyGraph, modifyNode]
  · simp [declareNode, addMember, addNode, modifyGraph, modifyNode]

------------------------------------------------------------
-- New Edges
------------------------------------------------------------

/- The ends of an edge belong to its top level graph. -/
theorem IsPlan.mem_ends
    (hPlan : φ.IsPlan IsGood r root)
    {e : EdgeId}
    (he : e ∈ r.madeEdges root) :
    (r.edge e).tail ∈ r.allNodes root ∧
      (r.edge e).head ∈ r.allNodes root := by
  rcases hPlan.mem_edges.mp he with ⟨hEdge, hIn⟩
  have hLinked := hPlan.isBuilt.isLinked
  exact ⟨hPlan.mem_nodes_of_member hIn (hLinked.tail_mem hEdge),
    hPlan.mem_nodes_of_member hIn (hLinked.head_mem hEdge)⟩

/- In a strict graph, no copy is parallel to an edge to be made. -/
theorem IsCopying.findEdge?_eq_none
    (hCopy : φ.IsCopying r root s)
    (hPlan : φ.IsPlan IsGood r root)
    {e : EdgeId}
    (he : e ∈ r.madeEdges root)
    (hNew : ¬ s.HasEdge (φ.edge e))
    (hStrict : (r.graph (r.edge e).owner).strict = true) :
    s.findEdge? (φ.node (r.edge e).tail) (φ.node (r.edge e).head) =
      none := by
  have hBuilt := hPlan.isBuilt
  have hLinked := hPlan.isBuilt.isLinked
  have hLinked' := hCopy.isBuilt.isLinked
  have hRoot := hPlan.isRoot
  rcases hPlan.mem_edges.mp he with ⟨hEdge, hIn⟩
  have hApart :
      ∀ d,
        d ∈ r.madeEdges root →
          s.HasEdge (φ.edge d) →
          ¬ (r.edge d).IsParallel (r.edge e) := by
    intro d hd hs hParallel
    rcases hPlan.mem_edges.mp hd with ⟨hEdge', hIn'⟩
    have hStrict' : (r.graph (r.edge d).owner).strict = true := by
      rw [hBuilt.isForest.view_eq_root hRoot
        hBuilt.isUniform.strict hIn', ← hStrict]
      exact (hBuilt.isForest.view_eq_root hRoot
        hBuilt.isUniform.strict hIn).symm
    rw [hLinked.simple hEdge' hEdge hStrict' hStrict hParallel] at hs
    exact hNew hs
  have hDirection :
      ∀ d ∈ r.madeEdges root,
        (r.edge d).directed = (r.graph root).directed := by
    intro d hd
    rcases hPlan.mem_edges.mp hd with ⟨hEdge', hIn'⟩
    rw [hLinked.directed hEdge']
    exact hBuilt.isForest.view_eq_root hRoot
      hBuilt.isUniform.directed hIn'
  have hEnds := hPlan.mem_ends he
  apply findEdge?_eq_none_iff.mpr
  constructor
  · intro x hx hHead
    rcases hLinked'.mem_outEdges.mp hx with ⟨hs, hTail⟩
    rcases hCopy.exists_edge hs with ⟨d, hd, rfl⟩
    have hEnds' := hPlan.mem_ends hd
    rw [hCopy.edge hd hs] at hHead hTail
    apply hApart d hd hs
    exact .inl ⟨hPlan.node_inj hEnds'.1 hEnds.1 hTail,
      hPlan.node_inj hEnds'.2 hEnds.2 hHead⟩
  · intro x hx hDirected hHead
    rcases hLinked'.mem_outEdges.mp hx with ⟨hs, hTail⟩
    rcases hCopy.exists_edge hs with ⟨d, hd, rfl⟩
    have hEnds' := hPlan.mem_ends hd
    rw [hCopy.edge hd hs] at hHead hTail hDirected
    change (r.edge d).directed = false at hDirected
    apply hApart d hd hs
    refine .inr ⟨hDirected, ?_, hPlan.node_inj hEnds'.1 hEnds.2 hTail,
      hPlan.node_inj hEnds'.2 hEnds.1 hHead⟩
    rw [hDirection e he, ← hDirection d hd, hDirected]

theorem leads_addEdge
    (hPlan : φ.IsPlan IsGood r root)
    (hOpen : φ.IsOpen r root g t ms s)
    (hg : g ∈ r.extent root)
    {e : EdgeId}
    (he : e ∈ (r.graph g).edges)
    (hNext : φ.edge e = s.nextEdge)
    (hTail : (r.edge e).tail ∈ ms)
    (hHead : (r.edge e).head ∈ ms) :
    φ.Leads r root g s t ms 0 0 1
      (s.addEdge (φ.graph g) (φ.node (r.edge e).tail)
        (φ.node (r.edge e).head) (r.edge e).attributes).2 := by
  have hCopy := hOpen.isCopying
  rcases hPlan.isBuilt.isLinked.mem_edges.mp he with ⟨hEdge, hOwner⟩
  have hMade : e ∈ r.madeEdges root := by
    apply hPlan.mem_edges.mpr
    rw [hOwner]
    exact ⟨hEdge, hg⟩
  have hNew : ¬ s.HasEdge (φ.edge e) := by
    intro hs
    exact hs.ne_next hNext
  have hDirected :
      (s.graph (φ.graph g)).directed = (r.edge e).directed := by
    rw [hPlan.isBuilt.isLinked.directed hEdge, hOwner]
    exact IsCopying.view_eq Graph.directed (fun _ => rfl) hCopy hg
      hOpen.hasGraph
  have hSimple :
      (s.graph (φ.graph g)).strict = true →
        s.findEdge? (φ.node (r.edge e).tail)
          (φ.node (r.edge e).head) = none := by
    intro hStrict
    apply hCopy.findEdge?_eq_none hPlan hMade hNew
    rw [hOwner, ← hStrict]
    exact (IsCopying.view_eq Graph.strict (fun _ => rfl) hCopy hg
      hOpen.hasGraph).symm
  have hChange :
      Change (fun _ => True) s
        (s.addEdge (φ.graph g) (φ.node (r.edge e).tail)
          (φ.node (r.edge e).head) (r.edge e).attributes).2 :=
    .edge s (φ.graph g) _ _ _ hOpen.hasGraph
      (hOpen.mem_members hTail) (hOpen.mem_members hHead) hSimple
      ((hPlan.isBuilt.isTabled.edge e).mono fun _ _ => trivial)
  refine
    { isCopying := ?_
      contents := ?_
      keeps := ?_
      graphs_size := ?_
      nodes_size := ?_
      edges_size := ?_
      diagnostics := rfl }
  · apply hCopy.extend hPlan (hChange.isBuilt hCopy.isBuilt)
    · intro x hx
      exact .inl ⟨((sameTree_addEdge _ _ _ _).hasGraph x).mp hx,
        view_graph_addEdge _ _ _ _ Graph.outline (fun _ _ => rfl) x⟩
    · intro x hx
      exact .inl ⟨((sameNodes_addEdge _ _ _ _).hasNode x).mp hx,
        view_node_addEdge _ _ _ _ Node.outline (fun _ _ => rfl)
          (fun _ _ => rfl) x⟩
    · intro x hx
      rw [edge_addEdge]
      rcases (hasEdge_addEdge _ _ _ _ x).mp hx with hOld | rfl
      · exact .inl ⟨hOld, if_neg hOld.ne_next⟩
      · refine .inr ⟨e, hMade, hNext, ?_⟩
        rw [if_pos rfl, hDirected, copyEdge, hOwner]
  · rw [← hOpen.contents]
    exact view_graph_addEdge _ _ _ _ Graph.contents (fun _ _ => rfl)
      _
  · intro x _ _
    exact view_graph_addEdge _ _ _ _ Graph.contents (fun _ _ => rfl)
      x
  · simp [addEdge, modifyGraph, modifyNode]
  · simp [addEdge, modifyGraph, modifyNode]
  · simp [addEdge, modifyGraph, modifyNode]

end Numbering

end DotLang
