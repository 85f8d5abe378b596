import DotLang.Proofs.Registry.Growth
import DotLang.Proofs.Registry.Indexes

/-
  This file proves the rules of scope that hold for the nodes of
  a registry as statements run.

  Two nodes of one name are never owned by one graph, nor by two
  graphs of which one is around the other.  A graph mentions the
  nodes that it owns, and beside them only nodes of graphs that
  are around it or inside it.

  Key definitions include:
    * `Registry.AreNested`
    * `Registry.IsScoped`

  Key theorems include:
    * `Registry.Change.isScoped`
-/

------------------------------------------------------------
-- Nested Graphs
------------------------------------------------------------

namespace DotLang

namespace Registry

variable {F : Factory} {r s : Registry F}

/- One of two graphs is around the other, or they are the same. -/
def AreNested (r : Registry F) (g h : GraphId) : Prop :=
  g ∈ r.lineage h ∨ h ∈ r.lineage g

theorem AreNested.symm
    {g h : GraphId}
    (hNested : r.AreNested g h) :
    r.AreNested h g :=
  Or.symm hNested

/- Names are looked up in the graphs around and inside. -/
theorem IsForest.mem_scopes
    (hForest : r.IsForest)
    {g h : GraphId}
    (hg : r.HasGraph g) :
    h ∈ r.lineage g ++ r.subgraphs g ↔
      r.HasGraph h ∧ r.AreNested h g := by
  have hExtent := hForest.mem_extent (h := h) hg
  rw [extent, List.mem_cons] at hExtent
  rw [List.mem_append]
  constructor
  · rintro (hMem | hMem)
    · exact ⟨hForest.hasGraph_of_mem_lineage hg hMem, .inl hMem⟩
    · have hInside := hExtent.mp (.inr hMem)
      exact ⟨hInside.1, .inr hInside.2⟩
  · rintro ⟨hh, hMem | hMem⟩
    · exact .inl hMem
    · rcases hExtent.mpr ⟨hh, hMem⟩ with rfl | hInside
      · exact .inl (hForest.mem_lineage_self hh)
      · exact .inr hInside

theorem Grows.areNested
    (hGrows : Grows r s)
    (hForest : r.IsForest)
    (hForest' : s.IsForest)
    {g h : GraphId}
    (hg : r.HasGraph g)
    (hh : r.HasGraph h) :
    s.AreNested g h ↔ r.AreNested g h := by
  unfold AreNested
  rw [hGrows.lineage_eq hForest hForest' hg,
    hGrows.lineage_eq hForest hForest' hh]

------------------------------------------------------------
-- Rules of Scope
------------------------------------------------------------

/-
  What holds for nodes.  The nodes that a graph owns are listed
  as they were made, and its members list them in this order.
  Indexes are in step with these lists.
-/
structure IsScoped (r : Registry F) : Prop where
  isIndexed : r.IsIndexed
  hasOwner :
    ∀ {n : NodeId}, r.HasNode n → r.HasGraph (r.node n).owner
  nodes_eq :
    ∀ g : GraphId,
      (r.graph g).nodes =
        r.nodeIds.filter fun n => (r.node n).owner = g
  filter_members :
    ∀ g : GraphId,
      (r.graph g).members.filter (fun n => (r.node n).owner = g) =
        (r.graph g).nodes
  nodup_members : ∀ g : GraphId, (r.graph g).members.Nodup
  hasNode :
    ∀ {g : GraphId} {n : NodeId},
      n ∈ (r.graph g).members → r.HasNode n
  nested :
    ∀ {g : GraphId} {n : NodeId},
      n ∈ (r.graph g).members → r.AreNested (r.node n).owner g
  unique :
    ∀ {m n : NodeId},
      r.HasNode m →
        r.HasNode n →
        (r.node m).name = (r.node n).name →
        r.AreNested (r.node m).owner (r.node n).owner →
        m = n

namespace IsScoped

variable {g scope : GraphId} {n : NodeId}

theorem mem_nodes
    (hScoped : r.IsScoped) :
    n ∈ (r.graph g).nodes ↔ r.HasNode n ∧ (r.node n).owner = g := by
  rw [hScoped.nodes_eq, List.mem_filter, mem_nodeIds]
  simp

theorem mem_members_owner
    (hScoped : r.IsScoped)
    (hn : r.HasNode n) :
    n ∈ (r.graph (r.node n).owner).members := by
  have hMem := hScoped.mem_nodes.mpr ⟨hn, rfl⟩
  rw [← hScoped.filter_members] at hMem
  exact (List.mem_filter.mp hMem).1

theorem nodup_nodes
    (hScoped : r.IsScoped)
    (g : GraphId) :
    (r.graph g).nodes.Nodup := by
  rw [hScoped.nodes_eq]
  exact (nodup_nodeIds r).filter _

/- A node that may be mentioned is owned around or inside. -/
theorem nested_of_mayMention
    (hScoped : r.IsScoped)
    (hForest : r.IsForest)
    (hScope : r.HasGraph scope)
    (hMay : r.MayMention scope n) :
    r.HasNode n ∧ r.AreNested (r.node n).owner scope := by
  rcases hMay with ⟨name, hFind⟩ | ⟨c, hParent, hMem⟩
  · rcases hScoped.isIndexed.exists_of_resolveNode?_eq_some hFind with
      ⟨h, hMem, hNode, -⟩
    rcases hScoped.mem_nodes.mp hNode with ⟨hn, rfl⟩
    exact ⟨hn, ((hForest.mem_scopes hScope).mp hMem).2⟩
  · have hc := hasGraph_of_parent hParent
    have hn := hScoped.hasNode hMem
    have hUp := hForest.lineage_of_parent hParent
    refine ⟨hn, ?_⟩
    rcases hScoped.nested hMem with hOut | hIn
    · rw [hUp] at hOut
      rcases List.mem_cons.mp hOut with hEq | hOut
      · right
        rw [hEq, hUp]
        exact List.mem_cons_of_mem _
          (hForest.mem_lineage_self hScope)
      · exact .inl hOut
    · right
      apply hForest.lineage_subset (hScoped.hasOwner hn) hIn
      rw [hUp]
      exact List.mem_cons_of_mem _ (hForest.mem_lineage_self hScope)

------------------------------------------------------------
-- Scopes Through Changes
------------------------------------------------------------

theorem of_sameNodes
    (hScoped : r.IsScoped)
    (hForest : r.IsForest)
    (hForest' : s.IsForest)
    (hGrows : Grows r s)
    (hSame : SameNodes r s) :
    s.IsScoped where
  isIndexed := hScoped.isIndexed.of_sameNodes hSame
  hasOwner hn := by
    rw [hSame.owner]
    exact hGrows.graph (hScoped.hasOwner ((hSame.hasNode _).mp hn))
  nodes_eq g := by
    rw [hSame.nodes, hSame.nodeIds, hScoped.nodes_eq]
    simp only [hSame.owner]
  filter_members g := by
    rw [hSame.nodes, hSame.members, ← hScoped.filter_members]
    simp only [hSame.owner]
  nodup_members g := by
    rw [hSame.members]
    exact hScoped.nodup_members g
  hasNode hMem := by
    rw [hSame.members] at hMem
    exact (hSame.hasNode _).mpr (hScoped.hasNode hMem)
  nested hMem := by
    rw [hSame.members] at hMem
    rw [hSame.owner, hGrows.areNested hForest hForest'
      (hScoped.hasOwner (hScoped.hasNode hMem))
      (hasGraph_of_mem_members hMem)]
    exact hScoped.nested hMem
  unique hm hn hName hNested := by
    rw [hSame.hasNode] at hm hn
    rw [hSame.name, hSame.name] at hName
    rw [hSame.owner, hSame.owner, hGrows.areNested hForest hForest'
      (hScoped.hasOwner hm) (hScoped.hasOwner hn)] at hNested
    exact hScoped.unique hm hn hName hNested

theorem addMember
    (hScoped : r.IsScoped)
    (hForest : r.IsForest)
    (hScope : r.HasGraph scope)
    (hMay : r.MayMention scope n) :
    (r.addMember scope n).IsScoped := by
  have hIndexed := hScoped.isIndexed
  have hSame := sameTree_addMember (r := r) scope n
  have hGrows := grows_addMember hScope n
  have hForest' := hForest.of_sameTree hSame
  have hNodes :
      ∀ g, ((r.addMember scope n).graph g).nodes =
        (r.graph g).nodes :=
    view_graph_addMember scope n Graph.nodes fun _ _ _ => rfl
  rcases hScoped.nested_of_mayMention hForest hScope hMay with
    ⟨hn, hNested⟩
  -- a new member is owned by another graph
  have hOther :
      n ∉ (r.graph scope).members → (r.node n).owner ≠ scope := by
    rintro hNew rfl
    exact hNew (hScoped.mem_members_owner hn)
  constructor
  · exact hIndexed.addMember hScope n
  · intro m hm
    exact hGrows.graph (hScoped.hasOwner hm)
  · intro g
    rw [hNodes]
    exact hScoped.nodes_eq g
  · intro g
    change (((r.addMember scope n).graph g).members.filter fun m =>
      (r.node m).owner = g) = _
    rw [hNodes, hIndexed.members_addMember hScope,
      ← hScoped.filter_members]
    by_cases hNew : g = scope ∧ n ∉ (r.graph scope).members
    · rw [if_pos hNew, List.filter_append, hNew.1]
      simp [hOther hNew.2]
    · rw [if_neg hNew]
  · exact hIndexed.nodup_members_addMember hScope n
      hScoped.nodup_members
  · intro g m hMem
    rcases (hIndexed.mem_members_addMember hScope).mp hMem with
      hMem | ⟨-, rfl⟩
    · exact hScoped.hasNode hMem
    · exact hn
  · intro g m hMem
    have hOld : r.HasNode m ∧ r.AreNested (r.node m).owner g := by
      rcases (hIndexed.mem_members_addMember hScope).mp hMem with
        hMem | ⟨rfl, rfl⟩
      · exact ⟨hScoped.hasNode hMem, hScoped.nested hMem⟩
      · exact ⟨hn, hNested⟩
    have hg := (hSame.hasGraph g).mp (hasGraph_of_mem_members hMem)
    exact (hGrows.areNested hForest hForest'
      (hScoped.hasOwner hOld.1) hg).mpr hOld.2
  · intro m m' hm hm' hName hNested
    exact hScoped.unique hm hm' hName
      ((hGrows.areNested hForest hForest' (hScoped.hasOwner hm)
        (hScoped.hasOwner hm')).mp hNested)

theorem nextNode_not_mem
    (hScoped : r.IsScoped)
    (g : GraphId) :
    r.nextNode ∉ (r.graph g).members := by
  intro hMem
  exact (hScoped.hasNode hMem).ne_next rfl

theorem graph_declareNode
    (hScoped : r.IsScoped)
    (hScope : r.HasGraph scope)
    (name : String)
    (h : GraphId) :
    (r.declareNode scope name).graph h =
      if h = scope then
        { r.graph scope with
          nodes := (r.graph scope).nodes ++ [r.nextNode]
          nodeIndex :=
            (r.graph scope).nodeIndex.insert name r.nextNode
          members := (r.graph scope).members ++ [r.nextNode]
          memberSet := (r.graph scope).memberSet.insert r.nextNode }
      else
        r.graph h := by
  have hAdd :=
    graph_addNode name (r.graph scope).nodeDefaults hScope
  have hScope' := (grows_addNode scope name
    (r.graph scope).nodeDefaults).graph hScope
  have hNew : r.nextNode ∉ (r.graph scope).memberSet := by
    rw [hScoped.isIndexed.mem_memberSet]
    exact hScoped.nextNode_not_mem scope
  rw [declareNode, DotLang.Registry.addMember,
    graph_modifyGraph hScope', hAdd, if_pos rfl, hAdd, addMember_eq,
    if_neg hNew]
  by_cases hEq : h = scope
  · rw [if_pos hEq, if_pos hEq]
  · rw [if_neg hEq, if_neg hEq, if_neg hEq]

theorem mem_members_declareNode
    (hScoped : r.IsScoped)
    (hScope : r.HasGraph scope)
    (name : String) :
    n ∈ ((r.declareNode scope name).graph g).members ↔
      n ∈ (r.graph g).members ∨ g = scope ∧ n = r.nextNode := by
  rw [hScoped.graph_declareNode hScope]
  by_cases hEq : g = scope
  · simp [hEq]
  · simp [hEq]

/- The new node is owned by its scope, and by no other graph. -/
theorem filter_owner_declareNode
    {nodes : List NodeId}
    (hNodes : ∀ n ∈ nodes, r.HasNode n)
    (name : String)
    (g : GraphId) :
    ((nodes ++ [r.nextNode]).filter fun n =>
        ((r.declareNode scope name).node n).owner = g) =
      (nodes.filter fun n => (r.node n).owner = g) ++
        if g = scope then [r.nextNode] else [] := by
  have hOld :
      (nodes.filter fun n =>
          ((r.declareNode scope name).node n).owner = g) =
        nodes.filter fun n => (r.node n).owner = g := by
    apply List.filter_congr
    intro n hn
    rw [node_declareNode_of_hasNode (hNodes n hn)]
  rw [List.filter_append, hOld, List.filter_singleton,
    node_declareNode, if_pos rfl]
  by_cases hEq : g = scope
  · simp [hEq]
  · simp [hEq, Ne.symm hEq]

/- No node of a name that is new is owned around or inside. -/
theorem not_nested_of_resolveNode?_eq_none
    (hScoped : r.IsScoped)
    (hForest : r.IsForest)
    (hScope : r.HasGraph scope)
    {name : String}
    (hNew : r.resolveNode? scope name = none)
    (hn : r.HasNode n)
    (hName : (r.node n).name = name) :
    ¬ r.AreNested (r.node n).owner scope := by
  intro hNested
  have hMem := (hForest.mem_scopes hScope).mpr
    ⟨hScoped.hasOwner hn, hNested⟩
  exact hScoped.isIndexed.resolveNode?_eq_none_iff.mp hNew _ hMem n
    (hScoped.mem_nodes.mpr ⟨hn, rfl⟩) hName

/- The new node shares its name with no node that is in sight. -/
theorem unique_declareNode
    (hScoped : r.IsScoped)
    (hForest : r.IsForest)
    (hScope : r.HasGraph scope)
    {name : String}
    (hNew : r.resolveNode? scope name = none)
    {m n : NodeId}
    (hm : (r.declareNode scope name).HasNode m)
    (hn : (r.declareNode scope name).HasNode n)
    (hName :
      ((r.declareNode scope name).node m).name =
        ((r.declareNode scope name).node n).name)
    (hNested :
      (r.declareNode scope name).AreNested
        ((r.declareNode scope name).node m).owner
        ((r.declareNode scope name).node n).owner) :
    m = n := by
  have hForest' :=
    hForest.of_sameTree (sameTree_declareNode scope name)
  have hNests :
      ∀ {g h : GraphId},
        r.HasGraph g →
          r.HasGraph h →
          ((r.declareNode scope name).AreNested g h ↔
            r.AreNested g h) :=
    fun hg hh => (grows_declareNode hScope name).areNested hForest
      hForest' hg hh
  have hApart :
      ∀ {n : NodeId},
        r.HasNode n →
          (r.node n).name = name →
          ¬ r.AreNested (r.node n).owner scope :=
    hScoped.not_nested_of_resolveNode?_eq_none hForest hScope hNew
  rw [node_declareNode, node_declareNode] at hName hNested
  rcases (hasNode_declareNode scope name m).mp hm with hm | rfl
  · rw [if_neg hm.ne_next] at hName hNested
    have hOwner := hScoped.hasOwner hm
    rcases (hasNode_declareNode scope name n).mp hn with hn | rfl
    · rw [if_neg hn.ne_next] at hName hNested
      exact hScoped.unique hm hn hName
        ((hNests hOwner (hScoped.hasOwner hn)).mp hNested)
    · rw [if_pos rfl] at hName hNested
      exact absurd ((hNests hOwner hScope).mp hNested)
        (hApart hm hName)
  · rw [if_pos rfl] at hName hNested
    rcases (hasNode_declareNode scope name n).mp hn with hn | rfl
    · rw [if_neg hn.ne_next] at hName hNested
      have hBack := (hNests hScope (hScoped.hasOwner hn)).mp hNested
      exact absurd hBack.symm (hApart hn hName.symm)
    · rfl

theorem declareNode
    (hScoped : r.IsScoped)
    (hForest : r.IsForest)
    (hScope : r.HasGraph scope)
    {name : String}
    (hNew : r.resolveNode? scope name = none) :
    (r.declareNode scope name).IsScoped := by
  have hSame := sameTree_declareNode (r := r) scope name
  have hGrows := grows_declareNode hScope name
  have hForest' := hForest.of_sameTree hSame
  have hGraph := hScoped.graph_declareNode hScope name
  have hHas := hasNode_declareNode (r := r) scope name
  constructor
  · exact hScoped.isIndexed.declareNode hScope name
  · intro n hn
    rw [node_declareNode]
    rcases (hHas n).mp hn with hn | rfl
    · rw [if_neg hn.ne_next]
      exact hGrows.graph (hScoped.hasOwner hn)
    · rw [if_pos rfl]
      exact hGrows.graph hScope
  · intro g
    have hIds :
        (r.declareNode scope name).nodeIds =
          r.nodeIds ++ [r.nextNode] :=
      nodeIds_addNode scope name _
    rw [hIds, filter_owner_declareNode fun n => mem_nodeIds.mp,
      ← hScoped.nodes_eq, hGraph]
    by_cases hEq : g = scope
    · simp [hEq]
    · simp [hEq]
  · intro g
    have hOld :
        ∀ h, ∀ n ∈ (r.graph h).members, r.HasNode n :=
      fun _ _ hn => hScoped.hasNode hn
    rw [hGraph]
    by_cases hEq : g = scope
    · rw [if_pos hEq, filter_owner_declareNode (hOld scope), hEq,
        hScoped.filter_members, if_pos rfl]
    · rw [if_neg hEq, ← hScoped.filter_members]
      apply List.filter_congr
      intro n hn
      rw [node_declareNode_of_hasNode (hOld g n hn)]
  · intro g
    rw [hGraph]
    by_cases hEq : g = scope
    · have hNodup := (hScoped.nodup_members scope).concat
        (hScoped.nextNode_not_mem scope)
      rw [List.concat_eq_append] at hNodup
      rw [if_pos hEq]
      exact hNodup
    · rw [if_neg hEq]
      exact hScoped.nodup_members g
  · intro g n hMem
    rcases (hScoped.mem_members_declareNode hScope name).mp hMem with
      hMem | ⟨-, hEq⟩
    · exact (hHas n).mpr (.inl (hScoped.hasNode hMem))
    · exact (hHas n).mpr (.inr hEq)
  · intro g n hMem
    have hg := (hSame.hasGraph g).mp (hasGraph_of_mem_members hMem)
    rcases (hScoped.mem_members_declareNode hScope name).mp hMem with
      hMem | ⟨rfl, rfl⟩
    · have hn := hScoped.hasNode hMem
      rw [node_declareNode_of_hasNode hn, hGrows.areNested hForest
        hForest' (hScoped.hasOwner hn) hg]
      exact hScoped.nested hMem
    · rw [node_declareNode, if_pos rfl]
      exact .inl (hForest'.mem_lineage_self (hGrows.graph hg))
  · intro m n
    exact hScoped.unique_declareNode hForest hScope hNew

end IsScoped

------------------------------------------------------------
-- Changes
------------------------------------------------------------

/- Changes keep the rules of scope. -/
theorem Change.isScoped
    {IsGood : Value → Prop}
    (h : Change IsGood r s)
    (hForest : r.IsForest)
    (hScoped : r.IsScoped) :
    s.IsScoped := by
  have hKeep :=
    hScoped.of_sameNodes hForest (h.isForest hForest) h.grows
  cases h with
  | root name directed strict =>
      exact hKeep
        (sameNodes_addGraph nofun (Graph.isBlank_new _ _ _))
  | child scope name hScope hNew =>
      have hMay := MayAdd.child hScope hNew
      exact hKeep (sameNodes_addGraph hMay.hasParent hMay.isBlank)
  | node scope name hScope hNew =>
      exact hScoped.declareNode hForest hScope hNew
  | member scope n hScope hMay =>
      exact hScoped.addMember hForest hScope hMay
  | edge scope tail head attributes =>
      exact hKeep (sameNodes_addEdge scope tail head attributes)
  | setGraph g attributes =>
      exact hKeep (sameShape_setGraph g attributes).nodes
  | setDefaults g kind attributes =>
      exact hKeep (sameShape_setDefaults g kind attributes).nodes
  | setNode n attributes =>
      exact hKeep (sameShape_setNode n attributes).nodes
  | setEdge e attributes =>
      exact hKeep (sameShape_setEdge e attributes).nodes
  | aside _ hGraphs hNodes hEdges hRoots =>
      exact hKeep (sameShape_aside hGraphs hNodes hEdges hRoots).nodes

end Registry

end DotLang
