import DotLang.Registry.Basic

/-
  This file says what each change of a registry does to its
  graphs, nodes and edges, so that the arrays behind them need
  not be looked at.

  Key definitions include:
    * `Registry.HasGraph`
    * `Registry.HasNode`
    * `Registry.HasEdge`
    * `Registry.ends`

  Key theorems include:
    * `Registry.graph_addGraph_some`
    * `Registry.graph_addNode`
    * `Registry.node_addNode`
    * `Registry.node_addEdge`
-/

------------------------------------------------------------
-- Arrays
------------------------------------------------------------

namespace DotLang

theorem getD_push
    {α : Type}
    (a : Array α)
    (x d : α)
    (i : Nat) :
    (a.push x).getD i d = if i = a.size then x else a.getD i d := by
  simp only [Array.getD_eq_getD_getElem?, Array.getElem?_push]
  split <;> rfl

theorem getD_modify
    {α : Type}
    (a : Array α)
    (f : α → α)
    (d : α)
    {i : Nat}
    (j : Nat)
    (hi : i < a.size) :
    (a.modify i f).getD j d =
      if j = i then f (a.getD i d) else a.getD j d := by
  simp only [Array.getD_eq_getD_getElem?, Array.getElem?_modify]
  by_cases hEq : i = j
  · subst hEq
    simp [hi]
  · rw [if_neg hEq, if_neg (Ne.symm hEq)]

theorem modify_of_fixed
    {α : Type}
    {a : Array α}
    {i : Nat}
    {f : α → α}
    (h : ∀ x, a[i]? = some x → f x = x) :
    a.modify i f = a := by
  apply Array.ext_getElem?
  intro j
  rw [Array.getElem?_modify]
  by_cases hEq : i = j
  · subst hEq
    rw [if_pos rfl]
    cases hItem : a[i]? with
    | none => rfl
    | some x => rw [Option.map_some, h x hItem]
  · rw [if_neg hEq]

section Maps

variable {α β : Type} (a : Array α) (f : α → β)

theorem getD_map
    (d : α)
    (i : Nat) :
    (a.map f).getD i (f d) = f (a.getD i d) := by
  simp only [Array.getD_eq_getD_getElem?, Array.getElem?_map]
  cases a[i]? <;> rfl

/- A change goes through a map that it commutes with. -/
theorem modify_map
    {h : β → β}
    {h' : α → α}
    (hComm : ∀ x, h (f x) = f (h' x))
    (i : Nat) :
    (a.map f).modify i h = (a.modify i h').map f := by
  apply Array.ext_getElem?
  intro j
  simp only [Array.getElem?_modify, Array.getElem?_map]
  split
  · cases a[j]? with
    | none => rfl
    | some x => exact congrArg some (hComm x)
  · rfl

/- A change that a map hides makes no difference to it. -/
theorem map_modify_of_eq
    {h : α → α}
    (hKeep : ∀ x, f (h x) = f x)
    (i : Nat) :
    (a.modify i h).map f = a.map f := by
  apply Array.ext_getElem?
  intro j
  simp only [Array.getElem?_map, Array.getElem?_modify]
  split
  · cases a[j]? with
    | none => rfl
    | some x => exact congrArg some (hKeep x)
  · rfl

end Maps

------------------------------------------------------------
-- Handles in Use
------------------------------------------------------------

namespace Registry

variable {F : Factory} {r : Registry F}

/- The handles of graphs, nodes and edges that were made. -/
def HasGraph (r : Registry F) (g : GraphId) : Prop :=
  g.index < r.graphs.size

def HasNode (r : Registry F) (n : NodeId) : Prop :=
  n.index < r.nodes.size

def HasEdge (r : Registry F) (e : EdgeId) : Prop :=
  e.index < r.edges.size

/- The handles that the next entities get. -/
def nextGraph (r : Registry F) : GraphId :=
  ⟨r.graphs.size⟩

def nextNode (r : Registry F) : NodeId :=
  ⟨r.nodes.size⟩

def nextEdge (r : Registry F) : EdgeId :=
  ⟨r.edges.size⟩

instance (r : Registry F) (g : GraphId) : Decidable (r.HasGraph g) :=
  inferInstanceAs (Decidable (g.index < r.graphs.size))

instance (r : Registry F) (n : NodeId) : Decidable (r.HasNode n) :=
  inferInstanceAs (Decidable (n.index < r.nodes.size))

instance (r : Registry F) (e : EdgeId) : Decidable (r.HasEdge e) :=
  inferInstanceAs (Decidable (e.index < r.edges.size))

/- The nodes at which an edge ends, its tail first. -/
def ends (r : Registry F) (e : EdgeId) : NodeId × NodeId :=
  ((r.edge e).tail, (r.edge e).head)

theorem HasGraph.ne_next
    {g : GraphId}
    (h : r.HasGraph g) :
    g ≠ r.nextGraph := by
  rintro rfl
  exact Nat.lt_irrefl _ h

theorem HasNode.ne_next
    {n : NodeId}
    (h : r.HasNode n) :
    n ≠ r.nextNode := by
  rintro rfl
  exact Nat.lt_irrefl _ h

theorem HasEdge.ne_next
    {e : EdgeId}
    (h : r.HasEdge e) :
    e ≠ r.nextEdge := by
  rintro rfl
  exact Nat.lt_irrefl _ h

/- A handle that is not in use shows the default entity. -/
theorem graph_of_not_hasGraph
    {g : GraphId}
    (hg : ¬ r.HasGraph g) :
    r.graph g = default := by
  have hLe : r.graphs.size ≤ g.index := Nat.not_lt.mp hg
  simp [graph, Array.getD, Nat.not_lt.mpr hLe]

theorem hasGraph_of_mem_members
    {g : GraphId}
    {n : NodeId}
    (hMem : n ∈ (r.graph g).members) :
    r.HasGraph g := by
  by_cases hg : r.HasGraph g
  · exact hg
  · rw [graph_of_not_hasGraph hg] at hMem
    cases hMem

theorem graph_nextGraph
    (r : Registry F) :
    r.graph r.nextGraph = default :=
  graph_of_not_hasGraph (Nat.lt_irrefl _)

theorem node_nextNode
    (r : Registry F) :
    r.node r.nextNode = default := by
  simp [node, nextNode, Array.getD]

/- All handles that are in use, in the order of their making. -/
def graphIds (r : Registry F) : List GraphId :=
  (List.range r.graphs.size).map GraphId.mk

def nodeIds (r : Registry F) : List NodeId :=
  (List.range r.nodes.size).map NodeId.mk

def edgeIds (r : Registry F) : List EdgeId :=
  (List.range r.edges.size).map EdgeId.mk

@[simp] theorem mem_graphIds
    {g : GraphId} :
    g ∈ r.graphIds ↔ r.HasGraph g := by
  rcases g with ⟨i⟩
  simp [graphIds, HasGraph]

@[simp] theorem mem_nodeIds
    {n : NodeId} :
    n ∈ r.nodeIds ↔ r.HasNode n := by
  rcases n with ⟨i⟩
  simp [nodeIds, HasNode]

@[simp] theorem mem_edgeIds
    {e : EdgeId} :
    e ∈ r.edgeIds ↔ r.HasEdge e := by
  rcases e with ⟨i⟩
  simp [edgeIds, HasEdge]

theorem nodup_graphIds
    (r : Registry F) :
    r.graphIds.Nodup := by
  refine List.Pairwise.map _ ?_ List.nodup_range
  intro i j hNe hEq
  exact hNe (congrArg GraphId.index hEq)

theorem nodup_nodeIds
    (r : Registry F) :
    r.nodeIds.Nodup := by
  refine List.Pairwise.map _ ?_ List.nodup_range
  intro i j hNe hEq
  exact hNe (congrArg NodeId.index hEq)

theorem nodup_edgeIds
    (r : Registry F) :
    r.edgeIds.Nodup := by
  refine List.Pairwise.map _ ?_ List.nodup_range
  intro i j hNe hEq
  exact hNe (congrArg EdgeId.index hEq)

------------------------------------------------------------
-- Changes
------------------------------------------------------------

theorem graph_modifyGraph
    {g : GraphId}
    (hg : r.HasGraph g)
    (f : Graph → Graph)
    (h : GraphId) :
    (r.modifyGraph g f).graph h =
      if h = g then f (r.graph g) else r.graph h := by
  rcases g with ⟨i⟩
  rcases h with ⟨j⟩
  simp only [graph, modifyGraph, getD_modify _ _ _ _ hg,
    GraphId.mk.injEq]

/- A change of one graph leaves the others, in use or not. -/
theorem graph_modifyGraph_of_ne
    {g h : GraphId}
    (hOther : h ≠ g)
    (f : Graph → Graph) :
    (r.modifyGraph g f).graph h = r.graph h := by
  have hIndex : g.index ≠ h.index := by
    intro hEq
    exact hOther (congrArg GraphId.mk hEq.symm)
  simp only [graph, modifyGraph, Array.getD_eq_getD_getElem?,
    Array.getElem?_modify, if_neg hIndex]

theorem node_modifyNode
    {n : NodeId}
    (hn : r.HasNode n)
    (f : Node → Node)
    (m : NodeId) :
    (r.modifyNode n f).node m =
      if m = n then f (r.node n) else r.node m := by
  rcases n with ⟨i⟩
  rcases m with ⟨j⟩
  simp only [node, modifyNode, getD_modify _ _ _ _ hn,
    NodeId.mk.injEq]

theorem edge_modifyEdge
    {e : EdgeId}
    (he : r.HasEdge e)
    (f : Edge → Edge)
    (d : EdgeId) :
    (r.modifyEdge e f).edge d =
      if d = e then f (r.edge e) else r.edge d := by
  rcases e with ⟨i⟩
  rcases d with ⟨j⟩
  simp only [edge, modifyEdge, getD_modify _ _ _ _ he,
    EdgeId.mk.injEq]

------------------------------------------------------------
-- New Graphs
------------------------------------------------------------

section Graphs

variable (graph : Graph)

@[simp] theorem fst_addGraph
    (parent : Option GraphId) :
    (r.addGraph graph parent).1 = r.nextGraph := rfl

@[simp] theorem node_addGraph
    (parent : Option GraphId)
    (n : NodeId) :
    (r.addGraph graph parent).2.node n = r.node n := by
  cases parent <;> rfl

@[simp] theorem edge_addGraph
    (parent : Option GraphId)
    (e : EdgeId) :
    (r.addGraph graph parent).2.edge e = r.edge e := by
  cases parent <;> rfl

@[simp] theorem graphIds_addGraph
    (parent : Option GraphId) :
    (r.addGraph graph parent).2.graphIds =
      r.graphIds ++ [r.nextGraph] := by
  cases parent <;>
    simp [graphIds, addGraph, enterGraph, modifyGraph, nextGraph,
      List.range_succ]

@[simp] theorem nodeIds_addGraph
    (parent : Option GraphId) :
    (r.addGraph graph parent).2.nodeIds = r.nodeIds := by
  cases parent <;> rfl

@[simp] theorem edgeIds_addGraph
    (parent : Option GraphId) :
    (r.addGraph graph parent).2.edgeIds = r.edgeIds := by
  cases parent <;> rfl

/- A new subgraph is the last child of its parent. -/
theorem graph_addGraph_some
    {parent : GraphId}
    (hParent : r.HasGraph parent)
    (h : GraphId) :
    (r.addGraph graph (some parent)).2.graph h =
      if h = r.nextGraph then
        { graph with parent := some parent }
      else if h = parent then
        { r.graph parent with
          children := (r.graph parent).children ++ [r.nextGraph] }
      else
        r.graph h := by
  have hSame := graph_modifyGraph hParent
    (fun graph =>
      { graph with children := graph.children ++ [r.nextGraph] }) h
  have hSize :
      (r.modifyGraph parent fun graph =>
        { graph with
          children :=
            graph.children ++ [r.nextGraph] }).graphs.size =
        r.graphs.size := by
    simp [modifyGraph]
  rcases h with ⟨i⟩
  refine (getD_push _ _ _ i).trans ?_
  simp only [nextGraph, GraphId.mk.injEq] at hSame hSize ⊢
  rw [show (r.enterGraph ⟨r.graphs.size⟩ (some parent)).graphs.size
    = r.graphs.size from hSize]
  split
  · rfl
  · exact hSame

/- A new top level graph changes no other one. -/
theorem graph_addGraph_none
    (h : GraphId) :
    (r.addGraph graph none).2.graph h =
      if h = r.nextGraph then
        { graph with parent := none }
      else
        r.graph h := by
  rcases h with ⟨i⟩
  refine (getD_push _ _ _ i).trans ?_
  simp only [nextGraph, GraphId.mk.injEq]
  rfl

@[simp] theorem roots_addGraph
    (parent : Option GraphId) :
    (r.addGraph graph parent).2.roots =
      if parent = none then r.roots ++ [r.nextGraph] else r.roots := by
  cases parent <;> rfl

end Graphs

------------------------------------------------------------
-- New Nodes
------------------------------------------------------------

section Nodes

variable (g : GraphId) (name : String) (attributes : AttributeTable)

@[simp] theorem fst_addNode :
    (r.addNode g name attributes).1 = r.nextNode := rfl

@[simp] theorem nodeIds_addNode :
    (r.addNode g name attributes).2.nodeIds =
      r.nodeIds ++ [r.nextNode] := by
  simp [nodeIds, addNode, modifyGraph, nextNode, List.range_succ]

@[simp] theorem graphIds_addNode :
    (r.addNode g name attributes).2.graphIds = r.graphIds := by
  simp [graphIds, addNode, modifyGraph]

@[simp] theorem edgeIds_addNode :
    (r.addNode g name attributes).2.edgeIds = r.edgeIds := rfl

@[simp] theorem edge_addNode
    (e : EdgeId) :
    (r.addNode g name attributes).2.edge e = r.edge e := rfl

@[simp] theorem roots_addNode :
    (r.addNode g name attributes).2.roots = r.roots := rfl

theorem node_addNode
    (n : NodeId) :
    (r.addNode g name attributes).2.node n =
      if n = r.nextNode then
        { name := name, owner := g, attributes := attributes }
      else
        r.node n := by
  rcases n with ⟨i⟩
  refine (getD_push _ _ _ i).trans ?_
  simp only [nextNode, NodeId.mk.injEq]
  rfl

/- A node that is made is the only new one. -/
theorem hasNode_addNode
    (n : NodeId) :
    (r.addNode g name attributes).2.HasNode n ↔
      r.HasNode n ∨ n = r.nextNode := by
  rw [← mem_nodeIds, nodeIds_addNode, List.mem_append, mem_nodeIds,
    List.mem_singleton]

variable {g}

theorem graph_addNode
    (hg : r.HasGraph g)
    (h : GraphId) :
    (r.addNode g name attributes).2.graph h =
      if h = g then
        { r.graph g with
          nodes := (r.graph g).nodes ++ [r.nextNode]
          nodeIndex := (r.graph g).nodeIndex.insert name r.nextNode }
      else
        r.graph h :=
  graph_modifyGraph hg _ h

end Nodes

------------------------------------------------------------
-- New Edges
------------------------------------------------------------

section Edges

variable
  (g : GraphId)
  (tail head : NodeId)
  (attributes : AttributeTable)

@[simp] theorem fst_addEdge :
    (r.addEdge g tail head attributes).1 = r.nextEdge := rfl

@[simp] theorem edgeIds_addEdge :
    (r.addEdge g tail head attributes).2.edgeIds =
      r.edgeIds ++ [r.nextEdge] := by
  simp [edgeIds, addEdge, modifyGraph, modifyNode, nextEdge,
    List.range_succ]

@[simp] theorem graphIds_addEdge :
    (r.addEdge g tail head attributes).2.graphIds = r.graphIds := by
  simp [graphIds, addEdge, modifyGraph, modifyNode]

@[simp] theorem nodeIds_addEdge :
    (r.addEdge g tail head attributes).2.nodeIds = r.nodeIds := by
  simp [nodeIds, addEdge, modifyGraph, modifyNode]

@[simp] theorem roots_addEdge :
    (r.addEdge g tail head attributes).2.roots = r.roots := rfl

/- An edge that is made is the only new one. -/
theorem hasEdge_addEdge
    (e : EdgeId) :
    (r.addEdge g tail head attributes).2.HasEdge e ↔
      r.HasEdge e ∨ e = r.nextEdge := by
  rw [← mem_edgeIds, edgeIds_addEdge, List.mem_append, mem_edgeIds,
    List.mem_singleton]

theorem edge_addEdge
    (e : EdgeId) :
    (r.addEdge g tail head attributes).2.edge e =
      if e = r.nextEdge then
        { tail := tail
          head := head
          directed := (r.graph g).directed
          owner := g
          attributes := attributes }
      else
        r.edge e := by
  rcases e with ⟨i⟩
  refine (getD_push _ _ _ i).trans ?_
  simp only [nextEdge, EdgeId.mk.injEq]
  rfl

/- Old edges are listed by a key as before, and the new one last. -/
theorem filter_addEdge
    {α : Type}
    [DecidableEq α]
    (key : Edge → α)
    (x : α) :
    ((r.addEdge g tail head attributes).2.edgeIds.filter fun e =>
        key ((r.addEdge g tail head attributes).2.edge e) = x) =
      (r.edgeIds.filter fun e => key (r.edge e) = x) ++
        if x =
            key
              { tail := tail
                head := head
                directed := (r.graph g).directed
                owner := g
                attributes := attributes } then
          [r.nextEdge]
        else
          [] := by
  have hOld :
      (r.edgeIds.filter fun e =>
          key ((r.addEdge g tail head attributes).2.edge e) = x) =
        r.edgeIds.filter fun e => key (r.edge e) = x := by
    apply List.filter_congr
    intro e he
    rw [edge_addEdge, if_neg (mem_edgeIds.mp he).ne_next]
  rw [edgeIds_addEdge, List.filter_append, hOld, List.filter_cons,
    List.filter_nil, edge_addEdge, if_pos rfl]
  simp only [eq_comm (a := x), decide_eq_true_eq]

variable {g tail head}

theorem graph_addEdge
    (hg : r.HasGraph g)
    (h : GraphId) :
    (r.addEdge g tail head attributes).2.graph h =
      if h = g then
        { r.graph g with
          edges := (r.graph g).edges ++ [r.nextEdge] }
      else
        r.graph h :=
  graph_modifyGraph hg _ h

/- An edge is noted at both of its ends. -/
theorem node_addEdge
    (hTail : r.HasNode tail)
    (hHead : r.HasNode head)
    (n : NodeId) :
    (r.addEdge g tail head attributes).2.node n =
      { r.node n with
        outEdges :=
          if n = tail then
            (r.node n).outEdges ++ [r.nextEdge]
          else
            (r.node n).outEdges
        inEdges :=
          if n = head then
            (r.node n).inEdges ++ [r.nextEdge]
          else
            (r.node n).inEdges } := by
  let atTail (node : Node) : Node :=
    { node with outEdges := node.outEdges ++ [r.nextEdge] }
  let atHead (node : Node) : Node :=
    { node with inEdges := node.inEdges ++ [r.nextEdge] }
  have hHead' : (r.modifyNode tail atTail).HasNode head := by
    simpa [HasNode, modifyNode] using hHead
  have hNode :
      (r.addEdge g tail head attributes).2.node n =
        ((r.modifyNode tail atTail).modifyNode head atHead).node n :=
    rfl
  rw [hNode, node_modifyNode hHead', node_modifyNode hTail,
    node_modifyNode hTail]
  by_cases hT : n = tail
  · subst hT
    by_cases hH : n = head
    · subst hH
      simp [atTail, atHead]
    · simp [hH, atTail]
  · by_cases hH : n = head
    · subst hH
      simp [hT, atHead]
    · simp [hT, hH]

end Edges

end Registry

end DotLang
