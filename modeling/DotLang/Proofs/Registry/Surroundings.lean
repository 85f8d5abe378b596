import DotLang.Proofs.Registry.OpenGraphs
import DotLang.Proofs.Registry.StaysInside

/-
  This file proves that a subgraph does not leak into what is
  around it.  All that its text makes belongs to the subgraph or
  to a graph inside it, and no other graph changes, except that
  the one around it gets a child.

  Key definitions include:
    * `Registry.newEdges`
    * `Registry.KeepsAround`

  Key theorems include:
    * `Registry.StaysInside.node_eq`
    * `Build.graph_openSubgraph`
    * `Stmt.run_subgraph_keepsAround`
-/

------------------------------------------------------------
-- New Edges
------------------------------------------------------------

namespace DotLang

namespace Registry

variable {F : Factory} {r s : Registry F}
variable {c : GraphId} {given : String → List (List Attribute)}

/- The edges that one registry has and another one has not. -/
def newEdges (r s : Registry F) : List EdgeId :=
  s.edgeIds.filter fun e => ¬ r.HasEdge e

/- What is new depends on the edges that were there, no more. -/
theorem newEdges_congr
    {r' : Registry F}
    (hEdges : r'.edges = r.edges) :
    newEdges r' s = newEdges r s := by
  apply List.filter_congr
  intro e _
  apply decide_eq_decide.mpr
  rw [HasEdge, HasEdge, hEdges]

theorem edgeIds_eq_append_newEdges
    (hKept : ∀ {e : EdgeId}, r.HasEdge e → s.HasEdge e) :
    s.edgeIds = r.edgeIds ++ newEdges r s := by
  have hLe : r.edges.size ≤ s.edges.size := by
    by_contra hLt
    have hLast : s.HasEdge ⟨s.edges.size⟩ :=
      hKept (e := ⟨s.edges.size⟩) (Nat.not_le.mp hLt)
    exact Nat.lt_irrefl _ hLast
  obtain ⟨k, hSize⟩ := Nat.exists_eq_add_of_le hLe
  have hSplit :
      s.edgeIds =
        r.edgeIds ++
          (List.range k).map fun i => ⟨r.edges.size + i⟩ := by
    rw [edgeIds, edgeIds, hSize, List.range_add, List.map_append,
      List.map_map]
    rfl
  have hOld : r.edgeIds.filter (fun e => ¬ r.HasEdge e) = [] := by
    apply List.filter_eq_nil_iff.mpr
    intro e he
    simpa using mem_edgeIds.mp he
  rw [newEdges, hSplit, List.filter_append, hOld, List.nil_append,
    List.filter_eq_self.mpr]
  intro e he
  rcases List.mem_map.mp he with ⟨i, -, rfl⟩
  simp [HasEdge]

/- The new edges at an end are listed after the old ones. -/
theorem filter_end_eq_append
    (hRetains : Retains r s)
    (view : NodeId × NodeId → NodeId)
    (n : NodeId) :
    (s.edgeIds.filter fun e => view (s.ends e) = n) =
      (r.edgeIds.filter fun e => view (r.ends e) = n) ++
        (newEdges r s).filter fun e => view (s.ends e) = n := by
  rw [edgeIds_eq_append_newEdges hRetains.hasEdge, List.filter_append]
  congr 1
  apply List.filter_congr
  intro e he
  rw [hRetains.ends (mem_edgeIds.mp he)]

/- Nodes get new edges, and keep all else but their attributes. -/
theorem StaysInside.node_eq
    (h : StaysInside c given r s)
    (hr : r.IsConsistent)
    {n : NodeId}
    (hn : r.HasNode n) :
    ∃ taken : List (List Attribute),
      taken.Sublist (given (r.node n).name) ∧
        s.node n =
          { r.node n with
            attributes :=
              (r.node n).attributes.setAll taken.flatten
            outEdges :=
              (r.node n).outEdges ++
                (newEdges r s).filter fun e => (s.edge e).tail = n
            inEdges :=
              (r.node n).inEdges ++
                (newEdges r s).filter fun e =>
                  (s.edge e).head = n } := by
  have hs := h.steps.isConsistent hr
  have hRetains := h.steps.retains
  rcases h.attributes hn with ⟨taken, hTaken, hAttributes⟩
  have hOut :
      (s.node n).outEdges =
        (r.node n).outEdges ++
          (newEdges r s).filter fun e => (s.edge e).tail = n := by
    rw [hs.listsEdges.outEdges_eq, hr.listsEdges.outEdges_eq]
    exact filter_end_eq_append hRetains Prod.fst n
  have hIn :
      (s.node n).inEdges =
        (r.node n).inEdges ++
          (newEdges r s).filter fun e => (s.edge e).head = n := by
    rw [hs.listsEdges.inEdges_eq, hr.listsEdges.inEdges_eq]
    exact filter_end_eq_append hRetains Prod.snd n
  refine ⟨taken, hTaken, ?_⟩
  calc
    s.node n
    _ = .mk (s.node n).name (s.node n).owner
          (s.node n).attributes (s.node n).outEdges
          (s.node n).inEdges := rfl
    _ = _ := by
        rw [h.name hn, h.owner hn, hAttributes, hOut, hIn]

/- A graph outside would be new at top level, where none is made. -/
theorem StaysInside.newGraph
    (h : StaysInside c given r s)
    (hr : r.IsConsistent)
    {f : GraphId}
    (hf : s.HasGraph f)
    (hNew : ¬ r.HasGraph f) :
    f ∈ s.extent c := by
  by_contra hOutside
  have hs := h.steps.isConsistent hr
  have hSame := h.graph f hOutside
  rw [graph_of_not_hasGraph hNew] at hSame
  have hRoot : f ∈ s.roots :=
    hs.isForest.mem_roots.mpr ⟨hf, congrArg Graph.parent hSame⟩
  rw [h.roots] at hRoot
  exact hNew (hr.isForest.mem_roots.mp hRoot).1

/- A graph outside would list what it owns. -/
theorem StaysInside.newNode
    (h : StaysInside c given r s)
    (hr : r.IsConsistent)
    {n : NodeId}
    (hn : s.HasNode n)
    (hNew : ¬ r.HasNode n) :
    (s.node n).owner ∈ s.extent c := by
  by_contra hOutside
  have hs := h.steps.isConsistent hr
  have hMem := hs.listsNodes.mem_nodes.mpr ⟨hn, rfl⟩
  rw [h.graph _ hOutside] at hMem
  exact hNew (hr.listsNodes.mem_nodes.mp hMem).1

theorem StaysInside.newEdge
    (h : StaysInside c given r s)
    (hr : r.IsConsistent)
    {e : EdgeId}
    (he : s.HasEdge e)
    (hNew : ¬ r.HasEdge e) :
    (s.edge e).owner ∈ s.extent c := by
  by_contra hOutside
  have hs := h.steps.isConsistent hr
  have hMem := hs.listsEdges.mem_edges.mpr ⟨he, rfl⟩
  rw [h.graph _ hOutside] at hMem
  exact hNew (hr.listsEdges.mem_edges.mp hMem).1

------------------------------------------------------------
-- Around a Subgraph
------------------------------------------------------------

/-
  What is done to a registry in a subgraph of a graph, seen from
  around it.  The subgraph becomes a child if it is new; all that
  is made belongs to it or to a graph inside it.  Nodes and edges
  that were there take attributes, and nodes the new edges.
-/
structure KeepsAround
    (scope c : GraphId)
    (given : String → List (List Attribute))
    (r s : Registry F) : Prop where
  openGraphs : s.scope = r.scope
  roots : s.roots = r.roots
  parent : (s.graph c).parent = some scope
  outside : scope ∉ s.extent c
  around :
    s.graph scope =
      { r.graph scope with
        children :=
          (r.graph scope).children ++
            if r.HasGraph c then [] else [c] }
  elsewhere :
    ∀ h : GraphId,
      h ≠ scope → h ∉ s.extent c → s.graph h = r.graph h
  newGraph :
    ∀ {h : GraphId},
      s.HasGraph h → ¬ r.HasGraph h → h ∈ s.extent c
  newNode :
    ∀ {n : NodeId},
      s.HasNode n → ¬ r.HasNode n → (s.node n).owner ∈ s.extent c
  newEdge :
    ∀ {e : EdgeId},
      s.HasEdge e → ¬ r.HasEdge e → (s.edge e).owner ∈ s.extent c
  node :
    ∀ {n : NodeId},
      r.HasNode n →
        s.HasNode n ∧
          ∃ taken : List (List Attribute),
            taken.Sublist (given (r.node n).name) ∧
              s.node n =
                { r.node n with
                  attributes :=
                    (r.node n).attributes.setAll taken.flatten
                  outEdges :=
                    (r.node n).outEdges ++
                      (newEdges r s).filter fun e =>
                        (s.edge e).tail = n
                  inEdges :=
                    (r.node n).inEdges ++
                      (newEdges r s).filter fun e =>
                        (s.edge e).head = n }
  edge :
    ∀ {e : EdgeId},
      r.HasEdge e →
        s.HasEdge e ∧
          ∃ merged : List Attribute,
            s.edge e = (r.edge e).setAttributes merged ∧
              (merged ≠ [] → s.MayMerge c e)

end Registry

------------------------------------------------------------
-- Opening a Subgraph
------------------------------------------------------------

open Registry

namespace Build

variable {F : Factory} {b : Build F} {scope : GraphId}

/- Only the graph around it notices that a subgraph is opened. -/
theorem graph_openSubgraph
    (hForest : b.registry.IsForest)
    (hScope : b.registry.HasGraph scope)
    (name : String)
    {h : GraphId}
    (hOther : h ≠ (b.openSubgraph scope name).1) :
    (b.openSubgraph scope name).2.registry.graph h =
      if h = scope then
        { b.registry.graph scope with
          children :=
            (b.registry.graph scope).children ++
              if b.registry.HasGraph (b.openSubgraph scope name).1 then
                []
              else
                [(b.openSubgraph scope name).1] }
      else
        b.registry.graph h := by
  rcases openSubgraph_cases b scope name with
    ⟨g, -, hFind, hOpen⟩ | ⟨-, hOpen⟩
  · have hg : b.registry.HasGraph g :=
      hasGraph_of_parent
        ((hForest.mem_children hScope).mp
          (mem_of_findChild?_eq_some hFind).1)
    rw [hOpen, if_pos hg, List.append_nil]
    by_cases hEq : h = scope
    · rw [if_pos hEq, hEq]
    · rw [if_neg hEq]
  · have hNew : ¬ b.registry.HasGraph b.registry.nextGraph :=
      Nat.lt_irrefl _
    rw [hOpen] at hOther ⊢
    refine (graph_addGraph_some _ hScope h).trans
      ((if_neg hOther).trans ?_)
    change _ =
      if h = scope then
        { b.registry.graph scope with
          children :=
            (b.registry.graph scope).children ++
              if b.registry.HasGraph b.registry.nextGraph then
                []
              else
                [b.registry.nextGraph] }
      else
        b.registry.graph h
    rw [if_neg hNew]

theorem hasGraph_openSubgraph
    (scope : GraphId)
    (name : String)
    {h : GraphId}
    (hOpened : (b.openSubgraph scope name).2.registry.HasGraph h) :
    b.registry.HasGraph h ∨ h = (b.openSubgraph scope name).1 := by
  rcases openSubgraph_cases b scope name with
    ⟨g, -, -, hOpen⟩ | ⟨-, hOpen⟩
  · rw [hOpen] at hOpened
    exact .inl hOpened
  · rw [hOpen] at hOpened ⊢
    exact (hasGraph_addGraph h).mp hOpened

/- No node, edge or top level graph is made with a subgraph. -/
theorem openSubgraph_keeps
    (b : Build F)
    (scope : GraphId)
    (name : String) :
    let s : Registry F := (b.openSubgraph scope name).2.registry
    s.roots = b.registry.roots ∧
      s.nodes = b.registry.nodes ∧
      s.edges = b.registry.edges := by
  rcases openSubgraph_cases b scope name with
    ⟨g, -, -, hOpen⟩ | ⟨-, hOpen⟩
  · rw [hOpen]
    exact ⟨rfl, rfl, rfl⟩
  · rw [hOpen]
    exact ⟨rfl, rfl, rfl⟩

end Build

namespace Stmt

variable {F : Factory} {b : Build F} {scope : GraphId}

/-
  What the text of a subgraph does stays inside the subgraph,
  whatever nodes of outer graphs it mentions and connects.
-/
theorem run_subgraph_keepsAround
    (factory : F.State)
    (options : Options)
    (hOperates : Operates (.empty factory options) b.registry)
    (hScope : b.registry.HasGraph scope)
    (name : String)
    (body : List Stmt) :
    KeepsAround scope (b.openSubgraph scope name).1
      (bodyGivenTo · body) b.registry
      ((subgraph name body).run scope b).registry := by
  let c : GraphId := (b.openSubgraph scope name).1
  let opened : Registry F := (b.openSubgraph scope name).2.registry
  let s : Registry F := ((subgraph name body).run scope b).registry
  have h := hOperates.isConsistent
  rcases subgraph_staysInside h hScope name
    (fun h hg => runBody_staysInside h hg body) with
    ⟨hInside, hParent⟩
  have hOpened :=
    (Build.openSubgraph_steps h hScope name).1.isConsistent h
  have hs := hInside.steps.isConsistent hOpened
  rcases Build.openSubgraph_keeps b scope name with
    ⟨hRoots, hNodes, hEdges⟩
  have hSelf : scope ∉ s.extent c :=
    hs.isForest.not_mem_extent_of_parent hParent
  have hGraph :
      ∀ f : GraphId,
        f ∉ s.extent c →
          s.graph f =
            if f = scope then
              { b.registry.graph scope with
                children :=
                  (b.registry.graph scope).children ++
                    if b.registry.HasGraph c then [] else [c] }
            else
              b.registry.graph f := by
    intro f hOutside
    exact (hInside.graph f hOutside).trans
      (Build.graph_openSubgraph h.isForest hScope name
        (ne_of_not_mem_extent hOutside))
  refine
    { openGraphs := Stmt.scope_run scope b (subgraph name body)
      roots := hInside.roots.trans hRoots
      parent := hParent
      outside := hSelf
      around := (hGraph scope hSelf).trans (if_pos rfl)
      elsewhere := fun f hOther hOutside =>
        (hGraph f hOutside).trans (if_neg hOther)
      newGraph := ?_
      newNode := ?_
      newEdge := ?_
      node := ?_
      edge := ?_ }
  · intro f hf hNew
    by_cases hOld : opened.HasGraph f
    · rcases Build.hasGraph_openSubgraph scope name hOld with
        hOld | rfl
      · exact absurd hOld hNew
      · exact List.mem_cons_self
    · exact hInside.newGraph hOpened hf hOld
  · intro n hn hNew
    exact hInside.newNode hOpened hn (by rwa [HasNode, hNodes])
  · intro e he hNew
    exact hInside.newEdge hOpened he (by rwa [HasEdge, hEdges])
  · intro n hn
    have hNode : opened.node n = b.registry.node n := by
      rw [Registry.node, hNodes, Registry.node]
    have hn' : opened.HasNode n := by
      rwa [HasNode, hNodes]
    refine ⟨hInside.steps.hasNode hn', ?_⟩
    rw [← hNode, ← newEdges_congr hEdges]
    exact hInside.node_eq hOpened hn'
  · intro e he
    have hEdge : opened.edge e = b.registry.edge e := by
      rw [Registry.edge, hEdges, Registry.edge]
    have he' : opened.HasEdge e := by
      rwa [HasEdge, hEdges]
    refine ⟨hInside.steps.retains.hasEdge he', ?_⟩
    rw [← hEdge]
    exact hInside.edge he'

/-
  The subgraph of a strict graph writes an edge once more that is
  there, and connects a new node with nodes of the outer graph.
-/
theorem run_subgraph_keepsAround_strict :
    let r : Registry .plain :=
      ((empty () {}).load
        ("strict graph \x7b a -- b node [shape=box] " ++
          "subgraph t \x7b x \x7d \x7d")).registry
    let b : Build .plain := .start (r.pushScope ⟨0⟩)
    let join (tail head : String) : Stmt :=
      .edge (.node ⟨tail, none⟩)
        [.mk .undirected default (.node ⟨head, none⟩)]
        [⟨"w", .plain "2"⟩]
    let body : List Stmt :=
      [.node ⟨"a", none⟩ [⟨"color", .plain "red"⟩], join "b" "a",
        join "a" "c", .subgraph "u" [join "c" "b"]]
    let s : Registry .plain :=
      ((subgraph "s" body).run ⟨0⟩ b).registry
    KeepsAround ⟨0⟩ (b.openSubgraph ⟨0⟩ "s").1
        (bodyGivenTo · body) b.registry s ∧
      s.extent (b.openSubgraph ⟨0⟩ "s").1 = [⟨2⟩, ⟨3⟩] ∧
      (s.graph ⟨0⟩).children = [⟨1⟩, ⟨2⟩] ∧
      (s.node ⟨0⟩).attributes.entries =
        [⟨"color", .plain "red"⟩] ∧
      (s.node ⟨0⟩).outEdges = [⟨0⟩, ⟨1⟩] ∧
      (s.edge ⟨0⟩).attributes.entries = [⟨"w", .plain "2"⟩] ∧
      newEdges b.registry s = [⟨1⟩, ⟨2⟩] := by
  intro r b join body s
  have hScope : r.HasGraph ⟨0⟩ := by
    decide +kernel
  have hOperates :
      Operates (empty () {} : Registry .plain) b.registry :=
    .step (.pushScope r ⟨0⟩ hScope) (.load _ .none)
  refine ⟨run_subgraph_keepsAround (F := .plain) () {} hOperates
    hScope "s" body, ?_⟩
  decide +kernel

end Stmt

end DotLang
