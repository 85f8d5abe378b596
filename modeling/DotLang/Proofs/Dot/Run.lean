import DotLang.Proofs.Dot.Derivation
import DotLang.Proofs.Dot.Step

/-
  This file proves that the statements of a graph make copies of
  its nodes and edges.

  The nodes that a graph shows come first, then the graphs
  inside it, and then whatever mentions nodes of those.  So each
  name is looked up when all nodes are made that it might stand
  for, or else none of them.

  Key definitions include:
    * `Numbering.IsFilled`

  Key theorems include:
    * `Numbering.leads_assigns`
    * `Numbering.leads_visible`
    * `Numbering.leads_nested`
    * `Numbering.leads_edges`
-/

------------------------------------------------------------
-- Runs of Statements
------------------------------------------------------------

namespace DotLang

open Registry

namespace Build

variable {H : Factory} {b : Build H} {scope : GraphId}

/- An operator that fits its graph gives no warning. -/
theorem checkArrow_of_fit
    {directed : Bool}
    (hDirected : (b.registry.graph scope).directed = directed)
    (location : Location) :
    b.checkArrow scope (.ofDirected directed) location = b := by
  have hQuiet :
      arrowWarning? (b.registry.graph scope).directed
        (.ofDirected directed) = none := by
    rw [hDirected]
    cases directed <;> rfl
  rw [checkArrow, hQuiet]

/- An edge between members, if none is there that takes it up. -/
theorem registry_run_edge
    {tailName headName : String}
    {tail head : NodeId}
    {directed : Bool}
    {attributes : List Attribute}
    (hIndexed : b.registry.IsIndexed)
    (hTail : b.registry.resolveNode? scope tailName = some tail)
    (hHead : b.registry.resolveNode? scope headName = some head)
    (hTailMem : tail ∈ (b.registry.graph scope).members)
    (hHeadMem : head ∈ (b.registry.graph scope).members)
    (hDirected : (b.registry.graph scope).directed = directed)
    (hNew :
      (b.registry.graph scope).strict = true →
        b.registry.findEdge? tail head = none)
    (location : Location) :
    ((Stmt.edge (.node ⟨tailName, none⟩)
        [.mk (.ofDirected directed) location
          (.node ⟨headName, none⟩)]
        attributes).run scope b).registry =
      (b.registry.addEdge scope tail head
        ((b.registry.graph scope).edgeDefaults.setAll
          attributes)).2 := by
  have hTail := resolveNode_of_member hIndexed hTail hTailMem
  have hHead := resolveNode_of_member hIndexed hHead hHeadMem
  have hArrow := checkArrow_of_fit hDirected location
  have hConnect := connectPair_of_new hNew
    ((b.registry.graph scope).edgeDefaults.setAll attributes)
  simp [Stmt.run, Endpoint.run, runSteps, hTail, hHead, hArrow,
    connect, withPort, hConnect, makeEdge, note]

end Build

namespace Numbering

variable
  {F H : Factory}
  {IsGood : Value → Prop}
  {φ : Numbering}
  {r : Registry F}
  {root g : GraphId}

------------------------------------------------------------
-- Attributes
------------------------------------------------------------

theorem leads_assigns
    (hPlan : φ.IsPlan IsGood r root)
    {b : Build H}
    {t : AttributeTable}
    {ms : List NodeId}
    (hOpen : φ.IsOpen r root g t ms b.registry)
    (attributes : List Attribute) :
    φ.Leads r root g b.registry (t.setAll attributes) ms 0 0 0
      (runBody (φ.graph g) b (attributes.map .assign)).registry := by
  induction attributes generalizing b t with
  | nil => exact .refl hOpen.isCopying hOpen.contents
  | cons a attributes ih =>
      have hStep := leads_setAttributes hPlan hOpen [a]
      have hRest := ih (b := (Stmt.assign a).run (φ.graph g) b)
        (hStep.isOpen hOpen)
      exact hStep.trans hRest

------------------------------------------------------------
-- Nodes
------------------------------------------------------------

/- A node that is made already becomes a member. -/
theorem leads_mention
    (hPlan : φ.IsPlan IsGood r root)
    {b : Build H}
    {t : AttributeTable}
    {ms : List NodeId}
    (hOpen : φ.IsOpen r root g t ms b.registry)
    {n : NodeId}
    (hSome :
      b.registry.resolveNode? (φ.graph g) (r.node n).name =
        some (φ.node n))
    (hOwner : (r.node n).owner ≠ g)
    (hNew : φ.node n ∉ ms.map φ.node) :
    φ.Leads r root g b.registry t (ms ++ [n]) 0 0 0
      ((r.nodeStmt g n).run (φ.graph g) b).registry := by
  have hRun :
      ((r.nodeStmt g n).run (φ.graph g) b).registry =
        b.registry.addMember (φ.graph g) (φ.node n) := by
    simp [nodeStmt, Stmt.run, Build.resolveNode_of_some hSome,
      Build.update, hOwner, modifyNode_setAttributes_nil]
  rw [hRun]
  exact leads_addMember hPlan hOpen (.inl ⟨_, hSome⟩) hNew

/- A node that is new is made with its attributes. -/
theorem leads_make
    (hPlan : φ.IsPlan IsGood r root)
    {b : Build H}
    {t : AttributeTable}
    {ms : List NodeId}
    (hOpen : φ.IsOpen r root g t ms b.registry)
    (hg : g ∈ r.extent root)
    {n : NodeId}
    (hn : n ∈ r.allNodes root)
    (hOwner : (r.node n).owner = g)
    (hNext : φ.node n = b.registry.nextNode) :
    φ.Leads r root g b.registry t (ms ++ [n]) 0 1 0
      ((r.nodeStmt g n).run (φ.graph g) b).registry := by
  have hNone :
      b.registry.resolveNode? (φ.graph g) (r.node n).name = none := by
    apply hOpen.isCopying.resolveNode?_of_new hPlan hg hOpen.hasGraph
      hn
    · rw [hOwner]
      exact hPlan.isBuilt.isForest.mem_lineage_self
        (hPlan.hasGraph hg)
    · intro hHas
      exact hHas.ne_next hNext
  have hPlain :
      (b.registry.graph (φ.graph g)).nodeDefaults = .empty :=
    IsCopying.view_eq Graph.nodeDefaults (fun _ => rfl)
      hOpen.isCopying hg hOpen.hasGraph
  have hRun :
      ((r.nodeStmt g n).run (φ.graph g) b).registry =
        (b.registry.declareNode (φ.graph g)
          (r.node n).name).modifyNode (φ.node n)
          (Node.setAttributes (r.node n).attributes.entries) := by
    simp [nodeStmt, Stmt.run, Build.resolveNode_of_none hNone,
      Build.update, hOwner, hNext]
  rw [hRun]
  exact leads_declareNode hPlan hOpen hn hOwner hNext hNone hPlain

/- A node that is no member yet has a copy that is none. -/
theorem IsPlan.node_not_mem
    (hPlan : φ.IsPlan IsGood r root)
    {n : NodeId}
    {ms : List NodeId}
    (hMs : ∀ m ∈ ms, m ∈ r.allNodes root)
    (hn : n ∈ r.allNodes root)
    (hNew : n ∉ ms) :
    φ.node n ∉ ms.map φ.node := by
  intro hMem
  rcases List.mem_map.mp hMem with ⟨m, hm, hEq⟩
  rw [hPlan.node_inj (hMs m hm) hn hEq] at hm
  exact hNew hm

/-
  The nodes that a graph shows.  Those that it owns are made,
  the others are made already.
-/
theorem leads_visible
    (hPlan : φ.IsPlan IsGood r root)
    (hg : g ∈ r.extent root)
    {t : AttributeTable}
    (ns : List NodeId) :
    ∀ {b : Build H} {ms : List NodeId},
      φ.IsOpen r root g t ms b.registry →
        (ms ++ ns).Nodup →
        (∀ n ∈ ms ++ ns, n ∈ r.allNodes root) →
        (∀ n ∈ ns, (r.node n).owner ∈ r.lineage g) →
        (∀ n ∈ ns,
          (r.node n).owner ≠ g → b.registry.HasNode (φ.node n)) →
        CountsFrom (fun n => (φ.node n).index)
          b.registry.nodes.size
          (ns.filter fun n => (r.node n).owner = g) →
        φ.Leads r root g b.registry t (ms ++ ns) 0
          (ns.filter fun n => (r.node n).owner = g).length 0
          (runBody (φ.graph g) b
            (ns.map (r.nodeStmt g))).registry := by
  induction ns with
  | nil =>
      intro b ms hOpen _ _ _ _ _
      rw [List.append_nil]
      exact .refl hOpen.isCopying hOpen.contents
  | cons n ns ih =>
      intro b ms hOpen hNodup hNodes hOwners hMade hCounts
      have hEq : ms ++ n :: ns = (ms ++ [n]) ++ ns := by simp
      have hn : n ∈ r.allNodes root := hNodes n (by simp)
      have hOwners' :
          ∀ m ∈ ns, (r.node m).owner ∈ r.lineage g :=
        fun m hm => hOwners m (List.mem_cons_of_mem _ hm)
      have hNew : n ∉ ms := by
        intro hMem
        exact (List.nodup_append'.mp hNodup).2.2 hMem
          List.mem_cons_self
      by_cases hOwner : (r.node n).owner = g
      · rw [List.filter_cons_of_pos (by simpa using hOwner),
          CountsFrom.cons_iff] at hCounts
        have hNext : φ.node n = b.registry.nextNode :=
          congrArg NodeId.mk hCounts.1
        have hStep := leads_make hPlan hOpen hg hn hOwner hNext
        have hRest := ih (b := (r.nodeStmt g n).run (φ.graph g) b)
          (hStep.isOpen hOpen) (by rwa [← hEq]) (by rwa [← hEq])
          hOwners'
          (fun m hm hNe =>
            hStep.hasNode (hMade m (List.mem_cons_of_mem _ hm) hNe))
          (by rw [hStep.nodes_size]; exact hCounts.2)
        rw [List.filter_cons_of_pos (by simpa using hOwner),
          List.length_cons, Nat.add_comm, hEq]
        exact hStep.trans hRest
      · rw [List.filter_cons_of_neg (by simpa using hOwner)] at hCounts
        have hSome := hOpen.isCopying.resolveNode?_of_made hPlan hg
          hOpen.hasGraph hn (hOwners n List.mem_cons_self)
          (hMade n List.mem_cons_self hOwner)
        have hStep := leads_mention hPlan hOpen hSome hOwner
          (hPlan.node_not_mem
            (fun m hm => hNodes m (List.mem_append_left _ hm)) hn
            hNew)
        have hRest := ih (b := (r.nodeStmt g n).run (φ.graph g) b)
          (hStep.isOpen hOpen) (by rwa [← hEq]) (by rwa [← hEq])
          hOwners'
          (fun m hm hNe =>
            hStep.hasNode (hMade m (List.mem_cons_of_mem _ hm) hNe))
          (by rw [hStep.nodes_size]; exact hCounts)
        rw [List.filter_cons_of_neg (by simpa using hOwner), hEq]
        have hAll := hStep.trans hRest
        simp only [Nat.zero_add] at hAll
        exact hAll

/-
  Names in the text of a graph whose inner graphs are all made:
  each member has its own.
-/
structure IsFilled
    (φ : Numbering)
    (r : Registry F)
    (g : GraphId)
    (s : Registry H) : Prop where
  hasGraph : ∀ h ∈ r.extent g, s.HasGraph (φ.graph h)
  hasNode :
    ∀ h ∈ r.lineage g ++ r.subgraphs g,
      ∀ n ∈ (r.graph h).nodes, s.HasNode (φ.node n)

theorem IsFilled.resolveNode?_eq
    {s : Registry H}
    (hFilled : φ.IsFilled r g s)
    (hPlan : φ.IsPlan IsGood r root)
    (hg : g ∈ r.extent root)
    (hCopy : φ.IsCopying r root s)
    {name : String}
    {n : NodeId}
    (hName : r.resolveNode? g name = some n) :
    s.resolveNode? (φ.graph g) name = some (φ.node n) := by
  rw [hCopy.resolveNode?_eq hPlan hg hFilled.hasGraph
    hFilled.hasNode, hName]
  rfl

theorem Leads.isFilled
    {s s' : Registry H}
    {t : AttributeTable}
    {ms : List NodeId}
    {i j k : Nat}
    (h : φ.Leads r root g s t ms i j k s')
    (hFilled : φ.IsFilled r g s) :
    φ.IsFilled r g s' where
  hasGraph f hf := h.hasGraph (hFilled.hasGraph f hf)
  hasNode f hf n hn := h.hasNode (hFilled.hasNode f hf n hn)

/- The members that only graphs inside a graph own. -/
theorem leads_nested
    (hPlan : φ.IsPlan IsGood r root)
    (hg : g ∈ r.extent root)
    {t : AttributeTable}
    (ns : List NodeId)
    (hOwners : ∀ n ∈ ns, (r.node n).owner ≠ g)
    (hNames : ∀ n ∈ ns, r.resolveNode? g (r.node n).name = some n) :
    ∀ {b : Build H} {ms : List NodeId},
      φ.IsOpen r root g t ms b.registry →
        φ.IsFilled r g b.registry →
        (ms ++ ns).Nodup →
        (∀ n ∈ ms ++ ns, n ∈ r.allNodes root) →
        φ.Leads r root g b.registry t (ms ++ ns) 0 0 0
          (runBody (φ.graph g) b
            (ns.map (r.nodeStmt g))).registry := by
  induction ns with
  | nil =>
      intro b ms hOpen _ _ _
      rw [List.append_nil]
      exact .refl hOpen.isCopying hOpen.contents
  | cons n ns ih =>
      intro b ms hOpen hFilled hNodup hNodes
      have hEq : ms ++ n :: ns = (ms ++ [n]) ++ ns := by simp
      have hNew : n ∉ ms := by
        intro hMem
        exact (List.nodup_append'.mp hNodup).2.2 hMem
          List.mem_cons_self
      have hSome := hFilled.resolveNode?_eq hPlan hg hOpen.isCopying
        (hNames n List.mem_cons_self)
      have hStep := leads_mention hPlan hOpen hSome
        (hOwners n List.mem_cons_self)
        (hPlan.node_not_mem
          (fun m hm => hNodes m (List.mem_append_left _ hm))
          (hNodes n (by simp)) hNew)
      have hRest := ih
        (fun m hm => hOwners m (List.mem_cons_of_mem _ hm))
        (fun m hm => hNames m (List.mem_cons_of_mem _ hm))
        (b := (r.nodeStmt g n).run (φ.graph g) b)
        (hStep.isOpen hOpen) (hStep.isFilled hFilled)
        (by rwa [← hEq]) (by rwa [← hEq])
      rw [hEq]
      exact hStep.trans hRest

------------------------------------------------------------
-- Edges
------------------------------------------------------------

/- The statement of an edge makes the edge. -/
theorem leads_edge
    (hPlan : φ.IsPlan IsGood r root)
    (hg : g ∈ r.extent root)
    {b : Build H}
    {t : AttributeTable}
    {ms : List NodeId}
    (hOpen : φ.IsOpen r root g t ms b.registry)
    (hFilled : φ.IsFilled r g b.registry)
    (hNames : ∀ n ∈ ms, r.resolveNode? g (r.node n).name = some n)
    {e : EdgeId}
    (he : e ∈ (r.graph g).edges)
    (hNext : φ.edge e = b.registry.nextEdge)
    (hTail : (r.edge e).tail ∈ ms)
    (hHead : (r.edge e).head ∈ ms)
    {stmt : Stmt}
    (hStmt : r.IsEdgeStmt (r.graph g).directed e stmt) :
    φ.Leads r root g b.registry t ms 0 0 1
      (stmt.run (φ.graph g) b).registry := by
  have hCopy := hOpen.isCopying
  rcases hPlan.isBuilt.isLinked.mem_edges.mp he with ⟨hEdge, hOwner⟩
  have hMade : e ∈ r.madeEdges root := by
    apply hPlan.mem_edges.mpr
    rw [hOwner]
    exact ⟨hEdge, hg⟩
  have hDefaults :
      (b.registry.graph (φ.graph g)).edgeDefaults = .empty :=
    IsCopying.view_eq Graph.edgeDefaults (fun _ => rfl) hCopy hg
      hOpen.hasGraph
  have hDirected :
      (b.registry.graph (φ.graph g)).directed =
        (r.graph g).directed :=
    IsCopying.view_eq Graph.directed (fun _ => rfl) hCopy hg
      hOpen.hasGraph
  have hStrict :
      (b.registry.graph (φ.graph g)).strict = (r.graph g).strict :=
    IsCopying.view_eq Graph.strict (fun _ => rfl) hCopy hg
      hOpen.hasGraph
  have hNew :
      (b.registry.graph (φ.graph g)).strict = true →
        b.registry.findEdge? (φ.node (r.edge e).tail)
          (φ.node (r.edge e).head) = none := by
    intro hTrue
    apply hCopy.findEdge?_eq_none hPlan hMade
    · intro hHas
      exact hHas.ne_next hNext
    · rw [hOwner, ← hStrict, hTrue]
  rcases hStmt with ⟨location, rfl⟩
  rw [Build.registry_run_edge hCopy.isBuilt.isIndexed
    (hFilled.resolveNode?_eq hPlan hg hCopy (hNames _ hTail))
    (hFilled.resolveNode?_eq hPlan hg hCopy (hNames _ hHead))
    (hOpen.mem_members hTail) (hOpen.mem_members hHead) hDirected hNew
    location,
    hDefaults, AttributeTable.setAll_empty
      (hPlan.isBuilt.isTabled.edge e)]
  exact leads_addEdge hPlan hOpen hg he hNext hTail hHead

/- The statements of edges make the edges one after the other. -/
theorem leads_edges
    (hPlan : φ.IsPlan IsGood r root)
    (hg : g ∈ r.extent root)
    {t : AttributeTable}
    {ms : List NodeId}
    (hNames : ∀ n ∈ ms, r.resolveNode? g (r.node n).name = some n)
    {es : List EdgeId}
    {stmts : List Stmt}
    (hStmts :
      List.Forall₂ (r.IsEdgeStmt (r.graph g).directed) es stmts) :
    ∀ {b : Build H},
      φ.IsOpen r root g t ms b.registry →
        φ.IsFilled r g b.registry →
        (∀ e ∈ es,
          e ∈ (r.graph g).edges ∧
            (r.edge e).tail ∈ ms ∧ (r.edge e).head ∈ ms) →
        CountsFrom (fun e => (φ.edge e).index)
          b.registry.edges.size es →
        φ.Leads r root g b.registry t ms 0 0 es.length
          (runBody (φ.graph g) b stmts).registry := by
  induction hStmts with
  | nil =>
      intro b hOpen _ _ _
      exact .refl hOpen.isCopying hOpen.contents
  | @cons e stmt es stmts hStmt _ ih =>
      intro b hOpen hFilled hEdges hCounts
      rcases CountsFrom.cons_iff.mp hCounts with ⟨hIndex, hCounts⟩
      rcases hEdges e List.mem_cons_self with ⟨he, hTail, hHead⟩
      have hNext : φ.edge e = b.registry.nextEdge :=
        congrArg EdgeId.mk hIndex
      have hStep := leads_edge hPlan hg hOpen hFilled hNames he hNext
        hTail hHead hStmt
      have hRest := ih (hStep.isOpen hOpen) (hStep.isFilled hFilled)
        (fun d hd => hEdges d (List.mem_cons_of_mem _ hd))
        (by rw [hStep.edges_size]; exact hCounts)
      rw [List.length_cons, Nat.add_comm]
      exact hStep.trans hRest

end Numbering

end DotLang
