import DotLang.Proofs.Registry.Linking
import DotLang.Proofs.Registry.Tables
import DotLang.Registry.Load
import Mathlib.Data.List.ProdSigma

/-
  This file proves that running statements makes changes to a
  registry and nothing else, so that whatever changes keep holds
  of every registry that is built from texts.

  Key definitions include:
    * `Registry.IsBuilt`
    * `Stmt.HasValues`

  Key theorems include:
    * `Registry.Changes.isBuilt`
    * `Stmt.run_changes`
    * `runGraphs_changes`
    * `Registry.IsBuilt.load`
-/

------------------------------------------------------------
-- Built Registries
------------------------------------------------------------

namespace DotLang

namespace Registry

variable {F : Factory} {r s : Registry F} {IsGood : Value → Prop}

/- All that changes keep. -/
structure IsBuilt
    (IsGood : Value → Prop)
    (r : Registry F) : Prop where
  isForest : r.IsForest
  isUniform : r.IsUniform
  isScoped : r.IsScoped
  isLinked : r.IsLinked
  isTabled : r.IsTabled IsGood

theorem IsBuilt.isIndexed
    (h : r.IsBuilt IsGood) :
    r.IsIndexed :=
  h.isScoped.isIndexed

theorem Change.isBuilt
    (h : Change IsGood r s)
    (hBuilt : r.IsBuilt IsGood) :
    s.IsBuilt IsGood where
  isForest := h.isForest hBuilt.isForest
  isUniform := h.isUniform hBuilt.isForest hBuilt.isUniform
  isScoped := h.isScoped hBuilt.isForest hBuilt.isScoped
  isLinked := h.isLinked hBuilt.isScoped hBuilt.isLinked
  isTabled := h.isTabled hBuilt.isTabled

theorem Changes.isBuilt
    (h : Changes IsGood r s)
    (hBuilt : r.IsBuilt IsGood) :
    s.IsBuilt IsGood := by
  induction h with
  | refl => exact hBuilt
  | tail _ hChange ih => exact hChange.isBuilt ih

theorem isBuilt_empty
    (factory : F.State)
    (options : Options) :
    (empty factory options : Registry F).IsBuilt IsGood where
  isForest :=
    { parent_lt := nofun
      children_eq := fun _ => rfl
      roots_eq := rfl }
  isUniform :=
    { directed := nofun
      strict := nofun
      distinct := nofun }
  isScoped :=
    { isIndexed := isIndexed_empty factory options
      hasOwner := nofun
      nodes_eq := fun _ => rfl
      filter_members := fun _ => rfl
      nodup_members := fun _ => List.nodup_nil
      hasNode := nofun
      nested := nofun
      unique := nofun }
  isLinked :=
    { edges_eq := fun _ => rfl
      outEdges_eq := fun _ => rfl
      tail_mem := nofun
      head_mem := nofun
      directed := nofun
      simple := nofun }
  isTabled :=
    { graph := fun _ =>
        ⟨AttributeTable.isMap_empty, AttributeTable.isMap_empty,
          AttributeTable.isMap_empty, AttributeTable.isMap_empty⟩
      node := fun _ => AttributeTable.isMap_empty
      edge := fun _ => AttributeTable.isMap_empty }

end Registry

------------------------------------------------------------
-- Values in Statements
------------------------------------------------------------

section Values

variable (IsGood : Value → Prop)

mutual

/- All values that a statement writes are good. -/
def Endpoint.HasValues : Endpoint → Prop
| .node _ => True
| .subgraph _ body => bodyHasValues body

def stepsHaveValues : List EdgeStep → Prop
| [] => True
| .mk _ _ head :: rest => head.HasValues ∧ stepsHaveValues rest

def Stmt.HasValues : Stmt → Prop
| .edge tail steps attributes =>
    tail.HasValues ∧ stepsHaveValues steps ∧
      ∀ a ∈ attributes, IsGood a.value
| .node _ attributes => ∀ a ∈ attributes, IsGood a.value
| .defaults _ attributes => ∀ a ∈ attributes, IsGood a.value
| .assign attr => IsGood attr.value
| .subgraph _ body => bodyHasValues body

def bodyHasValues : List Stmt → Prop
| [] => True
| stmt :: rest => stmt.HasValues ∧ bodyHasValues rest

end

end Values

------------------------------------------------------------
-- Steps of a Build
------------------------------------------------------------

namespace Build

open Registry

variable {F : Factory} {b : Build F} {scope : GraphId}
variable {IsGood : Value → Prop}

theorem resolveNode_of_some
    {name : String}
    {n : NodeId}
    (h : b.registry.resolveNode? scope name = some n) :
    b.resolveNode scope name =
      (n, b.update fun r => r.addMember scope n) := by
  simp [resolveNode, h]

theorem resolveNode_of_none
    {name : String}
    (h : b.registry.resolveNode? scope name = none) :
    b.resolveNode scope name =
      (b.registry.nextNode,
        { registry := b.registry.declareNode scope name
          events := b.events ++ [.nodeMade name scope] }) := by
  simp [resolveNode, h, makeNode, update, note, declareNode]

/- A name that stands for a member changes nothing. -/
theorem resolveNode_of_member
    {name : String}
    {n : NodeId}
    (hIndexed : b.registry.IsIndexed)
    (hSome : b.registry.resolveNode? scope name = some n)
    (hMem : n ∈ (b.registry.graph scope).members) :
    b.resolveNode scope name = (n, b) := by
  rw [resolveNode_of_some hSome, update,
    hIndexed.addMember_of_mem hMem]

theorem mem_members_resolveNode
    (hIndexed : b.registry.IsIndexed)
    (hScope : b.registry.HasGraph scope)
    (name : String) :
    (b.resolveNode scope name).1 ∈
      ((b.resolveNode scope name).2.registry.graph scope).members := by
  cases hFind : b.registry.resolveNode? scope name with
  | none =>
      rw [resolveNode_of_none hFind]
      exact (hIndexed.addNode hScope name _).mem_addMember
        ((grows_addNode scope name _).graph hScope) _
  | some n =>
      rw [resolveNode_of_some hFind]
      exact hIndexed.mem_addMember hScope n

theorem resolveNode_changes
    (hScope : b.registry.HasGraph scope)
    (name : String) :
    Changes IsGood b.registry
      (b.resolveNode scope name).2.registry := by
  cases hFind : b.registry.resolveNode? scope name with
  | none =>
      rw [resolveNode_of_none hFind]
      exact .single (.node _ scope name hScope hFind)
  | some n =>
      rw [resolveNode_of_some hFind]
      exact .single (.member _ scope n hScope (.inl ⟨name, hFind⟩))

theorem openSubgraph_of_some
    {name : String}
    {g : GraphId}
    (hName : name ≠ "")
    (h : b.registry.findChild? scope name = some g) :
    b.openSubgraph scope name = (g, b) := by
  simp [openSubgraph, hName, h]

theorem openSubgraph_of_new
    {name : String}
    (h : name ≠ "" → b.registry.findChild? scope name = none) :
    b.openSubgraph scope name =
      b.makeGraph (.newSubgraph name (b.registry.graph scope))
        (some scope) := by
  by_cases hName : name = ""
  · simp [openSubgraph, hName]
  · simp [openSubgraph, hName, h hName]

/- A subgraph that is opened is found by its name, or made. -/
theorem openSubgraph_cases
    (b : Build F)
    (scope : GraphId)
    (name : String) :
    (∃ g,
        name ≠ "" ∧
          b.registry.findChild? scope name = some g ∧
          b.openSubgraph scope name = (g, b)) ∨
      (name ≠ "" → b.registry.findChild? scope name = none) ∧
        b.openSubgraph scope name =
          b.makeGraph (.newSubgraph name (b.registry.graph scope))
            (some scope) := by
  by_cases hNew :
      name ≠ "" → b.registry.findChild? scope name = none
  · exact .inr ⟨hNew, openSubgraph_of_new hNew⟩
  · simp only [not_forall] at hNew
    rcases hNew with ⟨hName, hSome⟩
    rcases Option.ne_none_iff_exists'.mp hSome with ⟨g, hFind⟩
    exact .inl ⟨g, hName, hFind, openSubgraph_of_some hName hFind⟩

theorem parent_openSubgraph
    (hForest : b.registry.IsForest)
    (hScope : b.registry.HasGraph scope)
    (name : String) :
    ((b.openSubgraph scope name).2.registry.graph
      (b.openSubgraph scope name).1).parent = some scope := by
  rcases openSubgraph_cases b scope name with
    ⟨g, -, hFind, hOpen⟩ | ⟨hNew, hOpen⟩
  · rw [hOpen]
    exact (hForest.mem_children hScope).mp
      (mem_of_findChild?_eq_some hFind).1
  · have hMay := MayAdd.child hScope hNew
    rw [hOpen]
    change ((b.registry.addGraph _ (some scope)).2.graph
      b.registry.nextGraph).parent = some scope
    rw [graph_addGraph_next hMay.hasParent]

theorem openSubgraph_changes
    (hScope : b.registry.HasGraph scope)
    (name : String) :
    Changes IsGood b.registry
      (b.openSubgraph scope name).2.registry := by
  rcases openSubgraph_cases b scope name with
    ⟨g, -, -, hOpen⟩ | ⟨hNew, hOpen⟩
  · rw [hOpen]
    exact .refl
  · rw [hOpen]
    exact .single (.child _ scope name hScope hNew)

theorem aside_changes
    {r s : Registry F}
    (hGraphs : s.graphs = r.graphs)
    (hNodes : s.nodes = r.nodes)
    (hEdges : s.edges = r.edges)
    (hRoots : s.roots = r.roots) :
    Changes IsGood r s :=
  .single (.aside r s hGraphs hNodes hEdges hRoots)

/- An operator fits its graph, or there is a warning. -/
theorem checkArrow_cases
    (b : Build F)
    (scope : GraphId)
    (arrow : Arrow)
    (location : Location) :
    b.checkArrow scope arrow location = b ∨
      ∃ d : Diagnostic,
        b.checkArrow scope arrow location =
          (b.update (·.addDiagnostic d)).note (.warned d) := by
  cases hWarning :
      arrowWarning? (b.registry.graph scope).directed arrow with
  | none =>
      left
      simp only [checkArrow, hWarning]
  | some message =>
      refine .inr ⟨⟨.semantic, message, location⟩, ?_⟩
      simp only [checkArrow, hWarning]

theorem graph_checkArrow
    (b : Build F)
    (scope : GraphId)
    (arrow : Arrow)
    (location : Location)
    (g : GraphId) :
    (b.checkArrow scope arrow location).registry.graph g =
      b.registry.graph g := by
  rcases checkArrow_cases b scope arrow location with
    hCheck | ⟨d, hCheck⟩
  · rw [hCheck]
  · rw [hCheck]
    rfl

theorem checkArrow_changes
    (b : Build F)
    (scope : GraphId)
    (arrow : Arrow)
    (location : Location) :
    Changes IsGood b.registry
      (b.checkArrow scope arrow location).registry := by
  rcases checkArrow_cases b scope arrow location with
    hCheck | ⟨d, hCheck⟩
  · rw [hCheck]
    exact .refl
  · rw [hCheck]
    exact aside_changes rfl rfl rfl rfl

theorem applyDefaults_changes
    {attributes : List Attribute}
    (hValues : ∀ a ∈ attributes, IsGood a.value)
    (b : Build F)
    (scope : GraphId)
    (kind : EntityKind) :
    Changes IsGood b.registry
      (b.applyDefaults scope kind attributes).registry := by
  unfold applyDefaults
  by_cases hKind : kind = .graph
  · rw [if_pos hKind]
    exact .tail
      (.single (.setGraph _ scope attributes hValues))
      (.setDefaults _ scope kind attributes hValues)
  · rw [if_neg hKind]
    exact .single (.setDefaults _ scope kind attributes hValues)

/- What each round of a loop changes is changed by the loop. -/
theorem foldl_changes
    {α : Type}
    {f : Build F → α → Build F}
    {xs : List α}
    (hStep :
      ∀ x ∈ xs,
        ∀ b' : Build F,
          Changes IsGood b.registry b'.registry →
            Changes IsGood b'.registry (f b' x).registry) :
    Changes IsGood b.registry (xs.foldl f b).registry := by
  suffices hAll :
      ∀ b' : Build F,
        Changes IsGood b.registry b'.registry →
          Changes IsGood b.registry (xs.foldl f b').registry from
    hAll b .refl
  induction xs with
  | nil => exact fun b' hBefore => hBefore
  | cons x xs ih =>
      intro b' hBefore
      apply ih (fun y hy => hStep y (List.mem_cons_of_mem _ hy))
      exact hBefore.trans (hStep x List.mem_cons_self b' hBefore)

theorem adoptMembers_changes
    {c : GraphId}
    {nodes : List NodeId}
    (hParent : (b.registry.graph c).parent = some scope)
    (hScope : b.registry.HasGraph scope)
    (hNodes : nodes ⊆ (b.registry.graph c).members) :
    Changes IsGood b.registry
      (b.adoptMembers scope nodes).registry := by
  apply foldl_changes
  intro n hn b' hBefore
  have hGrows := hBefore.grows
  have hc := hasGraph_of_parent hParent
  refine .single (.member _ scope n (hGrows.graph hScope) (.inr ?_))
  exact ⟨c, (hGrows.parent hc).trans hParent,
    hGrows.members hc (hNodes hn)⟩

theorem adoptMembers_subset
    {nodes : List NodeId}
    (hIndexed : b.registry.IsIndexed)
    (hScope : b.registry.HasGraph scope) :
    ∀ n,
      n ∈ nodes ∨ n ∈ (b.registry.graph scope).members →
        n ∈ ((b.adoptMembers scope nodes).registry.graph
          scope).members := by
  induction nodes generalizing b with
  | nil =>
      intro n hn
      rcases hn with hn | hn
      · cases hn
      · exact hn
  | cons m nodes ih =>
      intro n hn
      have hScope' := (grows_addMember hScope m).graph hScope
      apply ih (b := b.update fun r => r.addMember scope m)
        (hIndexed.addMember hScope m) hScope'
      rcases hn with hn | hn
      · rcases List.mem_cons.mp hn with rfl | hn
        · exact .inr (hIndexed.mem_addMember hScope n)
        · exact .inl hn
      · exact .inr ((grows_addMember hScope m).members hScope hn)

theorem connectPair_of_some
    {tail head : NodeId}
    {e : EdgeId}
    (hStrict : (b.registry.graph scope).strict = true)
    (h : b.registry.findEdge? tail head = some e)
    (attributes : AttributeTable) :
    b.connectPair scope attributes tail head =
      b.update (·.modifyEdge e
        (Edge.setAttributes attributes.entries)) := by
  simp [connectPair, hStrict, h]

theorem connectPair_of_new
    {tail head : NodeId}
    (h :
      (b.registry.graph scope).strict = true →
        b.registry.findEdge? tail head = none)
    (attributes : AttributeTable) :
    b.connectPair scope attributes tail head =
      b.makeEdge scope tail head attributes := by
  by_cases hStrict : (b.registry.graph scope).strict = true
  · simp [connectPair, h hStrict]
  · simp [connectPair, hStrict]

/- In a strict graph an edge is found, or else one is made. -/
theorem connectPair_cases
    (b : Build F)
    (scope : GraphId)
    (attributes : AttributeTable)
    (tail head : NodeId) :
    (∃ e,
        (b.registry.graph scope).strict = true ∧
          b.registry.findEdge? tail head = some e ∧
          b.connectPair scope attributes tail head =
            b.update (·.modifyEdge e
              (Edge.setAttributes attributes.entries))) ∨
      ((b.registry.graph scope).strict = true →
          b.registry.findEdge? tail head = none) ∧
        b.connectPair scope attributes tail head =
          b.makeEdge scope tail head attributes := by
  by_cases hNew :
      (b.registry.graph scope).strict = true →
        b.registry.findEdge? tail head = none
  · exact .inr ⟨hNew, connectPair_of_new hNew attributes⟩
  · simp only [not_forall] at hNew
    rcases hNew with ⟨hStrict, hSome⟩
    rcases Option.ne_none_iff_exists'.mp hSome with ⟨e, hFind⟩
    exact .inl ⟨e, hStrict, hFind,
      connectPair_of_some hStrict hFind attributes⟩

theorem connectPair_changes
    {attributes : AttributeTable}
    {tail head : NodeId}
    (hScope : b.registry.HasGraph scope)
    (hTable : attributes.IsMap IsGood)
    (hTail : tail ∈ (b.registry.graph scope).members)
    (hHead : head ∈ (b.registry.graph scope).members) :
    Changes IsGood b.registry
      (b.connectPair scope attributes tail head).registry := by
  rcases connectPair_cases b scope attributes tail head with
    ⟨e, -, -, hConnect⟩ | ⟨hNew, hConnect⟩
  · rw [hConnect]
    exact .single (.setEdge _ e attributes.entries hTable.good)
  · rw [hConnect]
    exact .single
      (.edge _ scope tail head attributes hScope hTail hHead hNew
        hTable)

/- The table of edges between two ends, with the ports there. -/
def portedTable
    (attributes : AttributeTable)
    (tails heads : Ends) : AttributeTable :=
  withPort "headport" heads.port
    (withPort "tailport" tails.port attributes)

theorem isMap_withPort
    {t : AttributeTable}
    (hPlain : ∀ text, IsGood (.plain text))
    (h : t.IsMap IsGood)
    (name : String)
    (port : Option String) :
    (withPort name port t).IsMap IsGood := by
  cases port with
  | none => exact h
  | some port => exact h.set name (hPlain port)

theorem isMap_portedTable
    {attributes : AttributeTable}
    (hPlain : ∀ text, IsGood (.plain text))
    (hTable : attributes.IsMap IsGood)
    (tails heads : Ends) :
    (portedTable attributes tails heads).IsMap IsGood :=
  isMap_withPort hPlain
    (isMap_withPort hPlain hTable "tailport" tails.port)
    "headport" heads.port

/- Each tail is connected with all heads before the next one is. -/
theorem connect_eq_foldl
    (b : Build F)
    (scope : GraphId)
    (attributes : AttributeTable)
    (tails heads : Ends) :
    b.connect scope attributes tails heads =
      (tails.nodes ×ˢ heads.nodes).foldl
        (fun b pair =>
          b.connectPair scope (portedTable attributes tails heads)
            pair.1 pair.2)
        b := by
  simp only [connect, portedTable, SProd.sprod, List.product,
    List.foldl_flatMap, List.foldl_map]

/- What each pair keeps is kept when ends are connected. -/
theorem connect_induct
    {motive : Build F → Prop}
    {attributes : AttributeTable}
    {tails heads : Ends}
    (hStart : motive b)
    (hPair :
      ∀ b' : Build F,
        motive b' →
          ∀ tail ∈ tails.nodes,
            ∀ head ∈ heads.nodes,
              motive
                (b'.connectPair scope
                  (portedTable attributes tails heads) tail head)) :
    motive (b.connect scope attributes tails heads) := by
  rw [connect_eq_foldl]
  refine List.foldlRecOn _ _ hStart ?_
  rintro b' hBefore ⟨tail, head⟩ hMem
  rcases List.mem_product.mp hMem with ⟨hTail, hHead⟩
  exact hPair b' hBefore tail hTail head hHead

theorem connect_changes
    {attributes : AttributeTable}
    {tails heads : Ends}
    (hPlain : ∀ text, IsGood (.plain text))
    (hScope : b.registry.HasGraph scope)
    (hTable : attributes.IsMap IsGood)
    (hTails :
      ∀ n ∈ tails.nodes, n ∈ (b.registry.graph scope).members)
    (hHeads :
      ∀ n ∈ heads.nodes, n ∈ (b.registry.graph scope).members) :
    Changes IsGood b.registry
      (b.connect scope attributes tails heads).registry := by
  have hTable' := isMap_portedTable hPlain hTable tails heads
  refine connect_induct
    (motive := fun b' => Changes IsGood b.registry b'.registry)
    .refl ?_
  intro b' hBefore tail hTail head hHead
  have hGrows := hBefore.grows
  exact hBefore.trans (connectPair_changes
    (hGrows.graph hScope) hTable'
    (hGrows.members hScope (hTails tail hTail))
    (hGrows.members hScope (hHeads head hHead)))

end Build

------------------------------------------------------------
-- Running Statements
------------------------------------------------------------

section Running

open Registry

variable {F : Factory} {IsGood : Value → Prop}

theorem runBody_append
    {scope : GraphId}
    (stmts rest : List Stmt)
    (b : Build F) :
    runBody scope b (stmts ++ rest) =
      runBody scope (runBody scope b stmts) rest := by
  induction stmts generalizing b with
  | nil => rfl
  | cons stmt stmts ih => exact ih _

/- A subgraph that is opened is a child, and stays one. -/
theorem subgraph_changes
    {scope : GraphId}
    {b : Build F}
    (hBuilt : b.registry.IsBuilt IsGood)
    (hScope : b.registry.HasGraph scope)
    (name : String)
    {body : List Stmt}
    (hBody :
      ∀ {g : GraphId} {b : Build F},
        b.registry.IsBuilt IsGood →
          b.registry.HasGraph g →
          Changes IsGood b.registry (runBody g b body).registry) :
    Changes IsGood b.registry
        ((Stmt.subgraph name body).run scope b).registry ∧
      (((Stmt.subgraph name body).run scope b).registry.graph
        (b.openSubgraph scope name).1).parent = some scope := by
  let g : GraphId := (b.openSubgraph scope name).1
  let inside : Build F :=
    (b.openSubgraph scope name).2.update (·.pushScope g)
  have hParent : (inside.registry.graph g).parent = some scope :=
    Build.parent_openSubgraph hBuilt.isForest hScope name
  have hPush : Changes IsGood b.registry inside.registry :=
    (Build.openSubgraph_changes hScope name).trans
      (Build.aside_changes rfl rfl rfl rfl)
  have hg := hasGraph_of_parent hParent
  have hRun := hBody (hPush.isBuilt hBuilt) hg
  exact ⟨(hPush.trans hRun).trans
      (Build.aside_changes rfl rfl rfl rfl),
    (hRun.grows.parent hg).trans hParent⟩

mutual

theorem Endpoint.run_changes
    (hPlain : ∀ text, IsGood (.plain text))
    {scope : GraphId}
    {b : Build F}
    (hBuilt : b.registry.IsBuilt IsGood)
    (hScope : b.registry.HasGraph scope) :
    ∀ e : Endpoint,
      e.HasValues IsGood →
        Changes IsGood b.registry (e.run scope b).2.registry ∧
          ∀ n ∈ (e.run scope b).1.nodes,
            n ∈ ((e.run scope b).2.registry.graph scope).members
| .node ref, _ => by
    refine ⟨Build.resolveNode_changes hScope ref.name, ?_⟩
    intro n hn
    rw [List.mem_singleton.mp hn]
    exact Build.mem_members_resolveNode hBuilt.isIndexed hScope
      ref.name
| .subgraph name body, hBody => by
    have hRun := subgraph_changes hBuilt hScope name
      (fun hBuilt hg => runBody_changes hPlain hBuilt hg body hBody)
    have hScope' := hRun.1.grows.graph hScope
    refine ⟨hRun.1.trans (Build.adoptMembers_changes hRun.2 hScope'
      (List.Subset.refl _)), ?_⟩
    intro n hn
    exact Build.adoptMembers_subset
      (hRun.1.isBuilt hBuilt).isIndexed hScope' n (.inl hn)

theorem runSteps_changes
    (hPlain : ∀ text, IsGood (.plain text))
    {scope : GraphId}
    {attributes : AttributeTable}
    {tails : Build.Ends}
    {b : Build F}
    (hBuilt : b.registry.IsBuilt IsGood)
    (hScope : b.registry.HasGraph scope)
    (hTable : attributes.IsMap IsGood)
    (hTails :
      ∀ n ∈ tails.nodes, n ∈ (b.registry.graph scope).members) :
    ∀ steps : List EdgeStep,
      stepsHaveValues IsGood steps →
        Changes IsGood b.registry
          (runSteps scope attributes tails b steps).registry
| [], _ => .refl
| .mk arrow location head :: rest, hSteps => by
    have hArrow :
        Changes IsGood b.registry
          (b.checkArrow scope arrow location).registry :=
      Build.checkArrow_changes b scope arrow location
    have hHead := Endpoint.run_changes hPlain (hArrow.isBuilt hBuilt)
      (hArrow.grows.graph hScope) head hSteps.1
    have hBefore := hArrow.trans hHead.1
    have hScope' := hBefore.grows.graph hScope
    have hConnect := Build.connect_changes hPlain hScope' hTable
      (fun n hn => hBefore.grows.members hScope (hTails n hn))
      hHead.2
    have hAll := hBefore.trans hConnect
    exact hAll.trans (runSteps_changes hPlain (hAll.isBuilt hBuilt)
      (hAll.grows.graph hScope) hTable
      (fun n hn => hConnect.grows.members hScope' (hHead.2 n hn))
      rest hSteps.2)

theorem Stmt.run_changes
    (hPlain : ∀ text, IsGood (.plain text))
    {scope : GraphId}
    {b : Build F}
    (hBuilt : b.registry.IsBuilt IsGood)
    (hScope : b.registry.HasGraph scope) :
    ∀ stmt : Stmt,
      stmt.HasValues IsGood →
        Changes IsGood b.registry (stmt.run scope b).registry
| .edge tail steps attributes, hStmt => by
    have hTail := Endpoint.run_changes hPlain hBuilt hScope tail hStmt.1
    exact hTail.1.trans (runSteps_changes hPlain (hTail.1.isBuilt hBuilt)
      (hTail.1.grows.graph hScope)
      ((hBuilt.isTabled.graph scope).edgeDefaults.setAll hStmt.2.2)
      hTail.2 steps hStmt.2.1)
| .node ref attributes, hStmt =>
    (Build.resolveNode_changes hScope ref.name).tail
      (.setNode _ _ attributes hStmt)
| .defaults kind attributes, hStmt =>
    Build.applyDefaults_changes hStmt b scope kind
| .assign attr, hStmt => by
    refine .single (.setGraph _ scope [attr] ?_)
    intro a ha
    rw [List.mem_singleton.mp ha]
    exact hStmt
| .subgraph name body, hStmt =>
    (subgraph_changes hBuilt hScope name fun hBuilt hg =>
      runBody_changes hPlain hBuilt hg body hStmt).1

theorem runBody_changes
    (hPlain : ∀ text, IsGood (.plain text))
    {scope : GraphId}
    {b : Build F}
    (hBuilt : b.registry.IsBuilt IsGood)
    (hScope : b.registry.HasGraph scope) :
    ∀ body : List Stmt,
      bodyHasValues IsGood body →
        Changes IsGood b.registry (runBody scope b body).registry
| [], _ => .refl
| stmt :: rest, hBody => by
    have hStmt := Stmt.run_changes hPlain hBuilt hScope stmt hBody.1
    exact hStmt.trans (runBody_changes hPlain (hStmt.isBuilt hBuilt)
      (hStmt.grows.graph hScope) rest hBody.2)

end

theorem GraphDecl.run_changes
    (hPlain : ∀ text, IsGood (.plain text))
    {b : Build F}
    (hBuilt : b.registry.IsBuilt IsGood)
    {decl : GraphDecl}
    (hBody : bodyHasValues IsGood decl.body) :
    Changes IsGood b.registry (decl.run b).registry := by
  let opened : Registry F :=
    (b.registry.addGraph
      (.new decl.name decl.directed decl.strict) none).2
  have hOpen : Changes IsGood b.registry opened :=
    .single (.root _ decl.name decl.directed decl.strict)
  have hPush :
      Changes IsGood b.registry
        (opened.pushScope b.registry.nextGraph) :=
    hOpen.trans (Build.aside_changes rfl rfl rfl rfl)
  have hg :
      (opened.pushScope b.registry.nextGraph).HasGraph
        b.registry.nextGraph :=
    (hasGraph_addGraph _).mpr (.inr rfl)
  have hRun := runBody_changes hPlain
    (b := (b.makeGraph (.new decl.name decl.directed decl.strict)
      none).2.update (·.pushScope b.registry.nextGraph))
    (hPush.isBuilt hBuilt) hg decl.body hBody
  exact (hPush.trans hRun).trans
    (Build.aside_changes rfl rfl rfl rfl)

/- Whatever texts are loaded, the registry is built by changes. -/
theorem runGraphs_changes
    (hPlain : ∀ text, IsGood (.plain text))
    {r : Registry F}
    (hBuilt : r.IsBuilt IsGood)
    {decls : List GraphDecl}
    (hBodies :
      ∀ decl ∈ decls, bodyHasValues IsGood decl.body) :
    Changes IsGood r (runGraphs r decls).registry := by
  apply Build.foldl_changes (b := .start r)
  intro decl hDecl b' hBefore
  exact GraphDecl.run_changes hPlain (hBefore.isBuilt hBuilt)
    (hBodies decl hDecl)

end Running

------------------------------------------------------------
-- Loading Texts
------------------------------------------------------------

namespace Registry

variable {F : Factory}

theorem load_of_ok
    {r : Registry F}
    {text : String}
    {decls : List GraphDecl}
    {p : Parser}
    (h : Parser.file (.ofText text.toList r.options) = .ok decls p) :
    (r.load text).outcome = .ok () ∧
      (r.load text).registry =
        (runGraphs
          { r with diagnostics := r.diagnostics ++ p.diagnostics }
          decls).registry := by
  simp only [load, h, and_self]

theorem load_of_error
    {r : Registry F}
    {text : String}
    {d : Diagnostic}
    {p : Parser}
    (h : Parser.file (.ofText text.toList r.options) = .error d p) :
    (r.load text).registry =
      { r with diagnostics := r.diagnostics ++ p.diagnostics } := by
  simp only [load, h]

theorem IsBuilt.diagnosed
    {IsGood : Value → Prop}
    {r : Registry F}
    (h : r.IsBuilt IsGood)
    (diagnostics : List Diagnostic) :
    IsBuilt IsGood { r with diagnostics := diagnostics } := by
  have hAside :
      Change IsGood r { r with diagnostics := diagnostics } :=
    .aside _ _ rfl rfl rfl rfl
  exact hAside.isBuilt h

/- Whatever text is read, good values are all that is stored. -/
theorem IsBuilt.load
    {IsGood : Value → Prop}
    {r : Registry F}
    (h : r.IsBuilt IsGood)
    (hPlain : ∀ text, IsGood (.plain text))
    {text : String}
    (hValues :
      ∀ decls p,
        Parser.file (.ofText text.toList r.options) = .ok decls p →
          ∀ decl ∈ decls, bodyHasValues IsGood decl.body) :
    (r.load text).registry.IsBuilt IsGood := by
  cases hFile : Parser.file (.ofText text.toList r.options) with
  | ok decls p =>
      have hDiagnosed := h.diagnosed (r.diagnostics ++ p.diagnostics)
      rw [(load_of_ok hFile).2]
      exact (runGraphs_changes hPlain hDiagnosed
        (hValues decls p hFile)).isBuilt hDiagnosed
  | error d p =>
      rw [load_of_error hFile]
      exact h.diagnosed _

end Registry

end DotLang
