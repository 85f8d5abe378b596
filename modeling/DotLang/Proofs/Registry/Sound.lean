import DotLang.Proofs.Registry.Told

/-
  This file proves that at every moment of a chronicle the
  registry keeps the rules of built registries, and its tables
  of attributes are as the deeds tell.

  Key definitions include:
    * `Chronicle.IsSound`
    * `Chronicle.Continues`

  Key theorems include:
    * `Stmt.record_continues`
    * `Chronicle.isSound_ofGraphs`
    * `Chronicle.isSound_ofTexts`
-/

------------------------------------------------------------
-- Sound Chronicles
------------------------------------------------------------

namespace DotLang

namespace Chronicle

open Registry

variable {F : Factory} {c d : Chronicle F} {scope : GraphId}

/- All is well now, and was at the moments that have passed. -/
structure IsSound (c : Chronicle F) : Prop where
  isBuilt : c.build.registry.IsBuilt fun _ => True
  isTold : c.moment.IsTold
  passed :
    ∀ m ∈ c.passed, m.registry.IsBuilt (fun _ => True) ∧ m.IsTold

/- A chronicle that goes on from another one, and is sound. -/
structure Continues (c d : Chronicle F) : Prop where
  changes :
    Changes (fun _ => True) c.build.registry d.build.registry
  deeds : c.deeds <+: d.deeds
  isSound : d.IsSound

theorem IsSound.continues
    (h : c.IsSound) :
    c.Continues c where
  changes := .refl
  deeds := List.prefix_refl _
  isSound := h

theorem Continues.trans
    {e : Chronicle F}
    (h : c.Continues d)
    (h' : d.Continues e) :
    c.Continues e where
  changes := h.changes.trans h'.changes
  deeds := h.deeds.trans h'.deeds
  isSound := h'.isSound

theorem Continues.hasGraph
    (h : c.Continues d)
    (hScope : c.build.registry.HasGraph scope) :
    d.build.registry.HasGraph scope :=
  h.changes.grows.graph hScope

theorem Continues.pass
    (h : c.Continues d) :
    c.Continues d.pass where
  changes := h.changes
  deeds := h.deeds
  isSound :=
    { isBuilt := h.isSound.isBuilt
      isTold := h.isSound.isTold
      passed := by
        intro m hMem
        rcases List.mem_append.mp hMem with hMem | hMem
        · exact h.isSound.passed m hMem
        · rw [List.mem_singleton.mp hMem]
          exact ⟨h.isSound.isBuilt, h.isSound.isTold⟩ }

------------------------------------------------------------
-- Steps
------------------------------------------------------------

theorem IsSound.goOn
    (h : c.IsSound)
    {b : Build F}
    {deeds : List Deed}
    (hChanges :
      Changes (fun _ => True) c.build.registry b.registry)
    (hTold : Moment.IsTold ⟨b.registry, c.deeds ++ deeds⟩) :
    c.Continues (c.goOn b deeds) where
  changes := hChanges
  deeds := List.prefix_append _ _
  isSound :=
    { isBuilt := hChanges.isBuilt h.isBuilt
      isTold := hTold
      passed := h.passed }

theorem IsSound.write
    (h : c.IsSound)
    {b : Build F}
    {deeds : List Deed}
    (hChanges :
      Changes (fun _ => True) c.build.registry b.registry)
    (hWrites : Moment.Writes deeds c.build.registry b.registry)
    (hEdges : b.registry.edges = c.build.registry.edges)
    (hNone : ∀ made, .connected made ∉ deeds) :
    c.Continues (c.goOn b deeds) :=
  h.goOn hChanges
    (h.isTold.write h.isBuilt hChanges hWrites hEdges hNone)

theorem IsSound.aside
    (h : c.IsSound)
    {b : Build F}
    (hGraphs : b.registry.graphs = c.build.registry.graphs)
    (hNodes : b.registry.nodes = c.build.registry.nodes)
    (hEdges : b.registry.edges = c.build.registry.edges)
    (hRoots : b.registry.roots = c.build.registry.roots) :
    c.Continues (c.goOn b []) :=
  h.write
    (Build.aside_changes hGraphs hNodes hEdges hRoots)
    (Moment.writes_of_eq nofun hGraphs hNodes) hEdges nofun

/- Opening and closing a scope is not told of. -/
theorem IsSound.popScope
    (h : c.IsSound) :
    c.Continues (c.goOn (c.build.update (·.popScope)) []) :=
  h.aside rfl rfl rfl rfl

theorem IsSound.pushScope
    (h : c.IsSound)
    (g : GraphId) :
    c.Continues (c.goOn (c.build.update (·.pushScope g)) []) :=
  h.aside rfl rfl rfl rfl

theorem IsSound.checkArrow
    (h : c.IsSound)
    (scope : GraphId)
    (arrow : Arrow)
    (location : Location) :
    c.Continues
      (c.goOn (c.build.checkArrow scope arrow location) []) := by
  cases hWarning :
      Build.arrowWarning? (c.build.registry.graph scope).directed
        arrow with
  | none =>
      simp only [Build.checkArrow, hWarning]
      exact h.aside rfl rfl rfl rfl
  | some message =>
      simp only [Build.checkArrow, hWarning]
      exact h.aside rfl rfl rfl rfl

theorem IsSound.adoptMembers
    (h : c.IsSound)
    {g : GraphId}
    {nodes : List NodeId}
    (hParent : (c.build.registry.graph g).parent = some scope)
    (hScope : c.build.registry.HasGraph scope)
    (hNodes : nodes ⊆ (c.build.registry.graph g).members) :
    c.Continues (c.goOn (c.build.adoptMembers scope nodes) []) := by
  have hChanges :
      Changes (fun _ => True) c.build.registry
        (c.build.adoptMembers scope nodes).registry :=
    Build.adoptMembers_changes hParent hScope hNodes
  let Quiet (b : Build F) : Prop :=
    Moment.Writes [] c.build.registry b.registry ∧
      b.registry.edges = c.build.registry.edges
  have hQuiet : Quiet (c.build.adoptMembers scope nodes) := by
    refine List.foldlRecOn nodes _
      ⟨Moment.writes_of_eq nofun rfl rfl, rfl⟩ ?_
    rintro b ⟨hWrites, hEdges⟩ n -
    exact ⟨hWrites.trans (Moment.writes_addMember scope n), hEdges⟩
  exact h.write hChanges hQuiet.1 hQuiet.2 nofun

theorem IsSound.resolveNode
    (h : c.IsSound)
    (hScope : c.build.registry.HasGraph scope)
    (name : String) :
    c.Continues (c.resolveNode scope name).2 ∧
      (c.resolveNode scope name).1 ∈
        ((c.resolveNode scope name).2.build.registry.graph
          scope).members := by
  have hMember :=
    Build.mem_members_resolveNode h.isBuilt.isIndexed hScope name
  have hChanges :
      Changes (fun _ => True) c.build.registry
        (c.build.resolveNode scope name).2.registry :=
    Build.resolveNode_changes hScope name
  cases hFind : c.build.registry.resolveNode? scope name with
  | none =>
      have hNew :
          ¬ c.build.registry.HasNode c.build.registry.nextNode :=
        fun hNext => hNext.ne_next rfl
      rw [Build.resolveNode_of_none hFind] at hChanges hMember
      rw [Chronicle.resolveNode, Build.resolveNode_of_none hFind]
      simp only [if_neg hNew]
      exact ⟨h.goOn hChanges
        (h.isTold.declareNode h.isBuilt hScope name), hMember⟩
  | some n =>
      have hMay : c.build.registry.MayMention scope n :=
        .inl ⟨name, hFind⟩
      have hn := (h.isBuilt.isScoped.nested_of_mayMention
        h.isBuilt.isForest hScope hMay).1
      rw [Build.resolveNode_of_some hFind] at hChanges hMember
      rw [Chronicle.resolveNode, Build.resolveNode_of_some hFind]
      simp only [if_pos hn]
      exact ⟨h.write hChanges (Moment.writes_addMember scope n) rfl
        nofun, hMember⟩

theorem IsSound.openSubgraph
    (h : c.IsSound)
    (hScope : c.build.registry.HasGraph scope)
    (name : String) :
    c.Continues (c.openSubgraph scope name).2 ∧
      ((c.openSubgraph scope name).2.build.registry.graph
        (c.openSubgraph scope name).1).parent = some scope := by
  have hParent :=
    Build.parent_openSubgraph h.isBuilt.isForest hScope name
  have hChanges :
      Changes (fun _ => True) c.build.registry
        (c.build.openSubgraph scope name).2.registry :=
    Build.openSubgraph_changes hScope name
  rcases Build.openSubgraph_cases c.build scope name with
    ⟨g, -, hFind, hOpen⟩ | ⟨hNew, hOpen⟩
  · have hForest := h.isBuilt.isForest
    have hg := hasGraph_of_parent ((hForest.mem_children hScope).mp
      (mem_of_findChild?_eq_some hFind).1)
    rw [hOpen] at hParent
    rw [Chronicle.openSubgraph, hOpen]
    simp only [if_pos hg]
    exact ⟨h.aside rfl rfl rfl rfl, hParent⟩
  · have hNext :
        ¬ c.build.registry.HasGraph c.build.registry.nextGraph :=
      fun hNext => hNext.ne_next rfl
    have hStarts :
        Moment.StartsAs c.build.registry
          (.newSubgraph name (c.build.registry.graph scope))
          (some scope) :=
      ⟨rfl, fun kind => by cases kind <;> rfl⟩
    rw [hOpen] at hChanges hParent
    rw [Chronicle.openSubgraph, hOpen]
    change c.Continues (c.goOn _ (if _ then _ else _)) ∧ _
    rw [Build.makeGraph, fst_addGraph, if_neg hNext]
    exact ⟨h.goOn hChanges (h.isTold.open h.isBuilt
      (.child hScope hNew) hStarts), hParent⟩

theorem IsSound.connect
    (h : c.IsSound)
    (hScope : c.build.registry.HasGraph scope)
    {table : AttributeTable}
    (hTable : table.IsMap fun _ => True)
    {begun : Nat}
    (hBegun : begun ≤ c.deeds.length)
    {attributes : List Attribute}
    (hStarts :
      table =
        .ofList
          (pairsInForce .edge (c.build.registry.lineage scope)
              (c.deeds.take begun) ++
            attributes))
    {tails heads : Build.Ends}
    (hTails :
      ∀ n ∈ tails.nodes,
        n ∈ (c.build.registry.graph scope).members)
    (hHeads :
      ∀ n ∈ heads.nodes,
        n ∈ (c.build.registry.graph scope).members) :
    c.Continues
      (c.connect scope begun attributes table tails heads) :=
  h.goOn
    (Build.connect_changes (fun _ => trivial) hScope hTable hTails
      hHeads)
    (h.isTold.connect h.isBuilt (fun _ => trivial) hScope hTable
      hBegun hStarts hTails hHeads)

end Chronicle

------------------------------------------------------------
-- Statements
------------------------------------------------------------

section Running

open Registry

variable {F : Factory}

/- A subgraph that is opened is a child, and stays one. -/
theorem Chronicle.IsSound.subgraph
    {c : Chronicle F}
    {scope : GraphId}
    (h : c.IsSound)
    (hScope : c.build.registry.HasGraph scope)
    (name : String)
    {body : List Stmt}
    (hBody :
      ∀ {g : GraphId} {c : Chronicle F},
        c.IsSound →
          c.build.registry.HasGraph g →
          c.Continues (recordBody g c body))
    {d : Chronicle F}
    (hRun :
      d =
        recordBody (c.openSubgraph scope name).1
          ((c.openSubgraph scope name).2.goOn
            ((c.openSubgraph scope name).2.build.update
              (·.pushScope (c.openSubgraph scope name).1)) [])
          body) :
    c.Continues d ∧
      (d.build.registry.graph
        (c.openSubgraph scope name).1).parent = some scope := by
  subst hRun
  rcases h.openSubgraph hScope name with ⟨hOpen, hParent⟩
  have hPush :=
    hOpen.isSound.pushScope (c.openSubgraph scope name).1
  have hg := hPush.hasGraph (hasGraph_of_parent hParent)
  have hRun := hBody hPush.isSound hg
  exact ⟨(hOpen.trans hPush).trans hRun,
    (hRun.changes.grows.parent hg).trans hParent⟩

mutual

theorem Endpoint.record_continues
    {scope : GraphId}
    {c : Chronicle F}
    (h : c.IsSound)
    (hScope : c.build.registry.HasGraph scope) :
    ∀ e : Endpoint,
      c.Continues (e.record scope c).2 ∧
        ∀ n ∈ (e.record scope c).1.nodes,
          n ∈ ((e.record scope c).2.build.registry.graph
            scope).members
| .node ref => by
    have hResolve := h.resolveNode hScope ref.name
    refine ⟨hResolve.1, ?_⟩
    intro n hn
    rw [List.mem_singleton.mp hn]
    exact hResolve.2
| .subgraph name body => by
    have hRun := h.subgraph hScope name
      (fun hSound hg => recordBody_continues hSound hg body) rfl
    have hPop := hRun.1.isSound.popScope
    have hBefore := hRun.1.trans hPop
    have hScope' := hBefore.hasGraph hScope
    have hAdopt := hPop.isSound.adoptMembers hRun.2 hScope'
      (List.Subset.refl _)
    refine ⟨hBefore.trans hAdopt, ?_⟩
    intro n hn
    exact Build.adoptMembers_subset
      hPop.isSound.isBuilt.isIndexed hScope' n (.inl hn)

theorem recordSteps_continues
    {scope : GraphId}
    {begun : Nat}
    {attributes : List Attribute}
    {table : AttributeTable}
    {tails : Build.Ends}
    {c : Chronicle F}
    (h : c.IsSound)
    (hScope : c.build.registry.HasGraph scope)
    (hTable : table.IsMap fun _ => True)
    (hBegun : begun ≤ c.deeds.length)
    (hStarts :
      table =
        .ofList
          (pairsInForce .edge (c.build.registry.lineage scope)
              (c.deeds.take begun) ++
            attributes))
    (hTails :
      ∀ n ∈ tails.nodes,
        n ∈ (c.build.registry.graph scope).members) :
    ∀ steps : List EdgeStep,
      c.Continues
        (recordSteps scope begun attributes table tails c steps)
| [] => h.continues
| .mk arrow location head :: rest => by
    have hArrow := h.checkArrow scope arrow location
    have hHead := Endpoint.record_continues hArrow.isSound
      (hArrow.hasGraph hScope) head
    have hBefore := hArrow.trans hHead.1
    have hScope' := hBefore.hasGraph hScope
    have hBegun' := Nat.le_trans hBegun hBefore.deeds.length_le
    -- what was in force at the beginning is not forgotten
    have hStarts' :
        table =
          .ofList
            (pairsInForce .edge
                ((head.record scope (c.goOn
                  (c.build.checkArrow scope arrow location)
                  [])).2.build.registry.lineage scope)
                ((head.record scope (c.goOn
                  (c.build.checkArrow scope arrow location)
                  [])).2.deeds.take begun) ++
              attributes) := by
      rcases hBefore.deeds with ⟨more, hMore⟩
      rw [hBefore.changes.grows.lineage_eq h.isBuilt.isForest
          hBefore.isSound.isBuilt.isForest hScope,
        ← hMore, List.take_append_of_le_length hBegun]
      exact hStarts
    have hConnect := hHead.1.isSound.connect hScope' hTable hBegun'
      hStarts'
      (fun n hn =>
        hBefore.changes.grows.members hScope (hTails n hn))
      hHead.2
    have hAll := hBefore.trans hConnect
    refine hAll.trans (recordSteps_continues hConnect.isSound
      (hAll.hasGraph hScope) hTable
      (Nat.le_trans hBegun hAll.deeds.length_le) ?_
      (fun n hn =>
        hConnect.changes.grows.members hScope' (hHead.2 n hn))
      rest)
    rcases hConnect.deeds with ⟨more, hMore⟩
    rw [hConnect.changes.grows.lineage_eq
        hHead.1.isSound.isBuilt.isForest
        hConnect.isSound.isBuilt.isForest hScope',
      ← hMore, List.take_append_of_le_length hBegun']
    exact hStarts'

theorem Stmt.record_continues
    {scope : GraphId}
    {c : Chronicle F}
    (h : c.IsSound)
    (hScope : c.build.registry.HasGraph scope) :
    ∀ stmt : Stmt, c.Continues (stmt.record scope c)
| .edge tail steps attributes => by
    have hTail := Endpoint.record_continues h hScope tail
    have hTable :
        ((c.build.registry.graph scope).edgeDefaults.setAll
          attributes).IsMap fun _ => True :=
      (h.isBuilt.isTabled.graph scope).edgeDefaults.setAll
        fun _ _ => trivial
    have hDefaults :
        (c.build.registry.graph scope).edgeDefaults = _ :=
      h.isTold.graphs.defaults hScope .edge
    refine (hTail.1.trans (recordSteps_continues hTail.1.isSound
      (hTail.1.hasGraph hScope) hTable hTail.1.deeds.length_le ?_
      hTail.2 steps)).pass
    rcases hTail.1.deeds with ⟨more, hMore⟩
    rw [hTail.1.changes.grows.lineage_eq h.isBuilt.isForest
        hTail.1.isSound.isBuilt.isForest hScope,
      ← hMore, List.take_left, AttributeTable.ofList_append,
      hDefaults]
    rfl
| .node ref attributes => by
    rcases h.resolveNode hScope ref.name with ⟨hResolve, hMember⟩
    have hn := hResolve.isSound.isBuilt.isScoped.hasNode hMember
    have hSet := hResolve.isSound.write
      (b := (c.resolveNode scope ref.name).2.build.update
        (·.modifyNode _ (Node.setAttributes attributes)))
      (.single (.setNode _ _ attributes fun _ _ => trivial))
      (Moment.writes_setNode hn attributes) rfl (by simp)
    exact (hResolve.trans hSet).pass
| .defaults kind attributes =>
    (h.write
      (Build.applyDefaults_changes (fun _ _ => trivial) c.build scope
        kind)
      (Moment.writes_applyDefaults hScope kind attributes)
      (Moment.nodes_applyDefaults c.build scope kind attributes).2
      (by simp)).pass
| .assign attr =>
    (h.write
      (b := c.build.update
        (·.modifyGraph scope (Graph.setAttributes [attr])))
      (.single (.setGraph _ scope [attr] fun _ _ => trivial))
      (Moment.writes_assign hScope attr) rfl (by simp)).pass
| .subgraph name body => by
    have hRun := h.subgraph hScope name
      (fun hSound hg => recordBody_continues hSound hg body) rfl
    exact (hRun.1.trans hRun.1.isSound.popScope).pass

theorem recordBody_continues
    {scope : GraphId}
    {c : Chronicle F}
    (h : c.IsSound)
    (hScope : c.build.registry.HasGraph scope) :
    ∀ body : List Stmt, c.Continues (recordBody scope c body)
| [] => h.continues
| stmt :: rest => by
    have hStmt := Stmt.record_continues h hScope stmt
    exact hStmt.trans (recordBody_continues hStmt.isSound
      (hStmt.hasGraph hScope) rest)

end

theorem GraphDecl.record_continues
    {c : Chronicle F}
    (h : c.IsSound)
    (decl : GraphDecl) :
    c.Continues (decl.record c) := by
  have hChanges :
      Changes (fun _ => True) c.build.registry
        (c.build.makeGraph
          (.new decl.name decl.directed decl.strict)
          none).2.registry :=
    .single (.root _ decl.name decl.directed decl.strict)
  have hOpen := h.goOn hChanges
    (h.isTold.open h.isBuilt
      (.root c.build.registry decl.name decl.directed decl.strict)
      ⟨rfl, fun kind => by cases kind <;> rfl⟩)
  have hPush :
      c.Continues
        (c.goOn
          ((c.build.makeGraph
            (.new decl.name decl.directed decl.strict)
            none).2.update (·.pushScope c.build.registry.nextGraph))
          [.opened c.build.registry.nextGraph]) :=
    h.goOn (hChanges.tail (.aside _ _ rfl rfl rfl rfl))
      (hOpen.isSound.isTold.aside hOpen.isSound.isBuilt
        rfl rfl rfl rfl)
  have hRun := recordBody_continues hPush.isSound
    ((hasGraph_addGraph _).mpr (.inr rfl)) decl.body
  exact (hPush.trans hRun).trans hRun.isSound.popScope

namespace Chronicle

/- Nothing needs to be told of a registry without entities. -/
theorem isSound_start_empty
    (factory : F.State)
    (options : Options) :
    (start (.empty factory options : Registry F)).IsSound where
  isBuilt := isBuilt_empty factory options
  isTold :=
    { graphs :=
        { opened := ⟨nofun, nofun⟩
          unopened := fun _ => ⟨rfl, fun _ => rfl⟩
          defaults := nofun
          attributes := nofun }
      nodes :=
        { nodeMade := ⟨nofun, nofun⟩
          unmade := fun _ => rfl
          attributes := nofun }
      edges :=
        { begun_le := nofun
          last_le := nofun
          exists_made := nofun
          hasScope := nofun
          owner := nofun
          attributes := nofun } }
  passed := nofun

theorem IsSound.foldl
    {c : Chronicle F}
    (h : c.IsSound)
    (decls : List GraphDecl) :
    (decls.foldl GraphDecl.record c).IsSound := by
  induction decls generalizing c with
  | nil => exact h
  | cons decl decls ih =>
      exact ih (GraphDecl.record_continues h decl).isSound

theorem isSound_ofGraphs
    (factory : F.State)
    (options : Options)
    (decls : List GraphDecl) :
    (ofGraphs (.empty factory options : Registry F)
      decls).IsSound :=
  (isSound_start_empty factory options).foldl decls

/-
  After each statement, at any depth, the tables of graphs, nodes
  and edges are those that the statements before it make them.
-/
theorem isTold_of_mem_passed
    (factory : F.State)
    (options : Options)
    (decls : List GraphDecl) :
    let r : Registry F := .empty factory options
    let c := ofGraphs r decls
    c.build = runGraphs r decls ∧
      c.passed.length =
        (decls.map fun decl => countBody decl.body).sum ∧
      ∀ m ∈ c.passed, m.IsTold :=
  ⟨build_ofGraphs _ decls, length_passed_ofGraphs _ decls,
    fun m hMem =>
      ((isSound_ofGraphs factory options decls).passed m hMem).2⟩

/- A subgraph that is opened again keeps its older defaults. -/
def reopened : GraphDecl where
  name := "g"
  strict := false
  directed := true
  body :=
    [.defaults .node [⟨"color", .plain "red"⟩],
      .subgraph "s"
        [.defaults .node [⟨"shape", .plain "box"⟩],
          .node ⟨"a", none⟩ []],
      .defaults .node [⟨"color", .plain "blue"⟩],
      .subgraph "s"
        [.edge (.node ⟨"b", none⟩)
          [.mk .directed default (.node ⟨"a", some "p"⟩)]
          [⟨"weight", .plain "2"⟩]],
      .node ⟨"b", none⟩ [⟨"style", .plain "bold"⟩]]

theorem isTold_reopened :
    let c := ofGraphs (.empty () {} : Registry .plain) [reopened]
    ∃ m ∈ c.passed,
      m.IsTold ∧
        (m.registry.node ⟨1⟩).attributes =
          ⟨[⟨"color", .plain "red"⟩, ⟨"shape", .plain "box"⟩,
            ⟨"style", .plain "bold"⟩]⟩ := by
  intro c
  rcases isTold_of_mem_passed (F := .plain) () {} [reopened] with
    ⟨-, hLength, hTold⟩
  have hLast : 7 < c.passed.length := by
    rw [hLength]
    decide +kernel
  exact ⟨c.passed.get ⟨7, hLast⟩, List.get_mem _ _,
    hTold _ (List.get_mem _ _), by decide +kernel +revert⟩

theorem IsSound.load
    {c : Chronicle F}
    (h : c.IsSound)
    (text : String) :
    (c.load text).IsSound := by
  have hRestart :
      ∀ diagnostics : List Diagnostic,
        c.Continues
          (c.goOn
            (.start
              { c.build.registry with diagnostics := diagnostics })
            []) :=
    fun diagnostics => h.aside rfl rfl rfl rfl
  unfold Chronicle.load
  cases hFile :
      Parser.file (.ofText text.toList c.build.registry.options) with
  | ok decls p =>
      simp only [hFile]
      exact (hRestart _).isSound.foldl decls
  | error d p =>
      simp only [hFile]
      exact (hRestart _).isSound

theorem isSound_ofTexts
    (factory : F.State)
    (options : Options)
    (texts : List String) :
    (ofTexts (.empty factory options : Registry F)
      texts).IsSound := by
  refine List.foldlRecOn texts _
    (isSound_start_empty factory options) ?_
  intro c h text _
  exact h.load text

end Chronicle

end Running

end DotLang
