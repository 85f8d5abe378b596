import DotLang.Proofs.Registry.Built

/-
  This file proves that statements close the graphs that they
  open and no others.

  Key definitions include:
    * `Registry.SameAside`

  Key theorems include:
    * `Stmt.scope_run`
    * `GraphDecl.scope_run`
    * `scope_runGraphs`
    * `Registry.scope_load`
-/

------------------------------------------------------------
-- Open Graphs
------------------------------------------------------------

namespace DotLang

namespace Registry

variable {F : Factory} {r s t : Registry F}

/- The graphs that are open and the problems stay the same. -/
structure SameAside (r s : Registry F) : Prop where
  scope : s.scope = r.scope
  diagnostics : s.diagnostics = r.diagnostics

theorem SameAside.refl
    (r : Registry F) :
    SameAside r r :=
  ⟨rfl, rfl⟩

theorem SameAside.trans
    (h : SameAside r s)
    (h' : SameAside s t) :
    SameAside r t :=
  ⟨h'.scope.trans h.scope, h'.diagnostics.trans h.diagnostics⟩

end Registry

open Registry

namespace Build

variable {F : Factory}

theorem sameAside_resolveNode
    (b : Build F)
    (scope : GraphId)
    (name : String) :
    SameAside b.registry (b.resolveNode scope name).2.registry := by
  cases hFind : b.registry.resolveNode? scope name with
  | none =>
      rw [resolveNode_of_none hFind]
      exact ⟨rfl, rfl⟩
  | some n =>
      rw [resolveNode_of_some hFind]
      exact ⟨rfl, rfl⟩

theorem sameAside_openSubgraph
    (b : Build F)
    (scope : GraphId)
    (name : String) :
    SameAside b.registry
      (b.openSubgraph scope name).2.registry := by
  unfold openSubgraph
  dsimp only
  split <;> exact ⟨rfl, rfl⟩

theorem sameAside_adoptMembers
    (b : Build F)
    (scope : GraphId)
    (nodes : List NodeId) :
    SameAside b.registry (b.adoptMembers scope nodes).registry := by
  refine List.foldlRecOn
    (motive := fun b' : Build F =>
      SameAside b.registry b'.registry)
    nodes _ (.refl _) ?_
  intro b' hBefore n _
  exact hBefore.trans ⟨rfl, rfl⟩

theorem scope_checkArrow
    (b : Build F)
    (scope : GraphId)
    (arrow : Arrow)
    (location : Location) :
    (b.checkArrow scope arrow location).registry.scope =
      b.registry.scope := by
  rcases checkArrow_cases b scope arrow location with
    hCheck | ⟨d, hCheck⟩
  · rw [hCheck]
  · rw [hCheck]
    rfl

theorem sameAside_connectPair
    (b : Build F)
    (scope : GraphId)
    (attributes : AttributeTable)
    (tail head : NodeId) :
    SameAside b.registry
      (b.connectPair scope attributes tail head).registry := by
  rcases connectPair_cases b scope attributes tail head with
    ⟨e, -, -, hConnect⟩ | ⟨-, hConnect⟩
  · rw [hConnect]
    exact ⟨rfl, rfl⟩
  · rw [hConnect]
    exact ⟨rfl, rfl⟩

theorem sameAside_connect
    (b : Build F)
    (scope : GraphId)
    (attributes : AttributeTable)
    (tails heads : Ends) :
    SameAside b.registry
      (b.connect scope attributes tails heads).registry := by
  refine connect_induct
    (motive := fun b' => SameAside b.registry b'.registry)
    (.refl _) ?_
  intro b' hBefore tail _ head _
  exact hBefore.trans (sameAside_connectPair b' scope _ tail head)

theorem sameAside_applyDefaults
    (b : Build F)
    (scope : GraphId)
    (kind : EntityKind)
    (attributes : List Attribute) :
    SameAside b.registry
      (b.applyDefaults scope kind attributes).registry := by
  unfold applyDefaults
  dsimp only
  split <;> exact ⟨rfl, rfl⟩

end Build

section Scope

variable {F : Factory}

/- The subgraph that a statement opens is closed by it. -/
theorem scope_subgraph
    (scope : GraphId)
    (b : Build F)
    (name : String)
    {body : List Stmt}
    (hBody :
      ∀ (g : GraphId) (b : Build F),
        (runBody g b body).registry.scope = b.registry.scope) :
    ((Stmt.subgraph name body).run scope b).registry.scope =
      b.registry.scope := by
  have hOpen := (Build.sameAside_openSubgraph b scope name).scope
  have hRun :=
    hBody (b.openSubgraph scope name).1
      ((b.openSubgraph scope name).2.update
        (·.pushScope (b.openSubgraph scope name).1))
  calc
    _ = (_ :: (b.openSubgraph scope name).2.registry.scope).tail :=
        congrArg List.tail hRun
    _ = b.registry.scope := hOpen

mutual

theorem Endpoint.scope_run
    (scope : GraphId)
    (b : Build F) :
    ∀ e : Endpoint,
      (e.run scope b).2.registry.scope = b.registry.scope
| .node ref => (Build.sameAside_resolveNode b scope ref.name).scope
| .subgraph name body =>
    (Build.sameAside_adoptMembers _ scope _).scope.trans
      (scope_subgraph scope b name fun g b => scope_runBody g b body)

theorem scope_runSteps
    (scope : GraphId)
    (attributes : AttributeTable)
    (tails : Build.Ends)
    (b : Build F) :
    ∀ steps : List EdgeStep,
      (runSteps scope attributes tails b steps).registry.scope =
        b.registry.scope
| [] => rfl
| .mk arrow location head :: rest => by
    have hArrow := Build.scope_checkArrow b scope arrow location
    have hHead :=
      Endpoint.scope_run scope (b.checkArrow scope arrow location) head
    have hConnect :=
      Build.sameAside_connect
        (head.run scope (b.checkArrow scope arrow location)).2
        scope attributes tails
        (head.run scope (b.checkArrow scope arrow location)).1
    exact (scope_runSteps scope attributes _ _ rest).trans
      (hConnect.scope.trans (hHead.trans hArrow))

theorem Stmt.scope_run
    (scope : GraphId)
    (b : Build F) :
    ∀ stmt : Stmt,
      (stmt.run scope b).registry.scope = b.registry.scope
| .edge tail steps _ =>
    (scope_runSteps scope _ _ _ steps).trans
      (Endpoint.scope_run scope b tail)
| .node ref _ => (Build.sameAside_resolveNode b scope ref.name).scope
| .defaults kind attributes =>
    (Build.sameAside_applyDefaults b scope kind attributes).scope
| .assign _ => rfl
| .subgraph name body =>
    scope_subgraph scope b name fun g b => scope_runBody g b body

theorem scope_runBody
    (scope : GraphId)
    (b : Build F) :
    ∀ body : List Stmt,
      (runBody scope b body).registry.scope = b.registry.scope
| [] => rfl
| stmt :: rest =>
    (scope_runBody scope _ rest).trans (Stmt.scope_run scope b stmt)

end

theorem GraphDecl.scope_run
    (b : Build F)
    (decl : GraphDecl) :
    (decl.run b).registry.scope = b.registry.scope :=
  congrArg List.tail (scope_runBody _ _ decl.body)

theorem scope_runGraphs
    (r : Registry F)
    (decls : List GraphDecl) :
    (runGraphs r decls).registry.scope = r.scope := by
  refine List.foldlRecOn
    (motive := fun b : Build F => b.registry.scope = r.scope)
    decls _ rfl ?_
  intro b hBefore decl _
  exact (GraphDecl.scope_run b decl).trans hBefore

end Scope

namespace Registry

/- The graphs that are open stay so, whatever the text says. -/
theorem scope_load
    {F : Factory}
    (r : Registry F)
    (text : String) :
    (r.load text).registry.scope = r.scope := by
  cases hFile : Parser.file (.ofText text.toList r.options) with
  | ok decls p =>
      rw [(load_of_ok hFile).2, scope_runGraphs]
  | error d p =>
      rw [load_of_error hFile]

end Registry

end DotLang
