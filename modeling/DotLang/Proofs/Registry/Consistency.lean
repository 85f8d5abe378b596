import DotLang.Proofs.Registry.Built
import DotLang.Proofs.Registry.Upkeep

/-
  This file proves that running statements in a consistent
  registry takes nothing but steps, so that whatever steps keep
  is kept by reading texts too.

  Key definitions include:
    * `Registry.Operates`

  Key theorems include:
    * `Stmt.run_steps`
    * `Registry.load_steps`
    * `Registry.Operates.steps`
-/

------------------------------------------------------------
-- Steps of a Build
------------------------------------------------------------

namespace DotLang

namespace Build

open Registry

variable {F : Factory} {b : Build F} {scope : GraphId}

theorem hasNode_of_resolveNode?_eq_some
    (h : b.registry.IsConsistent)
    {name : String}
    {n : NodeId}
    (hFind : b.registry.resolveNode? scope name = some n) :
    b.registry.HasNode n := by
  rcases h.isIndexed.exists_of_resolveNode?_eq_some hFind with
    ⟨_, -, hNode, -⟩
  exact h.isIndexed.hasNode hNode

theorem resolveNode_steps
    (h : b.registry.IsConsistent)
    (hScope : b.registry.HasGraph scope)
    (name : String) :
    Steps b.registry (b.resolveNode scope name).2.registry ∧
      (b.resolveNode scope name).2.registry.HasNode
        (b.resolveNode scope name).1 := by
  cases hFind : b.registry.resolveNode? scope name with
  | none =>
      let made : Registry F :=
        (b.registry.addNode scope name
          (b.registry.graph scope).nodeDefaults).2
      have hMade : Step b.registry made :=
        .addNode _ scope name _ hScope
      have hNode : made.HasNode b.registry.nextNode :=
        (hasNode_addNode scope name _ _).mpr (.inr rfl)
      rw [resolveNode_of_none hFind]
      exact ⟨.tail (.single hMade)
        (.addMember made scope _ (hMade.hasGraph hScope) hNode),
        hNode⟩
  | some n =>
      have hNode := hasNode_of_resolveNode?_eq_some h hFind
      rw [resolveNode_of_some hFind]
      exact ⟨.single (.addMember _ scope n hScope hNode), hNode⟩

theorem openSubgraph_steps
    (h : b.registry.IsConsistent)
    (hScope : b.registry.HasGraph scope)
    (name : String) :
    Steps b.registry (b.openSubgraph scope name).2.registry ∧
      (b.openSubgraph scope name).2.registry.HasGraph
        (b.openSubgraph scope name).1 := by
  refine ⟨?_, hasGraph_of_parent
    (parent_openSubgraph h.isForest hScope name)⟩
  rcases openSubgraph_cases b scope name with
    ⟨g, -, -, hOpen⟩ | ⟨-, hOpen⟩
  · rw [hOpen]
    exact .refl
  · rw [hOpen]
    exact .single
      (.addGraph _ _ (some scope) (Graph.isBlank_newSubgraph _ _)
        fun _ hEq => Option.some.inj hEq ▸ hScope)

theorem adoptMembers_steps
    (hScope : b.registry.HasGraph scope)
    {nodes : List NodeId}
    (hNodes : ∀ n ∈ nodes, b.registry.HasNode n) :
    Steps b.registry (b.adoptMembers scope nodes).registry := by
  refine List.foldlRecOn
    (motive := fun b' : Build F => Steps b.registry b'.registry)
    nodes _ .refl ?_
  intro b' hBefore n hn
  exact hBefore.tail
    (.addMember _ scope n (hBefore.hasGraph hScope)
      (hBefore.hasNode (hNodes n hn)))

theorem checkArrow_steps
    (b : Build F)
    (scope : GraphId)
    (arrow : Arrow)
    (location : Location) :
    Steps b.registry
      (b.checkArrow scope arrow location).registry := by
  rcases checkArrow_cases b scope arrow location with
    hCheck | ⟨d, hCheck⟩
  · rw [hCheck]
    exact .refl
  · rw [hCheck]
    exact .single (.diagnose _ [d])

theorem connectPair_steps
    (h : b.registry.IsConsistent)
    (hScope : b.registry.HasGraph scope)
    (attributes : AttributeTable)
    {tail head : NodeId}
    (hTail : b.registry.HasNode tail)
    (hHead : b.registry.HasNode head) :
    Steps b.registry
      (b.connectPair scope attributes tail head).registry := by
  rcases connectPair_cases b scope attributes tail head with
    ⟨e, -, hFind, hConnect⟩ | ⟨-, hConnect⟩
  · have hEdge : b.registry.HasEdge e := by
      rcases mem_of_findEdge?_eq_some hFind with hMem | hMem
      · exact (h.listsEdges.mem_outEdges.mp hMem).1
      · exact (h.listsEdges.mem_outEdges.mp hMem).1
    rw [hConnect]
    exact .single (.setEdge _ e _ hEdge fun _ => rfl)
  · rw [hConnect]
    exact .single
      (.addEdge _ scope tail head attributes hScope hTail hHead)

theorem connect_steps
    (h : b.registry.IsConsistent)
    (hScope : b.registry.HasGraph scope)
    (attributes : AttributeTable)
    {tails heads : Ends}
    (hTails : ∀ n ∈ tails.nodes, b.registry.HasNode n)
    (hHeads : ∀ n ∈ heads.nodes, b.registry.HasNode n) :
    Steps b.registry
      (b.connect scope attributes tails heads).registry := by
  refine connect_induct
    (motive := fun b' => Steps b.registry b'.registry) .refl ?_
  intro b' hBefore tail hTail head hHead
  exact hBefore.trans
    (connectPair_steps (hBefore.isConsistent h)
      (hBefore.hasGraph hScope) _ (hBefore.hasNode (hTails _ hTail))
      (hBefore.hasNode (hHeads _ hHead)))

theorem applyDefaults_steps
    (hScope : b.registry.HasGraph scope)
    (kind : EntityKind)
    (attributes : List Attribute) :
    Steps b.registry
      (b.applyDefaults scope kind attributes).registry := by
  have hTables :
      Graph.SetsTables (Graph.setDefaults kind attributes) :=
    fun _ => by cases kind <;> rfl
  have hSet :
      Step b.registry
        (b.registry.modifyGraph scope
          (Graph.setAttributes attributes)) :=
    .setGraph _ scope _ hScope fun _ => rfl
  unfold applyDefaults
  by_cases hKind : kind = .graph
  · rw [if_pos hKind]
    exact .tail (.single hSet)
      (.setGraph _ scope _ (hSet.hasGraph hScope) hTables)
  · rw [if_neg hKind]
    exact .single (.setGraph _ scope _ hScope hTables)

end Build

------------------------------------------------------------
-- Running Statements
------------------------------------------------------------

section Running

open Registry

variable {F : Factory}

/- What a body does, it does in the subgraph that is opened. -/
theorem subgraph_steps
    {scope : GraphId}
    {b : Build F}
    (h : b.registry.IsConsistent)
    (hScope : b.registry.HasGraph scope)
    (name : String)
    {body : List Stmt}
    (hBody :
      ∀ {g : GraphId} {b : Build F},
        b.registry.IsConsistent →
          b.registry.HasGraph g →
          Steps b.registry (runBody g b body).registry) :
    Steps b.registry
      ((Stmt.subgraph name body).run scope b).registry := by
  rcases Build.openSubgraph_steps h hScope name with ⟨hOpen, hg⟩
  have hPush :
      Steps b.registry
        ((b.openSubgraph scope name).2.update
          (·.pushScope (b.openSubgraph scope name).1)).registry :=
    hOpen.tail (.pushScope _ _ hg)
  exact (hPush.trans (hBody (hPush.isConsistent h) hg)).tail
    (.popScope _)

mutual

theorem Endpoint.run_steps
    {scope : GraphId}
    {b : Build F}
    (h : b.registry.IsConsistent)
    (hScope : b.registry.HasGraph scope) :
    ∀ e : Endpoint,
      Steps b.registry (e.run scope b).2.registry ∧
        ∀ n ∈ (e.run scope b).1.nodes,
          (e.run scope b).2.registry.HasNode n
| .node ref => by
    have hResolve := Build.resolveNode_steps h hScope ref.name
    refine ⟨hResolve.1, ?_⟩
    intro n hn
    rw [List.mem_singleton.mp hn]
    exact hResolve.2
| .subgraph name body => by
    have hRun := subgraph_steps h hScope name
      (fun h hg => runBody_steps h hg body)
    have hNodes := (hRun.isConsistent h).listsNodes
    have hAdopt := Build.adoptMembers_steps (hRun.hasGraph hScope)
      fun _ => hNodes.hasNode (g := (b.openSubgraph scope name).1)
    exact ⟨hRun.trans hAdopt,
      fun _ hn => hAdopt.hasNode (hNodes.hasNode hn)⟩

theorem runSteps_steps
    {scope : GraphId}
    (attributes : AttributeTable)
    {tails : Build.Ends}
    {b : Build F}
    (h : b.registry.IsConsistent)
    (hScope : b.registry.HasGraph scope)
    (hTails : ∀ n ∈ tails.nodes, b.registry.HasNode n) :
    ∀ steps : List EdgeStep,
      Steps b.registry
        (runSteps scope attributes tails b steps).registry
| [] => .refl
| .mk arrow location head :: rest => by
    have hArrow := Build.checkArrow_steps b scope arrow location
    have hHead := Endpoint.run_steps (hArrow.isConsistent h)
      (hArrow.hasGraph hScope) head
    have hBefore := hArrow.trans hHead.1
    have hConnect := Build.connect_steps (hBefore.isConsistent h)
      (hBefore.hasGraph hScope) attributes
      (fun n hn => hBefore.hasNode (hTails n hn)) hHead.2
    have hAll := hBefore.trans hConnect
    exact hAll.trans (runSteps_steps attributes (hAll.isConsistent h)
      (hAll.hasGraph hScope)
      (fun n hn => hConnect.hasNode (hHead.2 n hn)) rest)

theorem Stmt.run_steps
    {scope : GraphId}
    {b : Build F}
    (h : b.registry.IsConsistent)
    (hScope : b.registry.HasGraph scope) :
    ∀ stmt : Stmt,
      Steps b.registry (stmt.run scope b).registry
| .edge tail steps attributes => by
    have hTail := Endpoint.run_steps h hScope tail
    exact hTail.1.trans (runSteps_steps _ (hTail.1.isConsistent h)
      (hTail.1.hasGraph hScope) hTail.2 steps)
| .node ref attributes => by
    have hResolve := Build.resolveNode_steps h hScope ref.name
    exact hResolve.1.tail (.setNode _ _ _ hResolve.2 fun _ => rfl)
| .defaults kind attributes =>
    Build.applyDefaults_steps hScope kind attributes
| .assign attr => .single (.setGraph _ scope _ hScope fun _ => rfl)
| .subgraph name body =>
    subgraph_steps h hScope name
      (fun h hg => runBody_steps h hg body)

theorem runBody_steps
    {scope : GraphId}
    {b : Build F}
    (h : b.registry.IsConsistent)
    (hScope : b.registry.HasGraph scope) :
    ∀ body : List Stmt,
      Steps b.registry (runBody scope b body).registry
| [] => .refl
| stmt :: rest => by
    have hStmt := Stmt.run_steps h hScope stmt
    exact hStmt.trans (runBody_steps (hStmt.isConsistent h)
      (hStmt.hasGraph hScope) rest)

end

theorem GraphDecl.run_steps
    {b : Build F}
    (h : b.registry.IsConsistent)
    (decl : GraphDecl) :
    Steps b.registry (decl.run b).registry := by
  let opened : Build F :=
    (b.makeGraph (.new decl.name decl.directed decl.strict) none).2
  have hOpen : Step b.registry opened.registry :=
    .addGraph _ _ none (Graph.isBlank_new _ _ _) nofun
  have hg : opened.registry.HasGraph b.registry.nextGraph :=
    (hasGraph_addGraph _).mpr (.inr rfl)
  have hPush :
      Steps b.registry
        (opened.update
          (·.pushScope b.registry.nextGraph)).registry :=
    .tail (.single hOpen) (.pushScope _ _ hg)
  have hRun := runBody_steps
    (b := opened.update (·.pushScope b.registry.nextGraph))
    (hPush.isConsistent h) hg decl.body
  exact (hPush.trans hRun).tail (.popScope _)

end Running

namespace Registry

variable {F : Factory} {r s : Registry F}

theorem runGraphs_steps
    (h : r.IsConsistent)
    (decls : List GraphDecl) :
    Steps r (runGraphs r decls).registry := by
  refine List.foldlRecOn
    (motive := fun b : Build F => Steps r b.registry)
    decls _ .refl ?_
  intro b hBefore decl _
  exact hBefore.trans
    (GraphDecl.run_steps (hBefore.isConsistent h) decl)

/- Reading a text, well or not, takes nothing but steps. -/
theorem load_steps
    (h : r.IsConsistent)
    (text : String) :
    Steps r (r.load text).registry := by
  cases hFile : Parser.file (.ofText text.toList r.options) with
  | ok decls p =>
      have hDiagnose := Steps.single (Step.diagnose r p.diagnostics)
      rw [(load_of_ok hFile).2]
      exact hDiagnose.trans
        (runGraphs_steps (hDiagnose.isConsistent h) decls)
  | error d p =>
      rw [load_of_error hFile]
      exact .single (.diagnose r p.diagnostics)

------------------------------------------------------------
-- Operations
------------------------------------------------------------

/- From one registry to another by reading texts and by steps. -/
inductive Operates (r : Registry F) : Registry F → Prop where
| none : Operates r r
| load
    {s : Registry F}
    (text : String)
    (hBefore : Operates r s) :
    Operates r (s.load text).registry
| step
    {s t : Registry F}
    (hStep : Step s t)
    (hBefore : Operates r s) :
    Operates r t

theorem Operates.steps
    (hOperates : Operates r s)
    (h : r.IsConsistent) :
    Steps r s := by
  induction hOperates with
  | none => exact .refl
  | load text _ ih =>
      exact ih.trans (load_steps (ih.isConsistent h) text)
  | step hStep _ ih => exact ih.tail hStep

theorem Operates.isConsistent
    {factory : F.State}
    {options : Options}
    (hOperates : Operates (.empty factory options) r) :
    r.IsConsistent := by
  have hEmpty := isConsistent_empty factory options
  exact (hOperates.steps hEmpty).isConsistent hEmpty

theorem Operates.trans_steps
    {t : Registry F}
    (hOperates : Operates r s)
    (hSteps : Steps s t) :
    Operates r t := by
  induction hSteps with
  | refl => exact hOperates
  | tail _ hStep ih => exact .step hStep ih

/- What lies in the middle of a text is reached by operations too. -/
theorem Operates.runBody
    {factory : F.State}
    {options : Options}
    {scope : GraphId}
    {b : Build F}
    (hOperates : Operates (.empty factory options) b.registry)
    (hScope : b.registry.HasGraph scope)
    (body : List Stmt) :
    Operates (.empty factory options)
      (DotLang.runBody scope b body).registry :=
  hOperates.trans_steps
    (runBody_steps hOperates.isConsistent hScope body)

end Registry

end DotLang
