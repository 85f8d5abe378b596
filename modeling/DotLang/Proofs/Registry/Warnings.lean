import DotLang.Proofs.Parser.Operators
import DotLang.Proofs.Parser.Values
import DotLang.Proofs.Registry.OpenGraphs
import DotLang.Proofs.Registry.ScopeRules
import DotLang.Proofs.Registry.StaysInside
import Mathlib.Data.List.Flatten

/-
  This file proves that each edge operator which does not fit its
  graph gives one warning, in the order of the text, and that
  edges are directed like the top level graph around them.

  Key definitions include:
    * `Operator.warning`
    * `warningsOf`
    * `GraphDecl.warnings`
    * `Build.IsIn`

  Key theorems include:
    * `Build.diagnostics_checkArrow`
    * `Stmt.diagnostics_run`
    * `diagnostics_runGraphs`
    * `Registry.load_warnings`
-/

------------------------------------------------------------
-- Warnings
------------------------------------------------------------

namespace DotLang

/- The warning about an operator that does not fit its graph. -/
def Operator.warning (o : Operator) : Diagnostic where
  kind := .semantic
  message :=
    match o.arrow with
    | .undirected => "'--' used in a directed graph"
    | .directed => "'->' used in an undirected graph"
  location := o.location

/- One warning for each operator that is not of the given kind. -/
def warningsOf
    (directed : Bool)
    (operators : List Operator) : List Diagnostic :=
  (operators.filter fun o => o.arrow ≠ .ofDirected directed).map
    Operator.warning

/- The warnings about the operators in the text of a graph. -/
def GraphDecl.warnings (decl : GraphDecl) : List Diagnostic :=
  warningsOf decl.directed decl.operators

theorem warningsOf_nil
    (directed : Bool) :
    warningsOf directed [] = [] :=
  rfl

theorem warningsOf_append
    (directed : Bool)
    (first second : List Operator) :
    warningsOf directed (first ++ second) =
      warningsOf directed first ++ warningsOf directed second := by
  rw [warningsOf, List.filter_append, List.map_append]
  rfl

/- Warnings stand in the order of the operators. -/
theorem pairwise_warnings
    {decls : List GraphDecl}
    (h :
      (decls.flatMap GraphDecl.operators).Pairwise fun o o' =>
        o.location.offset < o'.location.offset) :
    (decls.flatMap GraphDecl.warnings).Pairwise fun d d' =>
      d.location.offset < d'.location.offset := by
  have hPlaces :
      ((decls.flatMap GraphDecl.warnings).map
          Diagnostic.location).Sublist
        ((decls.flatMap GraphDecl.operators).map
          Operator.location) := by
    rw [List.map_flatMap, List.map_flatMap]
    apply List.Sublist.flatMap_right
    intro decl _
    rw [GraphDecl.warnings, warningsOf, List.map_map]
    exact List.filter_sublist.map Operator.location
  rw [← List.pairwise_map (f := Operator.location)
    (R := fun l l' : Location => l.offset < l'.offset)] at h
  rw [← List.pairwise_map (f := Diagnostic.location)
    (R := fun l l' : Location => l.offset < l'.offset)]
  exact h.sublist hPlaces

/- Operators stand in the order of their tokens. -/
theorem pairwise_offset_operatorsIn
    {tokens : List Located}
    (h :
      tokens.Pairwise fun s t =>
        s.location.offset < t.location.offset) :
    (operatorsIn tokens).Pairwise fun o o' =>
      o.location.offset < o'.location.offset := by
  have hPlace :
      ∀ (t : Located) (o : Operator),
        o ∈ t.operator? → o.location = t.location := by
    intro t o ho
    rcases Option.map_eq_some_iff.mp ho with ⟨arrow, -, rfl⟩
    rfl
  apply List.pairwise_filterMap.mpr
  refine h.imp ?_
  intro s t hLt o ho o' ho'
  rw [hPlace s o ho, hPlace t o' ho']
  exact hLt

------------------------------------------------------------
-- Builds in a Graph
------------------------------------------------------------

open Registry

namespace Build

variable {F : Factory} {b b' : Build F} {scope : GraphId}
variable {IsGood : Value → Prop} {directed : Bool}

theorem diagnostics_checkArrow
    (b : Build F)
    (scope : GraphId)
    (arrow : Arrow)
    (location : Location) :
    (b.checkArrow scope arrow location).registry.diagnostics =
      b.registry.diagnostics ++
        warningsOf (b.registry.graph scope).directed
          [⟨arrow, location⟩] := by
  unfold checkArrow
  cases arrow <;> cases (b.registry.graph scope).directed <;>
    simp [arrowWarning?, warningsOf, Operator.warning,
      Arrow.ofDirected, addDiagnostic, update, note]

/-
  A registry that was built from texts, with a graph in which
  statements are run, which is directed or not.
-/
structure IsIn
    (IsGood : Value → Prop)
    (scope : GraphId)
    (directed : Bool)
    (b : Build F) : Prop where
  isBuilt : b.registry.IsBuilt IsGood
  hasGraph : b.registry.HasGraph scope
  directed : (b.registry.graph scope).directed = directed

theorem IsIn.of_changes
    (h : b.IsIn IsGood scope directed)
    (hChanges : Changes IsGood b.registry b'.registry) :
    b'.IsIn IsGood scope directed where
  isBuilt := hChanges.isBuilt h.isBuilt
  hasGraph := hChanges.grows.graph h.hasGraph
  directed := (hChanges.grows.directed h.hasGraph).trans h.directed

/- A subgraph is directed like the graph around it. -/
theorem IsIn.openSubgraph
    (h : b.IsIn IsGood scope directed)
    (name : String) :
    let g : GraphId := (b.openSubgraph scope name).1
    ((b.openSubgraph scope name).2.update (·.pushScope g)).IsIn
      IsGood g directed := by
  intro g
  have hChanges : Changes IsGood b.registry
      (b.openSubgraph scope name).2.registry :=
    openSubgraph_changes h.hasGraph name
  have hOpened := h.of_changes hChanges
  have hParent :=
    parent_openSubgraph h.isBuilt.isForest h.hasGraph name
  have hInside : (b.openSubgraph scope name).2.IsIn IsGood g
      directed :=
    { isBuilt := hOpened.isBuilt
      hasGraph := hasGraph_of_parent hParent
      directed :=
        (hOpened.isBuilt.isUniform.directed hParent).trans
          hOpened.directed }
  exact hInside.of_changes (aside_changes rfl rfl rfl rfl)

end Build

------------------------------------------------------------
-- Running Statements
------------------------------------------------------------

section Running

variable {F : Factory} {IsGood : Value → Prop} {directed : Bool}

theorem diagnostics_subgraph
    {scope : GraphId}
    {b : Build F}
    (h : b.IsIn IsGood scope directed)
    (name : String)
    {body : List Stmt}
    (hBody :
      ∀ {g : GraphId} {b : Build F},
        b.IsIn IsGood g directed →
          (runBody g b body).registry.diagnostics =
            b.registry.diagnostics ++
              warningsOf directed (bodyOperators body)) :
    ((Stmt.subgraph name body).run scope b).registry.diagnostics =
      b.registry.diagnostics ++
        warningsOf directed (bodyOperators body) := by
  have hOpen := Build.sameAside_openSubgraph b scope name
  have hRun := hBody (h.openSubgraph name)
  rw [← hOpen.diagnostics]
  exact hRun

mutual

theorem Endpoint.diagnostics_run
    (hPlain : ∀ text, IsGood (.plain text))
    {scope : GraphId}
    {b : Build F}
    (h : b.IsIn IsGood scope directed) :
    ∀ e : Endpoint,
      e.HasValues IsGood →
        (e.run scope b).2.registry.diagnostics =
          b.registry.diagnostics ++ warningsOf directed e.operators
| .node ref, _ => by
    have hResolve := Build.sameAside_resolveNode b scope ref.name
    rw [Endpoint.operators, warningsOf_nil, List.append_nil]
    exact hResolve.diagnostics
| .subgraph name body, hBody => by
    have hRun := diagnostics_subgraph h name
      (fun h => diagnostics_runBody hPlain h body hBody)
    rw [Endpoint.operators, ← hRun]
    exact (Build.sameAside_adoptMembers _ scope _).diagnostics

theorem diagnostics_runSteps
    (hPlain : ∀ text, IsGood (.plain text))
    {scope : GraphId}
    {attributes : AttributeTable}
    {tails : Build.Ends}
    {b : Build F}
    (h : b.IsIn IsGood scope directed)
    (hTable : attributes.IsMap IsGood)
    (hTails :
      ∀ n ∈ tails.nodes, n ∈ (b.registry.graph scope).members) :
    ∀ steps : List EdgeStep,
      stepsHaveValues IsGood steps →
        (runSteps scope attributes tails b
            steps).registry.diagnostics =
          b.registry.diagnostics ++
            warningsOf directed (stepsOperators steps)
| [], _ => (List.append_nil _).symm
| .mk arrow location head :: rest, hSteps => by
    have hArrow :
        Changes IsGood b.registry
          (b.checkArrow scope arrow location).registry :=
      Build.checkArrow_changes b scope arrow location
    have hChecked := h.of_changes hArrow
    have hHead := Endpoint.run_changes hPlain hChecked.isBuilt
      hChecked.hasGraph head hSteps.1
    have hResolved := hChecked.of_changes hHead.1
    have hConnect := Build.connect_changes hPlain hResolved.hasGraph
      hTable
      (fun n hn => (hArrow.trans hHead.1).grows.members h.hasGraph
        (hTails n hn))
      hHead.2
    have hWarn :=
      Build.diagnostics_checkArrow b scope arrow location
    have hInner :=
      Endpoint.diagnostics_run hPlain hChecked head hSteps.1
    have hSame := Build.sameAside_connect
      (head.run scope (b.checkArrow scope arrow location)).2
      scope attributes tails
      (head.run scope (b.checkArrow scope arrow location)).1
    have hRest := diagnostics_runSteps hPlain
      (hResolved.of_changes hConnect) hTable
      (fun n hn => hConnect.grows.members hResolved.hasGraph
        (hHead.2 n hn))
      rest hSteps.2
    have hSplit :
        warningsOf directed
            (stepsOperators (.mk arrow location head :: rest)) =
          warningsOf directed [⟨arrow, location⟩] ++
            (warningsOf directed head.operators ++
              warningsOf directed (stepsOperators rest)) := by
      rw [stepsOperators, ← warningsOf_append, ← warningsOf_append,
        List.singleton_append]
    rw [hSplit, ← List.append_assoc, ← List.append_assoc,
      ← h.directed, ← hWarn, h.directed, ← hInner,
      ← hSame.diagnostics]
    exact hRest

theorem Stmt.diagnostics_run
    (hPlain : ∀ text, IsGood (.plain text))
    {scope : GraphId}
    {b : Build F}
    (h : b.IsIn IsGood scope directed) :
    ∀ stmt : Stmt,
      stmt.HasValues IsGood →
        (stmt.run scope b).registry.diagnostics =
          b.registry.diagnostics ++
            warningsOf directed stmt.operators
| .edge tail steps attributes, hStmt => by
    have hTail := Endpoint.run_changes hPlain h.isBuilt h.hasGraph
      tail hStmt.1
    have hInner := Endpoint.diagnostics_run hPlain h tail hStmt.1
    have hSteps := diagnostics_runSteps hPlain
      (h.of_changes hTail.1)
      ((h.isBuilt.isTabled.graph scope).edgeDefaults.setAll
        hStmt.2.2)
      hTail.2 steps hStmt.2.1
    rw [Stmt.operators, warningsOf_append, ← List.append_assoc,
      ← hInner]
    exact hSteps
| .node ref attributes, _ => by
    have hResolve := Build.sameAside_resolveNode b scope ref.name
    rw [Stmt.operators, warningsOf_nil, List.append_nil]
    exact hResolve.diagnostics
| .defaults kind attributes, _ => by
    have hApply :=
      Build.sameAside_applyDefaults b scope kind attributes
    rw [Stmt.operators, warningsOf_nil, List.append_nil]
    exact hApply.diagnostics
| .assign attr, _ => (List.append_nil _).symm
| .subgraph name body, hStmt =>
    diagnostics_subgraph h name
      (fun h => diagnostics_runBody hPlain h body hStmt)

theorem diagnostics_runBody
    (hPlain : ∀ text, IsGood (.plain text))
    {scope : GraphId}
    {b : Build F}
    (h : b.IsIn IsGood scope directed) :
    ∀ body : List Stmt,
      bodyHasValues IsGood body →
        (runBody scope b body).registry.diagnostics =
          b.registry.diagnostics ++
            warningsOf directed (bodyOperators body)
| [], _ => (List.append_nil _).symm
| stmt :: rest, hBody => by
    have hStmt := Stmt.run_changes hPlain h.isBuilt h.hasGraph stmt
      hBody.1
    have hFirst := Stmt.diagnostics_run hPlain h stmt hBody.1
    have hRest := diagnostics_runBody hPlain (h.of_changes hStmt)
      rest hBody.2
    rw [bodyOperators, warningsOf_append, ← List.append_assoc,
      ← hFirst]
    exact hRest

end

theorem GraphDecl.diagnostics_run
    (hPlain : ∀ text, IsGood (.plain text))
    {b : Build F}
    (hBuilt : b.registry.IsBuilt IsGood)
    {decl : GraphDecl}
    (hBody : bodyHasValues IsGood decl.body) :
    (decl.run b).registry.diagnostics =
      b.registry.diagnostics ++ decl.warnings := by
  let g : GraphId := b.registry.nextGraph
  let opened : Registry F :=
    (b.registry.addGraph
      (.new decl.name decl.directed decl.strict) none).2
  have hOpen : Changes IsGood b.registry (opened.pushScope g) :=
    (Changes.single (.root _ decl.name decl.directed
      decl.strict)).trans (Build.aside_changes rfl rfl rfl rfl)
  have hNew :
      opened.graph g = .new decl.name decl.directed decl.strict :=
    graph_addGraph_next nofun
  let inside : Build F :=
    (b.makeGraph (.new decl.name decl.directed decl.strict)
      none).2.update (·.pushScope g)
  have hIn : inside.IsIn IsGood g decl.directed :=
    { isBuilt := hOpen.isBuilt hBuilt
      hasGraph := (hasGraph_addGraph _).mpr (.inr rfl)
      directed := congrArg Graph.directed hNew }
  exact diagnostics_runBody hPlain hIn decl.body hBody

theorem diagnostics_runGraphs
    (hPlain : ∀ text, IsGood (.plain text))
    {r : Registry F}
    (hBuilt : r.IsBuilt IsGood)
    {decls : List GraphDecl}
    (hBodies :
      ∀ decl ∈ decls, bodyHasValues IsGood decl.body) :
    (runGraphs r decls).registry.diagnostics =
      r.diagnostics ++ decls.flatMap GraphDecl.warnings := by
  suffices hAll :
      ∀ b : Build F,
        b.registry.IsBuilt IsGood →
          (decls.foldl GraphDecl.run b).registry.diagnostics =
            b.registry.diagnostics ++
              decls.flatMap GraphDecl.warnings from
    hAll (.start r) hBuilt
  induction decls with
  | nil => exact fun _ _ => (List.append_nil _).symm
  | cons decl decls ih =>
      intro b hb
      have hDecl := hBodies decl List.mem_cons_self
      have hRun := GraphDecl.run_changes hPlain hb hDecl
      have hRest := ih
        (fun other hMem =>
          hBodies other (List.mem_cons_of_mem _ hMem))
        (decl.run b) (hRun.isBuilt hb)
      rw [GraphDecl.diagnostics_run hPlain hb hDecl] at hRest
      rw [List.foldl_cons, hRest, List.flatMap_cons,
        List.append_assoc]

end Running

------------------------------------------------------------
-- Texts
------------------------------------------------------------

namespace Registry

variable {F : Factory}

/- No value is refused. -/
def IsAny : Value → Prop :=
  fun _ => True

/- An edge is directed like each top level graph that it is in. -/
theorem IsBuilt.directed_edge
    {IsGood : Value → Prop}
    {r : Registry F}
    (hBuilt : r.IsBuilt IsGood)
    {e : EdgeId}
    (he : r.HasEdge e) :
    (∃ root ∈ r.roots, (r.edge e).owner ∈ r.extent root) ∧
      ∀ root ∈ r.roots,
        (r.edge e).owner ∈ r.extent root →
          (r.edge e).directed = (r.graph root).directed := by
  have hForest := hBuilt.isForest
  have hOwner := hBuilt.isLinked.hasOwner he
  constructor
  · rcases hForest.exists_root hOwner with ⟨root, hRoot, hMem⟩
    have hGraph := (hForest.mem_roots.mp hRoot).1
    exact ⟨root, hRoot,
      (hForest.mem_extent hGraph).mpr ⟨hOwner, hMem⟩⟩
  · intro root hRoot hInside
    have hGraph := (hForest.mem_roots.mp hRoot).1
    have hMem := ((hForest.mem_extent hGraph).mp hInside).2
    rw [hBuilt.isLinked.directed he]
    exact (hBuilt.isUniform.eq_of_mem_lineage hForest hOwner
      hMem).1.symm

/- What a text stores is not restricted. -/
theorem bodyHasValues_of_file
    {source : String}
    {options : Options}
    {decls : List GraphDecl}
    {p : Parser}
    (hFile :
      Parser.file (.ofText source.toList options) = .ok decls p) :
    ∀ decl ∈ decls, bodyHasValues IsAny decl.body :=
  Parser.yields_file (fun _ => trivial) _ _ _
    (fun _ _ _ _ => trivial) hFile

/- The problems of the parser come first, then the warnings. -/
theorem diagnostics_load
    (factory : F.State)
    {options : Options}
    {source : String}
    {decls : List GraphDecl}
    {p : Parser}
    (hFile :
      Parser.file (.ofText source.toList options) = .ok decls p) :
    ((empty factory options : Registry F).load
        source).registry.diagnostics =
      p.diagnostics ++ decls.flatMap GraphDecl.warnings := by
  have hEmpty :
      (empty factory options : Registry F).IsBuilt IsAny :=
    isBuilt_empty factory options
  have hLoad :=
    (load_of_ok (r := empty factory options) hFile).2
  rw [hLoad, diagnostics_runGraphs (fun _ => trivial)
    (hEmpty.diagnosed _) (bodyHasValues_of_file hFile)]
  rfl

/- The top level graphs are directed as the text says. -/
theorem directed_roots_load
    (factory : F.State)
    {options : Options}
    {source : String}
    {decls : List GraphDecl}
    {p : Parser}
    (hFile :
      Parser.file (.ofText source.toList options) = .ok decls p) :
    let r : Registry F :=
      ((empty factory options).load source).registry
    (r.roots.map fun g => (r.graph g).directed) =
      decls.map GraphDecl.directed := by
  intro r
  have hConsistent :=
    (Step.diagnose (empty factory options : Registry F)
      p.diagnostics).isConsistent
      (isConsistent_empty factory options)
  have hLoad : r = _ :=
    (load_of_ok (r := empty factory options) hFile).2
  rw [hLoad, directed_roots_runGraphs hConsistent]
  rfl

/-
  Whatever text is read, each of its operators that does not fit
  the top level graph around it gives one warning at its place,
  behind the problems of the parser.  The operators are those of
  the text, and the places follow each other.
-/
theorem load_warnings
    (factory : F.State)
    (options : Options)
    (source : String)
    (hOk :
      ((empty factory options : Registry F).load source).outcome =
        .ok ()) :
    let r : Registry F :=
      ((empty factory options).load source).registry
    ∃ decls p,
      Parser.file (.ofText source.toList options) = .ok decls p ∧
        r.diagnostics =
          p.diagnostics ++ decls.flatMap GraphDecl.warnings ∧
        ((decls.flatMap GraphDecl.warnings).Pairwise fun d d' =>
          d.location.offset < d'.location.offset) ∧
        (decls.flatMap GraphDecl.operators).Sublist
          (operatorsIn (TokenStream.ofText source.toList).tokens) ∧
        (r.roots.map fun g => (r.graph g).directed) =
          decls.map GraphDecl.directed ∧
        ∀ e : EdgeId,
          r.HasEdge e →
            (∃ root ∈ r.roots, (r.edge e).owner ∈ r.extent root) ∧
              ∀ root ∈ r.roots,
                (r.edge e).owner ∈ r.extent root →
                  (r.edge e).directed =
                    (r.graph root).directed := by
  intro r
  cases hFile : Parser.file (.ofText source.toList options) with
  | error d p => simp [load, empty, hFile] at hOk
  | ok decls p =>
      have hEmpty : (empty factory options : Registry F).IsBuilt
          IsAny :=
        isBuilt_empty factory options
      have hBuilt : r.IsBuilt IsAny :=
        hEmpty.load (fun _ => trivial)
          fun _ _ => bodyHasValues_of_file
      have hOperators := Parser.operators_sublist hFile
      have hOrder := pairwise_offset_operatorsIn
        (Cursor.pairwise_offset_tokens (.start source.toList))
      exact ⟨decls, p, rfl, diagnostics_load factory hFile,
        pairwise_warnings (hOrder.sublist hOperators), hOperators,
        directed_roots_load factory hFile,
        fun e he => hBuilt.directed_edge he⟩

/-
  A broken statement is left behind with its operator.  Of the
  others four do not fit; one of these makes no edge.
-/
theorem load_warnings_sample :
    let source : String :=
      "digraph \x7b a -- \x7b b -> c -- d \x7d -> e; f -- ]; " ++
        "x -- \x7b \x7d \x7d graph \x7b a -- b -> c \x7d"
    let r : Registry .plain := ((empty () {}).load source).registry
    ∃ decls p,
      Parser.file (.ofText source.toList {}) = .ok decls p ∧
        r.diagnostics =
          p.diagnostics ++ decls.flatMap GraphDecl.warnings ∧
        (r.roots.map fun g => (r.graph g).directed) =
          [true, false] ∧
        (r.diagnostics.map fun d => (d.kind, d.location.offset)) =
          [(.grammatical, 43), (.semantic, 13), (.semantic, 25),
            (.semantic, 48), (.semantic, 72)] ∧
        r.edges.size = 10 := by
  intro source r
  rcases load_warnings (F := .plain) () {} source
    (by decide +kernel) with ⟨decls, p, hFile, hAll, -⟩
  refine ⟨decls, p, hFile, hAll, ?_⟩
  decide +kernel

end Registry

end DotLang
