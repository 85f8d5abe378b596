import DotLang.Proofs.Dot.Isomorphism
import DotLang.Proofs.Parser.Values
import DotLang.Proofs.Token.Markup
import DotLang.Registry.Load

/-
  This file proves that loading the text of a graph makes the
  graph again.

  The names and values of the graph have to be read back from
  how they are quoted, and each member of a graph has to be the
  node that its name stands for there.

  Key definitions include:
    * `Registry.texts`

  Key theorems include:
    * `Registry.load_toDot`
-/

------------------------------------------------------------
-- Texts
------------------------------------------------------------

namespace DotLang

/- The text of a plain value. -/
def Value.texts : Value → List String
| plain text => [text]
| html _ => []

/- The names and plain values of a table. -/
def AttributeTable.texts (t : AttributeTable) : List String :=
  t.entries.flatMap fun a => a.name :: a.value.texts

namespace Registry

/- All names and plain values of a graph and what belongs to it. -/
def texts
    {F : Factory}
    (r : Registry F)
    (g : GraphId) : List String :=
  (r.extent g).flatMap (fun f =>
      (r.graph f).name :: (r.graph f).attributes.texts) ++
    ((r.allNodes g).flatMap (fun n =>
        (r.node n).name :: (r.node n).attributes.texts) ++
      (r.allEdges g).flatMap fun e => (r.edge e).attributes.texts)

/- The markup in a value is balanced. -/
def HasMarkup : Value → Prop
| .plain _ => True
| .html text => IsMarkup text.toList

theorem isReadable_of_texts
    {t : AttributeTable}
    (hMap : t.IsMap HasMarkup)
    (hTexts : ∀ text ∈ t.texts, ReadsBack text) :
    t.IsReadable := by
  intro a ha
  have hBoth :
      ∀ text ∈ a.name :: a.value.texts, ReadsBack text := by
    intro text hText
    exact hTexts text (List.mem_flatMap.mpr ⟨a, ha, hText⟩)
  refine ⟨hBoth _ List.mem_cons_self, ?_⟩
  cases hValue : a.value with
  | plain text =>
      apply hBoth text
      rw [hValue]
      exact List.mem_cons_of_mem _ List.mem_cons_self
  | html text =>
      have hGood := hMap.good a ha
      rw [hValue] at hGood
      exact hGood

/- All that the text of a graph writes is read back. -/
theorem isReadable_of_mem_extent
    {F : Factory}
    {r : Registry F}
    {φ : Numbering}
    {root g : GraphId}
    (hPlan : φ.IsPlan HasMarkup r root)
    (hTexts : ∀ text ∈ r.texts root, ReadsBack text)
    (hg : g ∈ r.extent root) :
    r.IsReadable g := by
  have hTabled := hPlan.isBuilt.isTabled
  have hGraph :
      ∀ text ∈ (r.graph g).name :: (r.graph g).attributes.texts,
        ReadsBack text := by
    intro text hText
    apply hTexts
    exact List.mem_append_left _
      (List.mem_flatMap.mpr ⟨g, hg, hText⟩)
  have hNode :
      ∀ n ∈ r.allNodes root,
        ∀ text ∈ (r.node n).name :: (r.node n).attributes.texts,
          ReadsBack text := by
    intro n hn text hText
    apply hTexts
    exact List.mem_append_right _ (List.mem_append_left _
      (List.mem_flatMap.mpr ⟨n, hn, hText⟩))
  have hEdge :
      ∀ e ∈ r.allEdges root,
        ∀ text ∈ (r.edge e).attributes.texts, ReadsBack text := by
    intro e he text hText
    apply hTexts
    exact List.mem_append_right _ (List.mem_append_right _
      (List.mem_flatMap.mpr ⟨e, he, hText⟩))
  refine
    { name := hGraph _ List.mem_cons_self
      attributes :=
        isReadable_of_texts (hTabled.graph g).attributes
          fun text hText => hGraph text (List.mem_cons_of_mem _ hText)
      nodes := ?_
      edges := ?_ }
  · intro n hn
    have hMember :=
      (writtenNodes_perm hPlan.isBuilt.isScoped g).mem_iff.mp hn
    have hIn := hPlan.mem_nodes_of_member hg hMember
    exact ⟨hNode n hIn _ List.mem_cons_self,
      isReadable_of_texts (hTabled.node n) fun text hText =>
        hNode n hIn text (List.mem_cons_of_mem _ hText)⟩
  · intro e he
    have hIn : e ∈ r.allEdges root :=
      List.mem_flatMap.mpr ⟨g, hg, he⟩
    have hEnds := hPlan.mem_ends (hPlan.mem_allEdges.mp hIn)
    exact ⟨hNode _ hEnds.1 _ List.mem_cons_self,
      hNode _ hEnds.2 _ List.mem_cons_self,
      isReadable_of_texts (hTabled.edge e) (hEdge e hIn)⟩

------------------------------------------------------------
-- Loading
------------------------------------------------------------

variable {F H : Factory}

/- Whatever text an empty registry loads, it is built by it. -/
theorem isBuilt_load
    (factory : F.State)
    (options : Options)
    (source : String) :
    ((empty factory options : Registry F).load
      source).registry.IsBuilt HasMarkup := by
  have hPlain : ∀ text, HasMarkup (.plain text) := fun _ => trivial
  have hTokens :
      (Parser.ofText source.toList options).HasGoodTokens
        HasMarkup := by
    intro t hMem markup hHtml
    rcases List.mem_cons.mp hMem with rfl | hMem
    · cases hHtml
    · exact Cursor.isMarkup_of_mem_tokens _ t hMem markup hHtml
  exact (isBuilt_empty factory options).load hPlain
    fun _ _ hFile => Parser.yields_file hPlain _ _ _ hTokens hFile

/- A copy is begun with the graph itself. -/
theorem isOpen_root
    {r : Registry F}
    {φ : Numbering}
    {IsGood : Value → Prop}
    {root : GraphId}
    (hPlan : φ.IsPlan IsGood r root)
    {decl : GraphDecl}
    (hDecl : r.IsDeclOf root decl)
    (factory : H.State)
    (options : Options) :
    φ.IsOpen r root root .empty []
      (((empty factory options : Registry H).addGraph
        (.new decl.name decl.directed decl.strict) none).2.pushScope
          (φ.graph root)) := by
  let start : Registry H := empty factory options
  let graph : Graph := .new decl.name decl.directed decl.strict
  rcases hPlan.isBuilt.isForest.mem_roots.mp hPlan.isRoot with
    ⟨hRoot, hTop⟩
  have hIn : root ∈ r.extent root := List.mem_cons_self
  have hNext : φ.graph root = start.nextGraph :=
    congrArg GraphId.mk
      (CountsFrom.cons_iff.mp hPlan.isNumbering.graphs).1
  have hNothing : φ.IsCopying r root start :=
    { isBuilt := isBuilt_empty factory options
      exists_graph := nofun
      exists_node := nofun
      exists_edge := nofun
      graph := nofun
      node := nofun
      edge := nofun }
  have hFresh :
      (start.addGraph graph none).2.graph start.nextGraph =
        φ.copyGraph (r.graph root) := by
    rw [graph_addGraph_none, if_pos rfl]
    simp [graph, Graph.new, Numbering.copyGraph, hTop, hDecl.name,
      hDecl.directed, hDecl.strict]
  have hChange :
      Change (fun _ => True) start (start.addGraph graph none).2 :=
    .root start decl.name decl.directed decl.strict
  have hAdded : φ.IsCopying r root (start.addGraph graph none).2 := by
    apply hNothing.extend hPlan (hChange.isBuilt hNothing.isBuilt)
    · intro x hx
      rcases (hasGraph_addGraph x).mp hx with hOld | rfl
      · exact absurd hOld (Nat.not_lt_zero _)
      · refine .inr ⟨root, hIn, hNext, ?_⟩
        rw [hFresh]
        rfl
    · exact fun x hx => absurd hx (Nat.not_lt_zero _)
    · exact fun x hx => absurd hx (Nat.not_lt_zero _)
  exact
    { isCopying := hAdded.withScope hPlan _
      hasGraph := by
        rw [hNext]
        exact (hasGraph_addGraph _).mpr (.inr rfl)
      contents := by
        rw [hNext]
        exact congrArg Graph.contents hFresh }

/- Loading a declaration of a graph makes a copy of it. -/
theorem load_of_accepts
    {r : Registry F}
    {φ : Numbering}
    {IsGood : Value → Prop}
    {root : GraphId}
    (hPlan : φ.IsPlan IsGood r root)
    (hNamed : r.IsNamed root)
    {decl : GraphDecl}
    (hDecl : r.IsDeclOf root decl)
    (factory : H.State)
    {options : Options}
    {text : String}
    (hAccepts : Parser.Accepts text.toList options [decl]) :
    ((empty factory options : Registry H).load text).outcome =
        .ok () ∧
      ((empty factory options : Registry H).load
        text).registry.diagnostics = [] ∧
      φ.IsFinished r root
        ((empty factory options : Registry H).load
          text).registry := by
  have hForest := hPlan.isBuilt.isForest
  have hIn : root ∈ r.extent root := List.mem_cons_self
  have hOrder := hForest.extent_eq_preorder hPlan.hasRoot
  have hGraphs := hPlan.isNumbering.graphs
  have hNodes := hPlan.isNumbering.nodes
  have hEdges := hPlan.isNumbering.edges
  have hNext : φ.graph root = ⟨0⟩ :=
    congrArg GraphId.mk (CountsFrom.cons_iff.mp hGraphs).1
  let b : Build H :=
    { registry :=
        ((empty factory options : Registry H).addGraph
          (.new decl.name decl.directed decl.strict)
            none).2.pushScope (φ.graph root)
      events := [.graphMade decl.name none decl.directed] }
  have hOpen : φ.IsOpen r root root .empty [] b.registry :=
    isOpen_root hPlan hDecl factory options
  have hTop :
      ∀ h ∈ r.lineage root,
        h ≠ root →
          ∀ n ∈ (r.graph h).nodes, b.registry.HasNode (φ.node n) := by
    intro h hh hNe
    rw [IsForest.lineage_of_root hPlan.hasRoot
      (hForest.mem_roots.mp hPlan.isRoot).2,
      List.mem_singleton] at hh
    exact absurd hh hNe
  have hCopies : φ.Copies H r root r.graphs.size root :=
    Numbering.copies_graph hPlan hNamed H _ hIn
      (Nat.le_add_left _ _)
  rcases hCopies hDecl.body hOpen hTop
    (by rw [← hOrder]; exact (CountsFrom.cons_iff.mp hGraphs).2)
    (by rw [← hOrder]; exact hNodes)
    hEdges with ⟨hLeads, hDone⟩
  rw [← hOrder] at hLeads hDone
  rcases hAccepts with ⟨p, hFile, hQuiet⟩
  rcases load_of_ok (r := empty factory options) hFile with
    ⟨hOutcome, hRegistry⟩
  have hRun :
      ((empty factory options : Registry H).load text).registry =
        (runBody (φ.graph root) b decl.body).registry.popScope := by
    rw [hRegistry, hQuiet]
    unfold b
    rw [hNext]
    rfl
  refine ⟨hOutcome, ?_, ?_⟩
  · rw [hRun]
    exact hLeads.diagnostics
  · rw [hRun]
    exact
      { isCopying := hLeads.isCopying.withScope hPlan _
        isDone := fun g hg =>
          ⟨(hDone g hg).hasGraph, (hDone g hg).contents⟩
        hasNode := fun n hn => hLeads.hasNode_of_counts hNodes hn
        hasEdge := fun e he => hLeads.hasEdge_of_counts hEdges he }

/-
  The text of a top level graph that was loaded makes the graph
  again: loading it succeeds, and what it makes is isomorphic to
  the graph and has the same text.  A text that is not accepted
  leaves no top level graphs.
-/
theorem load_toDot
    (factory : F.State)
    (options : Options)
    (source : String)
    (root : GraphId)
    (factory' : H.State)
    (hRoot :
      root ∈
        ((empty factory options : Registry F).load
          source).registry.roots)
    (hNamed :
      IsNamed
        ((empty factory options : Registry F).load source).registry
        root)
    (hTexts :
      ∀ text ∈
        ((empty factory options : Registry F).load
          source).registry.texts root,
        ReadsBack text) :
    let r := ((empty factory options : Registry F).load
      source).registry
    let copy :=
      (empty factory' {} : Registry H).load (r.toDot root)
    copy.outcome = .ok () ∧
      copy.registry.diagnostics = [] ∧
      ∃ φ : Numbering,
        copy.registry.roots = [φ.graph root] ∧
          φ.IsIsomorphism r root copy.registry (φ.graph root) ∧
          copy.registry.toDot (φ.graph root) = r.toDot root := by
  intro r copy
  have hBuilt := isBuilt_load factory options source
  let φ := Numbering.ofGraph r root
  have hGraph := (hBuilt.isForest.mem_roots.mp hRoot).1
  have hPlan : φ.IsPlan HasMarkup r root :=
    { isBuilt := hBuilt
      isRoot := hRoot
      isNumbering := Numbering.isNumbering_ofGraph hBuilt.isForest
        hBuilt.isScoped hBuilt.isLinked hGraph }
  have hReadable : ∀ g ∈ r.extent root, r.IsReadable g :=
    fun g hg => isReadable_of_mem_extent hPlan hTexts hg
  rcases hBuilt.isForest.accepts_toDot hRoot hReadable {} with
    ⟨decl, hDecl, hAccepts⟩
  rcases load_of_accepts hPlan hNamed hDecl factory' hAccepts with
    ⟨hOutcome, hQuiet, hFinished⟩
  exact ⟨hOutcome, hQuiet, φ, hFinished.roots_eq hPlan,
    hFinished.isIsomorphism hPlan, hFinished.toDot_eq hPlan⟩

/- A graph with markup, whose edges reach into its subgraphs. -/
def sample : Registry .plain :=
  ((empty () {} : Registry .plain).load
    "strict digraph \"a b\" \x7b x [label=<<b>>]
      subgraph s \x7b y:p -> x \x7b z \x7d \x7d
      z -> y \x7d").registry

theorem load_toDot_sample :
    (⟨0⟩ ∈ sample.roots ∧
        sample.IsNamed ⟨0⟩ ∧
        ∀ text ∈ sample.texts ⟨0⟩, ReadsBack text) ∧
      let copy :=
        (empty () {} : Registry .plain).load (sample.toDot ⟨0⟩)
      copy.outcome = .ok () ∧
        copy.registry.diagnostics = [] ∧
        ∃ φ : Numbering,
          copy.registry.roots = [φ.graph ⟨0⟩] ∧
            φ.IsIsomorphism sample ⟨0⟩ copy.registry
              (φ.graph ⟨0⟩) ∧
            copy.registry.toDot (φ.graph ⟨0⟩) =
              sample.toDot ⟨0⟩ := by
  have hRoot : ⟨0⟩ ∈ sample.roots := by
    decide +kernel
  have hNamed : sample.IsNamed ⟨0⟩ := by
    unfold IsNamed
    decide +kernel
  have hTexts : ∀ text ∈ sample.texts ⟨0⟩, ReadsBack text := by
    unfold ReadsBack
    decide +kernel
  have hAll := load_toDot (F := .plain) (H := .plain) () {} _ ⟨0⟩ ()
    hRoot hNamed hTexts
  exact ⟨⟨hRoot, hNamed, hTexts⟩, hAll⟩

end Registry

end DotLang
