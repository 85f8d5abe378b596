import DotLang.Proofs.Grammar.Derivation
import DotLang.Proofs.Parser.Progress

/-
  This file proves that the parser accepts nothing but what the
  grammar derives: a step that succeeds and keeps no diagnostic
  has read the tokens of a derivation, and its result is what
  the derivation stands for.

  Key definitions include:
    * `Parser.Derives`

  Key theorems include:
    * `Parser.nodeRef_eq_ok`
    * `Parser.derives_stmt`
    * `Parser.derives_block`
    * `Parser.file_eq_ok`
-/

------------------------------------------------------------
-- Terminals
------------------------------------------------------------

namespace DotLang

namespace Parser

theorem read_of_expect
    {mark : Symbol}
    {p q : Parser}
    {u : Unit}
    (h : expect mark p = .ok u q) :
    ∃ l, p.Read [mark.located l] q := by
  rcases expect_eq_ok.mp h with ⟨hCurrent, rfl⟩
  exact ⟨_, read_advance hCurrent (by simp)⟩

theorem read_of_expectName
    {allowed : Expectation}
    {p q : Parser}
    {name : String}
    (h : expectName allowed p = .ok name q) :
    ∃ d, p.Read [nameToken d] q ∧ d.value = name := by
  rcases expectName_eq_ok.mp h with ⟨hCurrent, rfl⟩
  exact ⟨⟨name, _⟩, read_advance hCurrent (by simp), rfl⟩

theorem read_of_expectValue
    {p q : Parser}
    {value : Value}
    (h : expectValue p = .ok value q) :
    ∃ d, p.Read [valueToken d] q ∧ d.value = value := by
  rw [expectValue_apply] at h
  split at h
  · rename_i text hCurrent
    cases h
    exact ⟨⟨.plain text, _⟩, read_advance hCurrent (by simp), rfl⟩
  · rename_i text hCurrent
    cases h
    exact ⟨⟨.html text, _⟩, read_advance hCurrent (by simp), rfl⟩
  · cases h

/- The token of an edge operator that is next. -/
theorem read_of_arrow
    {p : Parser}
    {arrow : Arrow}
    (h : arrowOf? p.current = some arrow) :
    p.Read [arrowToken ⟨arrow, p.stream.location⟩] p.advance := by
  unfold arrowOf? at h
  split at h
  · rename_i hCurrent
    cases h
    exact read_advance hCurrent (by simp)
  · rename_i hCurrent
    cases h
    exact read_advance hCurrent (by simp)
  · cases h

/- A token that may be missing was either read or is not next. -/
theorem accept_eq_ok
    {token : Token}
    {p q : Parser}
    {found : Bool}
    (hToken : token ≠ .endOfFile)
    (h : accept token p = .ok found q) :
    (found = true ∧ ∃ l, p.Read [⟨token, l⟩] q) ∨
      (found = false ∧ p = q) := by
  rw [accept_apply] at h
  split at h
  · rename_i hCurrent
    cases h
    exact Or.inl ⟨rfl, _, read_advance hCurrent hToken⟩
  · cases h
    exact Or.inr ⟨rfl, rfl⟩

theorem acceptName_eq_ok
    {p q : Parser}
    {name : Option String}
    (h : acceptName p = .ok name q) :
    (∃ d, name = some d.value ∧ p.Read [nameToken d] q) ∨
      (name = none ∧ p = q) := by
  rw [acceptName_apply] at h
  split at h
  · rename_i text hCurrent
    cases h
    exact Or.inl
      ⟨⟨text, _⟩, rfl, read_advance hCurrent (by simp)⟩
  · cases h
    exact Or.inr ⟨rfl, rfl⟩

/- A token that may be missing, as a part of a derivation. -/
theorem read_of_accept
    {token : Token}
    {p q : Parser}
    {found : Bool}
    (hToken : token ≠ .endOfFile)
    (h : accept token p = .ok found q) :
    ∃ l : Option Location,
      p.Read (l.map (Located.mk token)).toList q ∧
        l.isSome = found := by
  rcases accept_eq_ok hToken h with
    ⟨hFound, l, hRead⟩ | ⟨hFound, rfl⟩
  · exact ⟨some l, hRead, hFound.symm⟩
  · exact ⟨none, Read.refl p, hFound.symm⟩

theorem read_of_acceptName
    {p q : Parser}
    {name : Option String}
    (h : acceptName p = .ok name q) :
    ∃ d : Option (Placed String),
      p.Read (d.map nameToken).toList q ∧
        d.map Placed.value = name := by
  rcases acceptName_eq_ok h with ⟨d, rfl, hRead⟩ | ⟨rfl, rfl⟩
  · exact ⟨some d, hRead, rfl⟩
  · exact ⟨none, Read.refl p, rfl⟩

------------------------------------------------------------
-- Mentions and Attributes
------------------------------------------------------------

theorem nodeRef_eq_ok
    {p q : Parser}
    {ref : NodeRef}
    (h : nodeRef p = .ok ref q) :
    ∃ d : RefTree, p.Read d.tokens q ∧ d.ref = ref := by
  rcases bind_eq_ok.mp h with ⟨_, _, hStep, h⟩
  rcases read_of_expectName hStep with ⟨name, hName, rfl⟩
  rcases bind_eq_ok.mp h with ⟨hasPort, _, hStep, h⟩
  rcases accept_eq_ok (by simp) hStep with
    ⟨rfl, colon, hColon⟩ | ⟨rfl, rfl⟩
  · rcases bind_eq_ok.mp h with ⟨_, _, hStep, h⟩
    rcases read_of_expectName hStep with
      ⟨portName, hPortName, rfl⟩
    rcases bind_eq_ok.mp h with ⟨hasCompass, _, hStep, h⟩
    have hRead := hName.trans (hColon.trans hPortName)
    rcases accept_eq_ok (by simp) hStep with
      ⟨rfl, colon', hColon'⟩ | ⟨rfl, rfl⟩
    · rcases bind_eq_ok.mp h with ⟨_, _, hStep, h⟩
      rcases read_of_expectName hStep with
        ⟨compass, hCompassName, rfl⟩
      cases h
      exact ⟨⟨name, some ⟨colon, portName, some (colon', compass)⟩⟩,
        hRead.trans (hColon'.trans hCompassName), rfl⟩
    · cases h
      exact ⟨⟨name, some ⟨colon, portName, none⟩⟩, hRead, rfl⟩
  · cases h
    exact ⟨⟨name, none⟩, hName, rfl⟩

theorem listedAttribute_eq_ok
    {p q : Parser}
    {a : Attribute}
    (h : listedAttribute p = .ok (some a) q) :
    ∃ d : AttrTree, p.Read d.tokens q ∧ d.attr = a := by
  rcases bind_eq_ok.mp h with ⟨current, _, hPeek, h⟩
  cases hPeek
  split at h
  · cases h
  · rcases bind_eq_ok.mp h with ⟨_, _, hStep, h⟩
    rcases read_of_expectName hStep with ⟨name, hName, rfl⟩
    rcases bind_eq_ok.mp h with ⟨_, _, hStep, h⟩
    rcases read_of_expect hStep with ⟨equal, hEqual⟩
    rcases bind_eq_ok.mp h with ⟨_, _, hStep, h⟩
    rcases read_of_expectValue hStep with ⟨value, hValue, rfl⟩
    rcases bind_eq_ok.mp h with ⟨_, _, hStep, h⟩
    rcases read_of_accept (by simp) hStep with ⟨semicolon, hSemicolon, _⟩
    rcases bind_eq_ok.mp h with ⟨_, _, hStep, h⟩
    rcases read_of_accept (by simp) hStep with ⟨comma, hComma, _⟩
    cases h
    have hFront := hName.trans (hEqual.trans hValue)
    exact ⟨⟨name, equal, value, semicolon, comma⟩,
      hFront.trans (hSemicolon.trans hComma), rfl⟩

theorem listedAttribute_eq_ok_none
    {p q : Parser}
    (h : listedAttribute p = .ok none q) :
    p = q := by
  rcases bind_eq_ok.mp h with ⟨current, _, hPeek, h⟩
  cases hPeek
  split at h
  · cases h
    rfl
  · rcases bind_eq_ok.mp h with ⟨_, _, _, h⟩
    rcases bind_eq_ok.mp h with ⟨_, _, _, h⟩
    rcases bind_eq_ok.mp h with ⟨_, _, _, h⟩
    rcases bind_eq_ok.mp h with ⟨_, _, _, h⟩
    rcases bind_eq_ok.mp h with ⟨_, _, _, h⟩
    cases h

/-
  A step that reads derivations only, at least as long as it
  keeps no diagnostic.
-/
def Derives
    {α δ : Type}
    (tokens : δ → List Located)
    (value : δ → α)
    (step : Step α) : Prop :=
  ∀ {p q : Parser} {a : α},
    step p = .ok a q →
    q.diagnostics = p.diagnostics →
    ∃ d, p.Read (tokens d) q ∧ value d = a

section

variable
  {α δ : Type}
  {tokens : δ → List Located}
  {value : δ → α}
  {step : Step (Option α)}

/- Repeated, a step reads rows of derivations. -/
theorem derives_many
    (hForward : IsForward step)
    (hStep :
      ∀ {p q : Parser} {a : α},
        step p = .ok (some a) q →
        q.diagnostics = p.diagnostics →
        ∃ d, p.Read (tokens d) q ∧ value d = a)
    (hStop : ∀ {p q : Parser}, step p = .ok none q → p = q)
    (bound : Nat) :
    Derives (List.flatMap tokens) (List.map value)
      (many step bound) := by
  intro p q values h hQuiet
  induction bound generalizing p values with
  | zero =>
      cases h
      exact ⟨[], Read.refl _, rfl⟩
  | succ bound ih =>
      rcases bind_eq_ok.mp h with ⟨first, r, hFirst, h⟩
      cases first with
      | none =>
          cases hStop hFirst
          cases h
          exact ⟨[], Read.refl _, rfl⟩
      | some first =>
          rcases bind_eq_ok.mp h with ⟨others, _, hOthers, h⟩
          cases h
          have hSteady :=
            (hForward.of_ok hFirst).diagnostics_eq
              ((hForward.many bound).of_ok hOthers) hQuiet
          rcases hStep hFirst hSteady.1 with ⟨d, hRead, hValue⟩
          rcases ih hOthers hSteady.2 with ⟨ds, hReads, hValues⟩
          refine ⟨d :: ds, hRead.trans hReads, ?_⟩
          rw [List.map_cons, hValue, hValues]

/- A repeated step ends where it stops or where its bound does. -/
theorem many_stops
    {p q : Parser}
    {values : List α}
    {bound : Nat}
    (h : many step bound p = .ok values q) :
    values.length = bound ∨ ∃ r, step r = .ok none q := by
  induction bound generalizing p values with
  | zero =>
      cases h
      exact Or.inl rfl
  | succ bound ih =>
      rcases bind_eq_ok.mp h with ⟨first, r, hFirst, h⟩
      cases first with
      | none =>
          cases h
          exact Or.inr ⟨p, hFirst⟩
      | some first =>
          rcases bind_eq_ok.mp h with ⟨others, _, hOthers, h⟩
          cases h
          rcases ih hOthers with hLength | hStop
          · exact Or.inl (congrArg Nat.succ hLength)
          · exact Or.inr hStop

end

theorem derives_attributeList :
    Derives ListTree.tokens ListTree.attributes attributeList := by
  intro p q attributes h hQuiet
  rcases bind_eq_ok.mp h with ⟨_, _, hStep, h⟩
  rcases read_of_expect hStep with ⟨opening, hOpening⟩
  rcases bind_eq_ok.mp h with ⟨_, _, hGet, h⟩
  cases hGet
  rcases bind_eq_ok.mp h with ⟨_, _, hEntries, h⟩
  rcases bind_eq_ok.mp h with ⟨_, _, hStep, h⟩
  rcases read_of_expect hStep with ⟨closing, hClosing⟩
  cases h
  rw [hClosing.diagnostics_eq, ← hOpening.diagnostics_eq] at hQuiet
  rcases derives_many isForward_listedAttribute
      (fun h _ => listedAttribute_eq_ok h)
      listedAttribute_eq_ok_none _ hEntries hQuiet with
    ⟨entries, hReads, rfl⟩
  exact ⟨⟨opening, entries, closing⟩,
    hOpening.trans (hReads.trans hClosing), rfl⟩

theorem anotherList_eq_ok
    {p q : Parser}
    {a : List Attribute}
    (h : anotherList p = .ok (some a) q) :
    attributeList p = .ok a q := by
  rcases bind_eq_ok.mp h with ⟨current, _, hPeek, h⟩
  cases hPeek
  split at h
  · rcases bind_eq_ok.mp h with ⟨_, _, hList, h⟩
    cases h
    exact hList
  · cases h

theorem anotherList_eq_ok_none
    {p q : Parser}
    (h : anotherList p = .ok none q) :
    p = q := by
  rcases bind_eq_ok.mp h with ⟨current, _, hPeek, h⟩
  cases hPeek
  split at h
  · rcases bind_eq_ok.mp h with ⟨_, _, _, h⟩
    cases h
  · cases h
    rfl

/- One list and others, as a part of a derivation. -/
theorem derives_attributeLists :
    Derives
      (fun d : ListTree × List ListTree =>
        d.1.tokens ++ d.2.flatMap ListTree.tokens)
      (fun d =>
        d.1.attributes ++ d.2.flatMap ListTree.attributes)
      attributeLists := by
  intro p q attributes h hQuiet
  rcases bind_eq_ok.mp h with ⟨_, r, hFirst, h⟩
  rcases bind_eq_ok.mp h with ⟨_, _, hGet, h⟩
  cases hGet
  rcases bind_eq_ok.mp h with ⟨_, _, hOthers, h⟩
  cases h
  have hSteady :=
    (isForward_attributeList.of_ok hFirst).diagnostics_eq
      ((isForward_anotherList.many _).of_ok hOthers) hQuiet
  rcases derives_attributeList hFirst hSteady.1 with
    ⟨first, hRead, rfl⟩
  rcases derives_many isForward_anotherList
      (fun h => derives_attributeList (anotherList_eq_ok h))
      anotherList_eq_ok_none _ hOthers hSteady.2 with
    ⟨others, hReads, rfl⟩
  exact ⟨(first, others), hRead.trans hReads, rfl⟩

theorem derives_optionalLists :
    Derives
      (List.flatMap ListTree.tokens)
      (List.flatMap ListTree.attributes)
      optionalLists := by
  intro p q attributes h hQuiet
  rcases bind_eq_ok.mp h with ⟨current, _, hPeek, h⟩
  cases hPeek
  split at h
  · rcases derives_attributeLists h hQuiet with
      ⟨⟨first, others⟩, hRead, hValue⟩
    exact ⟨first :: others, hRead, hValue⟩
  · cases h
    exact ⟨[], Read.refl _, rfl⟩

theorem assignment_eq_ok
    {ref : NodeRef}
    {p q : Parser}
    {parsed : Stmt}
    (h : assignment ref p = .ok parsed q) :
    ref.port = none ∧
      ∃ equal value,
        p.Read [Symbol.located .equal equal, valueToken value] q ∧
          parsed = .assign ⟨ref.name, value.value⟩ := by
  unfold assignment at h
  split at h
  · cases h
  · rename_i hPort
    rcases bind_eq_ok.mp h with ⟨_, _, hStep, h⟩
    rcases read_of_expect hStep with ⟨equal, hEqual⟩
    rcases bind_eq_ok.mp h with ⟨_, _, hStep, h⟩
    rcases read_of_expectValue hStep with ⟨value, hValue, rfl⟩
    cases h
    refine ⟨by simpa using hPort, equal, value, ?_, rfl⟩
    exact hEqual.trans hValue

------------------------------------------------------------
-- Statements
------------------------------------------------------------

section

variable {inner : Step (List Stmt)}

theorem derives_subgraph
    (hInner : Derives BodyTree.tokens BodyTree.stmts inner) :
    Derives SubgraphTree.tokens (fun d => (d.name, d.body))
      (subgraph inner) := by
  intro p q tree h hQuiet
  rcases bind_eq_ok.mp h with ⟨hasKeyword, _, hStep, h⟩
  rcases accept_eq_ok (by simp) hStep with
    ⟨rfl, keyword, hKeyword⟩ | ⟨rfl, rfl⟩
  · rcases bind_eq_ok.mp h with ⟨_, _, hStep, h⟩
    rcases read_of_acceptName hStep with ⟨name, hName, rfl⟩
    rcases bind_eq_ok.mp h with ⟨_, _, hStep, h⟩
    rcases read_of_expect hStep with ⟨opening, hOpening⟩
    rcases bind_eq_ok.mp h with ⟨_, _, hStep, h⟩
    cases h
    have hRead := hKeyword.trans (hName.trans hOpening)
    rw [← hRead.diagnostics_eq] at hQuiet
    rcases hInner hStep hQuiet with ⟨body, hBody, rfl⟩
    refine ⟨.mk (some (keyword, name)) opening body, ?_, ?_⟩
    · have hAll := hRead.trans hBody
      simpa [SubgraphTree.tokens, keywordTokens,
        Keyword.located] using hAll
    · cases name <;> rfl
  · rcases bind_eq_ok.mp h with ⟨_, _, hStep, h⟩
    rcases read_of_expect hStep with ⟨opening, hOpening⟩
    rcases bind_eq_ok.mp h with ⟨_, _, hStep, h⟩
    cases h
    rw [← hOpening.diagnostics_eq] at hQuiet
    rcases hInner hStep hQuiet with ⟨body, hBody, rfl⟩
    exact ⟨.mk none opening body, hOpening.trans hBody, rfl⟩

theorem derives_endpoint
    (hInner : Derives BodyTree.tokens BodyTree.stmts inner) :
    Derives EndTree.tokens EndTree.endpoint (endpoint inner) := by
  have hSubgraph {p q : Parser} {e : Endpoint}
      (h :
        ((fun tree => Endpoint.subgraph tree.1 tree.2) <$>
          subgraph inner) p = .ok e q)
      (hQuiet : q.diagnostics = p.diagnostics) :
      ∃ d : EndTree, p.Read d.tokens q ∧ d.endpoint = e := by
    rw [map_apply] at h
    cases hTree : subgraph inner p with
    | error d r => simp [hTree] at h
    | ok tree r =>
        rw [hTree] at h
        cases h
        rcases derives_subgraph hInner hTree hQuiet with
          ⟨d, hRead, rfl⟩
        exact ⟨.subgraph d, hRead, rfl⟩
  intro p q e h hQuiet
  rw [endpoint, bind_apply, peek_apply] at h
  cases hCurrent : p.current with
  | identifier name =>
      rw [hCurrent] at h
      rcases bind_eq_ok.mp h with ⟨_, _, hRef, h⟩
      cases h
      rcases nodeRef_eq_ok hRef with ⟨d, hRead, rfl⟩
      exact ⟨.node d, hRead, rfl⟩
  | symbol mark =>
      rw [hCurrent] at h
      cases mark
      case openBrace => exact hSubgraph h hQuiet
      all_goals cases h
  | keyword word =>
      rw [hCurrent] at h
      cases word
      case subgraph => exact hSubgraph h hQuiet
      all_goals cases h
  | endOfFile =>
      rw [hCurrent] at h
      cases h
  | html text =>
      rw [hCurrent] at h
      cases h
  | malformed cause =>
      rw [hCurrent] at h
      cases h

/- An edge operator and an end, as a part of a derivation. -/
def stepTokens (d : Placed Arrow × EndTree) : List Located :=
  arrowToken d.1 :: d.2.tokens

def stepValue (d : Placed Arrow × EndTree) : EdgeStep :=
  .mk d.1.value d.1.location d.2.endpoint

theorem edgeStep_eq_ok
    (hInner : Derives BodyTree.tokens BodyTree.stmts inner)
    {p q : Parser}
    {e : EdgeStep}
    (h : edgeStep inner p = .ok (some e) q)
    (hQuiet : q.diagnostics = p.diagnostics) :
    ∃ d, p.Read (stepTokens d) q ∧ stepValue d = e := by
  rw [edgeStep, bind_apply, peek_apply] at h
  cases hArrow : arrowOf? p.current with
  | none =>
      simp only [hArrow] at h
      cases h
  | some arrow =>
      simp only [hArrow] at h
      rcases bind_eq_ok.mp h with ⟨_, _, hGet, h⟩
      cases hGet
      rcases bind_eq_ok.mp h with ⟨_, _, hTake, h⟩
      cases hTake
      rcases bind_eq_ok.mp h with ⟨_, _, hHead, h⟩
      cases h
      rcases derives_endpoint hInner hHead hQuiet with
        ⟨d, hRead, rfl⟩
      refine ⟨(⟨arrow, p.stream.location⟩, d), ?_, rfl⟩
      exact (read_of_arrow hArrow).trans hRead

theorem edgeStep_eq_ok_none
    {p q : Parser}
    (h : edgeStep inner p = .ok none q) :
    p = q ∧ arrowOf? p.current = none := by
  rw [edgeStep, bind_apply, peek_apply] at h
  cases hArrow : arrowOf? p.current with
  | none =>
      simp only [hArrow] at h
      cases h
      exact ⟨rfl, rfl⟩
  | some arrow =>
      simp only [hArrow] at h
      rcases bind_eq_ok.mp h with ⟨_, _, _, h⟩
      rcases bind_eq_ok.mp h with ⟨_, _, _, h⟩
      rcases bind_eq_ok.mp h with ⟨_, _, _, h⟩
      cases h

/- The steps of an edge statement, gathered from the first one. -/
def stepsTree
    (first : Placed Arrow × EndTree) :
    List (Placed Arrow × EndTree) → StepsTree
| [] => .one first.1 first.2
| second :: others =>
    .more first.1 first.2 (stepsTree second others)

theorem tokens_stepsTree
    (first : Placed Arrow × EndTree)
    (others : List (Placed Arrow × EndTree)) :
    (stepsTree first others).tokens =
      (first :: others).flatMap stepTokens := by
  induction others generalizing first with
  | nil => simp [stepsTree, StepsTree.tokens, stepTokens]
  | cons second others ih =>
      rw [stepsTree, StepsTree.tokens, ih, List.flatMap_cons]
      rfl

theorem steps_stepsTree
    (first : Placed Arrow × EndTree)
    (others : List (Placed Arrow × EndTree)) :
    (stepsTree first others).steps =
      (first :: others).map stepValue := by
  induction others generalizing first with
  | nil => rfl
  | cons second others ih =>
      rw [stepsTree, StepsTree.steps, ih]
      rfl

/-
  An edge statement has a step at least if it starts in front of
  an edge operator.
-/
theorem edgeStmt_eq_ok
    (hInner : Derives BodyTree.tokens BodyTree.stmts inner)
    (hForward : IsForward inner)
    {tail : Endpoint}
    {p q : Parser}
    {parsed : Stmt}
    (h : edgeStmt inner tail p = .ok parsed q)
    (hArrow : arrowOf? p.current ≠ none)
    (hQuiet : q.diagnostics = p.diagnostics) :
    ∃ (steps : StepsTree) (lists : List ListTree),
      p.Read (steps.tokens ++ lists.flatMap ListTree.tokens) q ∧
        .edge tail steps.steps
          (lists.flatMap ListTree.attributes) = parsed := by
  rcases bind_eq_ok.mp h with ⟨_, _, hGet, h⟩
  cases hGet
  rcases bind_eq_ok.mp h with ⟨steps, r, hSteps, h⟩
  rcases bind_eq_ok.mp h with ⟨_, _, hLists, h⟩
  cases h
  have hEdge := isForward_edgeStep hForward
  have hSteady :=
    ((hEdge.many _).of_ok hSteps).diagnostics_eq
      (isForward_optionalLists.of_ok hLists) hQuiet
  rcases derives_optionalLists hLists hSteady.2 with
    ⟨lists, hRead, rfl⟩
  rcases derives_many hEdge (edgeStep_eq_ok hInner)
      (fun h => (edgeStep_eq_ok_none h).1) _ hSteps
      hSteady.1 with
    ⟨_ | ⟨first, others⟩, hReads, hValues⟩
  · cases hValues
    cases hReads
    rcases many_stops hSteps with hBound | ⟨_, hStop⟩
    · cases hBound
    · rcases edgeStep_eq_ok_none hStop with ⟨rfl, hNone⟩
      exact absurd hNone hArrow
  · refine ⟨stepsTree first others, lists, ?_, ?_⟩
    · rw [tokens_stepsTree]
      exact hReads.trans hRead
    · rw [steps_stepsTree, hValues]

theorem namedStmt_eq_ok
    (hInner : Derives BodyTree.tokens BodyTree.stmts inner)
    (hForward : IsForward inner) :
    Derives StmtTree.tokens StmtTree.stmt (namedStmt inner) := by
  intro p q parsed h hQuiet
  rcases bind_eq_ok.mp h with ⟨ref, r, hRef, _⟩
  rw [namedStmt_apply inner hRef] at h
  rcases nodeRef_eq_ok hRef with ⟨d, hRead, rfl⟩
  rw [← hRead.diagnostics_eq] at hQuiet
  split at h
  · rename_i hArrow
    rcases edgeStmt_eq_ok hInner hForward h hArrow hQuiet with
      ⟨steps, lists, hRest, hValue⟩
    exact ⟨.edge (.node d) steps lists, hRead.trans hRest, hValue⟩
  · split at h
    · rcases assignment_eq_ok h with
        ⟨hPort, equal, value, hRest, rfl⟩
      rcases d with ⟨name, _ | port⟩
      · exact ⟨.assign name equal value, hRead.trans hRest, rfl⟩
      · cases hPort
    · rw [map_apply] at h
      cases hLists : optionalLists r with
      | error e s =>
          rw [hLists] at h
          cases h
      | ok attributes s =>
          rw [hLists] at h
          cases h
          rcases derives_optionalLists hLists hQuiet with
            ⟨lists, hRest, rfl⟩
          exact ⟨.node d lists, hRead.trans hRest, rfl⟩

theorem subgraphStmt_eq_ok
    (hInner : Derives BodyTree.tokens BodyTree.stmts inner)
    (hForward : IsForward inner) :
    Derives StmtTree.tokens StmtTree.stmt (subgraphStmt inner) := by
  intro p q parsed h hQuiet
  rcases bind_eq_ok.mp h with ⟨tree, r, hTree, _⟩
  rw [subgraphStmt_apply inner hTree] at h
  have hFirst := (isForward_subgraph hForward).of_ok hTree
  split at h
  · rename_i hArrow
    have hSteady := hFirst.diagnostics_eq
      ((isForward_edgeStmt hForward _).of_ok h) hQuiet
    rcases derives_subgraph hInner hTree hSteady.1 with
      ⟨d, hRead, rfl⟩
    rcases edgeStmt_eq_ok hInner hForward h hArrow hSteady.2 with
      ⟨steps, lists, hRest, hValue⟩
    exact ⟨.edge (.subgraph d) steps lists, hRead.trans hRest,
      hValue⟩
  · cases h
    rcases derives_subgraph hInner hTree hQuiet with
      ⟨d, hRead, rfl⟩
    exact ⟨.subgraph d, hRead, rfl⟩

theorem defaultsStmt_eq_ok
    {p q : Parser}
    {kind : EntityKind}
    {parsed : Stmt}
    (h : defaultsStmt kind p = .ok parsed q)
    (hRead :
      p.Read [kindToken ⟨kind, p.stream.location⟩] p.advance)
    (hQuiet : q.diagnostics = p.diagnostics) :
    ∃ d : StmtTree, p.Read d.tokens q ∧ d.stmt = parsed := by
  rcases bind_eq_ok.mp h with ⟨_, _, hTake, h⟩
  cases hTake
  rcases bind_eq_ok.mp h with ⟨_, _, hLists, h⟩
  cases h
  rcases derives_attributeLists hLists hQuiet with
    ⟨⟨first, others⟩, hRest, rfl⟩
  exact ⟨.defaults ⟨kind, p.stream.location⟩ first others,
    hRead.trans hRest, rfl⟩

/- A statement is known by its first token. -/
theorem derives_stmt
    (hInner : Derives BodyTree.tokens BodyTree.stmts inner)
    (hForward : IsForward inner) :
    Derives StmtTree.tokens StmtTree.stmt (stmt inner) := by
  intro p q parsed h hQuiet
  rw [stmt, bind_apply, peek_apply] at h
  cases hCurrent : p.current with
  | identifier name =>
      rw [hCurrent] at h
      exact namedStmt_eq_ok hInner hForward h hQuiet
  | symbol mark =>
      rw [hCurrent] at h
      cases mark
      case openBrace =>
        exact subgraphStmt_eq_ok hInner hForward h hQuiet
      all_goals cases h
  | keyword word =>
      rw [hCurrent] at h
      cases word
      case subgraph =>
        exact subgraphStmt_eq_ok hInner hForward h hQuiet
      case graph =>
        exact defaultsStmt_eq_ok h
          (read_advance hCurrent (by simp)) hQuiet
      case node =>
        exact defaultsStmt_eq_ok h
          (read_advance hCurrent (by simp)) hQuiet
      case edge =>
        exact defaultsStmt_eq_ok h
          (read_advance hCurrent (by simp)) hQuiet
      all_goals cases h
  | endOfFile =>
      rw [hCurrent] at h
      cases h
  | html text =>
      rw [hCurrent] at h
      cases h
  | malformed cause =>
      rw [hCurrent] at h
      cases h

/- A parser that recovers keeps a diagnostic. -/
theorem derives_stmtOrRecover
    (hInner : Derives BodyTree.tokens BodyTree.stmts inner)
    (hForward : IsForward inner) :
    Derives StmtTree.tokens (some ∘ StmtTree.stmt)
      (stmtOrRecover inner) := by
  intro p q parsed h hQuiet
  rw [stmtOrRecover_apply] at h
  cases hStmt : stmt inner p with
  | ok a r =>
      simp only [hStmt] at h
      cases h
      rcases derives_stmt hInner hForward hStmt hQuiet with
        ⟨d, hRead, rfl⟩
      exact ⟨d, hRead, rfl⟩
  | error d r =>
      simp only [hStmt] at h
      have hFirst := ((isForward_stmt hForward).of_error hStmt).1
      split at h
      · cases h
      · cases hRecover : recover d r with
        | error e s =>
            rw [hRecover] at h
            cases h
        | ok u s =>
            rw [hRecover] at h
            cases h
            rcases recover_eq_ok hRecover with ⟨_, rest, _, rfl⟩
            rcases hFirst.diagnostics with ⟨kept, hKept, _⟩
            have hLength := congrArg List.length hQuiet
            simp only [facing, keeping, hKept, List.length_append,
              List.length_singleton] at hLength
            omega

end

/-
  Blocks are read by induction on their bound: the blocks inside
  have smaller ones.
-/
theorem derives_block
    (bound : Nat) :
    Derives BodyTree.tokens BodyTree.stmts (block bound) := by
  induction bound with
  | zero =>
      intro p q stmts h hQuiet
      cases h
  | succ bound ih =>
      intro p q stmts h hQuiet
      rw [block_apply] at h
      split at h
      · rename_i hCurrent
        rcases ih h hQuiet with ⟨d, hRead, rfl⟩
        have hFirst := read_advance hCurrent (by simp)
        exact ⟨.semicolon _ d, hFirst.trans hRead, rfl⟩
      · split at h
        · rename_i hCurrent
          cases h
          exact ⟨.close _, read_advance hCurrent (by simp), rfl⟩
        · split at h
          · cases h
          · rcases bind_eq_ok.mp h with ⟨parsed, r, hFirst, h⟩
            rw [map_apply] at h
            cases hRest : block bound r with
            | error e s =>
                rw [hRest] at h
                cases h
            | ok others s =>
                rw [hRest] at h
                cases h
                have hForward := isForward_block bound
                have hSteady :=
                  ((isForward_stmtOrRecover hForward).of_ok
                    hFirst).diagnostics_eq
                    (hForward.of_ok hRest) hQuiet
                rcases derives_stmtOrRecover ih hForward hFirst
                    hSteady.1 with ⟨d, hRead, rfl⟩
                rcases ih hRest hSteady.2 with ⟨ds, hReads, rfl⟩
                exact ⟨.stmt d ds, hRead.trans hReads, rfl⟩

------------------------------------------------------------
-- Graphs
------------------------------------------------------------

theorem graphKind_eq_ok
    {p q : Parser}
    {directed : Bool}
    (h : graphKind p = .ok directed q) :
    ∃ d, p.Read [directedToken d] q ∧ d.value = directed := by
  rw [graphKind, bind_apply, peek_apply] at h
  cases hCurrent : p.current with
  | keyword word =>
      rw [hCurrent] at h
      cases word
      case graph =>
        cases h
        exact ⟨⟨false, _⟩, read_advance hCurrent (by simp), rfl⟩
      case digraph =>
        cases h
        exact ⟨⟨true, _⟩, read_advance hCurrent (by simp), rfl⟩
      all_goals cases h
  | identifier name =>
      rw [hCurrent] at h
      cases h
  | symbol mark =>
      rw [hCurrent] at h
      cases h
  | endOfFile =>
      rw [hCurrent] at h
      cases h
  | html text =>
      rw [hCurrent] at h
      cases h
  | malformed cause =>
      rw [hCurrent] at h
      cases h

/- A graph is a header and a block. -/
theorem graph_eq_ok
    {p q : Parser}
    {decl : GraphDecl}
    (h : graph p = .ok decl q) :
    ∃ (d : HeaderTree) (r : Parser) (body : List Stmt),
      p.Read d.tokens r ∧
        block (r.stream.tokens.length + 1) r = .ok body q ∧
          decl = d.decl body := by
  rcases bind_eq_ok.mp h with ⟨_, _, hStep, h⟩
  rcases read_of_accept (by simp) hStep with ⟨strict, hStrict, rfl⟩
  rcases bind_eq_ok.mp h with ⟨_, _, hStep, h⟩
  rcases graphKind_eq_ok hStep with ⟨directed, hDirected, rfl⟩
  rcases bind_eq_ok.mp h with ⟨_, _, hStep, h⟩
  rcases read_of_acceptName hStep with ⟨name, hName, rfl⟩
  rcases bind_eq_ok.mp h with ⟨_, r, hStep, h⟩
  rcases read_of_expect hStep with ⟨opening, hOpening⟩
  rcases bind_eq_ok.mp h with ⟨body, _, hWhole, h⟩
  cases h
  rcases bind_eq_ok.mp hWhole with ⟨_, _, hGet, hBody⟩
  cases hGet
  exact ⟨⟨strict, directed, name, opening⟩, r, body,
    hStrict.trans (hDirected.trans (hName.trans hOpening)),
    hBody, rfl⟩

theorem derives_graph :
    Derives GraphTree.tokens GraphTree.decl graph := by
  intro p q decl h hQuiet
  rcases graph_eq_ok h with ⟨header, r, body, hHeader, hBody, rfl⟩
  rw [← hHeader.diagnostics_eq] at hQuiet
  rcases derives_block _ hBody hQuiet with ⟨d, hRest, rfl⟩
  exact ⟨⟨header, d⟩, hHeader.trans hRest, rfl⟩

theorem anotherGraph_eq_ok
    {p q : Parser}
    {decl : GraphDecl}
    (h : anotherGraph p = .ok (some decl) q) :
    graph p = .ok decl q := by
  rcases bind_eq_ok.mp h with ⟨current, _, hPeek, h⟩
  cases hPeek
  split at h
  · cases h
  · rcases bind_eq_ok.mp h with ⟨_, _, hGraph, h⟩
    cases h
    exact hGraph

theorem anotherGraph_eq_ok_none
    {p q : Parser}
    (h : anotherGraph p = .ok none q) :
    p = q ∧ p.current = .endOfFile := by
  rcases bind_eq_ok.mp h with ⟨current, _, hPeek, h⟩
  cases hPeek
  split at h
  · rename_i hEnd
    cases h
    exact ⟨rfl, hEnd⟩
  · rcases bind_eq_ok.mp h with ⟨_, _, _, h⟩
    cases h

/- The end shows only where no tokens are left. -/
theorem tokens_eq_nil_of_endOfFile
    {p : Parser}
    (hLast : p.current = .endOfFile)
    (hEnd : ∀ t ∈ p.stream.tokens, t.token ≠ .endOfFile) :
    p.stream.tokens = [] := by
  cases hTokens : p.stream.tokens with
  | nil => rfl
  | cons t rest =>
      rw [current, TokenStream.current, hTokens] at hLast
      rw [hTokens] at hEnd
      exact absurd hLast (hEnd t List.mem_cons_self)

/-
  A file whose tokens have no end among them is read whole: as
  each graph has a token, the bound is not what stops the
  parser.
-/
theorem file_eq_ok
    {p q : Parser}
    {decls : List GraphDecl}
    (h : file p = .ok decls q)
    (hQuiet : q.diagnostics = p.diagnostics)
    (hEnd :
      ∀ t ∈ p.advance.stream.tokens, t.token ≠ .endOfFile) :
    ∃ d : FileTree,
      d.tokens = p.advance.stream.tokens ∧ d.decls = decls := by
  rcases bind_eq_ok.mp h with ⟨_, _, hTake, h⟩
  cases hTake
  rcases bind_eq_ok.mp h with ⟨_, _, hGet, h⟩
  cases hGet
  rcases bind_eq_ok.mp h with ⟨graphs, r, hGraphs, h⟩
  split at h
  · cases h
  · rename_i hSome
    cases h
    rcases derives_many isForward_anotherGraph
        (fun h => derives_graph (anotherGraph_eq_ok h))
        (fun h => (anotherGraph_eq_ok_none h).1) _ hGraphs hQuiet
      with ⟨trees, hReads, rfl⟩
    have hTokens := hReads.tokens_eq
    rcases many_stops hGraphs with hBound | ⟨_, hStop⟩
    · have hLength :=
        length_le_length_flatMap length_graphTree_pos trees
      rw [List.length_map, bound, hTokens,
        List.length_append] at hBound
      omega
    · rcases anotherGraph_eq_ok_none hStop with ⟨rfl, hLast⟩
      rw [hTokens] at hEnd
      have hNil := tokens_eq_nil_of_endOfFile hLast
        fun t hMem => hEnd t (List.mem_append_right _ hMem)
      rw [hNil, List.append_nil] at hTokens
      cases trees with
      | nil => exact absurd rfl hSome
      | cons first others =>
          exact ⟨⟨first, others⟩, hTokens.symm, rfl⟩

end Parser

end DotLang
