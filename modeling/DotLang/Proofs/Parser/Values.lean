import DotLang.Proofs.Parser.Progress
import DotLang.Proofs.Registry.Built

/-
  This file proves that the parser makes up no values: markup in
  the statements that it gives is markup of the text, whatever
  it had to leave behind on the way.

  Key definitions include:
    * `Parser.HasGoodTokens`
    * `Parser.Yields`

  Key theorems include:
    * `Parser.yields_block`
    * `Parser.yields_file`
-/

------------------------------------------------------------
-- Results of Steps
------------------------------------------------------------

namespace DotLang

namespace Parser

variable {IsGood : Value → Prop}

/- All markup that is left in the text is good. -/
def HasGoodTokens
    (IsGood : Value → Prop)
    (p : Parser) : Prop :=
  ∀ t ∈ p.stream.tokens,
    ∀ text, t.token = .html text → IsGood (.html text)

theorem HasGoodTokens.of_precedes
    {p q : Parser}
    (h : p.HasGoodTokens IsGood)
    (hPrecedes : p.Precedes q) :
    q.HasGoodTokens IsGood :=
  fun t ht => h t (hPrecedes.tokens.subset ht)

/- Where all markup is good, the step gives such results. -/
def Yields
    {α : Type}
    (IsGood : Value → Prop)
    (step : Step α)
    (Result : α → Prop) : Prop :=
  ∀ (p q : Parser) (a : α),
    p.HasGoodTokens IsGood → step p = .ok a q → Result a

section

variable {α β : Type} {step : Step α} {Result : α → Prop}
variable {Second : β → Prop}

theorem yields_true
    (step : Step α) :
    Yields IsGood step fun _ => True :=
  fun _ _ _ _ _ => trivial

theorem yields_pure
    {a : α}
    (h : Result a) :
    Yields IsGood (pure a) Result := by
  intro p q b _ hStep
  cases hStep
  exact h

theorem Yields.bind
    {second : α → Step β}
    (h : Yields IsGood step Result)
    (hForward : IsForward step)
    (h' : ∀ a, Result a → Yields IsGood (second a) Second) :
    Yields IsGood (step >>= second) Second := by
  intro p r b hGood hStep
  rcases bind_eq_ok.mp hStep with ⟨a, q, hFirst, hSecond⟩
  exact h' a (h p q a hGood hFirst) q r b
    (hGood.of_precedes (hForward.of_ok hFirst)) hSecond

/- A step whose result does not matter. -/
theorem yields_bind
    {second : α → Step β}
    (hForward : IsForward step)
    (h : ∀ a, Yields IsGood (second a) Second) :
    Yields IsGood (step >>= second) Second :=
  (yields_true step).bind hForward fun a _ => h a

theorem yields_unexpected
    (allowed : Expectation) :
    Yields IsGood (unexpected allowed) Result := by
  intro p q a _ hStep
  rw [unexpected_apply] at hStep
  cases hStep

/- What each round of a repeated step gives, the rounds give. -/
theorem Yields.many
    {step : Step (Option α)}
    (hForward : IsForward step)
    (h : Yields IsGood step fun found => ∀ a ∈ found, Result a)
    (bound : Nat) :
    Yields IsGood (many step bound) fun found =>
      ∀ a ∈ found, Result a := by
  induction bound with
  | zero => exact yields_pure (by simp)
  | succ bound ih =>
      refine h.bind hForward fun first hFirst => ?_
      cases first with
      | none => exact yields_pure (by simp)
      | some first =>
          refine ih.bind (hForward.many bound) fun rest hRest => ?_
          apply yields_pure
          intro a ha
          rcases List.mem_cons.mp ha with rfl | ha
          · exact hFirst a rfl
          · exact hRest a ha

end

------------------------------------------------------------
-- Values and Attributes
------------------------------------------------------------

section

variable (hPlain : ∀ text, IsGood (.plain text))

include hPlain

theorem yields_expectValue :
    Yields IsGood expectValue IsGood := by
  intro p q value hGood hStep
  rw [expectValue_apply] at hStep
  cases hCurrent : p.current with
  | identifier text =>
      rw [hCurrent] at hStep
      cases hStep
      exact hPlain text
  | html text =>
      rw [hCurrent] at hStep
      cases hStep
      cases hTokens : p.stream.tokens with
      | nil =>
          rw [current, TokenStream.current, hTokens] at hCurrent
          cases hCurrent
      | cons t tokens =>
          rw [current, TokenStream.current, hTokens] at hCurrent
          apply hGood t _ text hCurrent
          rw [hTokens]
          exact List.mem_cons_self
  | _ =>
      rw [hCurrent] at hStep
      cases hStep

theorem yields_listedAttribute :
    Yields IsGood listedAttribute fun found =>
      ∀ a ∈ found, IsGood a.value := by
  refine yields_bind isForward_peek fun current => ?_
  split
  · exact yields_pure (by simp)
  · refine yields_bind (isForward_expectName _) fun name => ?_
    refine yields_bind (isForward_expect _) fun _ => ?_
    refine (yields_expectValue hPlain).bind isForward_expectValue
      fun value hValue => ?_
    refine yields_bind (isForward_accept _) fun _ => ?_
    refine yields_bind (isForward_accept _) fun _ => ?_
    apply yields_pure
    intro a ha
    rw [← Option.some.inj ha]
    exact hValue

theorem yields_attributeList :
    Yields IsGood attributeList fun found =>
      ∀ a ∈ found, IsGood a.value := by
  refine yields_bind (isForward_expect _) fun _ => ?_
  refine yields_bind isForward_get fun p => ?_
  refine ((yields_listedAttribute hPlain).many
    isForward_listedAttribute _).bind
    (isForward_listedAttribute.many _) fun found hFound => ?_
  exact yields_bind (isForward_expect _) fun _ =>
    yields_pure hFound

theorem yields_anotherList :
    Yields IsGood anotherList fun found =>
      ∀ list ∈ found, ∀ a ∈ list, IsGood a.value := by
  refine yields_bind isForward_peek fun current => ?_
  split
  · refine (yields_attributeList hPlain).bind
      isForward_attributeList fun list hList => ?_
    apply yields_pure
    intro other hOther
    rw [← Option.some.inj hOther]
    exact hList
  · exact yields_pure (by simp)

theorem yields_attributeLists :
    Yields IsGood attributeLists fun found =>
      ∀ a ∈ found, IsGood a.value := by
  refine (yields_attributeList hPlain).bind isForward_attributeList
    fun first hFirst => ?_
  refine yields_bind isForward_get fun p => ?_
  refine ((yields_anotherList hPlain).many
    isForward_anotherList _).bind (isForward_anotherList.many _)
    fun others hOthers => ?_
  apply yields_pure
  intro a ha
  rcases List.mem_append.mp ha with ha | ha
  · exact hFirst a ha
  · rcases List.mem_flatten.mp ha with ⟨list, hList, ha⟩
    exact hOthers list hList a ha

theorem yields_optionalLists :
    Yields IsGood optionalLists fun found =>
      ∀ a ∈ found, IsGood a.value := by
  refine yields_bind isForward_peek fun current => ?_
  split
  · exact yields_attributeLists hPlain
  · exact yields_pure (by simp)

------------------------------------------------------------
-- Statements
------------------------------------------------------------

theorem yields_assignment
    (ref : NodeRef) :
    Yields IsGood (assignment ref) (Stmt.HasValues IsGood) := by
  unfold assignment
  split
  · intro p q a _ hStep
    cases hStep
  · refine yields_bind (isForward_expect _) fun _ => ?_
    exact (yields_expectValue hPlain).bind isForward_expectValue
      fun value hValue => yields_pure hValue

section

variable {inner : Step (List Stmt)}
variable
  (hForward : IsForward inner)
  (hInner : Yields IsGood inner (bodyHasValues IsGood))

include hForward hInner

omit hPlain in
theorem yields_subgraph :
    Yields IsGood (subgraph inner) fun found =>
      bodyHasValues IsGood found.2 := by
  refine yields_bind (isForward_accept _) fun hasKeyword => ?_
  split
  · refine yields_bind isForward_acceptName fun name => ?_
    refine yields_bind (isForward_expect _) fun _ => ?_
    exact hInner.bind hForward fun body hBody =>
      yields_pure hBody
  · refine yields_bind (isForward_expect _) fun _ => ?_
    exact hInner.bind hForward fun body hBody =>
      yields_pure hBody

omit hPlain in
theorem yields_endpoint :
    Yields IsGood (endpoint inner)
      (Endpoint.HasValues IsGood) := by
  have hSubgraph :
      Yields IsGood
        (do
          let found ← subgraph inner
          return Endpoint.subgraph found.1 found.2)
        (Endpoint.HasValues IsGood) :=
    (yields_subgraph hForward hInner).bind
      (isForward_subgraph hForward) fun found hFound =>
        yields_pure hFound
  refine yields_bind isForward_peek fun current => ?_
  split
  · exact yields_bind isForward_nodeRef fun ref =>
      yields_pure trivial
  · exact hSubgraph
  · exact hSubgraph
  · exact yields_unexpected _

omit hPlain in
theorem yields_edgeStep :
    Yields IsGood (edgeStep inner) fun found =>
      ∀ step ∈ found, stepsHaveValues IsGood [step] := by
  refine yields_bind isForward_peek fun current => ?_
  split
  · exact yields_pure (by simp)
  · refine yields_bind isForward_get fun p => ?_
    refine yields_bind isForward_take fun _ => ?_
    refine (yields_endpoint hForward hInner).bind
      (isForward_endpoint hForward) fun head hHead => ?_
    apply yields_pure
    intro step hStep
    rw [← Option.some.inj hStep]
    exact ⟨hHead, trivial⟩

omit hPlain hForward hInner in
theorem stepsHaveValues_of_forall
    {steps : List EdgeStep}
    (h : ∀ step ∈ steps, stepsHaveValues IsGood [step]) :
    stepsHaveValues IsGood steps := by
  induction steps with
  | nil => trivial
  | cons step steps ih =>
      rcases step with ⟨arrow, location, head⟩
      have hFirst := h (.mk arrow location head) List.mem_cons_self
      exact ⟨hFirst.1,
        ih fun s hs => h s (List.mem_cons_of_mem _ hs)⟩

theorem yields_edgeStmt
    {tail : Endpoint}
    (hTail : tail.HasValues IsGood) :
    Yields IsGood (edgeStmt inner tail) (Stmt.HasValues IsGood) := by
  have hStep := isForward_edgeStep hForward
  refine yields_bind isForward_get fun p => ?_
  refine ((yields_edgeStep hForward hInner).many hStep _).bind
    (hStep.many _) fun steps hSteps => ?_
  refine (yields_optionalLists hPlain).bind isForward_optionalLists
    fun attributes hAttributes => ?_
  exact yields_pure
    ⟨hTail, stepsHaveValues_of_forall hSteps, hAttributes⟩

theorem yields_namedStmt :
    Yields IsGood (namedStmt inner) (Stmt.HasValues IsGood) := by
  refine yields_bind isForward_nodeRef fun ref => ?_
  refine yields_bind isForward_peek fun current => ?_
  split
  · exact yields_edgeStmt hPlain hForward hInner trivial
  · exact yields_edgeStmt hPlain hForward hInner trivial
  · exact yields_assignment hPlain ref
  · exact (yields_optionalLists hPlain).bind
      isForward_optionalLists fun attributes hAttributes =>
        yields_pure hAttributes

theorem yields_subgraphStmt :
    Yields IsGood (subgraphStmt inner)
      (Stmt.HasValues IsGood) := by
  refine (yields_subgraph hForward hInner).bind
    (isForward_subgraph hForward) fun found hFound => ?_
  refine yields_bind isForward_peek fun current => ?_
  split
  · exact yields_edgeStmt hPlain hForward hInner hFound
  · exact yields_pure hFound

omit hForward hInner in
theorem yields_defaultsStmt
    (kind : EntityKind) :
    Yields IsGood (defaultsStmt kind) (Stmt.HasValues IsGood) := by
  refine yields_bind isForward_take fun _ => ?_
  exact (yields_attributeLists hPlain).bind isForward_attributeLists
    fun attributes hAttributes => yields_pure hAttributes

theorem yields_stmt :
    Yields IsGood (stmt inner) (Stmt.HasValues IsGood) := by
  refine yields_bind isForward_peek fun current => ?_
  split
  · exact yields_namedStmt hPlain hForward hInner
  · exact yields_subgraphStmt hPlain hForward hInner
  · exact yields_subgraphStmt hPlain hForward hInner
  · exact yields_defaultsStmt hPlain _
  · exact yields_defaultsStmt hPlain _
  · exact yields_defaultsStmt hPlain _
  · exact yields_unexpected _

/- A broken statement gives nothing. -/
theorem yields_stmtOrRecover :
    Yields IsGood (stmtOrRecover inner) fun found =>
      ∀ parsed ∈ found, Stmt.HasValues IsGood parsed := by
  intro p q found hGood hStep
  rw [stmtOrRecover_apply] at hStep
  cases hStmt : stmt inner p with
  | ok parsed r =>
      rw [hStmt] at hStep
      cases hStep
      intro other hOther
      rw [← Option.some.inj hOther]
      exact yields_stmt hPlain hForward hInner p _ _ hGood hStmt
  | error d r =>
      rw [hStmt] at hStep
      cases hFatal : d.isFatal with
      | true => simp [hFatal] at hStep
      | false =>
          cases hRecover : recover d r with
          | ok u s =>
              simp only [hFatal, hRecover, Bool.false_eq_true,
                if_false] at hStep
              cases hStep
              simp
          | error e s => simp [hFatal, hRecover] at hStep

end

------------------------------------------------------------
-- Blocks and Graphs
------------------------------------------------------------

theorem yields_block
    (bound : Nat) :
    Yields IsGood (block bound) (bodyHasValues IsGood) := by
  induction bound with
  | zero => exact yields_unexpected _
  | succ bound ih =>
      have hBlock := isForward_block bound
      refine yields_bind isForward_peek fun current => ?_
      split
      · exact yields_bind isForward_take fun _ => ih
      · exact yields_bind isForward_take fun _ =>
          yields_pure trivial
      · exact yields_unexpected _
      · refine (yields_stmtOrRecover hPlain hBlock ih).bind
          (isForward_stmtOrRecover hBlock) fun found hFound => ?_
        refine ih.bind hBlock fun rest hRest => ?_
        apply yields_pure
        cases found with
        | none => exact hRest
        | some parsed => exact ⟨hFound parsed rfl, hRest⟩

theorem yields_graph :
    Yields IsGood graph fun decl =>
      bodyHasValues IsGood decl.body := by
  refine yields_bind (isForward_accept _) fun strict => ?_
  refine yields_bind isForward_graphKind fun directed => ?_
  refine yields_bind isForward_acceptName fun name => ?_
  refine yields_bind (isForward_expect _) fun _ => ?_
  have hBlock :
      Yields IsGood wholeBlock (bodyHasValues IsGood) :=
    yields_bind isForward_get fun _ => yields_block hPlain _
  exact hBlock.bind isForward_wholeBlock fun body hBody =>
    yields_pure hBody

theorem yields_anotherGraph :
    Yields IsGood anotherGraph fun found =>
      ∀ decl ∈ found, bodyHasValues IsGood decl.body := by
  refine yields_bind isForward_peek fun current => ?_
  split
  · exact yields_pure (by simp)
  · refine (yields_graph hPlain).bind isForward_graph
      fun decl hDecl => ?_
    apply yields_pure
    intro other hOther
    rw [← Option.some.inj hOther]
    exact hDecl

/- All values of a file are values of its text. -/
theorem yields_file :
    Yields IsGood file fun decls =>
      ∀ decl ∈ decls, bodyHasValues IsGood decl.body := by
  refine yields_bind isForward_take fun _ => ?_
  refine yields_bind isForward_get fun p => ?_
  refine ((yields_anotherGraph hPlain).many
    isForward_anotherGraph _).bind (isForward_anotherGraph.many _)
    fun decls hDecls => ?_
  split
  · exact yields_unexpected _
  · exact yields_pure hDecls

end

end Parser

end DotLang
