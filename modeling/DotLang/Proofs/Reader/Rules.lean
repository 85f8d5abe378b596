import DotLang.Proofs.Parser.Turns
import DotLang.Proofs.Reader.Agreement
import DotLang.Proofs.Reader.Grammar

/-
  This file proves that the rules of the reader agree with those
  of the parser, from any place in any text.

  Rules that hold a block agree if the block does behind its
  opening brace.  Blocks then agree because each one has fewer
  tokens than what it stands in.

  Key theorems include:
    * `Reader.agrees_stmt`
    * `Reader.agreesAt_block`
    * `Reader.agrees_anotherGraph`
    * `Reader.agreesAt_file`
-/

------------------------------------------------------------
-- Mentions and Attributes
------------------------------------------------------------

namespace DotLang

namespace Reader

section

variable {r : Reader}

theorem agrees_nodeRef : Agrees nodeRef Parser.nodeRef r := by
  refine (agrees_expectName _).bind fun name => ?_
  refine (agrees_accept (by simp)).bind fun hasPort => ?_
  cases hasPort with
  | false => exact agrees_pure _
  | true =>
      refine (agrees_expectName _).bind fun port => ?_
      refine (agrees_accept (by simp)).bind fun hasCompass => ?_
      cases hasCompass with
      | false => exact agrees_pure _
      | true =>
          exact (agrees_expectName _).bind fun _ => agrees_pure _

theorem agrees_listedAttribute :
    Agrees listedAttribute Parser.listedAttribute r := by
  intro s _
  refine AgreesAt.peek ?_
  by_cases hEnd : s.current.token = .symbol .closeBracket
  · rw [if_pos hEnd, if_pos hEnd]
    exact agreesAt_pure _
  · rw [if_neg hEnd, if_neg hEnd]
    refine Agrees.agreesAt ?_
    refine (agrees_expectName _).bind fun name => ?_
    refine (agrees_expect _).bind fun _ => ?_
    refine agrees_expectValue.bind fun value => ?_
    refine (agrees_accept (by simp)).bind fun _ => ?_
    exact (agrees_accept (by simp)).bind fun _ => agrees_pure _

theorem agrees_attributeList :
    Agrees attributeList Parser.attributeList r := by
  refine (agrees_expect _).bind fun _ => ?_
  refine (isLoop_many _).agrees
    Parser.length_lt_of_listedAttribute agrees_listedAttribute ?_
  intro attributes
  exact (agrees_expect _).bind fun _ => agrees_pure _

theorem agrees_anotherList :
    Agrees anotherList Parser.anotherList r := by
  intro s _
  refine AgreesAt.peek ?_
  by_cases hOpen : s.current.token = .symbol .openBracket
  · rw [if_pos hOpen, if_pos hOpen]
    refine Agrees.agreesAt ?_
    exact agrees_attributeList.bind fun _ => agrees_pure _
  · rw [if_neg hOpen, if_neg hOpen]
    exact agreesAt_pure _

theorem agrees_attributeLists :
    Agrees attributeLists Parser.attributeLists r := by
  refine agrees_attributeList.bind fun first => ?_
  exact (isLoop_many _).agrees Parser.length_lt_of_anotherList
    agrees_anotherList fun _ => agrees_pure _

theorem agrees_optionalLists :
    Agrees optionalLists Parser.optionalLists r := by
  intro s _
  refine AgreesAt.peek ?_
  by_cases hOpen : s.current.token = .symbol .openBracket
  · rw [if_pos hOpen, if_pos hOpen]
    exact agrees_attributeLists.agreesAt
  · rw [if_neg hOpen, if_neg hOpen]
    exact agreesAt_pure _

theorem agrees_assignment
    (ref : NodeRef) :
    Agrees (assignment ref) (Parser.assignment ref) r := by
  unfold assignment Parser.assignment
  split
  · intro s _
    have hPort : s.parser.portAssigned = s.portAssigned := by
      simp [Parser.portAssigned, portAssigned]
    refine AgreesAt.get ?_
    rw [hPort]
    exact ⟨s, GoesTo.refl s, rfl, rfl⟩
  · refine (agrees_expect _).bind fun _ => ?_
    exact agrees_expectValue.bind fun _ => agrees_pure _

/- The keyword in front of defaults is not the end of the file. -/
theorem agreesAt_defaultsStmt
    (kind : EntityKind)
    (hToken : r.current.token ≠ .endOfFile) :
    AgreesAt (defaultsStmt kind) (Parser.defaultsStmt kind) r := by
  refine .take hToken (Agrees.agreesAt ?_)
  exact agrees_attributeLists.bind fun _ => agrees_pure _

end

------------------------------------------------------------
-- Statements
------------------------------------------------------------

/- Blocks agree behind the braces that open them. -/
def AgreesBraced
    (nested : Step (List Stmt))
    (inner : Parser.Step (List Stmt))
    (r : Reader) : Prop :=
  Agrees
    (expect .openBrace >>= fun _ => nested)
    (Parser.expect .openBrace >>= fun _ => inner) r

section

variable
  {nested : Step (List Stmt)}
  {steps : Step (List EdgeStep)}
  {inner : Parser.Step (List Stmt)}
  {r : Reader}

theorem AgreesBraced.block
    {α : Type}
    {next : List Stmt → Step α}
    {next' : List Stmt → Parser.Step α}
    (h : AgreesBraced nested inner r)
    (hNext : ∀ body, Agrees (next body) (next' body) r) :
    Agrees
      (expect .openBrace >>= fun _ => nested >>= next)
      (Parser.expect .openBrace >>= fun _ => inner >>= next') r := by
  have hAll := Agrees.bind h hNext
  rwa [bind_assoc, bind_assoc] at hAll

theorem agrees_subgraph
    (h : AgreesBraced nested inner r) :
    Agrees (subgraph nested) (Parser.subgraph inner) r := by
  refine (agrees_accept (by simp)).bind fun hasKeyword => ?_
  cases hasKeyword with
  | false => exact h.block fun _ => agrees_pure _
  | true =>
      refine agrees_acceptName.bind fun name => ?_
      exact h.block fun _ => agrees_pure _

theorem agrees_endpoint
    (h : AgreesBraced nested inner r) :
    Agrees (endpoint nested) (Parser.endpoint inner) r := by
  intro s hGoes
  refine AgreesAt.peek ?_
  cases s.current.token with
  | identifier name =>
      exact agrees_nodeRef.agreesAt.bind fun _ => agrees_pure _
  | symbol mark =>
      cases mark
      case openBrace =>
        exact (agrees_subgraph h).bind (fun _ => agrees_pure _) s hGoes
      all_goals exact agreesAt_unexpected _
  | keyword word =>
      cases word
      case subgraph =>
        exact (agrees_subgraph h).bind (fun _ => agrees_pure _) s hGoes
      all_goals exact agreesAt_unexpected _
  | _ => exact agreesAt_unexpected _

theorem agrees_edgeStep
    (h : AgreesBraced nested inner r) :
    Agrees (edgeStep nested) (Parser.edgeStep inner) r := by
  intro s hGoes
  refine AgreesAt.peek ?_
  cases hArrow : Parser.arrowOf? s.current.token with
  | none => exact agreesAt_pure _
  | some arrow =>
      have hToken : s.current.token ≠ .endOfFile := by
        intro hEnd
        rw [hEnd] at hArrow
        cases hArrow
      have hCall := hGoes.trans (goesTo_call hToken)
      refine AgreesAt.get ?_
      rw [parser_location]
      refine .take hToken ?_
      exact (agrees_endpoint h).bind (fun _ => agrees_pure _) _ hCall

theorem agrees_edgeStmt
    (h : AgreesBraced nested inner r)
    (hForward : Parser.IsForward inner)
    (hLoop : IsLoop (edgeStep nested) steps)
    (tail : Endpoint) :
    Agrees (edgeStmt steps tail) (Parser.edgeStmt inner tail) r := by
  refine hLoop.agrees (Parser.length_lt_of_edgeStep hForward)
    (agrees_edgeStep h) fun steps => ?_
  exact agrees_optionalLists.bind fun _ => agrees_pure _

theorem agrees_namedStmt
    (h : AgreesBraced nested inner r)
    (hForward : Parser.IsForward inner)
    (hLoop : IsLoop (edgeStep nested) steps) :
    Agrees (namedStmt steps) (Parser.namedStmt inner) r := by
  refine agrees_nodeRef.bind fun ref => ?_
  intro s hGoes
  refine AgreesAt.peek ?_
  have hEdge :=
    agrees_edgeStmt h hForward hLoop (.node ref) s hGoes
  have hPlain :
      AgreesAt
        (do return Stmt.node ref (← optionalLists))
        (do return Stmt.node ref (← Parser.optionalLists)) s :=
    agrees_optionalLists.agreesAt.bind fun _ => agrees_pure _
  cases s.current.token with
  | symbol mark =>
      cases mark
      case arrow => exact hEdge
      case line => exact hEdge
      case equal => exact (agrees_assignment ref).agreesAt
      all_goals exact hPlain
  | _ => exact hPlain

theorem agrees_subgraphStmt
    (h : AgreesBraced nested inner r)
    (hForward : Parser.IsForward inner)
    (hLoop : IsLoop (edgeStep nested) steps) :
    Agrees (subgraphStmt nested steps) (Parser.subgraphStmt inner)
      r := by
  refine (agrees_subgraph h).bind fun tree => ?_
  intro s hGoes
  refine AgreesAt.peek ?_
  cases Parser.arrowOf? s.current.token with
  | none => exact agreesAt_pure _
  | some arrow => exact agrees_edgeStmt h hForward hLoop _ s hGoes

theorem agrees_stmt
    (h : AgreesBraced nested inner r)
    (hForward : Parser.IsForward inner)
    (hLoop : IsLoop (edgeStep nested) steps) :
    Agrees (stmt nested steps) (Parser.stmt inner) r := by
  intro s hGoes
  refine AgreesAt.peek ?_
  have hSubgraph := agrees_subgraphStmt h hForward hLoop s hGoes
  have hDefaults (kind : EntityKind)
      (hToken : s.current.token ≠ .endOfFile) :=
    agreesAt_defaultsStmt kind hToken
  cases hCurrent : s.current.token with
  | identifier name => exact agrees_namedStmt h hForward hLoop s hGoes
  | symbol mark =>
      cases mark
      case openBrace => exact hSubgraph
      all_goals exact agreesAt_unexpected _
  | keyword word =>
      cases word
      case subgraph => exact hSubgraph
      case graph => exact hDefaults .graph (by simp [hCurrent])
      case node => exact hDefaults .node (by simp [hCurrent])
      case edge => exact hDefaults .edge (by simp [hCurrent])
      all_goals exact agreesAt_unexpected _
  | _ => exact agreesAt_unexpected _

theorem stmtOrRecover_apply
    (r : Reader) :
    stmtOrRecover nested steps r =
      match stmt nested steps r with
      | none => none
      | some (.ok parsed, s) => some (.ok (some parsed), s)
      | some (.error d, s) => brokenStmt d s := by
  show StateT.bind (stmt nested steps) _ r = _
  unfold StateT.bind
  show Option.bind (stmt nested steps r) _ = _
  cases stmt nested steps r with
  | none => rfl
  | some result => rcases result with ⟨_ | _, _⟩ <;> rfl

theorem agreesAt_brokenStmt
    (d : Diagnostic) :
    AgreesAt (brokenStmt d)
      (if d.isFatal then
        throw d
      else
        Parser.recover d >>= fun _ => pure none) r := by
  unfold brokenStmt
  by_cases hFatal : d.isFatal = true
  · rw [if_pos hFatal, if_pos hFatal]
    exact ⟨r, GoesTo.refl r, rfl, rfl⟩
  · rw [if_neg hFatal, if_neg hFatal]
    exact (agrees_recover d).agreesAt.bind fun _ => agrees_pure _

/- A statement that fails is left where it failed. -/
theorem agrees_stmtOrRecover
    (h : AgreesBraced nested inner r)
    (hForward : Parser.IsForward inner)
    (hLoop : IsLoop (edgeStep nested) steps) :
    Agrees (stmtOrRecover nested steps)
      (Parser.stmtOrRecover inner) r := by
  intro s hGoes
  rcases agrees_stmt h hForward hLoop s hGoes with
    ⟨t, hGoes', hStmt⟩
  unfold AgreesAt
  rw [stmtOrRecover_apply, Parser.stmtOrRecover_apply]
  cases hOther : Parser.stmt inner s.parser with
  | ok parsed p =>
      rw [hOther] at hStmt
      rw [hStmt.1]
      exact ⟨t, hGoes', rfl, hStmt.2⟩
  | error d p =>
      rw [hOther] at hStmt
      rcases hStmt with ⟨hStmt, rfl⟩
      rcases agreesAt_brokenStmt (r := t) d with
        ⟨u, hGoes'', hBroken⟩
      rw [hStmt]
      refine ⟨u, hGoes'.trans hGoes'', ?_⟩
      by_cases hFatal : d.isFatal = true
      · simp only [if_pos hFatal] at hBroken ⊢
        exact hBroken
      · simp only [if_neg hFatal] at hBroken ⊢
        rw [Parser.bind_apply] at hBroken
        cases hRecover : Parser.recover d t.parser with
        | ok u' q =>
            rw [hRecover] at hBroken
            exact hBroken
        | error e q =>
            rw [hRecover] at hBroken
            exact hBroken

end

------------------------------------------------------------
-- Blocks
------------------------------------------------------------

theorem isLoop_edgeSteps : IsLoop (edgeStep block) edgeSteps := by
  refine Rule.items.eq_1.trans (bind_congr fun first => ?_)
  cases first <;> rfl

/- Semicolons in front of a statement are taken one by one. -/
theorem many_anotherSemicolon_apply
    {α : Type}
    (next : Step α)
    (r : Reader) :
    (anotherSemicolon.many >>= fun _ => next) r =
      if r.current.token = .symbol .semicolon then
        (anotherSemicolon.many >>= fun _ => next) r.call
      else
        next r := by
  conv_lhs => rw [Step.many]
  by_cases hCurrent : r.current.token = .symbol .semicolon
  · have hTurn :
        anotherSemicolon r = some (.ok (some ()), r.call) := by
      simp only [anotherSemicolon, accept, bind_apply, peek_apply,
        if_pos hCurrent]
      rfl
    simp only [bind_apply, hTurn, if_pos hCurrent]
    cases anotherSemicolon.many r.call with
    | none => rfl
    | some result => rcases result with ⟨_ | _, _⟩ <;> rfl
  · have hTurn : anotherSemicolon r = some (.ok none, r) := by
      simp only [anotherSemicolon, accept, bind_apply, peek_apply,
        if_neg hCurrent]
      rfl
    simp only [bind_apply, hTurn, if_neg hCurrent]
    rfl

/- What a turn of a block is, by its first token. -/
theorem blockTurn_apply
    (nested : Step (List Stmt))
    (steps : Step (List EdgeStep))
    (r : Reader) :
    blockTurn nested steps r =
      if r.current.token = .symbol .semicolon then
        blockTurn nested steps r.call
      else if r.current.token = .symbol .closeBrace then
        some (.ok none, r.call)
      else if r.current.token = .endOfFile then
        some (.error (r.diagnostic (.symbol .closeBrace)), r)
      else
        (stmtOrRecover nested steps >>= fun parsed =>
          pure (some parsed)) r := by
  refine
    (many_anotherSemicolon_apply (anotherStmt nested steps) r).trans ?_
  by_cases hSemicolon : r.current.token = .symbol .semicolon
  · rw [if_pos hSemicolon, if_pos hSemicolon]
  · rw [if_neg hSemicolon, if_neg hSemicolon]
    unfold anotherStmt
    rw [bind_apply, peek_apply]
    cases hCurrent : r.current.token with
    | symbol mark =>
        rw [hCurrent] at hSemicolon
        cases mark
        case semicolon => exact absurd rfl hSemicolon
        all_goals rfl
    | _ => rfl

/- What a block is, by its first token. -/
theorem block_apply
    (r : Reader) :
    block r =
      if r.current.token = .symbol .semicolon then
        block r.call
      else if r.current.token = .symbol .closeBrace then
        some (.ok [], r.call)
      else if r.current.token = .endOfFile then
        some (.error (r.diagnostic (.symbol .closeBrace)), r)
      else
        (stmtOrRecover block edgeSteps >>= fun parsed =>
          block >>= fun rest =>
            pure (parsed.toList ++ rest)) r := by
  have hBlock (r : Reader) := congrFun Rule.items.eq_2 r
  refine (hBlock r).trans ?_
  rw [bind_apply, blockTurn_apply]
  by_cases hSemicolon : r.current.token = .symbol .semicolon
  · rw [if_pos hSemicolon, if_pos hSemicolon]
    exact ((hBlock r.call).trans (bind_apply _ _ _)).symm
  rw [if_neg hSemicolon, if_neg hSemicolon]
  by_cases hClose : r.current.token = .symbol .closeBrace
  · rw [if_pos hClose, if_pos hClose]
    rfl
  rw [if_neg hClose, if_neg hClose]
  by_cases hEnd : r.current.token = .endOfFile
  · rw [if_pos hEnd, if_pos hEnd]
  rw [if_neg hEnd, if_neg hEnd, bind_apply, bind_apply]
  have hStmt :
      stmtOrRecover Rule.block.items Rule.edgeSteps.items r =
        stmtOrRecover block edgeSteps r := rfl
  rw [hStmt]
  cases stmtOrRecover block edgeSteps r with
  | none => rfl
  | some result => rcases result with ⟨_ | _, _⟩ <;> rfl

/- A block behind its opening brace has fewer tokens. -/
theorem agreesBraced_of_length_lt
    {other : Parser.Step (List Stmt)}
    {r : Reader}
    (h :
      ∀ {s : Reader},
        s.parser.stream.tokens.length <
            r.parser.stream.tokens.length →
          AgreesAt block other s) :
    AgreesBraced block other r := by
  intro s hGoes
  refine (agrees_expect _ s (GoesTo.refl s)).bind_of ?_
  intro _ t hGoes' hOpen
  rcases Parser.read_of_expect hOpen with ⟨_, hRead⟩
  have hLess := Parser.length_lt_of_read hRead
    (Parser.Precedes.refl _)
  have hLength := hGoes.length_le
  exact h (by omega)

/- The blocks inside a block have fewer tokens than it has. -/
theorem agreesAt_block
    {r : Reader}
    {bound : Nat}
    (hBound : r.parser.stream.tokens.length < bound) :
    AgreesAt block (Parser.block bound) r := by
  induction bound generalizing r with
  | zero => cases hBound
  | succ bound ih =>
      unfold AgreesAt
      rw [block_apply, Parser.block_apply, parser_current,
        parser_unexpected]
      by_cases hSemicolon : r.current.token = .symbol .semicolon
      · have hToken : r.current.token ≠ .endOfFile := by
          simp [hSemicolon]
        rw [if_pos hSemicolon, if_pos hSemicolon,
          ← parser_call hToken]
        have hLess := length_lt_of_call hToken
        rcases ih (r := r.call) (by omega) with ⟨s, hGoes, hBlock⟩
        exact ⟨s, (goesTo_call hToken).trans hGoes, hBlock⟩
      rw [if_neg hSemicolon, if_neg hSemicolon]
      by_cases hClose : r.current.token = .symbol .closeBrace
      · have hToken : r.current.token ≠ .endOfFile := by
          simp [hClose]
        rw [if_pos hClose, if_pos hClose, ← parser_call hToken]
        exact ⟨r.call, goesTo_call hToken, rfl, rfl⟩
      rw [if_neg hClose, if_neg hClose]
      by_cases hEnd : r.current.token = .endOfFile
      · rw [if_pos hEnd, if_pos hEnd]
        exact ⟨r, GoesTo.refl r, rfl, rfl⟩
      rw [if_neg hEnd, if_neg hEnd]
      have hForward := Parser.isForward_block bound
      have hBraced :
          AgreesBraced block (Parser.block bound) r :=
        agreesBraced_of_length_lt fun hLess => ih (by omega)
      refine AgreesAt.bind_of
        (agrees_stmtOrRecover hBraced hForward
          isLoop_edgeSteps).agreesAt ?_
      intro parsed s hGoes hOther
      have hLess := Parser.length_lt_of_stmtOrRecover hForward
        (by simpa using hEnd) (by simpa using hClose) hOther
      rw [map_eq_pure_bind]
      exact (ih (by omega)).bind fun _ => agrees_pure _

theorem agrees_block
    {r : Reader} :
    Agrees block Parser.wholeBlock r := by
  intro s _
  have hBlock := agreesAt_block
    (Nat.lt_succ_self s.parser.stream.tokens.length)
  exact hBlock

------------------------------------------------------------
-- Graphs
------------------------------------------------------------

section

variable {r : Reader}

theorem agrees_graphKind :
    Agrees graphKind Parser.graphKind r := by
  intro s _
  refine AgreesAt.peek ?_
  cases hCurrent : s.current.token with
  | keyword word =>
      cases word
      case graph =>
        exact .take (by simp [hCurrent]) (agreesAt_pure _)
      case digraph =>
        exact .take (by simp [hCurrent]) (agreesAt_pure _)
      all_goals exact agreesAt_unexpected _
  | _ => exact agreesAt_unexpected _

theorem agrees_graph : Agrees graph Parser.graph r := by
  refine (agrees_accept (by simp)).bind fun strict => ?_
  refine agrees_graphKind.bind fun directed => ?_
  refine agrees_acceptName.bind fun name => ?_
  refine (agrees_expect _).bind fun _ => ?_
  exact agrees_block.bind fun _ => agrees_pure _

theorem agrees_anotherGraph :
    Agrees anotherGraph Parser.anotherGraph r := by
  intro s _
  refine AgreesAt.peek ?_
  by_cases hEnd : s.current.token = .endOfFile
  · rw [if_pos hEnd, if_pos hEnd]
    exact agreesAt_pure _
  · rw [if_neg hEnd, if_neg hEnd]
    exact agrees_graph.agreesAt.bind fun _ => agrees_pure _

/- A file is read to its end from any token in front of it. -/
theorem agreesAt_file
    (hToken : r.current.token ≠ .endOfFile) :
    AgreesAt file Parser.file r := by
  refine .take hToken (Agrees.agreesAt ?_)
  refine (isLoop_many _).agrees Parser.length_lt_of_anotherGraph
    agrees_anotherGraph fun graphs => ?_
  split
  · exact fun _ _ => agreesAt_unexpected _
  · exact agrees_pure _

end

end Reader

end DotLang
