import DotLang.Proofs.Reader.Rules

/-
  This file proves that the reader comes to the end of any text,
  as the parser does, with one call of the lexer for each of its
  tokens at most and one for the end of the file.

  Key definitions include:
    * `Reader.TakesToken`
    * `Reader.TurnsTakeTokens`

  Key theorems include:
    * `Reader.takesToken_blockTurn`
    * `Reader.turnsTakeTokens`
    * `Reader.reading_ends`
-/

------------------------------------------------------------
-- Turns
------------------------------------------------------------

namespace DotLang

namespace Reader

variable {α : Type}

theorem AgreesAt.of_ok
    {step : Step α}
    {other : Parser.Step α}
    {r s : Reader}
    {a : α}
    (h : AgreesAt step other r)
    (hStep : step r = some (.ok a, s)) :
    r.GoesTo s ∧ other r.parser = .ok a s.parser := by
  rcases h with ⟨t, hGoes, hOther⟩
  cases hResult : other r.parser with
  | ok b p =>
      rw [hResult] at hOther
      rcases hOther with ⟨hSame, rfl⟩
      rw [hStep] at hSame
      cases hSame
      exact ⟨hGoes, rfl⟩
  | error d p =>
      rw [hResult] at hOther
      rw [hOther.1] at hStep
      cases hStep

/- What agrees with a step ends with what that gives. -/
theorem AgreesAt.exists_eq
    {step : Step α}
    {other : Parser.Step α}
    {r : Reader}
    (h : AgreesAt step other r) :
    ∃ s,
      r.GoesTo s ∧
        step r = some (Parser.outcome (other r.parser), s) ∧
          s.parser = Parser.stateAfter (other r.parser) := by
  rcases h with ⟨s, hGoes, hOther⟩
  refine ⟨s, hGoes, ?_⟩
  cases hResult : other r.parser with
  | ok a p =>
      rw [hResult] at hOther
      exact hOther
  | error d p =>
      rw [hResult] at hOther
      exact hOther

/-
  Between the readers a token was taken at least: the lexer was
  asked for one or more of the answers that it still had to give.
-/
def Takes (r s : Reader) : Prop :=
  ∃ t calls,
    s.answers = r.answers ++ t :: calls ∧
      r.upcoming = t :: calls ++ s.upcoming

theorem GoesTo.takes
    {r s : Reader}
    (h : r.GoesTo s)
    (hTokens :
      s.parser.stream.tokens.length <
        r.parser.stream.tokens.length) :
    r.Takes s := by
  rcases h with ⟨calls, hAnswers, hUpcoming⟩
  cases calls with
  | nil =>
      have hLength := congrArg List.length hUpcoming
      rw [List.nil_append, length_upcoming,
        length_upcoming] at hLength
      omega
  | cons t calls => exact ⟨t, calls, hAnswers, hUpcoming⟩

theorem takes_call
    {r : Reader}
    (h : r.current.token ≠ .endOfFile) :
    r.Takes r.call :=
  (goesTo_call h).takes (length_lt_of_call h)

theorem Takes.trans
    {r s t : Reader}
    (h : r.Takes s)
    (h' : s.Takes t) :
    r.Takes t := by
  rcases h with ⟨first, calls, hAnswers, hUpcoming⟩
  rcases h' with ⟨second, calls', hAnswers', hUpcoming'⟩
  refine ⟨first, calls ++ second :: calls', ?_, ?_⟩
  · rw [hAnswers', hAnswers]
    simp
  · rw [hUpcoming, hUpcoming']
    simp

/- Each turn of a loop takes a token, unless it is the last one. -/
def TakesToken (turn : Step (Option α)) : Prop :=
  ∀ r s a,
    turn r = some (.ok (some a), s) →
      r.Takes s

theorem takesToken_of_agreesAt
    {turn : Step (Option α)}
    {other : Parser.Step (Option α)}
    (h : ∀ r, AgreesAt turn other r)
    (hLess :
      ∀ {p q : Parser} {a : α},
        other p = .ok (some a) q →
          q.stream.tokens.length < p.stream.tokens.length) :
    TakesToken turn := by
  intro r s a hTurn
  rcases (h r).of_ok hTurn with ⟨hGoes, hOther⟩
  exact hGoes.takes (hLess hOther)

theorem takesToken_anotherSemicolon :
    TakesToken anotherSemicolon := by
  intro r s a hTurn
  by_cases hCurrent : r.current.token = .symbol .semicolon
  · simp only [anotherSemicolon, accept, bind_apply, peek_apply,
      if_pos hCurrent] at hTurn
    cases hTurn
    exact takes_call (by simp [hCurrent])
  · simp only [anotherSemicolon, accept, bind_apply, peek_apply,
      if_neg hCurrent] at hTurn
    cases hTurn

theorem takesToken_skipToken
    (depth : Depth) :
    TakesToken depth.skipToken := by
  intro r s left hTurn
  by_cases hEnd : r.current.token = .endOfFile
  · unfold Depth.skipToken at hTurn
    rw [bind_apply, peek_apply, hEnd] at hTurn
    cases hTurn
  · rcases skipToken_cases depth hEnd with
      ⟨_, hCase, _⟩ | ⟨hCase, _⟩ | ⟨hCase, _⟩
    · rw [hTurn] at hCase
      cases hCase
      exact takes_call hEnd
    · rw [hTurn] at hCase
      cases hCase
    · rw [hTurn] at hCase
      cases hCase

theorem agreesBraced_block
    (r : Reader) :
    AgreesBraced block Parser.wholeBlock r :=
  (agrees_expect _).bind fun _ => agrees_block

theorem takesToken_edgeStep : TakesToken (edgeStep block) :=
  takesToken_of_agreesAt
    (fun r => (agrees_edgeStep (agreesBraced_block r)).agreesAt)
    (Parser.length_lt_of_edgeStep Parser.isForward_wholeBlock)

/-
  A broken statement takes a token as well, so that no block is
  stuck in front of one.
-/
theorem takesToken_blockTurn :
    TakesToken (blockTurn block edgeSteps) := by
  intro r s parsed hTurn
  generalize hTokens : r.parser.stream.tokens = tokens
  induction tokens generalizing r with
  | nil =>
      have hEnd := tokens_eq_nil_iff.mp hTokens
      simp [blockTurn_apply, hEnd] at hTurn
  | cons t rest ih =>
      have hToken : r.current.token ≠ .endOfFile := by
        rw [ne_eq, ← tokens_eq_nil_iff, hTokens]
        exact List.cons_ne_nil t rest
      rw [blockTurn_apply] at hTurn
      by_cases hSemicolon : r.current.token = .symbol .semicolon
      · rw [if_pos hSemicolon] at hTurn
        rw [parser_tokens hToken] at hTokens
        exact (takes_call hToken).trans
          (ih r.call hTurn (List.cons.inj hTokens).2)
      rw [if_neg hSemicolon] at hTurn
      by_cases hClose : r.current.token = .symbol .closeBrace
      · rw [if_pos hClose] at hTurn
        cases hTurn
      rw [if_neg hClose, if_neg hToken] at hTurn
      have hStmt :=
        (agrees_stmtOrRecover (agreesBraced_block r)
          Parser.isForward_wholeBlock isLoop_edgeSteps).bind
          fun parsed => agrees_pure (some parsed)
      rcases hStmt.agreesAt.of_ok hTurn with ⟨hGoes, hOther⟩
      rcases Parser.bind_eq_ok.mp hOther with
        ⟨_, q, hParsed, hLast⟩
      cases hLast
      refine hGoes.takes ?_
      exact Parser.length_lt_of_stmtOrRecover
        Parser.isForward_wholeBlock (by simpa using hToken)
        (by simpa using hClose) hParsed

/-
  In each loop of the reader, a turn that is not the last one
  takes a token.
-/
structure TurnsTakeTokens : Prop where
  semicolons : TakesToken anotherSemicolon
  statements : TakesToken (blockTurn block edgeSteps)
  skipped : ∀ depth : Depth, TakesToken depth.skipToken
  lists : TakesToken anotherList
  attributes : TakesToken listedAttribute
  edges : TakesToken (edgeStep block)
  graphs : TakesToken anotherGraph

theorem turnsTakeTokens : TurnsTakeTokens where
  semicolons := takesToken_anotherSemicolon
  statements := takesToken_blockTurn
  skipped := takesToken_skipToken
  lists :=
    takesToken_of_agreesAt (fun _ => agrees_anotherList.agreesAt)
      Parser.length_lt_of_anotherList
  attributes :=
    takesToken_of_agreesAt
      (fun _ => agrees_listedAttribute.agreesAt)
      Parser.length_lt_of_listedAttribute
  edges := takesToken_edgeStep
  graphs :=
    takesToken_of_agreesAt (fun _ => agrees_anotherGraph.agreesAt)
      Parser.length_lt_of_anotherGraph

------------------------------------------------------------
-- Files
------------------------------------------------------------

/- Part of the tokens with their end has no end before its last. -/
theorem token_ne_of_mem_dropLast
    {text : List Char}
    {answers : List Located}
    (h : answers <+: (TokenStream.ofText text).toList) :
    ∀ t ∈ answers.dropLast, t.token ≠ .endOfFile := by
  intro t hMem
  refine Cursor.token_ne_endOfFile (Cursor.start text) t ?_
  rcases List.prefix_concat_iff.mp h with rfl | hPart
  · rwa [List.dropLast_concat] at hMem
  · exact hPart.subset (List.mem_of_mem_dropLast hMem)

/-
  The reader comes to the end of a file with what the parser
  gives for it.  It asks the lexer once for each character at
  most and one more time, and never behind the end of the file.
-/
theorem reading_ends
    (text : List Char)
    (options : Options) :
    LexesToEnd text ∧ TurnsTakeTokens ∧
      ∃ r,
        file (ofText text options) =
            some
              (Parser.outcome
                (Parser.file (Parser.ofText text options)), r) ∧
          r.parser =
            Parser.stateAfter
              (Parser.file (Parser.ofText text options)) ∧
          r.answers.length ≤ text.length + 1 ∧
          ∀ t ∈ r.answers.dropLast, t.token ≠ .endOfFile := by
  refine ⟨lexesToEnd text, turnsTakeTokens, ?_⟩
  have hFirst :
      (ofText text options).current.token ≠ .endOfFile := by
    simp [ofText]
  rcases (agreesAt_file hFirst).exists_eq with
    ⟨r, ⟨calls, hAnswers, hUpcoming⟩, hFile, hState⟩
  rw [parser_ofText] at hFile hState
  have hPart : r.answers <+: (TokenStream.ofText text).toList := by
    refine ⟨r.upcoming, ?_⟩
    rw [hAnswers]
    exact hUpcoming.symm
  refine ⟨r, hFile, hState, ?_, token_ne_of_mem_dropLast hPart⟩
  have hLength := hPart.length_le
  have hTokens := length_tokens_ofText_le text
  rw [TokenStream.toList, List.length_append,
    List.length_singleton] at hLength
  omega

end Reader

end DotLang
