import DotLang.Proofs.Parser.Progress
import DotLang.Proofs.Reader.Basic
import DotLang.Proofs.Token.Calls

/-
  This file relates a reader to the parser that has the same
  tokens in front of it, and steps of the reader to steps of the
  parser.

  A step of the reader agrees with one of the parser if it ends,
  does the same, and asks the lexer for nothing behind the end
  of the file.

  Key definitions include:
    * `Reader.parser`
    * `Reader.GoesTo`
    * `Reader.AgreesAt`
    * `Reader.Agrees`

  Key theorems include:
    * `Reader.goesTo_call`
    * `Reader.parser_call`
    * `Reader.AgreesAt.bind`
    * `Reader.IsLoop.agreesAt`
    * `Reader.agreesAt_skipRest`
-/

------------------------------------------------------------
-- Readers and Parsers
------------------------------------------------------------

namespace DotLang

namespace Reader

/- The parser with the tokens that the reader can take. -/
def parser (r : Reader) : Parser where
  stream :=
    if r.current.token = .endOfFile then
      { tokens := [], finish := r.current.location }
    else
      { r.cursor.tokens with
        tokens := r.current :: r.cursor.tokens.tokens }
  diagnostics := r.diagnostics
  maxErrors := r.maxErrors

/-
  What the lexer still has to answer, up to the first end of the
  file.
-/
def upcoming (r : Reader) : List Located :=
  if r.current.token = .endOfFile then
    []
  else
    r.cursor.tokens.toList

/-
  Between the readers the lexer was asked for nothing but what
  it still had to answer.
-/
def GoesTo (r s : Reader) : Prop :=
  ∃ calls,
    s.answers = r.answers ++ calls ∧
      r.upcoming = calls ++ s.upcoming

theorem GoesTo.refl
    (r : Reader) :
    r.GoesTo r :=
  ⟨[], by simp, rfl⟩

theorem GoesTo.trans
    {r s t : Reader}
    (h : r.GoesTo s)
    (h' : s.GoesTo t) :
    r.GoesTo t := by
  rcases h with ⟨first, hFirst, hUpcoming⟩
  rcases h' with ⟨second, hSecond, hUpcoming'⟩
  refine ⟨first ++ second, ?_, ?_⟩
  · rw [hSecond, hFirst, List.append_assoc]
  · rw [hUpcoming, hUpcoming', List.append_assoc]

@[simp] theorem parser_ofText
    (text : List Char)
    (options : Options) :
    (ofText text options).parser = Parser.ofText text options := rfl

@[simp] theorem parser_maxErrors
    (r : Reader) :
    r.parser.maxErrors = r.maxErrors := rfl

@[simp] theorem parser_diagnostics
    (r : Reader) :
    r.parser.diagnostics = r.diagnostics := rfl

@[simp] theorem parser_current
    (r : Reader) :
    r.parser.current = r.current.token := by
  by_cases hEnd : r.current.token = .endOfFile <;>
    simp [Parser.current, TokenStream.current, parser, hEnd]

@[simp] theorem parser_location
    (r : Reader) :
    r.parser.stream.location = r.current.location := by
  by_cases hEnd : r.current.token = .endOfFile <;>
    simp [TokenStream.location, parser, hEnd]

@[simp] theorem parser_unexpected
    (r : Reader)
    (allowed : Expectation) :
    r.parser.stream.unexpected allowed = r.diagnostic allowed := by
  have hCurrent : r.parser.stream.current = r.current.token :=
    parser_current r
  simp only [diagnostic, TokenStream.unexpected, hCurrent,
    parser_location]
  rfl

/- As many answers are left as there are tokens to take. -/
theorem length_upcoming
    (r : Reader) :
    r.upcoming.length = r.parser.stream.tokens.length := by
  by_cases hEnd : r.current.token = .endOfFile <;>
    simp [upcoming, parser, TokenStream.toList, hEnd]

------------------------------------------------------------
-- Calls
------------------------------------------------------------

/- A call behind a token is one that has to be made. -/
theorem goesTo_call
    {r : Reader}
    (h : r.current.token ≠ .endOfFile) :
    r.GoesTo r.call := by
  refine ⟨[r.call.current], rfl, ?_⟩
  rw [upcoming, if_neg h, Cursor.toList_tokens]
  rfl

/- A call moves the parser to the next token. -/
theorem parser_call
    {r : Reader}
    (h : r.current.token ≠ .endOfFile) :
    r.call.parser = r.parser.advance := by
  have hTokens := r.cursor.tokens_apply
  simp only [parser, Parser.advance, TokenStream.advance, if_neg h,
    List.tail_cons]
  rw [hTokens]
  rfl

/- The token at hand is the first of those to take. -/
theorem parser_tokens
    {r : Reader}
    (h : r.current.token ≠ .endOfFile) :
    r.parser.stream.tokens =
      r.current :: r.call.parser.stream.tokens := by
  rw [parser_call h]
  simp [parser, Parser.advance, TokenStream.advance, h]

theorem length_lt_of_call
    {r : Reader}
    (h : r.current.token ≠ .endOfFile) :
    r.call.parser.stream.tokens.length <
      r.parser.stream.tokens.length := by
  rw [parser_tokens h, List.length_cons]
  exact Nat.lt_succ_self _

/- No token is left to take at the end of the file only. -/
theorem tokens_eq_nil_iff
    {r : Reader} :
    r.parser.stream.tokens = [] ↔ r.current.token = .endOfFile := by
  by_cases hEnd : r.current.token = .endOfFile
  · simp [parser, hEnd]
  · simp [parser_tokens hEnd, hEnd]

theorem GoesTo.length_le
    {r s : Reader}
    (h : r.GoesTo s) :
    s.parser.stream.tokens.length ≤
      r.parser.stream.tokens.length := by
  rcases h with ⟨calls, _, hUpcoming⟩
  have hLength := congrArg List.length hUpcoming
  rw [List.length_append, length_upcoming, length_upcoming] at hLength
  omega

------------------------------------------------------------
-- Steps
------------------------------------------------------------

variable {α β : Type}

theorem pure_apply
    (a : α)
    (r : Reader) :
    (pure a : Step α) r = some (.ok a, r) := rfl

theorem bind_apply
    (first : Step α)
    (second : α → Step β)
    (r : Reader) :
    (first >>= second) r =
      match first r with
      | none => none
      | some (.ok a, s) => second a s
      | some (.error d, s) => some (.error d, s) := by
  show (StateT.bind first _) r = _
  unfold StateT.bind
  show Option.bind (first r) _ = _
  cases first r with
  | none => rfl
  | some result =>
      rcases result with ⟨_ | _, _⟩ <;> rfl

theorem peek_apply
    (r : Reader) :
    peek r = some (.ok r.current.token, r) := rfl

theorem take_apply
    (r : Reader) :
    take r = some (.ok (), r.call) := rfl

theorem unexpected_apply
    (allowed : Expectation)
    (r : Reader) :
    (unexpected allowed : Step α) r =
      some (.error (r.diagnostic allowed), r) := rfl

------------------------------------------------------------
-- Agreement
------------------------------------------------------------

/- The step ends as the step of the parser does. -/
def AgreesAt
    (step : Step α)
    (other : Parser.Step α)
    (r : Reader) : Prop :=
  ∃ s,
    r.GoesTo s ∧
      match other r.parser with
      | .ok a p => step r = some (.ok a, s) ∧ s.parser = p
      | .error d p => step r = some (.error d, s) ∧ s.parser = p

/- The steps agree wherever the reader gets from here. -/
def Agrees
    (step : Step α)
    (other : Parser.Step α)
    (r : Reader) : Prop :=
  ∀ s, r.GoesTo s → AgreesAt step other s

section

variable
  {r : Reader}
  {step : Step α}
  {other : Parser.Step α}
  {next : α → Step β}
  {next' : α → Parser.Step β}

theorem Agrees.of_goesTo
    {s : Reader}
    (h : Agrees step other r)
    (hGoes : r.GoesTo s) :
    Agrees step other s :=
  fun t hNext => h t (hGoes.trans hNext)

theorem Agrees.agreesAt
    (h : Agrees step other r) :
    AgreesAt step other r :=
  h r (GoesTo.refl r)

theorem agreesAt_pure
    (a : α) :
    AgreesAt (pure a) (pure a) r :=
  ⟨r, GoesTo.refl r, rfl, rfl⟩

theorem agrees_pure
    (a : α) :
    Agrees (pure a) (pure a) r :=
  fun _ _ => agreesAt_pure a

theorem agreesAt_unexpected
    (allowed : Expectation) :
    AgreesAt (unexpected allowed : Step α)
      (Parser.unexpected allowed) r := by
  refine ⟨r, GoesTo.refl r, ?_⟩
  rw [Parser.unexpected_apply, parser_unexpected]
  exact ⟨rfl, rfl⟩

/- What follows starts where the first step stops. -/
theorem AgreesAt.bind_of
    (h : AgreesAt step other r)
    (hNext :
      ∀ a s,
        r.GoesTo s →
          other r.parser = .ok a s.parser →
            AgreesAt (next a) (next' a) s) :
    AgreesAt (step >>= next) (other >>= next') r := by
  rcases h with ⟨s, hGoes, hStep⟩
  unfold AgreesAt
  rw [bind_apply, Parser.bind_apply]
  cases hOther : other r.parser with
  | error d p =>
      rw [hOther] at hStep
      rw [hStep.1]
      exact ⟨s, hGoes, rfl, hStep.2⟩
  | ok a p =>
      rw [hOther] at hStep
      rcases hStep with ⟨hStep, rfl⟩
      rcases hNext a s hGoes hOther with ⟨t, hGoes', hSecond⟩
      rw [hStep]
      exact ⟨t, hGoes.trans hGoes', hSecond⟩

theorem AgreesAt.bind
    (h : AgreesAt step other r)
    (hNext : ∀ a, Agrees (next a) (next' a) r) :
    AgreesAt (step >>= next) (other >>= next') r :=
  h.bind_of fun a s hGoes _ => hNext a s hGoes

theorem Agrees.bind
    (h : Agrees step other r)
    (hNext : ∀ a, Agrees (next a) (next' a) r) :
    Agrees (step >>= next) (other >>= next') r :=
  fun s hGoes =>
    (h s hGoes).bind fun a => (hNext a).of_goesTo hGoes

/- Both look at the same token. -/
theorem AgreesAt.peek
    {next : Token → Step β}
    {next' : Token → Parser.Step β}
    (h : AgreesAt (next r.current.token) (next' r.current.token) r) :
    AgreesAt (peek >>= next) (Parser.peek >>= next') r := by
  unfold AgreesAt at h ⊢
  rw [bind_apply, peek_apply, Parser.bind_apply, Parser.peek_apply,
    parser_current]
  exact h

/- Both look at the same place. -/
theorem AgreesAt.get
    {next : Reader → Step β}
    {next' : Parser → Parser.Step β}
    (h : AgreesAt (next r) (next' r.parser) r) :
    AgreesAt (get >>= next) (get >>= next') r :=
  h

/- Both take a token, which is not the end of the file. -/
theorem AgreesAt.take
    {next : Step β}
    {next' : Parser.Step β}
    (hToken : r.current.token ≠ .endOfFile)
    (h : AgreesAt next next' r.call) :
    AgreesAt (take >>= fun _ => next)
      (Parser.take >>= fun _ => next') r := by
  rcases h with ⟨s, hGoes, hNext⟩
  refine ⟨s, (goesTo_call hToken).trans hGoes, ?_⟩
  rw [bind_apply, take_apply, Parser.bind_apply, Parser.take_apply]
  show match next' r.parser.advance with
    | .ok a p => next r.call = some (.ok a, s) ∧ s.parser = p
    | .error d p => next r.call = some (.error d, s) ∧ s.parser = p
  rw [← parser_call hToken]
  exact hNext

------------------------------------------------------------
-- Single Tokens
------------------------------------------------------------

theorem agrees_accept
    {token : Token}
    (hToken : token ≠ .endOfFile) :
    Agrees (accept token) (Parser.accept token) r := by
  intro s _
  refine AgreesAt.peek ?_
  by_cases hCurrent : s.current.token = token
  · rw [if_pos hCurrent, if_pos hCurrent]
    exact .take (hCurrent ▸ hToken) (agreesAt_pure _)
  · rw [if_neg hCurrent, if_neg hCurrent]
    exact agreesAt_pure _

theorem agrees_expect
    (mark : Symbol) :
    Agrees (expect mark) (Parser.expect mark) r := by
  intro s _
  refine AgreesAt.peek ?_
  by_cases hCurrent : s.current.token = .symbol mark
  · rw [if_pos hCurrent, if_pos hCurrent]
    exact .take (by simp [hCurrent]) (agreesAt_pure _)
  · rw [if_neg hCurrent, if_neg hCurrent]
    exact agreesAt_unexpected _

theorem agrees_acceptName :
    Agrees acceptName Parser.acceptName r := by
  intro s _
  refine AgreesAt.peek ?_
  cases hCurrent : s.current.token with
  | identifier name =>
      exact .take (by simp [hCurrent]) (agreesAt_pure _)
  | _ => exact agreesAt_pure _

theorem agrees_expectName
    (allowed : Expectation) :
    Agrees (expectName allowed) (Parser.expectName allowed) r := by
  intro s _
  refine AgreesAt.peek ?_
  cases hCurrent : s.current.token with
  | identifier name =>
      exact .take (by simp [hCurrent]) (agreesAt_pure _)
  | _ => exact agreesAt_unexpected _

theorem agrees_expectValue :
    Agrees expectValue Parser.expectValue r := by
  intro s _
  refine AgreesAt.peek ?_
  cases hCurrent : s.current.token with
  | identifier name =>
      exact .take (by simp [hCurrent]) (agreesAt_pure _)
  | html text =>
      exact .take (by simp [hCurrent]) (agreesAt_pure _)
  | _ => exact agreesAt_unexpected _

end

------------------------------------------------------------
-- Loops
------------------------------------------------------------

/- The loop repeats the step until that has nothing to give. -/
def IsLoop
    (step : Step (Option α))
    (loop : Step (List α)) : Prop :=
  loop = do
    match ← step with
    | none => return []
    | some first =>
        let rest ← loop
        return first :: rest

theorem isLoop_many
    (step : Step (Option α)) :
    IsLoop step step.many :=
  Step.many.eq_1 step

/-
  A loop ends if each turn of it takes a token: then the bound
  of the parser is not reached.
-/
theorem IsLoop.agreesAt
    {step : Step (Option α)}
    {loop : Step (List α)}
    {other : Parser.Step (Option α)}
    (hLoop : IsLoop step loop)
    (hLess :
      ∀ {p q : Parser} {a : α},
        other p = .ok (some a) q →
          q.stream.tokens.length < p.stream.tokens.length)
    {r : Reader}
    {bound : Nat}
    (hBound : r.parser.stream.tokens.length < bound)
    (hStep : Agrees step other r) :
    AgreesAt loop (Parser.many other bound) r := by
  induction bound generalizing r with
  | zero => cases hBound
  | succ bound ih =>
      rw [hLoop, Parser.many]
      refine hStep.agreesAt.bind_of fun result s hGoes hOther => ?_
      cases result with
      | none => exact agreesAt_pure _
      | some first =>
          have hShort := hLess hOther
          have hRest := ih (r := s) (by omega)
            (hStep.of_goesTo hGoes)
          exact hRest.bind fun _ => agrees_pure _

theorem IsLoop.agrees
    {step : Step (Option α)}
    {loop : Step (List α)}
    {other : Parser.Step (Option α)}
    {next : List α → Step β}
    {next' : List α → Parser.Step β}
    {r : Reader}
    (hLoop : IsLoop step loop)
    (hLess :
      ∀ {p q : Parser} {a : α},
        other p = .ok (some a) q →
          q.stream.tokens.length < p.stream.tokens.length)
    (hStep : Agrees step other r)
    (hNext : ∀ items, Agrees (next items) (next' items) r) :
    Agrees (loop >>= next)
      (get >>= fun p => Parser.many other p.bound >>= next') r := by
  intro s hGoes
  have hMany := hLoop.agreesAt (r := s) hLess
    (Nat.lt_succ_self _) (hStep.of_goesTo hGoes)
  exact hMany.bind fun items => (hNext items).of_goesTo hGoes

------------------------------------------------------------
-- Broken Statements
------------------------------------------------------------

/- Move behind a statement in which blocks are open. -/
def leaveAt (depth : Depth) : Parser.Step Unit := do
  let p ← get
  match Parser.skipBroken depth p.stream.tokens with
  | some rest => set (p.facing rest)
  | none =>
      set (p.facing [])
      Parser.unexpected (.symbol .closeBrace)

theorem leaveAt_zero : leaveAt 0 = Parser.synchronize := rfl

theorem leaveAt_apply
    (depth : Depth)
    (p : Parser) :
    leaveAt depth p =
      match Parser.skipBroken depth p.stream.tokens with
      | some rest => .ok () (p.facing rest)
      | none =>
          .error
            ((p.facing []).stream.unexpected (.symbol .closeBrace))
            (p.facing []) := by
  simp only [leaveAt, Parser.bind_apply, Parser.get_apply]
  cases Parser.skipBroken depth p.stream.tokens <;> rfl

/-
  A turn takes the token at hand and leaves the tokens behind it
  to the next turn, or it is the last one.
-/
theorem skipToken_cases
    (depth : Depth)
    {r : Reader}
    (h : r.current.token ≠ .endOfFile) :
    (∃ left,
      depth.skipToken r = some (.ok (some left), r.call) ∧
        ∀ rest,
          Parser.skipBroken depth (r.current :: rest) =
            Parser.skipBroken left rest) ∨
      (depth.skipToken r = some (.ok none, r.call) ∧
        ∀ rest,
          Parser.skipBroken depth (r.current :: rest) =
            some rest) ∨
      (depth.skipToken r = some (.ok none, r) ∧
        ∀ rest,
          Parser.skipBroken depth (r.current :: rest) =
            some (r.current :: rest)) := by
  simp only [Depth.skipToken, bind_apply, peek_apply, Parser.skipBroken]
  cases hCurrent : r.current.token with
  | endOfFile => exact absurd hCurrent h
  | symbol mark =>
      cases mark
      case semicolon =>
        by_cases hDepth : depth = 0
        · simp only [if_pos hDepth]
          exact Or.inr (Or.inl ⟨rfl, fun _ => trivial⟩)
        · simp only [if_neg hDepth]
          exact Or.inl ⟨depth, rfl, fun _ => rfl⟩
      case openBrace =>
        exact Or.inl ⟨depth + 1, rfl, fun _ => rfl⟩
      case closeBrace =>
        cases depth with
        | zero => exact Or.inr (Or.inr ⟨rfl, fun _ => rfl⟩)
        | succ depth => exact Or.inl ⟨depth, rfl, fun _ => rfl⟩
      all_goals exact Or.inl ⟨depth, rfl, fun _ => rfl⟩
  | _ => exact Or.inl ⟨depth, rfl, fun _ => rfl⟩

theorem agreesAt_skipRest
    (depth : Depth)
    (r : Reader) :
    AgreesAt depth.skipRest (leaveAt depth) r := by
  generalize hTokens : r.parser.stream.tokens = tokens
  unfold AgreesAt
  rw [leaveAt_apply, hTokens, Depth.skipRest, bind_apply]
  induction tokens generalizing depth r with
  | nil =>
      have hEnd := tokens_eq_nil_iff.mp hTokens
      have hTurn :
          depth.skipToken r =
            some (.error (r.diagnostic (.symbol .closeBrace)), r) := by
        unfold Depth.skipToken
        rw [bind_apply, peek_apply, hEnd]
        rfl
      have hSame : r.parser.facing [] = r.parser := by
        rw [← hTokens, Parser.facing_tokens]
      rw [hTurn, Parser.skipBroken, hSame, parser_unexpected]
      exact ⟨r, GoesTo.refl r, rfl, rfl⟩
  | cons t rest ih =>
      have hToken : r.current.token ≠ .endOfFile := by
        rw [ne_eq, ← tokens_eq_nil_iff, hTokens]
        exact List.cons_ne_nil t rest
      have hCons := parser_tokens hToken
      rw [hTokens] at hCons
      rcases List.cons.inj hCons with ⟨rfl, hRest⟩
      have hCall := parser_call hToken
      rcases skipToken_cases depth hToken with
        ⟨left, hTurn, hSkip⟩ | ⟨hTurn, hSkip⟩ | ⟨hTurn, hSkip⟩
      · rcases ih left r.call hRest.symm with ⟨s, hGoes, hNext⟩
        refine ⟨s, (goesTo_call hToken).trans hGoes, ?_⟩
        rw [hTurn, hSkip]
        rw [hCall] at hNext
        rw [← bind_apply, ← Depth.skipRest] at hNext
        exact hNext
      · rw [hTurn, hSkip]
        refine ⟨r.call, goesTo_call hToken, rfl, ?_⟩
        rw [hCall, hRest, hCall]
        rfl
      · rw [hTurn, hSkip]
        refine ⟨r, GoesTo.refl r, rfl, ?_⟩
        rw [← hTokens, Parser.facing_tokens]

/- The reader that keeps one more diagnostic. -/
def keeping
    (r : Reader)
    (d : Diagnostic) : Reader :=
  { r with diagnostics := r.diagnostics ++ [d] }

theorem parser_keeping
    (r : Reader)
    (d : Diagnostic) :
    (r.keeping d).parser = r.parser.keeping d := rfl

/- To keep a diagnostic, no token is called for. -/
theorem goesTo_keeping
    (r : Reader)
    (d : Diagnostic) :
    r.GoesTo (r.keeping d) :=
  ⟨[], by simp [keeping], rfl⟩

theorem parser_tooManyErrors
    (r : Reader) :
    r.parser.tooManyErrors = r.tooManyErrors := by
  simp [Parser.tooManyErrors, tooManyErrors]

theorem recover_apply
    (d : Diagnostic)
    (r : Reader) :
    recover d r =
      if r.maxErrors < r.diagnostics.length + 1 then
        some (.error (r.keeping d).tooManyErrors, r.keeping d)
      else
        synchronize (r.keeping d) := by
  have hModify :
      (modify fun r =>
        { r with diagnostics := r.diagnostics ++ [d] } :
          Step Unit) r = some (.ok (), r.keeping d) := rfl
  have hGet :
      (get : Step Reader) (r.keeping d) =
        some (.ok (r.keeping d), r.keeping d) := rfl
  have hLength :
      (r.keeping d).diagnostics.length =
        r.diagnostics.length + 1 := by
    simp [keeping]
  have hMax : (r.keeping d).maxErrors = r.maxErrors := rfl
  rw [recover, bind_apply, hModify]
  simp only [bind_apply, hGet, hLength, hMax]
  split <;> rfl

theorem agrees_recover
    (d : Diagnostic)
    {r : Reader} :
    Agrees (recover d) (Parser.recover d) r := by
  intro s _
  have hGoes := goesTo_keeping s d
  unfold AgreesAt
  rw [recover_apply, Parser.recover_apply, parser_maxErrors,
    parser_diagnostics, ← parser_keeping, parser_tooManyErrors,
    ← leaveAt_zero]
  by_cases hMax : s.maxErrors < s.diagnostics.length + 1
  · rw [if_pos hMax, if_pos hMax]
    exact ⟨s.keeping d, hGoes, rfl, rfl⟩
  · rw [if_neg hMax, if_neg hMax]
    rcases agreesAt_skipRest 0 (s.keeping d) with
      ⟨t, hGoes', hNext⟩
    exact ⟨t, hGoes.trans hGoes', hNext⟩

end Reader

end DotLang
