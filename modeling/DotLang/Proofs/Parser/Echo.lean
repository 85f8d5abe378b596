import DotLang.Proofs.Parser.Limit

/-
  This file proves that diagnostics that were kept before make
  no difference to the parser, unless there are too many.

  Two parsers with the same tokens in front of them take the
  same steps and keep the same diagnostics, until the one with
  less room for them gives up.

  Key definitions include:
    * `Parser.HasRoomOf`
    * `Parser.IsEchoed`
    * `Parser.Echoes`

  Key theorems include:
    * `Parser.IsComposed.echoes`
    * `Parser.echoes_wholeBlock`
    * `Parser.IsEchoed.of_not_givesUp`
-/

------------------------------------------------------------
-- Runs with More Room
------------------------------------------------------------

namespace DotLang

namespace Parser

/-
  The second parser has the tokens of the first one in front of
  it, and as much room for diagnostics at least.
-/
structure HasRoomOf (p p' : Parser) : Prop where
  stream : p'.stream = p.stream
  room :
    p'.diagnostics.length + p.maxErrors ≤
      p.diagnostics.length + p'.maxErrors

/-
  The first two parsers moved to the other two in the same way,
  and kept the same diagnostics.
-/
structure MovesAlike (p p' q q' : Parser) : Prop where
  stream : q'.stream = q.stream
  maxErrors : q.maxErrors = p.maxErrors
  maxErrors' : q'.maxErrors = p'.maxErrors
  kept :
    ∃ new,
      q.diagnostics = p.diagnostics ++ new ∧
        q'.diagnostics = p'.diagnostics ++ new

/-
  The results are the same but for the diagnostics that were
  kept before, unless the first one is that of a parser that
  gave up.
-/
inductive IsEchoed
    {α : Type}
    (p p' : Parser) :
    EStateM.Result Diagnostic Parser α →
      EStateM.Result Diagnostic Parser α → Prop where
| ok
    (a : α)
    {q q' : Parser}
    (h : MovesAlike p p' q q') :
    IsEchoed p p' (.ok a q) (.ok a q')
| error
    (d : Diagnostic)
    {q q' : Parser}
    (h : MovesAlike p p' q q') :
    IsEchoed p p' (.error d q) (.error d q')
| givesUp
    {d : Diagnostic}
    {q : Parser}
    {result : EStateM.Result Diagnostic Parser α}
    (hKind : d.kind = .tooManyErrors) :
    IsEchoed p p' (.error d q) result

/- A step that does the same where there is more room. -/
def Echoes {α : Type} (step : Step α) : Prop :=
  ∀ p p', HasRoomOf p p' → IsEchoed p p' (step p) (step p')

section

variable {p p' q q' r r' : Parser}

theorem HasRoomOf.movesAlike
    (h : HasRoomOf p p') :
    MovesAlike p p' p p' where
  stream := h.stream
  maxErrors := rfl
  maxErrors' := rfl
  kept := ⟨[], by simp, by simp⟩

theorem HasRoomOf.of_movesAlike
    (h : HasRoomOf p p')
    (hMoves : MovesAlike p p' q q') :
    HasRoomOf q q' where
  stream := hMoves.stream
  room := by
    have hRoom := h.room
    rcases hMoves.kept with ⟨new, hKept, hKept'⟩
    rw [hKept, hKept', hMoves.maxErrors, hMoves.maxErrors',
      List.length_append, List.length_append]
    omega

theorem MovesAlike.trans
    (h : MovesAlike p p' q q')
    (h' : MovesAlike q q' r r') :
    MovesAlike p p' r r' where
  stream := h'.stream
  maxErrors := h'.maxErrors.trans h.maxErrors
  maxErrors' := h'.maxErrors'.trans h.maxErrors'
  kept := by
    rcases h.kept with ⟨first, hFirst, hFirst'⟩
    rcases h'.kept with ⟨second, hSecond, hSecond'⟩
    refine ⟨first ++ second, ?_, ?_⟩
    · rw [hSecond, hFirst, List.append_assoc]
    · rw [hSecond', hFirst', List.append_assoc]

theorem HasRoomOf.facing
    (h : HasRoomOf p p')
    (tokens : List Located) :
    MovesAlike p p' (p.facing tokens) (p'.facing tokens) where
  stream := by simp [h.stream]
  maxErrors := rfl
  maxErrors' := rfl
  kept := ⟨[], by simp [Parser.facing], by simp [Parser.facing]⟩

theorem HasRoomOf.advance
    (h : HasRoomOf p p') :
    MovesAlike p p' p.advance p'.advance := by
  have hFacing := h.facing p.stream.tokens.tail
  have hTokens : p'.advance = p'.facing p.stream.tokens.tail := by
    rw [← h.stream]
    rfl
  rw [hTokens]
  exact hFacing

theorem HasRoomOf.keeping
    (h : HasRoomOf p p')
    (d : Diagnostic) :
    MovesAlike p p' (p.keeping d) (p'.keeping d) where
  stream := h.stream
  maxErrors := rfl
  maxErrors' := rfl
  kept := ⟨[d], rfl, rfl⟩

theorem HasRoomOf.current
    (h : HasRoomOf p p') :
    p'.current = p.current := by
  rw [Parser.current, Parser.current, h.stream]

theorem IsEchoed.of_movesAlike
    {α : Type}
    {result result' : EStateM.Result Diagnostic Parser α}
    (hMoves : MovesAlike p p' q q')
    (h : IsEchoed q q' result result') :
    IsEchoed p p' result result' := by
  cases h with
  | ok a h => exact .ok a (hMoves.trans h)
  | error d h => exact .error d (hMoves.trans h)
  | givesUp hKind => exact .givesUp hKind

end

------------------------------------------------------------
-- Steps
------------------------------------------------------------

section

variable {α β : Type}

theorem echoes_pure
    (a : α) :
    Echoes (pure a) :=
  fun _ _ h => .ok a h.movesAlike

theorem echoes_unexpected
    (allowed : Expectation) :
    Echoes (unexpected allowed : Step α) := by
  intro p p' h
  rw [unexpected_apply, unexpected_apply, h.stream]
  exact .error _ h.movesAlike

theorem Echoes.bind
    {first : Step α}
    {second : α → Step β}
    (hFirst : Echoes first)
    (hSecond : ∀ a, Echoes (second a)) :
    Echoes (first >>= second) := by
  intro p p' h
  have hStep := hFirst p p' h
  rw [bind_apply, bind_apply]
  generalize first p' = other at hStep ⊢
  cases hResult : first p with
  | ok a q =>
      rw [hResult] at hStep
      cases hStep with
      | ok a hMoves =>
          exact (hSecond a q _ (h.of_movesAlike hMoves)).of_movesAlike
            hMoves
  | error d q =>
      rw [hResult] at hStep
      cases hStep with
      | error d hMoves => exact .error d hMoves
      | givesUp hKind => exact .givesUp hKind

theorem echoes_expect
    (mark : Symbol) :
    Echoes (expect mark) := by
  intro p p' h
  rw [expect_apply, expect_apply, h.current, h.stream]
  split
  · exact .ok () h.advance
  · exact .error _ h.movesAlike

/- Compositions echo where the step for the blocks inside does. -/
theorem IsComposed.echoes
    {inner : Step (List Stmt)}
    {step : Step α}
    (h : IsComposed inner step)
    (hInner : Echoes inner) :
    Echoes step := by
  induction h with
  | pure a => exact echoes_pure a
  | take =>
      intro p p' hRoom
      rw [take_apply, take_apply, hRoom.current]
      exact .ok _ hRoom.advance
  | unexpected allowed => exact echoes_unexpected allowed
  | portAssigned =>
      intro p p' hRoom
      have hSame : p'.portAssigned = p.portAssigned := by
        rw [Parser.portAssigned, Parser.portAssigned, hRoom.stream]
      have hThrow (q : Parser) :
          (do throw (← get).portAssigned : Step Stmt) q =
            .error q.portAssigned q := rfl
      rw [hThrow, hThrow, hSame]
      exact .error _ hRoom.movesAlike
  | look hStep hStream ih =>
      intro p p' hRoom
      rw [bind_apply, bind_apply, get_apply, get_apply]
      simp only [hStream p' p hRoom.stream]
      exact ih p p p' hRoom
  | bind hFirst hSecond ihFirst ihSecond =>
      exact ihFirst.bind ihSecond
  | braced => exact (echoes_expect _).bind fun _ => hInner

------------------------------------------------------------
-- Broken Statements
------------------------------------------------------------

theorem echoes_synchronize : Echoes synchronize := by
  intro p p' h
  rw [synchronize_apply, synchronize_apply, h.stream]
  cases skipBroken 0 p.stream.tokens with
  | some rest => exact .ok () (h.facing rest)
  | none =>
      have hFacing := h.facing []
      rw [hFacing.stream]
      exact .error _ hFacing

/- The parser with less room gives up first. -/
theorem echoes_recover
    (d : Diagnostic) :
    Echoes (recover d) := by
  intro p p' h
  have hKeeping := h.keeping d
  have hRoom := h.room
  rw [recover_apply, recover_apply]
  by_cases hFull : p.maxErrors < p.diagnostics.length + 1
  · rw [if_pos hFull]
    exact .givesUp rfl
  · have hFull' : ¬ p'.maxErrors < p'.diagnostics.length + 1 := by
      omega
    rw [if_neg hFull, if_neg hFull']
    exact (echoes_synchronize _ _
      (h.of_movesAlike hKeeping)).of_movesAlike hKeeping

theorem echoes_stmtOrRecover
    {inner : Step (List Stmt)}
    (hInner : Echoes inner) :
    Echoes (stmtOrRecover inner) := by
  intro p p' h
  have hStmt := isComposed_stmt.echoes hInner p p' h
  rw [stmtOrRecover_apply, stmtOrRecover_apply]
  generalize stmt inner p' = other at hStmt ⊢
  generalize stmt inner p = result at hStmt ⊢
  cases hStmt with
  | ok parsed hMoves => exact .ok _ hMoves
  | givesUp hKind =>
      have hFatal : Diagnostic.isFatal _ = true :=
        congrArg Diagnostic.Kind.isFatal hKind
      simp only [hFatal, if_true]
      exact .givesUp hKind
  | @error d q q' hMoves =>
      cases hFatal : d.isFatal with
      | true =>
          simp only [hFatal, if_true]
          exact .error d hMoves
      | false =>
          have hRecover :=
            echoes_recover d q q' (h.of_movesAlike hMoves)
          simp only [hFatal, Bool.false_eq_true, if_false]
          generalize recover d q' = last at hRecover ⊢
          generalize recover d q = first at hRecover ⊢
          cases hRecover with
          | ok u hRest => exact .ok _ (hMoves.trans hRest)
          | error e hRest => exact .error e (hMoves.trans hRest)
          | givesUp hKind => exact .givesUp hKind

/- Blocks echo because the blocks inside them do. -/
theorem echoes_block
    (bound : Nat) :
    Echoes (block bound) := by
  induction bound with
  | zero => exact echoes_unexpected _
  | succ bound ih =>
      intro p p' h
      rw [block_apply, block_apply, h.current, h.stream]
      split
      · exact (ih _ _ (h.of_movesAlike h.advance)).of_movesAlike
          h.advance
      · split
        · exact .ok [] h.advance
        · split
          · exact .error _ h.movesAlike
          · refine Echoes.bind (echoes_stmtOrRecover ih)
              (fun parsed => ?_) p p' h
            exact ih.bind fun _ => echoes_pure _

theorem echoes_wholeBlock : Echoes wholeBlock := by
  intro p p' h
  have hBound : p'.bound = p.bound := by
    rw [bound, bound, h.stream]
  have hBlock := echoes_block p.bound p p' h
  have hLeft : wholeBlock p = block p.bound p := rfl
  have hRight : wholeBlock p' = block p'.bound p' := rfl
  rw [hLeft, hRight, hBound]
  exact hBlock

/- What an echo is of a parser that did not give up. -/
theorem IsEchoed.of_not_givesUp
    {p p' : Parser}
    {result result' : EStateM.Result Diagnostic Parser α}
    (h : IsEchoed p p' result result')
    (hNot : ¬ GivesUp result) :
    outcome result' = outcome result ∧
      (stateAfter result').stream = (stateAfter result).stream ∧
      ∃ new,
        kept result = p.diagnostics ++ new ∧
          kept result' = p'.diagnostics ++ new := by
  cases h with
  | ok a hMoves => exact ⟨rfl, hMoves.stream, hMoves.kept⟩
  | error d hMoves => exact ⟨rfl, hMoves.stream, hMoves.kept⟩
  | givesUp hKind => exact absurd hKind hNot

end

end Parser

end DotLang
