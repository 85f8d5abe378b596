import DotLang.Proofs.Parser.WholeBlocks

/-
  This file proves that statements take balanced braces, and
  blocks balanced braces and the one that closes them.

  This holds of every statement that the parser gets behind or
  can leave, whatever is broken inside it, and whether or not
  the block around it is closed.

  Key definitions include:
    * `Parser.Crosses`
    * `Parser.LeavesBlock`

  Key theorems include:
    * `Parser.crosses_stmt`
    * `Parser.leavesBlock_wholeBlock`
    * `Parser.crosses_of_stmt_eq_error`
-/

------------------------------------------------------------
-- Balanced Tokens
------------------------------------------------------------

namespace DotLang

section

variable {front back : List Located} {m n : Nat}

theorem openings_append
    (front back : List Located) :
    openings (front ++ back) = openings front + openings back :=
  List.countP_append

theorem closings_append
    (front back : List Located) :
    closings (front ++ back) = closings front + closings back :=
  List.countP_append

theorem Closes.append
    (h : Closes m front)
    (h' : Closes n back) :
    Closes (m + n) (front ++ back) := by
  constructor
  · rintro part ⟨rest, hPart⟩
    rcases List.append_eq_append_iff.mp hPart with
      ⟨others, rfl, -⟩ | ⟨inside, rfl, rfl⟩
    · have hLe := h.1 part (List.prefix_append _ _)
      omega
    · have hLe := h'.1 inside (List.prefix_append _ _)
      have hEq := h.2
      rw [openings_append, closings_append]
      omega
  · have hFront := h.2
    have hBack := h'.2
    rw [openings_append, closings_append]
    omega

theorem IsBalanced.append
    (h : IsBalanced front)
    (h' : IsBalanced back) :
    IsBalanced (front ++ back) := by
  have hFront : Closes 0 front := h
  have hBack : Closes 0 back := h'
  exact hFront.append hBack

theorem isBalanced_of_plain
    (hPlain : ∀ t ∈ front, IsPlain t.token) :
    IsBalanced front := by
  induction front with
  | nil => exact closes_nil
  | cons t front ih =>
      rcases List.forall_mem_cons.mp hPlain with ⟨hHead, hTail⟩
      have hRest : Closes 0 front := ih hTail
      exact (closes_cons_plain hHead).mpr hRest

theorem isBalanced_singleton
    {t : Located}
    (hPlain : IsPlain t.token) :
    IsBalanced [t] :=
  isBalanced_of_plain (List.forall_mem_singleton.mpr hPlain)

/- A block in its braces is balanced. -/
theorem IsBalanced.braced
    {opening closing : Located}
    (h : IsBalanced front)
    (hOpen : opening.token = .symbol .openBrace)
    (hClose : closing.token = .symbol .closeBrace) :
    IsBalanced (opening :: (front ++ [closing])) := by
  have hLast : Closes 1 [closing] :=
    (closes_cons_close hClose).mpr closes_nil
  have hFront : Closes 0 front := h
  exact (closes_cons_open hOpen).mpr (hFront.append hLast)

end

namespace Parser

/-
  Between the parsers are tokens with balanced braces.  If there
  are no braces among them, nothing else tells the parsers apart.
-/
def Crosses (p q : Parser) : Prop :=
  ∃ used,
    p.stream.tokens = used ++ q.stream.tokens ∧
      IsBalanced used ∧
      (openings used = 0 → p.Read used q)

section

variable {p q r : Parser}

theorem Crosses.refl
    (p : Parser) :
    p.Crosses p :=
  ⟨[], rfl, closes_nil, fun _ => Read.refl p⟩

theorem Crosses.trans
    (h : p.Crosses q)
    (h' : q.Crosses r) :
    p.Crosses r := by
  rcases h with ⟨first, hFirst, hBalanced, hRead⟩
  rcases h' with ⟨second, hSecond, hBalanced', hRead'⟩
  refine ⟨first ++ second, ?_, hBalanced.append hBalanced', ?_⟩
  · rw [hFirst, hSecond, List.append_assoc]
  · intro hNone
    rw [openings_append] at hNone
    exact (hRead (by omega)).trans (hRead' (by omega))

theorem crosses_advance
    (hEnd : p.current ≠ .endOfFile)
    (hPlain : IsPlain p.current) :
    p.Crosses p.advance := by
  have hRead := read_advance rfl hEnd
  exact ⟨_, hRead.tokens_eq, isBalanced_singleton hPlain, fun _ => hRead⟩

/-
  The result is a parser behind the brace that closes the block
  of the tokens, or what it fails with is fatal.
-/
def LeavesBlock
    (tokens : List Located) :
    EStateM.Result Diagnostic Parser (List Stmt) → Prop
| .ok _ q =>
    ∃ inside closing,
      tokens = inside ++ closing :: q.stream.tokens ∧
        closing.token = .symbol .closeBrace ∧
        IsBalanced inside
| .error d _ => d.isFatal = true

/- Behind balanced tokens the block is still the same. -/
theorem LeavesBlock.of_balanced
    {used tokens : List Located}
    {result : EStateM.Result Diagnostic Parser (List Stmt)}
    (h : LeavesBlock tokens result)
    (hUsed : IsBalanced used) :
    LeavesBlock (used ++ tokens) result := by
  cases result with
  | error d q => exact h
  | ok body q =>
      rcases h with ⟨inside, closing, rfl, hClose, hInside⟩
      exact ⟨used ++ inside, closing, (List.append_assoc _ _ _).symm,
        hClose, hUsed.append hInside⟩

theorem LeavesBlock.map
    {tokens : List Located}
    {step : Step (List Stmt)}
    (h : LeavesBlock tokens (step p))
    (f : List Stmt → List Stmt) :
    LeavesBlock tokens ((f <$> step) p) := by
  rw [map_apply]
  cases hStep : step p with
  | ok body q =>
      rw [hStep] at h
      exact h
  | error d q =>
      rw [hStep] at h
      exact h

------------------------------------------------------------
-- Statements
------------------------------------------------------------

variable {inner : Step (List Stmt)}

theorem crosses_braced
    (hOpen : p.current = .symbol .openBrace)
    (hInner :
      LeavesBlock p.advance.stream.tokens (inner p.advance))
    {body : List Stmt}
    (hStep : inner p.advance = .ok body q) :
    p.Crosses q := by
  rw [hStep] at hInner
  rcases hInner with ⟨inside, closing, hTokens, hClose, hBalanced⟩
  have hRead := read_advance hOpen (by simp)
  let opening : Located := ⟨.symbol .openBrace, p.stream.location⟩
  refine ⟨opening :: (inside ++ [closing]), ?_,
    hBalanced.braced rfl hClose, ?_⟩
  · rw [hRead.tokens_eq, hTokens]
    simp [opening]
  · intro hNone
    simp [openings, opening] at hNone

/-
  A statement crosses tokens, unless what it fails with is
  fatal.  The blocks inside it have fewer tokens than it has.
-/
theorem crosses_stmt
    (hInner :
      ∀ q : Parser,
        q.stream.tokens.length < p.stream.tokens.length →
          LeavesBlock q.stream.tokens (inner q)) :
    match stmt inner p with
    | .ok _ q => p.Crosses q
    | .error d q => d.isFatal = false → p.Crosses q := by
  have hAlike : Alike inner inner (stmt inner) (stmt inner) p :=
    alike_stmt
  have hLess {r : Parser}
      (hCrosses : p.Crosses r)
      (hOpen : r.current = .symbol .openBrace) :
      LeavesBlock r.advance.stream.tokens (inner r.advance) := by
    rcases hCrosses with ⟨used, hTokens, _⟩
    apply hInner
    have hShort := length_advance_lt (p := r) (by simp [hOpen])
    rw [hTokens, List.length_append]
    omega
  have hRun := hAlike.run Crosses.refl Crosses.trans
    (fun r => crosses_advance)
    (fun r body s hCrosses hOpen =>
      crosses_braced hOpen (hLess hCrosses hOpen))
  cases hStep : stmt inner p with
  | ok parsed q =>
      rw [hStep] at hRun
      exact hRun
  | error d q =>
      rw [hStep] at hRun
      rcases hRun with ⟨hCrosses, _⟩ | ⟨r, hCrosses, hOpen, hFails⟩
      · exact fun _ => hCrosses
      · have hLeaves := hLess hCrosses hOpen
        rw [hFails] at hLeaves
        have hIsFatal : d.isFatal = true := hLeaves
        intro hFatal
        rw [hIsFatal] at hFatal
        cases hFatal

------------------------------------------------------------
-- Broken Statements
------------------------------------------------------------

section

variable {t : Located}

theorem skipBroken_of_semicolon
    (depth : Nat)
    (hSemicolon : t.token = .symbol .semicolon)
    (rest : List Located) :
    skipBroken depth (t :: rest) =
      if depth = 0 then some rest else skipBroken depth rest := by
  simp [skipBroken, hSemicolon]

theorem skipBroken_of_openBrace
    (depth : Nat)
    (hOpen : t.token = .symbol .openBrace)
    (rest : List Located) :
    skipBroken depth (t :: rest) = skipBroken (depth + 1) rest := by
  simp [skipBroken, hOpen]

theorem skipBroken_zero_of_closeBrace
    (hClose : t.token = .symbol .closeBrace)
    (rest : List Located) :
    skipBroken 0 (t :: rest) = some (t :: rest) := by
  simp [skipBroken, hClose]

theorem skipBroken_succ_of_closeBrace
    (depth : Nat)
    (hClose : t.token = .symbol .closeBrace)
    (rest : List Located) :
    skipBroken (depth + 1) (t :: rest) = skipBroken depth rest := by
  simp [skipBroken, hClose]

theorem skipBroken_of_plain
    (depth : Nat)
    (hSemicolon : t.token ≠ .symbol .semicolon)
    (hPlain : IsPlain t.token)
    (rest : List Located) :
    skipBroken depth (t :: rest) = skipBroken depth rest := by
  simp [skipBroken, hPlain.1, hPlain.2]

end

/-
  A broken statement ends at a semicolon or a brace outside of
  the blocks inside it.  Any other token is skipped, and these
  blocks are closed behind it if they are with it.
-/
theorem skipBroken_cons_cases
    (depth : Nat)
    (t : Located)
    (rest : List Located) :
    (depth = 0 ∧ t.token = .symbol .semicolon ∧
        skipBroken depth (t :: rest) = some rest) ∨
      (depth = 0 ∧ t.token = .symbol .closeBrace ∧
        skipBroken depth (t :: rest) = some (t :: rest)) ∨
      ((depth = 0 →
          t.token ≠ .symbol .semicolon ∧
            t.token ≠ .symbol .closeBrace) ∧
        ∃ inside,
          skipBroken depth (t :: rest) = skipBroken inside rest ∧
            ∀ tokens,
              Closes depth (t :: tokens) ↔ Closes inside tokens) := by
  by_cases hSemicolon : t.token = .symbol .semicolon
  · have hSkip := skipBroken_of_semicolon depth hSemicolon rest
    by_cases hDepth : depth = 0
    · rw [if_pos hDepth] at hSkip
      exact .inl ⟨hDepth, hSemicolon, hSkip⟩
    · rw [if_neg hDepth] at hSkip
      exact .inr (.inr ⟨fun hZero => absurd hZero hDepth, depth,
        hSkip,
        fun _ => closes_cons_plain (by simp [IsPlain, hSemicolon])⟩)
  by_cases hOpen : t.token = .symbol .openBrace
  · have hSkip := skipBroken_of_openBrace depth hOpen rest
    exact .inr (.inr ⟨fun _ => by simp [hOpen], depth + 1, hSkip,
      fun _ => closes_cons_open hOpen⟩)
  by_cases hClose : t.token = .symbol .closeBrace
  · cases depth with
    | zero =>
        have hSkip := skipBroken_zero_of_closeBrace hClose rest
        exact .inr (.inl ⟨rfl, hClose, hSkip⟩)
    | succ depth =>
        have hSkip := skipBroken_succ_of_closeBrace depth hClose rest
        have hDepth := Nat.succ_ne_zero depth
        exact .inr (.inr ⟨fun hZero => absurd hZero hDepth, depth,
          hSkip, fun _ => closes_cons_close hClose⟩)
  · have hPlain : IsPlain t.token := ⟨hOpen, hClose⟩
    have hSkip := skipBroken_of_plain depth hSemicolon hPlain rest
    exact .inr (.inr ⟨fun _ => ⟨hSemicolon, hClose⟩, depth, hSkip,
      fun _ => closes_cons_plain hPlain⟩)

/- What is skipped of a broken statement closes open blocks. -/
theorem exists_closes_of_skipBroken
    {depth : Nat}
    {tokens rest : List Located}
    (h : skipBroken depth tokens = some rest) :
    ∃ skipped, tokens = skipped ++ rest ∧ Closes depth skipped := by
  induction tokens generalizing depth with
  | nil => cases h
  | cons t tokens ih =>
      rcases skipBroken_cons_cases depth t tokens with
        ⟨rfl, hToken, hSkip⟩ | ⟨rfl, _, hSkip⟩ |
        ⟨_, inside, hSkip, hCloses⟩
      · rw [hSkip, Option.some.injEq] at h
        subst h
        exact ⟨[t], rfl, isBalanced_singleton (by simp [IsPlain, hToken])⟩
      · rw [hSkip, Option.some.injEq] at h
        subst h
        exact ⟨[], rfl, closes_nil⟩
      · rw [hSkip] at h
        rcases ih h with ⟨skipped, rfl, hInside⟩
        exact ⟨t :: skipped, rfl, (hCloses skipped).mpr hInside⟩

theorem isFatal_of_recover_eq_error
    {d e : Diagnostic}
    (h : recover d p = .error e q) :
    e.isFatal = true := by
  rw [recover_apply] at h
  split at h
  · cases h
    rfl
  · rw [synchronize_apply] at h
    cases hSkip : skipBroken 0 (p.keeping d).stream.tokens with
    | some rest =>
        rw [hSkip] at h
        cases h
    | none =>
        rw [hSkip] at h
        cases h
        exact (isFatal_unexpected _ _).mpr rfl

/-
  A turn of a block leaves balanced tokens behind, unless what
  it fails with is fatal.
-/
theorem balanced_stmtOrRecover
    (hInner :
      ∀ q : Parser,
        q.stream.tokens.length < p.stream.tokens.length →
          LeavesBlock q.stream.tokens (inner q)) :
    match stmtOrRecover inner p with
    | .ok _ q =>
        ∃ used,
          p.stream.tokens = used ++ q.stream.tokens ∧
            IsBalanced used
    | .error d _ => d.isFatal = true := by
  have hCrosses := crosses_stmt hInner
  rw [stmtOrRecover_apply]
  cases hStmt : stmt inner p with
  | ok parsed q =>
      rw [hStmt] at hCrosses
      rcases hCrosses with ⟨used, hTokens, hBalanced, _⟩
      exact ⟨used, hTokens, hBalanced⟩
  | error d q =>
      rw [hStmt] at hCrosses
      dsimp only
      cases hFatal : d.isFatal with
      | true =>
          rw [if_pos rfl]
          exact hFatal
      | false =>
          rcases hCrosses hFatal with ⟨used, hTokens, hBalanced, _⟩
          rw [if_neg Bool.false_ne_true]
          cases hRecover : recover d q with
          | ok u r =>
              rcases recover_eq_ok hRecover with
                ⟨_, rest, hSkip, rfl⟩
              rcases exists_closes_of_skipBroken hSkip with
                ⟨skipped, hSkipped, hCloses⟩
              have hSkippedBalanced : IsBalanced skipped := hCloses
              refine ⟨used ++ skipped, ?_,
                hBalanced.append hSkippedBalanced⟩
              rw [hTokens, hSkipped, List.append_assoc]
              rfl
          | error e r => exact isFatal_of_recover_eq_error hRecover

------------------------------------------------------------
-- Blocks
------------------------------------------------------------

/-
  Blocks end at the brace that closes them, by induction on the
  number of tokens left.
-/
theorem leavesBlock_wholeBlock
    (p : Parser) :
    LeavesBlock p.stream.tokens (wholeBlock p) := by
  induction hLength : p.stream.tokens.length
    using Nat.strong_induction_on generalizing p with
  | _ n ih =>
      have hInner :
          ∀ q : Parser,
            q.stream.tokens.length < p.stream.tokens.length →
              LeavesBlock q.stream.tokens (wholeBlock q) :=
        fun q hLess => ih _ (hLength ▸ hLess) q rfl
      by_cases hSemicolon : p.current = .symbol .semicolon
      · have hRead := read_advance hSemicolon (by simp)
        have hLess := length_advance_lt (p := p)
          (by simp [hSemicolon])
        rw [wholeBlock_of_semicolon hSemicolon, hRead.tokens_eq]
        exact (hInner _ hLess).of_balanced
          (isBalanced_singleton (by simp [IsPlain]))
      by_cases hClose : p.current = .symbol .closeBrace
      · have hRead := read_advance hClose (by simp)
        rw [wholeBlock_of_closeBrace hClose]
        exact ⟨[], _, hRead.tokens_eq, rfl, closes_nil⟩
      by_cases hEnd : p.current = .endOfFile
      · rw [wholeBlock_apply, if_neg hSemicolon, if_neg hClose,
          if_pos hEnd]
        exact (isFatal_unexpected _ _).mpr hEnd
      have hTurn : p.AtStmt := ⟨hSemicolon, hClose, hEnd⟩
      have hFirst := balanced_stmtOrRecover hInner
      rw [wholeBlock_of_atStmt hTurn, bind_apply]
      cases hStep : stmtOrRecover wholeBlock p with
      | error d q =>
          rw [hStep] at hFirst
          exact hFirst
      | ok parsed q =>
          rw [hStep] at hFirst
          rcases hFirst with ⟨used, hTokens, hBalanced⟩
          have hLess := length_lt_of_stmtOrRecover
            isForward_wholeBlock hEnd hClose hStep
          rw [hTokens]
          exact ((hInner q hLess).map _).of_balanced hBalanced

/- A statement that can be left has taken balanced braces. -/
theorem crosses_of_stmt_eq_error
    {d : Diagnostic}
    (hStmt : stmt wholeBlock p = .error d q)
    (hFatal : d.isFatal = false) :
    p.Crosses q := by
  have hCrosses := crosses_stmt (p := p)
    fun q _ => leavesBlock_wholeBlock q
  rw [hStmt] at hCrosses
  exact hCrosses hFatal

end

end Parser

end DotLang
