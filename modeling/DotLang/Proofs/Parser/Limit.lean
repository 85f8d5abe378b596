import DotLang.Proofs.Parser.Recovery

/-
  This file proves that the limit on broken statements does
  nothing but cut the parser short.

  A parser and the one with a higher limit take the same steps
  until the first one gives up.  No step gives up while there is
  room for a diagnostic for each token that is left, and a text
  has no more tokens than characters.

  Key definitions include:
    * `Parser.IsTruncated`
    * `Parser.Truncates`
    * `Parser.Affords`
    * `Parser.GivesUp`

  Key theorems include:
    * `Parser.truncates_block`
    * `Parser.affords_block`
    * `Parser.limit_truncates`
-/

------------------------------------------------------------
-- Tokens and Characters
------------------------------------------------------------

namespace DotLang

/- Each token takes a character at least. -/
theorem Cursor.length_tokens_le
    (c : Cursor) :
    c.tokens.tokens.length ≤ c.remaining := by
  fun_induction Cursor.tokens c with
  | case1 c first hToken following ih =>
      have hLess := remaining_readToken_lt hToken
      have hSkip : first.remaining ≤ c.remaining :=
        remaining_skipTrivia_le c
      have hRest : following.tokens.length ≤ _ := ih
      simp only [List.length_cons]
      omega
  | case2 c first hToken => exact Nat.zero_le _

theorem length_tokens_ofText_le
    (text : List Char) :
    (TokenStream.ofText text).tokens.length ≤ text.length :=
  (Cursor.length_tokens_le _).trans (Cursor.remaining_advance_le _)

namespace Parser

------------------------------------------------------------
-- Results
------------------------------------------------------------

/- What a step gives, without the parser that it leaves. -/
def outcome
    {α : Type} :
    EStateM.Result Diagnostic Parser α → Except Diagnostic α
| .ok a _ => .ok a
| .error d _ => .error d

/- The diagnostics kept by the parser that a step leaves. -/
def kept
    {α : Type}
    (result : EStateM.Result Diagnostic Parser α) :
    List Diagnostic :=
  (stateAfter result).diagnostics

/- The parser stopped because of too many broken statements. -/
def GivesUp
    {α : Type} :
    EStateM.Result Diagnostic Parser α → Prop
| .ok _ _ => False
| .error d _ => d.kind = .tooManyErrors

instance
    {α : Type}
    (result : EStateM.Result Diagnostic Parser α) :
    Decidable (GivesUp result) :=
  match result with
  | .ok _ _ => inferInstanceAs (Decidable False)
  | .error d _ =>
      inferInstanceAs (Decidable (d.kind = .tooManyErrors))

theorem kind_unexpected_ne
    (s : TokenStream)
    (allowed : Expectation) :
    (s.unexpected allowed).kind ≠ .tooManyErrors := by
  unfold TokenStream.unexpected
  cases s.current <;> simp

------------------------------------------------------------
-- Runs with a Higher Limit
------------------------------------------------------------

/- The parser with another limit. -/
def limited
    (p : Parser)
    (limit : Nat) : Parser :=
  { p with maxErrors := limit }

/-
  The first result is the second one, which a higher limit
  gives, or it is that of a parser that gave up before.
-/
inductive IsTruncated
    {α : Type}
    (limit : Nat) :
    EStateM.Result Diagnostic Parser α →
      EStateM.Result Diagnostic Parser α → Prop where
| ok
    (a : α)
    {p : Parser}
    (hRoom : p.diagnostics.length ≤ p.maxErrors) :
    IsTruncated limit (.ok a p) (.ok a (p.limited limit))
| error
    {d : Diagnostic}
    {p : Parser}
    (hKind : d.kind ≠ .tooManyErrors)
    (hRoom : p.diagnostics.length ≤ p.maxErrors) :
    IsTruncated limit (.error d p) (.error d (p.limited limit))
| givesUp
    {d : Diagnostic}
    {p : Parser}
    {result : EStateM.Result Diagnostic Parser α}
    (hKind : d.kind = .tooManyErrors)
    (hFull : p.diagnostics.length = p.maxErrors + 1)
    (hPrefix : p.diagnostics <+: kept result) :
    IsTruncated limit (.error d p) result

/- A step that a lower limit only cuts short. -/
def Truncates {α : Type} (step : Step α) : Prop :=
  ∀ p limit,
    p.maxErrors ≤ limit →
      p.diagnostics.length ≤ p.maxErrors →
        IsTruncated limit (step p) (step (p.limited limit))

section

variable {α β : Type}

/- What was kept is still kept behind another step. -/
theorem prefix_kept_bind
    (first : Step α)
    {second : α → Step β}
    (hSecond : ∀ a, IsForward (second a))
    (p : Parser) :
    kept (first p) <+: kept ((first >>= second) p) := by
  rw [bind_apply]
  cases hFirst : first p with
  | error d q => exact List.prefix_rfl
  | ok a q =>
      exact ((hSecond a).precedes_stateAfter q).prefix_diagnostics

theorem truncates_pure
    (a : α) :
    Truncates (pure a) :=
  fun _ _ _ hRoom => .ok a hRoom

theorem truncates_take : Truncates take :=
  fun p _ _ hRoom => .ok (p := p.advance) p.current hRoom

theorem truncates_unexpected
    (allowed : Expectation) :
    Truncates (unexpected allowed : Step α) :=
  fun p _ _ hRoom =>
    .error (p := p) (kind_unexpected_ne p.stream allowed) hRoom

theorem Truncates.bind
    {first : Step α}
    {second : α → Step β}
    (hForward : IsForward first)
    (hForward' : ∀ a, IsForward (second a))
    (hFirst : Truncates first)
    (hSecond : ∀ a, Truncates (second a)) :
    Truncates (first >>= second) := by
  intro p limit hLimit hRoom
  have hPrefix :=
    prefix_kept_bind first hForward' (p.limited limit)
  have hStep := hFirst p limit hLimit hRoom
  rw [bind_apply] at hPrefix ⊢
  rw [bind_apply]
  generalize first (p.limited limit) = other at hStep hPrefix ⊢
  cases hResult : first p with
  | ok a q =>
      rw [hResult] at hStep
      have hMax := (hForward.of_ok hResult).maxErrors
      cases hStep with
      | ok a hRoom' => exact hSecond a q limit (hMax ▸ hLimit) hRoom'
  | error d q =>
      rw [hResult] at hStep
      cases hStep with
      | error hKind hRoom' => exact .error hKind hRoom'
      | givesUp hKind hFull hFirstPrefix =>
          exact .givesUp hKind hFull (hFirstPrefix.trans hPrefix)

theorem truncates_expect
    (mark : Symbol) :
    Truncates (expect mark) := by
  intro p limit _ hRoom
  have hSame : (p.limited limit).current = p.current := rfl
  rw [expect_apply, expect_apply, hSame]
  by_cases hCurrent : p.current = .symbol mark
  · rw [if_pos hCurrent, if_pos hCurrent]
    exact .ok (p := p.advance) () hRoom
  · rw [if_neg hCurrent, if_neg hCurrent]
    exact .error (p := p) (kind_unexpected_ne p.stream _) hRoom

/-
  Compositions are cut short where the step for the blocks
  inside them is.
-/
theorem IsComposed.truncates
    {inner : Step (List Stmt)}
    {step : Step α}
    (h : IsComposed inner step)
    (hForward : IsForward inner)
    (hInner : Truncates inner) :
    Truncates step := by
  induction h with
  | pure a => exact truncates_pure a
  | take => exact truncates_take
  | unexpected allowed => exact truncates_unexpected allowed
  | portAssigned =>
      exact fun p _ _ hRoom =>
        .error (d := p.portAssigned) (by simp [Parser.portAssigned])
          hRoom
  | look hStep hStream ih =>
      intro p limit hLimit hRoom
      have hSame := hStream p (p.limited limit) rfl
      rw [bind_apply, bind_apply, get_apply, get_apply]
      simp only [← hSame]
      exact ih p p limit hLimit hRoom
  | bind hFirst hSecond ihFirst ihSecond =>
      exact .bind (hFirst.isForward hForward)
        (fun a => (hSecond a).isForward hForward) ihFirst ihSecond
  | braced =>
      exact .bind (isForward_expect _) (fun _ => hForward)
        (truncates_expect _) (fun _ => hInner)

------------------------------------------------------------
-- Broken Statements
------------------------------------------------------------

theorem truncates_synchronize : Truncates synchronize := by
  intro p limit _ hRoom
  have hTokens :
      (p.limited limit).stream.tokens = p.stream.tokens := rfl
  rw [synchronize_apply, synchronize_apply, hTokens]
  cases skipBroken 0 p.stream.tokens with
  | some rest => exact .ok (p := p.facing rest) () hRoom
  | none =>
      exact .error (p := p.facing []) (kind_unexpected_ne _ _) hRoom

theorem kept_recover
    (d : Diagnostic)
    (p : Parser) :
    kept (recover d p) = p.diagnostics ++ [d] := by
  rw [recover_apply]
  split
  · rfl
  · rw [synchronize_apply]
    cases skipBroken 0 (p.keeping d).stream.tokens <;> rfl

/- A lower limit is what makes a parser give up first. -/
theorem truncates_recover
    (d : Diagnostic) :
    Truncates (recover d) := by
  intro p limit hLimit hRoom
  have hLength :
      (p.keeping d).diagnostics.length =
        p.diagnostics.length + 1 := by
    simp [keeping]
  have hPrefix :
      (p.keeping d).diagnostics <+:
        kept (recover d (p.limited limit)) := by
    rw [kept_recover]
    exact List.prefix_rfl
  rw [recover_apply]
  by_cases hMax : p.maxErrors < p.diagnostics.length + 1
  · rw [if_pos hMax]
    refine .givesUp rfl ?_ hPrefix
    have hSame : (p.keeping d).maxErrors = p.maxErrors := rfl
    omega
  · have hHigher :
        ¬ (p.limited limit).maxErrors <
            (p.limited limit).diagnostics.length + 1 := by
      have hSame : (p.limited limit).maxErrors = limit := rfl
      have hDiagnostics :
          (p.limited limit).diagnostics = p.diagnostics := rfl
      rw [hDiagnostics]
      omega
    rw [if_neg hMax, recover_apply, if_neg hHigher]
    exact truncates_synchronize (p.keeping d) limit hLimit
      (hLength.trans_le (Nat.le_of_not_lt hMax))

/- What a broken statement kept is kept behind it as well. -/
theorem prefix_kept_stmt
    (inner : Step (List Stmt))
    (p : Parser) :
    kept (stmt inner p) <+: kept (stmtOrRecover inner p) := by
  rw [stmtOrRecover_apply]
  cases hStmt : stmt inner p with
  | ok parsed q => exact List.prefix_rfl
  | error d q =>
      cases hFatal : d.isFatal with
      | true =>
          simp only [hFatal, if_true]
          exact List.prefix_rfl
      | false =>
          have hKept := kept_recover d q
          simp only [hFatal, Bool.false_eq_true, if_false]
          cases hRecover : recover d q with
          | ok u r =>
              rw [hRecover] at hKept
              exact ⟨[d], hKept.symm⟩
          | error e r =>
              rw [hRecover] at hKept
              exact ⟨[d], hKept.symm⟩

theorem truncates_stmtOrRecover
    {inner : Step (List Stmt)}
    (hForward : IsForward inner)
    (hInner : Truncates inner) :
    Truncates (stmtOrRecover inner) := by
  intro p limit hLimit hRoom
  have hPrefix := prefix_kept_stmt inner (p.limited limit)
  have hStep :=
    isComposed_stmt.truncates hForward hInner p limit hLimit hRoom
  rw [stmtOrRecover_apply] at hPrefix ⊢
  rw [stmtOrRecover_apply]
  generalize stmt inner (p.limited limit) = other at hStep hPrefix ⊢
  cases hStmt : stmt inner p with
  | ok parsed q =>
      rw [hStmt] at hStep
      cases hStep with
      | ok parsed hRoom' => exact .ok _ hRoom'
  | error d q =>
      rw [hStmt] at hStep
      have hForwardStmt := isForward_stmt hForward
      have hMax := (hForwardStmt.of_error hStmt).1.maxErrors
      cases hStep with
      | error hKind hRoom' =>
          cases hFatal : d.isFatal with
          | true =>
              simp only [hFatal, if_true]
              exact .error hKind hRoom'
          | false =>
              have hRecover := truncates_recover d q limit
                (hMax ▸ hLimit) hRoom'
              simp only [hFatal, Bool.false_eq_true, if_false]
              generalize recover d (q.limited limit) = last
                at hRecover ⊢
              generalize recover d q = first at hRecover ⊢
              cases hRecover with
              | ok u hRoom' => exact .ok _ hRoom'
              | error hKind hRoom' => exact .error hKind hRoom'
              | givesUp hKind hFull hRest =>
                  refine .givesUp hKind hFull (hRest.trans ?_)
                  cases last <;> exact List.prefix_rfl
      | givesUp hKind hFull hRest =>
          have hFatal : d.isFatal = true := by
            simp [Diagnostic.isFatal, Diagnostic.Kind.isFatal, hKind]
          simp only [hFatal, if_true]
          exact .givesUp hKind hFull (hRest.trans hPrefix)

/- Blocks are cut short because the blocks inside them are. -/
theorem truncates_block
    (bound : Nat) :
    Truncates (block bound) := by
  induction bound with
  | zero => exact truncates_unexpected _
  | succ bound ih =>
      have hForward := isForward_block bound
      intro p limit hLimit hRoom
      have hCurrent : (p.limited limit).current = p.current := rfl
      rw [block_apply, block_apply, hCurrent]
      split
      · exact ih p.advance limit hLimit hRoom
      · split
        · exact .ok (p := p.advance) [] hRoom
        · split
          · exact .error (p := p) (kind_unexpected_ne _ _) hRoom
          · have hStep :=
              truncates_stmtOrRecover hForward ih
            refine Truncates.bind (isForward_stmtOrRecover hForward)
              (fun parsed => hForward.map _) hStep
              (fun parsed => ?_) p limit hLimit hRoom
            exact .bind hForward (fun _ => isForward_pure _) ih
              (fun _ => truncates_pure _)

theorem truncates_wholeBlock : Truncates wholeBlock :=
  fun p limit => truncates_block p.bound p limit

theorem truncates_file : Truncates file :=
  isComposed_file.truncates isForward_wholeBlock truncates_wholeBlock

end

------------------------------------------------------------
-- Room for All Diagnostics
------------------------------------------------------------

/-
  A result of a parser that did not give up, and used the room
  for diagnostics as the relation says.
-/
def IsAfforded
    {α : Type}
    (spends : Parser → Parser → Prop)
    (p : Parser) :
    EStateM.Result Diagnostic Parser α → Prop
| .ok _ q => spends p q
| .error d q =>
    d.kind ≠ .tooManyErrors ∧ (d.isFatal = false → spends p q)

/- Room for a diagnostic for each token suffices for a step. -/
def AffordsAt
    {α : Type}
    (spends : Parser → Parser → Prop)
    (step : Step α)
    (p : Parser) : Prop :=
  p.errorBound ≤ p.maxErrors → IsAfforded spends p (step p)

/- A step for which it suffices everywhere. -/
def Affords
    {α : Type}
    (spends : Parser → Parser → Prop)
    (step : Step α) : Prop :=
  ∀ p, AffordsAt spends step p

section

variable {α β : Type} {spends spends' : Parser → Parser → Prop}

theorem IsAfforded.of_imp
    {p q : Parser}
    {result : EStateM.Result Diagnostic Parser α}
    (h : IsAfforded spends q result)
    (hImp : ∀ r, spends q r → spends' p r) :
    IsAfforded spends' p result := by
  cases result with
  | ok a r => exact hImp r h
  | error d r => exact ⟨h.1, fun hFatal => hImp r (h.2 hFatal)⟩

theorem IsAfforded.not_givesUp
    {p : Parser}
    {result : EStateM.Result Diagnostic Parser α}
    (h : IsAfforded spends p result) :
    ¬ GivesUp result := by
  cases result with
  | ok a q => exact id
  | error d q => exact h.1

theorem isAfforded_unexpected
    {p : Parser}
    (allowed : Expectation)
    (hSame : spends p p) :
    IsAfforded spends p ((unexpected allowed : Step α) p) :=
  ⟨kind_unexpected_ne _ _, fun _ => hSame⟩

theorem AffordsAt.bind
    {p : Parser}
    {first : Step α}
    {second : α → Step β}
    (hTrans :
      ∀ {p q r}, spends p q → spends q r → spends p r)
    (hFits : ∀ {p q}, spends p q → Fits p q)
    (hForward : IsForward first)
    (hFirst : AffordsAt spends first p)
    (hSecond : ∀ a, Affords spends (second a)) :
    AffordsAt spends (first >>= second) p := by
  intro hRoom
  have hSpec := hFirst hRoom
  rw [bind_apply]
  cases hStep : first p with
  | error d q =>
      rw [hStep] at hSpec
      exact hSpec
  | ok a q =>
      rw [hStep] at hSpec
      have hSpends : spends p q := hSpec
      have hRoom' : q.errorBound ≤ q.maxErrors := by
        rw [(hForward.of_ok hStep).maxErrors]
        exact Nat.le_trans (hFits hSpends) hRoom
      exact (hSecond a q hRoom').of_imp fun r => hTrans hSpends

/- A block in its braces spends the brace that opens it. -/
theorem affords_braced
    {inner : Step (List Stmt)}
    (hInner : Affords Fits inner) :
    Affords Spends (expect .openBrace >>= fun _ => inner) := by
  intro p hRoom
  rw [bind_apply, expect_apply]
  by_cases hOpen : p.current = .symbol .openBrace
  · have hEnd : p.current ≠ .endOfFile := by simp [hOpen]
    rcases exists_cons_of_current hEnd with ⟨t, rest, hTokens, _⟩
    have hSpent := errorBound_advance hTokens
    have hMax : p.advance.maxErrors = p.maxErrors := rfl
    have hRest := hInner p.advance (by omega)
    rw [if_pos hOpen]
    refine hRest.of_imp fun q hFits => Or.inr ?_
    unfold Fits at hFits
    omega
  · rw [if_neg hOpen]
    exact isAfforded_unexpected _ (Or.inl rfl)

/-
  Compositions never give up while there is room, if the step
  for the blocks inside them does not.
-/
theorem IsComposed.affords
    {inner : Step (List Stmt)}
    {step : Step α}
    (h : IsComposed inner step)
    (hForward : IsForward inner)
    (hInner : Affords Fits inner) :
    Affords Spends step := by
  induction h with
  | pure a => exact fun p _ => Or.inl rfl
  | take => exact fun p _ => spends_advance p
  | unexpected allowed =>
      exact fun p _ => isAfforded_unexpected allowed (Or.inl rfl)
  | portAssigned =>
      exact fun p _ =>
        ⟨by simp [Parser.portAssigned], fun _ => Or.inl rfl⟩
  | look hStep hStream ih => exact fun p => ih p p
  | bind hFirst hSecond ihFirst ihSecond =>
      exact fun p => .bind Spends.trans Spends.fits
        (hFirst.isForward hForward) (ihFirst p) ihSecond
  | braced => exact affords_braced hInner

/- A broken statement spends a token on its diagnostic. -/
theorem affordsAt_stmtOrRecover
    {inner : Step (List Stmt)}
    (hForward : IsForward inner)
    (hInner : Affords Fits inner)
    {p : Parser}
    (hEnd : p.current ≠ .endOfFile)
    (hClose : p.current ≠ .symbol .closeBrace) :
    AffordsAt Fits (stmtOrRecover inner) p := by
  intro hRoom
  have hSpec := isComposed_stmt.affords hForward hInner p hRoom
  rw [stmtOrRecover_apply]
  cases hStmt : stmt inner p with
  | ok parsed q =>
      rw [hStmt] at hSpec
      exact hSpec.fits
  | error d q =>
      rw [hStmt] at hSpec
      have hPrecedes := ((isForward_stmt hForward).of_error hStmt).1
      cases hFatal : d.isFatal with
      | true =>
          simp only [hFatal, if_true]
          refine ⟨hSpec.1, fun hNot => ?_⟩
          rw [hFatal] at hNot
          cases hNot
      | false =>
          have hSpent := hSpec.2 hFatal
          have hKeeping :
              (q.keeping d).stream.tokens = q.stream.tokens := rfl
          simp only [hFatal, Bool.false_eq_true, if_false]
          rw [recover_eq_synchronize d hRoom hEnd
            hPrecedes.maxErrors hSpent, synchronize_apply, hKeeping]
          cases hSkip : skipBroken 0 q.stream.tokens with
          | none =>
              refine ⟨kind_unexpected_ne _ _, fun hNot => ?_⟩
              rw [(isFatal_unexpected _ _).mpr rfl] at hNot
              cases hNot
          | some left =>
              have hLess := length_lt_of_skipBroken hEnd hClose
                hPrecedes hSpent hSkip
              show ((q.keeping d).facing left).errorBound ≤ _
              rw [errorBound_keeping_facing]
              exact hLess.2

end

/- Blocks never give up because the blocks inside them do not. -/
theorem affords_block
    (bound : Nat) :
    Affords Fits (block bound) := by
  induction bound with
  | zero =>
      exact fun p _ => isAfforded_unexpected _ (Nat.le_refl _)
  | succ bound ih =>
      have hForward := isForward_block bound
      intro p hRoom
      have hAdvance : Fits p p.advance := (spends_advance p).fits
      rw [block_apply]
      by_cases hSemicolon : p.current = .symbol .semicolon
      · rw [if_pos hSemicolon]
        have hRest := ih p.advance (Nat.le_trans hAdvance hRoom)
        exact hRest.of_imp fun q => hAdvance.trans
      · rw [if_neg hSemicolon]
        by_cases hClose : p.current = .symbol .closeBrace
        · rw [if_pos hClose]
          exact hAdvance
        · rw [if_neg hClose]
          by_cases hEnd : p.current = .endOfFile
          · rw [if_pos hEnd]
            exact isAfforded_unexpected _ (Nat.le_refl _)
          · rw [if_neg hEnd]
            have hFirst :=
              affordsAt_stmtOrRecover hForward ih hEnd hClose
            refine AffordsAt.bind Fits.trans id
              (isForward_stmtOrRecover hForward) hFirst
              (fun parsed q => ?_) hRoom
            exact .bind Fits.trans id hForward (ih q)
              fun _ _ _ => Nat.le_refl _

theorem affords_wholeBlock : Affords Fits wholeBlock :=
  fun p => affords_block p.bound p

------------------------------------------------------------
-- Limits
------------------------------------------------------------

/- What the parser gives for a text with a limit on errors. -/
def fileWithin
    (text : List Char)
    (options : Options)
    (limit : Nat) :
    EStateM.Result Diagnostic Parser (List GraphDecl) :=
  file (ofText text { options with maxErrors := limit })

section

variable {α : Type}
variable {limit : Nat}
variable {result other : EStateM.Result Diagnostic Parser α}

theorem IsTruncated.eq_of_not_givesUp
    (h : IsTruncated limit result other)
    (hNot : ¬ GivesUp result) :
    outcome other = outcome result ∧ kept other = kept result := by
  cases h with
  | ok a hRoom => exact ⟨rfl, rfl⟩
  | error hKind hRoom => exact ⟨rfl, rfl⟩
  | givesUp hKind hFull hPrefix => exact absurd hKind hNot

theorem IsTruncated.length_kept_le
    (h : IsTruncated limit result other)
    (hNot : ¬ GivesUp result) :
    (kept result).length ≤ (stateAfter result).maxErrors := by
  cases h with
  | ok a hRoom => exact hRoom
  | error hKind hRoom => exact hRoom
  | givesUp hKind hFull hPrefix => exact absurd hKind hNot

theorem IsTruncated.of_givesUp
    (h : IsTruncated limit result other)
    (hUp : GivesUp result) :
    (kept result).length = (stateAfter result).maxErrors + 1 ∧
      kept result <+: kept other := by
  cases h with
  | ok a hRoom => exact hUp.elim
  | error hKind hRoom => exact absurd hUp hKind
  | givesUp hKind hFull hPrefix => exact ⟨hFull, hPrefix⟩

end

section

variable (text : List Char) (options : Options)

theorem isTruncated_fileWithin
    {limit higher : Nat}
    (hLimits : limit ≤ higher) :
    IsTruncated higher
      (fileWithin text options limit)
      (fileWithin text options higher) :=
  truncates_file (ofText text { options with maxErrors := limit })
    higher hLimits (Nat.zero_le _)

theorem maxErrors_fileWithin
    (limit : Nat) :
    (stateAfter (fileWithin text options limit)).maxErrors = limit :=
  (isForward_file.precedes_stateAfter _).maxErrors

/- No text has more broken statements than characters. -/
theorem not_givesUp_of_length_le
    {limit : Nat}
    (hLimit : text.length ≤ limit) :
    ¬ GivesUp (fileWithin text options limit) := by
  let p := ofText text { options with maxErrors := limit }
  have hRoom : p.advance.errorBound ≤ p.advance.maxErrors := by
    have hTokens := length_tokens_ofText_le text
    have hBound :
        p.advance.errorBound =
          (TokenStream.ofText text).tokens.length :=
      Nat.zero_add _
    exact (hBound.trans_le hTokens).trans hLimit
  have hSpec := isComposed_graphs.affords isForward_wholeBlock
    affords_wholeBlock p.advance hRoom
  exact hSpec.not_givesUp

/-
  The limit only cuts a run short: it gives the same as with a
  higher limit, or it stops with one diagnostic more than the
  limit, of those that a higher limit gives.  It does so exactly
  if there are more diagnostics when nothing limits them.
-/
theorem limit_truncates
    {limit higher : Nat}
    (hLimits : limit ≤ higher) :
    (¬ GivesUp (fileWithin text options limit) →
        outcome (fileWithin text options higher) =
            outcome (fileWithin text options limit) ∧
          kept (fileWithin text options higher) =
            kept (fileWithin text options limit)) ∧
      (GivesUp (fileWithin text options limit) →
        (kept (fileWithin text options limit)).length = limit + 1 ∧
          kept (fileWithin text options limit) =
            (kept (fileWithin text options higher)).take
              (limit + 1)) ∧
      (GivesUp (fileWithin text options limit) ↔
        limit <
          (kept (fileWithin text options text.length)).length) := by
  have hRun := isTruncated_fileWithin text options hLimits
  have hMax := maxErrors_fileWithin text options limit
  refine ⟨hRun.eq_of_not_givesUp, ?_, ?_, ?_⟩
  · intro hUp
    rcases hRun.of_givesUp hUp with ⟨hLength, hPrefix⟩
    rw [hMax] at hLength
    refine ⟨hLength, ?_⟩
    rw [← hLength]
    exact List.prefix_iff_eq_take.mp hPrefix
  · intro hUp
    have hShort : limit ≤ text.length := by
      by_contra hLong
      exact not_givesUp_of_length_le text options
        (Nat.le_of_not_le hLong) hUp
    rcases (isTruncated_fileWithin text options hShort).of_givesUp
      hUp with ⟨hLength, hPrefix⟩
    rw [hMax] at hLength
    have hLe := hPrefix.length_le
    omega
  · intro hMore
    by_contra hNot
    have hFull :=
      not_givesUp_of_length_le text options (Nat.le_refl _)
    have hLe := hRun.length_kept_le hNot
    rw [hMax] at hLe
    rcases Nat.le_total limit text.length with hShort | hLong
    · have hSame :=
        (isTruncated_fileWithin text options hShort).eq_of_not_givesUp
          hNot
      rw [hSame.2] at hMore
      omega
    · have hSame :=
        (isTruncated_fileWithin text options hLong).eq_of_not_givesUp
          hFull
      rw [hSame.2] at hLe
      omega

end

/-
  With one broken statement, a limit of none gives up and a
  limit of one does not.
-/
theorem limit_truncates_stray_bracket :
    let text := ['g', 'r', 'a', 'p', 'h', '{', ']', '}']
    0 ≤ 1 ∧
      GivesUp (fileWithin text {} 0) ∧
      ¬ GivesUp (fileWithin text {} 1) ∧
      (kept (fileWithin text {} 0)).length = 1 ∧
      kept (fileWithin text {} 0) =
        (kept (fileWithin text {} 1)).take 1 := by
  intro text
  have hUp : GivesUp (fileWithin text {} 0) := by decide +kernel
  have hNot : ¬ GivesUp (fileWithin text {} 1) := by
    decide +kernel
  have hCut := (limit_truncates text {} (Nat.zero_le 1)).2.1 hUp
  exact ⟨Nat.zero_le 1, hUp, hNot, hCut.1, hCut.2⟩

end Parser

end DotLang
