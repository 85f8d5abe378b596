import DotLang.Proofs.Grammar.Soundness
import DotLang.Proofs.Parser.Likeness

/-
  This file proves that blocks nest for the parser as the braces
  do, however broken the statements are.

  A step inside a block stays in that block: it takes whole
  blocks or no braces at all, also where it fails.  Only a block
  that is never closed ends the parser, as long as there is room
  for all diagnostics: each of them costs a token.

  Key definitions include:
    * `Parser.Spends`
    * `Parser.SameBlock`
    * `Parser.Nests`
    * `Parser.EndsBlock`

  Key theorems include:
    * `Parser.nests_stmt`
    * `Parser.endsBlock_block`
-/

------------------------------------------------------------
-- Room for Diagnostics
------------------------------------------------------------

namespace DotLang

namespace Parser

/- The diagnostics kept, and one for each token that is left. -/
def errorBound (p : Parser) : Nat :=
  p.diagnostics.length + p.stream.tokens.length

/-
  No end is among the tokens, of which `n` are left at most, and
  none of them can be one error too many.
-/
structure Ready (n : Nat) (p : Parser) : Prop where
  noEnd : ∀ t ∈ p.stream.tokens, t.token ≠ .endOfFile
  room : p.errorBound ≤ p.maxErrors
  bound : p.stream.tokens.length ≤ n

/- The second parser is the first one, or it spent a token. -/
def Spends (p q : Parser) : Prop :=
  q = p ∨ q.errorBound < p.errorBound

/- The second parser needs no more room than the first one. -/
def Fits (p q : Parser) : Prop :=
  q.errorBound ≤ p.errorBound

theorem Spends.fits
    {p q : Parser}
    (h : Spends p q) :
    Fits p q := by
  rcases h with rfl | hLess
  · exact Nat.le_refl _
  · exact Nat.le_of_lt hLess

theorem Fits.trans
    {p q r : Parser}
    (h : Fits p q)
    (h' : Fits q r) :
    Fits p r :=
  Nat.le_trans h' h

theorem Spends.trans
    {p q r : Parser}
    (h : Spends p q)
    (h' : Spends q r) :
    Spends p r := by
  rcases h' with rfl | hLess
  · exact h
  · exact Or.inr (Nat.lt_of_lt_of_le hLess h.fits)

/- The second parser got further in the block of the first. -/
structure SameBlock (p q : Parser) : Prop where
  precedes : p.Precedes q
  block :
    afterBlock 0 q.stream.tokens = afterBlock 0 p.stream.tokens
  spent : q = p ∨ q.errorBound < p.errorBound

theorem SameBlock.refl
    (p : Parser) :
    SameBlock p p :=
  ⟨Precedes.refl p, rfl, Or.inl rfl⟩

theorem SameBlock.trans
    {p q r : Parser}
    (h : SameBlock p q)
    (h' : SameBlock q r) :
    SameBlock p r :=
  ⟨h.precedes.trans h'.precedes, h'.block.trans h.block,
    Spends.trans h.spent h'.spent⟩

theorem SameBlock.errorBound_le
    {p q : Parser}
    (h : SameBlock p q) :
    q.errorBound ≤ p.errorBound :=
  Spends.fits h.spent

theorem Precedes.length_le
    {p q : Parser}
    (h : p.Precedes q) :
    q.stream.tokens.length ≤ p.stream.tokens.length :=
  h.tokens.length_le

theorem Precedes.prefix_diagnostics
    {p q : Parser}
    (h : p.Precedes q) :
    p.diagnostics <+: q.diagnostics := by
  rcases h.diagnostics with ⟨others, hOthers, _⟩
  exact ⟨others, hOthers.symm⟩

theorem Precedes.diagnostics_length_le
    {p q : Parser}
    (h : p.Precedes q) :
    p.diagnostics.length ≤ q.diagnostics.length :=
  h.prefix_diagnostics.length_le

/- A parser that got further has room as well. -/
theorem Ready.of_precedes
    {n m : Nat}
    {p q : Parser}
    (hReady : Ready n p)
    (h : p.Precedes q)
    (hBound : q.errorBound ≤ p.errorBound)
    (hLength : q.stream.tokens.length ≤ m) :
    Ready m q where
  noEnd t hMem := hReady.noEnd t (h.tokens.subset hMem)
  room := by
    rw [h.maxErrors]
    exact hBound.trans hReady.room
  bound := hLength

theorem Ready.of_sameBlock
    {n : Nat}
    {p q : Parser}
    (hReady : Ready n p)
    (h : SameBlock p q) :
    Ready n q :=
  hReady.of_precedes h.precedes h.errorBound_le
    (h.precedes.length_le.trans hReady.bound)

theorem errorBound_advance
    {p : Parser}
    {t : Located}
    {rest : List Located}
    (h : p.stream.tokens = t :: rest) :
    p.advance.errorBound + 1 = p.errorBound := by
  simp only [errorBound, advance, TokenStream.advance, h,
    List.tail_cons, List.length_cons]
  omega

theorem spends_advance
    (p : Parser) :
    Spends p p.advance := by
  cases hTokens : p.stream.tokens with
  | nil =>
      refine Or.inl ?_
      have hSame : p.advance = p.facing p.stream.tokens.tail := rfl
      rw [hSame, hTokens, List.tail_nil, ← hTokens, facing_tokens]
  | cons t rest =>
      have hSpent := errorBound_advance hTokens
      exact Or.inr (by omega)

theorem sameBlock_advance
    {p : Parser}
    (hEnd : p.current ≠ .endOfFile)
    (hPlain : IsPlain p.current) :
    SameBlock p p.advance := by
  rcases exists_cons_of_current hEnd with ⟨t, rest, hTokens, hToken⟩
  have hSpent := errorBound_advance hTokens
  refine ⟨precedes_facing (List.tail_suffix _), ?_,
    Or.inr (by omega)⟩
  rw [hToken] at hPlain
  simp only [advance, TokenStream.advance, hTokens, List.tail_cons]
  exact (afterBlock_plain 0 rest hPlain).symm

------------------------------------------------------------
-- Statements
------------------------------------------------------------

/-
  A step that stays in its block.  What ends the parser is that
  the block is not closed.
-/
def NestsAt
    {α : Type}
    (step : Step α)
    (p : Parser) : Prop :=
  match step p with
  | .ok _ q => SameBlock p q
  | .error d q =>
      (d.isFatal = false ∧ SameBlock p q) ∨
        (d.isFatal = true ∧ afterBlock 0 p.stream.tokens = none)

/- A step that does so with `n` tokens at most. -/
def Nests
    {α : Type}
    (n : Nat)
    (step : Step α) : Prop :=
  ∀ p, Ready n p → NestsAt step p

/-
  A result behind the brace that closes the block of a parser.
  It is a failure only if there is no such brace.
-/
def IsEnd
    {α : Type}
    (p : Parser) :
    EStateM.Result Diagnostic Parser α → Prop
| .ok _ q =>
    p.Precedes q ∧
      afterBlock 0 p.stream.tokens = some q.stream.tokens ∧
        q.errorBound < p.errorBound
| .error d _ =>
    d.isFatal = true ∧ afterBlock 0 p.stream.tokens = none

/- A step that gets there with `n` tokens at most. -/
def EndsBlock
    {α : Type}
    (n : Nat)
    (step : Step α) : Prop :=
  ∀ p, Ready n p → IsEnd p (step p)

section

variable {α : Type} {n : Nat} {step : Step α}

theorem NestsAt.of_ok
    {p q : Parser}
    {a : α}
    (h : NestsAt step p)
    (hStep : step p = .ok a q) :
    SameBlock p q := by
  rw [NestsAt, hStep] at h
  exact h

theorem NestsAt.of_error
    {p q : Parser}
    {d : Diagnostic}
    (h : NestsAt step p)
    (hStep : step p = .error d q) :
    (d.isFatal = false ∧ SameBlock p q) ∨
      (d.isFatal = true ∧ afterBlock 0 p.stream.tokens = none) := by
  rw [NestsAt, hStep] at h
  exact h

/- Only the end of the tokens is fatal. -/
theorem isFatal_unexpected
    (s : TokenStream)
    (allowed : Expectation) :
    (s.unexpected allowed).isFatal = true ↔
      s.current = .endOfFile := by
  unfold TokenStream.unexpected Diagnostic.isFatal
  cases s.current <;> simp [Diagnostic.Kind.isFatal]

variable {inner inner' : Step (List Stmt)}

/- The block behind a brace is a part of the block around it. -/
theorem afterBlock_of_openBrace
    {p : Parser}
    (hOpen : p.current = .symbol .openBrace) :
    afterBlock 0 p.stream.tokens =
      (afterBlock 0 p.advance.stream.tokens).bind
        (afterBlock 0) := by
  have hEnd : p.current ≠ .endOfFile := by simp [hOpen]
  rcases exists_cons_of_current hEnd with ⟨t, rest, hTokens, hToken⟩
  have hRest : p.advance.stream.tokens = rest := by
    simp [advance, TokenStream.advance, hTokens]
  rw [hTokens, hRest, afterBlock_open _ _ (hToken ▸ hOpen),
    afterBlock_one]

theorem Ready.advance
    {p : Parser}
    (hReady : Ready (n + 1) p)
    (hEnd : p.current ≠ .endOfFile) :
    Ready n p.advance := by
  rcases exists_cons_of_current hEnd with ⟨t, rest, hTokens, _⟩
  have hSpent := errorBound_advance hTokens
  have hBound := hReady.bound
  rw [hTokens, List.length_cons] at hBound
  refine hReady.of_precedes (precedes_facing (List.tail_suffix _))
    (by omega) ?_
  simp only [Parser.advance, TokenStream.advance, hTokens,
    List.tail_cons]
  omega

theorem sameBlock_braced
    (hInner : EndsBlock n inner)
    {p q : Parser}
    {body : List Stmt}
    (hReady : Ready (n + 1) p)
    (hOpen : p.current = .symbol .openBrace)
    (hStep : inner p.advance = .ok body q) :
    SameBlock p q := by
  have hEnd : p.current ≠ .endOfFile := by simp [hOpen]
  rcases exists_cons_of_current hEnd with ⟨t, rest, hTokens, _⟩
  have hSpent := errorBound_advance hTokens
  have hRun := hInner p.advance (hReady.advance hEnd)
  rw [hStep] at hRun
  rcases hRun with ⟨hPrecedes, hAfter, hLess⟩
  refine ⟨(precedes_facing (List.tail_suffix _)).trans hPrecedes, ?_,
    Or.inr (by omega)⟩
  rw [afterBlock_of_openBrace hOpen, hAfter]
  rfl

/- Every statement stays in its block, broken or not. -/
theorem nests_stmt
    (hInner : EndsBlock n inner) :
    Nests (n + 1) (stmt inner) := by
  intro p hReady
  have hAlike : Alike inner inner (stmt inner) (stmt inner) p :=
    alike_stmt
  have hRun := hAlike.run SameBlock.refl SameBlock.trans
    (fun r => sameBlock_advance)
    (fun r body s hSame =>
      sameBlock_braced hInner (hReady.of_sameBlock hSame))
  unfold NestsAt
  cases hStep : stmt inner p with
  | ok parsed q =>
      rw [hStep] at hRun
      exact hRun
  | error d q =>
      rw [hStep] at hRun
      rcases hRun with ⟨hSame, hCause⟩ | ⟨r, hSame, hOpen, hFails⟩
      · cases hFatal : d.isFatal with
        | false => exact Or.inl ⟨hFatal, hSame⟩
        | true =>
            refine Or.inr ⟨hFatal, ?_⟩
            rcases hCause with ⟨allowed, rfl⟩ | rfl
            · have hEnd := (isFatal_unexpected _ _).mp hFatal
              have hNone := tokens_eq_nil_of_endOfFile hEnd
                (hReady.of_sameBlock hSame).noEnd
              rw [← hSame.block, hNone]
              rfl
            · cases hFatal
      · have hEnd : r.current ≠ .endOfFile := by simp [hOpen]
        have hReady' :=
          (hReady.of_sameBlock hSame).advance hEnd
        have hUnclosed := hInner r.advance hReady'
        rw [hFails] at hUnclosed
        refine Or.inr ⟨hUnclosed.1, ?_⟩
        rw [← hSame.block, afterBlock_of_openBrace hOpen,
          hUnclosed.2]
        rfl

------------------------------------------------------------
-- Blocks
------------------------------------------------------------

/- Reading a token and going on leaves fewer tokens. -/
theorem length_lt_of_read
    {p q r : Parser}
    {t : Located}
    {tokens : List Located}
    (hRead : p.Read (t :: tokens) q)
    (hRest : q.Precedes r) :
    r.stream.tokens.length < p.stream.tokens.length := by
  have hLength := hRest.length_le
  rw [hRead.tokens_eq, List.length_append, List.length_cons]
  omega

theorem length_lt_of_subgraph
    (hForward : IsForward inner)
    {p q : Parser}
    {tree : String × List Stmt}
    (h : subgraph inner p = .ok tree q) :
    q.stream.tokens.length < p.stream.tokens.length := by
  rcases bind_eq_ok.mp h with ⟨hasKeyword, r, hStep, h⟩
  rcases accept_eq_ok (by simp) hStep with
    ⟨rfl, l, hRead⟩ | ⟨rfl, rfl⟩
  · have hRest :
        IsForward
          (do
            let name ← acceptName
            expect .openBrace
            return (name.getD "", ← inner)) := by
      refine isForward_acceptName.bind fun name => ?_
      refine (isForward_expect _).bind fun _ => ?_
      exact hForward.bind fun _ => isForward_pure _
    exact length_lt_of_read hRead (hRest.of_ok h)
  · rcases bind_eq_ok.mp h with ⟨_, s, hStep, h⟩
    rcases read_of_expect hStep with ⟨l, hRead⟩
    have hRest : IsForward (do return ("", ← inner)) :=
      hForward.bind fun _ => isForward_pure _
    exact length_lt_of_read hRead (hRest.of_ok h)

theorem length_lt_of_namedStmt
    (hForward : IsForward inner)
    {p q : Parser}
    {parsed : Stmt}
    (h : namedStmt inner p = .ok parsed q) :
    q.stream.tokens.length < p.stream.tokens.length := by
  rcases bind_eq_ok.mp h with ⟨ref, r, hRef, _⟩
  rcases nodeRef_eq_ok hRef with ⟨d, hRead, _⟩
  rw [namedStmt_apply inner hRef] at h
  refine length_lt_of_read hRead ?_
  split at h
  · exact (isForward_edgeStmt hForward _).of_ok h
  · split at h
    · exact (isForward_assignment _).of_ok h
    · exact (isForward_optionalLists.map _).of_ok h

theorem length_lt_of_subgraphStmt
    (hForward : IsForward inner)
    {p q : Parser}
    {parsed : Stmt}
    (h : subgraphStmt inner p = .ok parsed q) :
    q.stream.tokens.length < p.stream.tokens.length := by
  rcases bind_eq_ok.mp h with ⟨tree, r, hTree, _⟩
  have hFirst := length_lt_of_subgraph hForward hTree
  rw [subgraphStmt_apply inner hTree] at h
  split at h
  · have hRest := (isForward_edgeStmt hForward _).of_ok h
    exact Nat.lt_of_le_of_lt hRest.length_le hFirst
  · cases h
    exact hFirst

theorem length_lt_of_defaultsStmt
    {p q : Parser}
    {parsed : Stmt}
    {word : Keyword}
    {kind : EntityKind}
    (hCurrent : p.current = .keyword word)
    (h : defaultsStmt kind p = .ok parsed q) :
    q.stream.tokens.length < p.stream.tokens.length := by
  rcases bind_eq_ok.mp h with ⟨_, _, hTake, h⟩
  cases hTake
  have hRest :
      IsForward (do return Stmt.defaults kind (← attributeLists)) :=
    isForward_attributeLists.bind fun _ => isForward_pure _
  exact length_lt_of_read (read_advance hCurrent (by simp))
    (hRest.of_ok h)

/- A statement has a token at least. -/
theorem length_lt_of_stmt
    (hForward : IsForward inner)
    {p q : Parser}
    {parsed : Stmt}
    (h : stmt inner p = .ok parsed q) :
    q.stream.tokens.length < p.stream.tokens.length := by
  rw [stmt, bind_apply, peek_apply] at h
  cases hCurrent : p.current with
  | identifier name =>
      rw [hCurrent] at h
      exact length_lt_of_namedStmt hForward h
  | symbol mark =>
      rw [hCurrent] at h
      cases mark
      case openBrace => exact length_lt_of_subgraphStmt hForward h
      all_goals cases h
  | keyword word =>
      rw [hCurrent] at h
      cases word
      case subgraph => exact length_lt_of_subgraphStmt hForward h
      case graph => exact length_lt_of_defaultsStmt hCurrent h
      case node => exact length_lt_of_defaultsStmt hCurrent h
      case edge => exact length_lt_of_defaultsStmt hCurrent h
      all_goals cases h
  | endOfFile =>
      rw [hCurrent] at h
      cases h
  | html text =>
      rw [hCurrent] at h
      cases h
  | malformed cause =>
      rw [hCurrent] at h
      cases h

/- There is room for the diagnostic of a broken statement. -/
theorem recover_eq_synchronize
    {p q : Parser}
    (d : Diagnostic)
    (hRoom : p.errorBound ≤ p.maxErrors)
    (hEnd : p.current ≠ .endOfFile)
    (hMax : q.maxErrors = p.maxErrors)
    (hSpent : Spends p q) :
    recover d q = synchronize (q.keeping d) := by
  rcases exists_cons_of_current hEnd with ⟨t, rest, hTokens, _⟩
  have hNot : ¬ q.maxErrors < q.diagnostics.length + 1 := by
    rcases hSpent with rfl | hSpent
    · rw [errorBound, hTokens, List.length_cons] at hRoom
      omega
    · unfold errorBound at hSpent hRoom
      omega
  rw [recover_apply, if_neg hNot]

/-
  The diagnostic of a broken statement takes the place of one of
  its tokens.
-/
theorem length_lt_of_skipBroken
    {p q : Parser}
    {left : List Located}
    (hEnd : p.current ≠ .endOfFile)
    (hClose : p.current ≠ .symbol .closeBrace)
    (hPrecedes : p.Precedes q)
    (hSpent : Spends p q)
    (hSkip : skipBroken 0 q.stream.tokens = some left) :
    left.length < p.stream.tokens.length ∧
      q.diagnostics.length + 1 + left.length ≤ p.errorBound := by
  rcases exists_cons_of_current hEnd with ⟨t, rest, hTokens, hToken⟩
  have hKept := hPrecedes.diagnostics_length_le
  have hSuffix := (skipBroken_suffix hSkip).length_le
  rcases hSpent with rfl | hSpent
  · rw [hTokens] at hSkip
    rw [hToken] at hClose
    have hShort := length_skipBroken_lt hClose hSkip
    rw [errorBound, hTokens]
    omega
  · unfold errorBound at hSpent ⊢
    omega

@[simp] theorem errorBound_keeping_facing
    (p : Parser)
    (d : Diagnostic)
    (tokens : List Located) :
    ((p.keeping d).facing tokens).errorBound =
      p.diagnostics.length + 1 + tokens.length := by
  simp [errorBound, facing, keeping]

/- Behind a broken statement, the block around it goes on. -/
theorem recover_spec
    {n : Nat}
    {p q : Parser}
    {d : Diagnostic}
    (hReady : Ready n p)
    (hEnd : p.current ≠ .endOfFile)
    (hClose : p.current ≠ .symbol .closeBrace)
    (hSame : SameBlock p q) :
    match recover d q with
    | .ok _ r =>
        afterBlock 0 r.stream.tokens =
            afterBlock 0 p.stream.tokens ∧
          r.errorBound ≤ p.errorBound ∧
          r.stream.tokens.length < p.stream.tokens.length
    | .error e _ =>
        e.isFatal = true ∧ afterBlock 0 p.stream.tokens = none := by
  have hAfter := afterBlock_skipBroken 0 q.stream.tokens
  have hKeeping :
      (q.keeping d).stream.tokens = q.stream.tokens := rfl
  rw [recover_eq_synchronize d hReady.room hEnd
    hSame.precedes.maxErrors hSame.spent, synchronize_apply, hKeeping]
  cases hSkip : skipBroken 0 q.stream.tokens with
  | none =>
      rw [hSkip, hSame.block] at hAfter
      exact ⟨(isFatal_unexpected _ _).mpr rfl, hAfter⟩
  | some left =>
      rw [hSkip, hSame.block] at hAfter
      have hLess := length_lt_of_skipBroken hEnd hClose
        hSame.precedes hSame.spent hSkip
      refine ⟨hAfter.symm, ?_, hLess.1⟩
      rw [errorBound_keeping_facing]
      exact hLess.2

/-
  A statement that may be broken leaves fewer tokens.  The
  diagnostic of a broken one takes the place of a token.
-/
theorem stmtOrRecover_spec
    (hInner : EndsBlock n inner)
    (hForward : IsForward inner)
    {p : Parser}
    (hReady : Ready (n + 1) p)
    (hEnd : p.current ≠ .endOfFile)
    (hClose : p.current ≠ .symbol .closeBrace) :
    match stmtOrRecover inner p with
    | .ok _ q =>
        p.Precedes q ∧
          afterBlock 0 q.stream.tokens =
            afterBlock 0 p.stream.tokens ∧
          q.errorBound ≤ p.errorBound ∧
          q.stream.tokens.length < p.stream.tokens.length
    | .error d _ =>
        d.isFatal = true ∧ afterBlock 0 p.stream.tokens = none := by
  have hNests := nests_stmt hInner p hReady
  rw [stmtOrRecover_apply]
  cases hStmt : stmt inner p with
  | ok parsed q =>
      have hSame := hNests.of_ok hStmt
      exact ⟨hSame.precedes, hSame.block, hSame.errorBound_le,
        length_lt_of_stmt hForward hStmt⟩
  | error d q =>
      have hParser := ((isForward_stmt hForward).of_error hStmt).2
      rcases hNests.of_error hStmt with
        ⟨hFatal, hSame⟩ | ⟨hFatal, hNone⟩
      · have hSpec := recover_spec (d := d) hReady hEnd hClose hSame
        have hRecover := isForward_recover hParser hFatal q
        simp only [hFatal, Bool.false_eq_true, if_false]
        cases hResult : recover d q with
        | ok u r =>
            rw [hResult] at hSpec hRecover
            exact ⟨hSame.precedes.trans hRecover, hSpec⟩
        | error e r =>
            rw [hResult] at hSpec
            exact hSpec
      · simp [hFatal, hNone]

end

/- A block that starts at the end of the tokens is not closed. -/
theorem endsBlock_of_endOfFile
    {n bound : Nat}
    {p : Parser}
    (hReady : Ready n p)
    (hEnd : p.current = .endOfFile) :
    ∃ d,
      block (bound + 1) p = .error d p ∧
        d.isFatal = true ∧ afterBlock 0 p.stream.tokens = none := by
  refine ⟨p.stream.unexpected (.symbol .closeBrace), ?_,
    (isFatal_unexpected _ _).mpr hEnd, ?_⟩
  · rw [block_apply, if_neg (by simp [hEnd]),
      if_neg (by simp [hEnd]), if_pos hEnd]
  · rw [tokens_eq_nil_of_endOfFile hEnd hReady.noEnd]
    rfl

/- A block goes on behind a semicolon or a statement. -/
theorem EndsBlock.of_precedes
    {n : Nat}
    {p r : Parser}
    {step : Step (List Stmt)}
    (hStep : EndsBlock n step)
    (hReady : Ready (n + 1) p)
    (hPrecedes : p.Precedes r)
    (hBlock :
      afterBlock 0 r.stream.tokens = afterBlock 0 p.stream.tokens)
    (hBound : r.errorBound ≤ p.errorBound)
    (hLess : r.stream.tokens.length < p.stream.tokens.length) :
    IsEnd p (step r) := by
  have hLength := hReady.bound
  have hNext : Ready n r :=
    hReady.of_precedes hPrecedes hBound (by omega)
  have hSpec := hStep r hNext
  cases hResult : step r with
  | ok body q =>
      rw [hResult] at hSpec
      rcases hSpec with ⟨hRest, hAfter, hLess⟩
      rw [hBlock] at hAfter
      exact ⟨hPrecedes.trans hRest, hAfter,
        Nat.lt_of_lt_of_le hLess hBound⟩
  | error d q =>
      rw [hResult] at hSpec
      rcases hSpec with ⟨hFatal, hNone⟩
      rw [hBlock] at hNone
      exact ⟨hFatal, hNone⟩

/-
  Blocks end at their own braces, by induction on the bound:
  statements leave fewer tokens for the blocks inside them and
  for the rest of the block.
-/
theorem endsBlock_block
    (bound : Nat) :
    EndsBlock bound (block (bound + 1)) := by
  induction bound with
  | zero =>
      intro p hReady
      have hNil : p.stream.tokens = [] :=
        List.eq_nil_of_length_eq_zero
          (Nat.le_zero.mp hReady.bound)
      have hEnd : p.current = .endOfFile := by
        rw [current, TokenStream.current, hNil]
      rcases endsBlock_of_endOfFile hReady hEnd with
        ⟨d, hBlock, hSpec⟩
      rw [hBlock]
      exact hSpec
  | succ bound ih =>
      intro p hReady
      by_cases hEnd : p.current = .endOfFile
      · rcases endsBlock_of_endOfFile hReady hEnd with
          ⟨d, hBlock, hSpec⟩
        rw [hBlock]
        exact hSpec
      · rcases exists_cons_of_current hEnd with
          ⟨t, rest, hTokens, hToken⟩
        have hSpent := errorBound_advance hTokens
        have hAdvance : p.Precedes p.advance :=
          precedes_facing (List.tail_suffix _)
        have hTail : p.advance.stream.tokens = rest := by
          simp [advance, TokenStream.advance, hTokens]
        rw [block_apply]
        by_cases hSemicolon : p.current = .symbol .semicolon
        · rw [if_pos hSemicolon]
          have hSame := sameBlock_advance hEnd
            (by simp [IsPlain, hSemicolon])
          exact ih.of_precedes hReady hAdvance hSame.block (by omega)
            (by simp [hTail, hTokens])
        · rw [if_neg hSemicolon]
          by_cases hClose : p.current = .symbol .closeBrace
          · rw [if_pos hClose]
            refine ⟨hAdvance, ?_, by omega⟩
            rw [hTail, hTokens]
            exact afterBlock_close_zero rest (hToken ▸ hClose)
          · rw [if_neg hClose, if_neg hEnd]
            have hForward := isForward_block (bound + 1)
            have hFirst :=
              stmtOrRecover_spec ih hForward hReady hEnd hClose
            rw [bind_apply]
            cases hStep : stmtOrRecover (block (bound + 1)) p with
            | error d q =>
                rw [hStep] at hFirst
                exact hFirst
            | ok parsed r =>
                rw [hStep] at hFirst
                rcases hFirst with
                  ⟨hPrecedes, hBlock, hBound, hLess⟩
                have hRest := ih.of_precedes hReady hPrecedes hBlock
                  hBound hLess
                simp only [map_apply]
                cases hResult : block (bound + 1) r with
                | ok others q =>
                    rw [hResult] at hRest
                    exact hRest
                | error d q =>
                    rw [hResult] at hRest
                    exact hRest

end Parser

end DotLang
