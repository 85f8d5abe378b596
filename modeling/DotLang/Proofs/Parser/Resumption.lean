import DotLang.Proofs.Parser.Balance
import DotLang.Proofs.Parser.Echo

/-
  This file proves that a broken statement makes no difference
  to the statements behind it.

  Wherever a statement fails that the parser can leave, it has
  taken balanced braces.  The same block goes on at the first
  semicolon or closing brace outside of the blocks that follow,
  and the text is given up if there is none.  So a statement
  that is broken in front of a semicolon leaves its diagnostic
  and nothing else.

  Key definitions include:
    * `Parser.EndsStmt`
    * `Parser.IsFirstEnd`

  Key theorems include:
    * `Parser.IsFirstEnd.skipBroken_eq`
    * `Parser.wholeBlock_of_broken`
    * `Parser.wholeBlock_of_separated`
    * `Parser.recovery_isLocal`
-/

------------------------------------------------------------
-- Ends of Statements
------------------------------------------------------------

namespace DotLang

namespace Parser

/-
  Behind tokens that close `depth` open blocks, a statement ends
  at a semicolon or at the brace that closes the block around.
-/
def EndsAt
    (depth : Nat)
    (front : List Located)
    (t : Located) : Prop :=
  Closes depth front ∧
    (t.token = .symbol .semicolon ∨ t.token = .symbol .closeBrace)

/- Behind balanced tokens, a statement ends at a token. -/
def EndsStmt (front : List Located) (t : Located) : Prop :=
  IsBalanced front ∧
    (t.token = .symbol .semicolon ∨ t.token = .symbol .closeBrace)

/- A token is the first one at which a statement ends. -/
structure IsFirstEnd
    (tokens front : List Located)
    (t : Located)
    (rest : List Located) : Prop where
  tokens_eq : tokens = front ++ t :: rest
  ends : EndsStmt front t
  first :
    ∀ front' t',
      front' ++ [t'] <+: tokens →
        EndsStmt front' t' →
        front.length ≤ front'.length

/- The tokens that are left when a statement ends at a token. -/
def leftBehind (t : Located) (rest : List Located) : List Located :=
  if t.token = .symbol .semicolon then rest else t :: rest

section

variable {depth : Nat} {t : Located}
variable {tokens front rest : List Located}

theorem endsAt_nil_iff :
    EndsAt depth [] t ↔
      depth = 0 ∧
        (t.token = .symbol .semicolon ∨
          t.token = .symbol .closeBrace) := by
  have hNil : Closes depth [] ↔ depth = 0 := by
    constructor
    · intro h
      simpa [openings, closings] using h.2.symm
    · rintro rfl
      exact closes_nil
  rw [EndsAt, hNil]

/- Where no statement ends, none is left. -/
theorem skipBroken_eq_none
    (hNone :
      ∀ front t, front ++ [t] <+: tokens → ¬ EndsAt depth front t) :
    skipBroken depth tokens = none := by
  induction tokens generalizing depth with
  | nil => rfl
  | cons u tokens ih =>
      have hHere : ¬ EndsAt depth [] u :=
        hNone [] u (List.prefix_append [u] tokens)
      rw [endsAt_nil_iff] at hHere
      rcases skipBroken_cons_cases depth u tokens with
        ⟨hDepth, hToken, _⟩ | ⟨hDepth, hToken, _⟩ |
        ⟨_, inside, hSkip, hCloses⟩
      · exact absurd ⟨hDepth, .inl hToken⟩ hHere
      · exact absurd ⟨hDepth, .inr hToken⟩ hHere
      · rw [hSkip]
        apply ih
        intro front t hPrefix hEnds
        refine hNone (u :: front) t ?_ ⟨?_, hEnds.2⟩
        · exact List.cons_prefix_cons.mpr ⟨rfl, hPrefix⟩
        · exact (hCloses front).mpr hEnds.1

/- The parser goes on behind the first place of all. -/
theorem skipBroken_eq_some
    (hEnds : EndsAt depth front t)
    (hFirst :
      ∀ front' t',
        front' ++ [t'] <+: front ++ t :: rest →
          EndsAt depth front' t' →
          front.length ≤ front'.length) :
    skipBroken depth (front ++ t :: rest) =
      some (leftBehind t rest) := by
  induction front generalizing depth with
  | nil =>
      rcases endsAt_nil_iff.mp hEnds with ⟨rfl, hToken⟩
      rcases skipBroken_cons_cases 0 t rest with
        ⟨_, hSemicolon, hSkip⟩ | ⟨_, hClose, hSkip⟩ | ⟨hOther, _⟩
      · rw [List.nil_append, hSkip, leftBehind, if_pos hSemicolon]
      · rw [List.nil_append, hSkip, leftBehind,
          if_neg (by simp [hClose])]
      · rcases hToken with hToken | hToken
        · exact absurd hToken (hOther rfl).1
        · exact absurd hToken (hOther rfl).2
  | cons u front ih =>
      have hHere : ¬ EndsAt depth [] u := by
        intro hEnd
        have hLe := hFirst [] u
          (List.prefix_append [u] (front ++ t :: rest)) hEnd
        cases hLe
      rw [endsAt_nil_iff] at hHere
      rw [List.cons_append]
      rcases skipBroken_cons_cases depth u (front ++ t :: rest) with
        ⟨hDepth, hToken, _⟩ | ⟨hDepth, hToken, _⟩ |
        ⟨_, inside, hSkip, hCloses⟩
      · exact absurd ⟨hDepth, .inl hToken⟩ hHere
      · exact absurd ⟨hDepth, .inr hToken⟩ hHere
      · rw [hSkip]
        apply ih ⟨(hCloses front).mp hEnds.1, hEnds.2⟩
        intro front' t' hPrefix hEnds'
        have hLe := hFirst (u :: front') t'
          (List.cons_prefix_cons.mpr ⟨rfl, hPrefix⟩)
          ⟨(hCloses front').mpr hEnds'.1, hEnds'.2⟩
        exact Nat.le_of_succ_le_succ hLe

theorem IsFirstEnd.skipBroken_eq
    (h : IsFirstEnd tokens front t rest) :
    skipBroken 0 tokens = some (leftBehind t rest) := by
  have hFirst := h.first
  rw [h.tokens_eq] at hFirst ⊢
  exact skipBroken_eq_some h.ends hFirst

/- Without braces the first semicolon is the end. -/
theorem isFirstEnd_semicolon
    (hFront :
      ∀ u ∈ front,
        IsPlain u.token ∧ u.token ≠ .symbol .semicolon)
    (hSemicolon : t.token = .symbol .semicolon) :
    IsFirstEnd (front ++ t :: rest) front t rest where
  tokens_eq := rfl
  ends :=
    ⟨isBalanced_of_plain fun u hu => (hFront u hu).1, .inl hSemicolon⟩
  first front' t' hPrefix hEnds := by
    by_contra hShort
    have hMem : t' ∈ front := by
      have hInside : front' ++ [t'] <+: front :=
        List.prefix_of_prefix_length_le hPrefix
          (List.prefix_append _ _) (by simp; omega)
      exact hInside.subset (by simp)
    rcases hEnds.2 with hToken | hToken
    · exact (hFront t' hMem).2 hToken
    · exact (hFront t' hMem).1.2 hToken

end

------------------------------------------------------------
-- Blocks behind Broken Statements
------------------------------------------------------------

section

variable {p q : Parser} {d : Diagnostic}

/- What a block is that starts with a broken statement. -/
theorem wholeBlock_of_broken
    (hTurn : p.AtStmt)
    (hStmt : stmt wholeBlock p = .error d q)
    (hFatal : d.isFatal = false) :
    wholeBlock p =
      match recover d q with
      | .ok _ r => wholeBlock r
      | .error e r => .error e r := by
  rw [wholeBlock_of_atStmt hTurn, bind_apply,
    stmtOrRecover_apply, hStmt]
  simp only [hFatal, Bool.false_eq_true, if_false]
  cases recover d q with
  | error e r => rfl
  | ok u r =>
      simp only [map_apply, Option.toList_none, List.nil_append]
      cases wholeBlock r <;> rfl

/- With room for a diagnostic, broken statements are skipped. -/
theorem recover_eq
    (hRoom : q.diagnostics.length < q.maxErrors) :
    recover d q =
      match skipBroken 0 q.stream.tokens with
      | some rest => .ok () ((q.keeping d).facing rest)
      | none =>
          .error
            (((q.keeping d).facing []).stream.unexpected
              (.symbol .closeBrace))
            ((q.keeping d).facing []) := by
  have hStep : recover d q = synchronize (q.keeping d) := by
    rw [recover_apply, if_neg (by omega)]
  cases hSkip : skipBroken 0 q.stream.tokens with
  | none =>
      have hNone : skipBroken 0 (q.keeping d).stream.tokens = none :=
        hSkip
      rw [hStep, synchronize_apply, hNone]
  | some rest =>
      have hSome :
          skipBroken 0 (q.keeping d).stream.tokens = some rest :=
        hSkip
      rw [hStep, synchronize_apply, hSome]

/- The block goes on where the broken statement ends. -/
theorem wholeBlock_of_isFirstEnd
    {front rest : List Located}
    {t : Located}
    (hTurn : p.AtStmt)
    (hStmt : stmt wholeBlock p = .error d q)
    (hFatal : d.isFatal = false)
    (hRoom : q.diagnostics.length < q.maxErrors)
    (hEnd : IsFirstEnd q.stream.tokens front t rest) :
    wholeBlock p =
      wholeBlock ((q.keeping d).facing (leftBehind t rest)) := by
  rw [wholeBlock_of_broken hTurn hStmt hFatal, recover_eq hRoom,
    hEnd.skipBroken_eq]

/- A broken statement that does not end is the end of all. -/
theorem wholeBlock_of_no_end
    (hTurn : p.AtStmt)
    (hStmt : stmt wholeBlock p = .error d q)
    (hFatal : d.isFatal = false)
    (hRoom : q.diagnostics.length < q.maxErrors)
    (hNone :
      ∀ front t,
        front ++ [t] <+: q.stream.tokens → ¬ EndsStmt front t) :
    ∃ e r,
      wholeBlock p = .error e r ∧ e.kind = .unexpectedEnd := by
  rw [wholeBlock_of_broken hTurn hStmt hFatal, recover_eq hRoom,
    skipBroken_eq_none hNone]
  exact ⟨_, _, rfl, rfl⟩

/-
  A statement that fails up to the next semicolon, with no brace
  in between, leaves its diagnostic and nothing else.
-/
theorem wholeBlock_of_separated
    {bad rest : List Located}
    {semicolon : Located}
    (hTokens : p.stream.tokens = bad ++ semicolon :: rest)
    (hSemicolon : semicolon.token = .symbol .semicolon)
    (hBad :
      ∀ t ∈ bad,
        IsPlain t.token ∧
          t.token ≠ .symbol .semicolon ∧ t.token ≠ .endOfFile)
    (hSome : bad ≠ [])
    (hStmt : stmt wholeBlock p = .error d q)
    (hFatal : d.isFatal = false)
    (hRoom : q.diagnostics.length < q.maxErrors)
    (hLeft : semicolon :: rest <:+ q.stream.tokens) :
    wholeBlock p = wholeBlock ((p.keeping d).facing rest) := by
  have hTurn : p.AtStmt := by
    rcases List.exists_cons_of_ne_nil hSome with ⟨t, others, rfl⟩
    have hCurrent : p.current = t.token := by
      rw [current, TokenStream.current, hTokens]
      rfl
    have hHead := hBad t List.mem_cons_self
    rw [AtStmt, hCurrent]
    exact ⟨hHead.2.1, hHead.1.2, hHead.2.2⟩
  -- The failing token is among the bad ones or right behind them.
  rcases hLeft with ⟨left, hLeft⟩
  rcases crosses_of_stmt_eq_error hStmt hFatal with
    ⟨used, hUsed, _, hRead⟩
  have hParts : bad = used ++ left := by
    rw [hTokens, ← hLeft, ← List.append_assoc] at hUsed
    exact List.append_cancel_right hUsed
  have hNone : openings used = 0 := by
    apply List.countP_eq_zero.mpr
    intro t ht
    have hPlain :=
      (hBad t (hParts ▸ List.mem_append_left left ht)).1
    simpa using hPlain.1
  have hSame : q = p.facing q.stream.tokens := by
    rw [hRead hNone]
    rfl
  have hEnd : IsFirstEnd q.stream.tokens left semicolon rest := by
    rw [← hLeft]
    refine isFirstEnd_semicolon (fun t ht => ?_) hSemicolon
    have hMem := hBad t (hParts ▸ List.mem_append_right used ht)
    exact ⟨hMem.1, hMem.2.1⟩
  rw [wholeBlock_of_isFirstEnd hTurn hStmt hFatal hRoom hEnd,
    leftBehind, if_pos hSemicolon, hSame]
  rfl

/- A block with one diagnostic more before it. -/
theorem hasRoomOf_keeping
    (p : Parser)
    (d : Diagnostic)
    (tokens : List Located) :
    HasRoomOf ((p.keeping d).facing tokens) (p.facing tokens) where
  stream := rfl
  room := by
    simp only [facing, keeping, List.length_append]
    omega

theorem hasRoomOf_refl
    (p : Parser) :
    HasRoomOf p p where
  stream := rfl
  room := Nat.le_refl _

------------------------------------------------------------
-- Local Recovery
------------------------------------------------------------

/-
  Wherever a block goes on while a text is parsed, a statement
  that fails and can be left has taken balanced braces.  The
  block goes on where the statement ends, or the text is given
  up because it does not end.

  Tokens up to a semicolon that are no statement, and have no
  braces among them, leave a diagnostic: the block goes on as if
  it started behind them.
-/
theorem recovery_isLocal
    {text : List Char}
    {options : Options}
    (hPoint : AtTurn text options p) :
    (∀ d q,
        p.AtStmt →
          stmt wholeBlock p = .error d q →
          d.isFatal = false →
          q.diagnostics.length < q.maxErrors →
            (∃ used,
                p.stream.tokens = used ++ q.stream.tokens ∧
                  IsBalanced used) ∧
              (∀ front t rest,
                IsFirstEnd q.stream.tokens front t rest →
                  (t.token = .symbol .semicolon →
                      wholeBlock p =
                        wholeBlock ((q.keeping d).facing rest)) ∧
                    (t.token = .symbol .closeBrace →
                      wholeBlock p =
                        .ok [] ((q.keeping d).facing rest))) ∧
              ((∀ front t,
                  front ++ [t] <+: q.stream.tokens →
                    ¬ EndsStmt front t) →
                ∃ e r,
                  file (ofText text options) = .error e r ∧
                    e.kind = .unexpectedEnd)) ∧
      ∀ bad semicolon rest d q,
        p.stream.tokens = bad ++ semicolon :: rest →
          semicolon.token = .symbol .semicolon →
          (∀ t ∈ bad,
            IsPlain t.token ∧
              t.token ≠ .symbol .semicolon ∧
              t.token ≠ .endOfFile) →
          stmt wholeBlock p = .error d q →
          d.isFatal = false →
          q.diagnostics.length < q.maxErrors →
          semicolon :: rest <:+ q.stream.tokens →
            let start := if bad = [] then p else p.keeping d
            wholeBlock p = wholeBlock (start.facing rest) ∧
              (¬ GivesUp (wholeBlock p) →
                outcome (wholeBlock (p.facing rest)) =
                    outcome (wholeBlock p) ∧
                  (stateAfter (wholeBlock (p.facing rest))).stream =
                    (stateAfter (wholeBlock p)).stream ∧
                  ∃ new,
                    kept (wholeBlock p) = start.diagnostics ++ new ∧
                      kept (wholeBlock (p.facing rest)) =
                        p.diagnostics ++ new) := by
  constructor
  · intro d q hTurn hStmt hFatal hRoom
    rcases crosses_of_stmt_eq_error hStmt hFatal with
      ⟨used, hUsed, hBalanced, _⟩
    refine ⟨⟨used, hUsed, hBalanced⟩, ?_, ?_⟩
    · intro front t rest hEnd
      have hNext :=
        wholeBlock_of_isFirstEnd hTurn hStmt hFatal hRoom hEnd
      constructor
      · intro hSemicolon
        rw [hNext, leftBehind, if_pos hSemicolon]
      · intro hClose
        rw [hNext, leftBehind, if_neg (by simp [hClose]),
          wholeBlock_of_closeBrace (by simp [headToken, hClose])]
        rfl
    · intro hNone
      rcases wholeBlock_of_no_end hTurn hStmt hFatal hRoom hNone with
        ⟨e, r, hError, hKind⟩
      have hIsFatal : e.isFatal = true :=
        congrArg Diagnostic.Kind.isFatal hKind
      exact ⟨e, r, hPoint.file_eq_error hIsFatal hError, hKind⟩
  · intro bad semicolon rest d q hTokens hSemicolon hBad hStmt hFatal
      hRoom hLeft start
    have hBlock :
        wholeBlock p = wholeBlock (start.facing rest) := by
      by_cases hNil : bad = []
      · have hStart : start = p := if_pos hNil
        rw [hNil, List.nil_append] at hTokens
        have hCurrent : p.current = .symbol .semicolon := by
          rw [current, TokenStream.current, hTokens]
          exact hSemicolon
        rw [hStart, wholeBlock_of_semicolon hCurrent, advance,
          TokenStream.advance, hTokens]
        rfl
      · have hStart : start = p.keeping d := if_neg hNil
        rw [hStart]
        exact wholeBlock_of_separated hTokens hSemicolon hBad hNil
          hStmt hFatal hRoom hLeft
    have hMore : HasRoomOf (start.facing rest) (p.facing rest) := by
      by_cases hNil : bad = []
      · have hStart : start = p := if_pos hNil
        rw [hStart]
        exact hasRoomOf_refl _
      · have hStart : start = p.keeping d := if_neg hNil
        rw [hStart]
        exact hasRoomOf_keeping p d rest
    refine ⟨hBlock, ?_⟩
    rw [hBlock]
    intro hNot
    exact (echoes_wholeBlock _ _ hMore).of_not_givesUp hNot

end

/-
  In front of `a--;b`, the block goes on behind the semicolon.
  It gives what `b` gives, with one diagnostic more.
-/
theorem recovery_isLocal_brokenEdge :
    let text :=
      ['g', 'r', 'a', 'p', 'h', '{', 'a', '-', '-', ';', 'b', '}']
    let bad : List Located :=
      [⟨.identifier "a", ⟨1, 7, 7⟩⟩, ⟨.symbol .line, ⟨1, 8, 8⟩⟩]
    let semicolon : Located := ⟨.symbol .semicolon, ⟨1, 10, 10⟩⟩
    let rest : List Located :=
      [⟨.identifier "b", ⟨1, 11, 11⟩⟩,
        ⟨.symbol .closeBrace, ⟨1, 12, 12⟩⟩]
    let p := (ofText text {}).facing (bad ++ semicolon :: rest)
    let q := p.facing (semicolon :: rest)
    let d := q.stream.unexpected .nodeOrSubgraph
    AtTurn text {} p ∧
      p.AtStmt ∧
      stmt wholeBlock p = .error d q ∧
      d.isFatal = false ∧
      q.diagnostics.length < q.maxErrors ∧
      IsFirstEnd q.stream.tokens [] semicolon rest ∧
      wholeBlock p = wholeBlock ((q.keeping d).facing rest) ∧
      ¬ GivesUp (wholeBlock p) ∧
      outcome (wholeBlock (p.facing rest)) =
        outcome (wholeBlock p) ∧
      ∃ new,
        kept (wholeBlock p) = d :: new ∧
          kept (wholeBlock (p.facing rest)) = new := by
  intro text bad semicolon rest p q d
  have hPoint : AtTurn text {} p := by
    let header : HeaderTree :=
      ⟨none, ⟨false, ⟨1, 1, 1⟩⟩, none, ⟨1, 6, 6⟩⟩
    have hTokens :
        (TokenStream.ofText text).tokens =
          header.tokens ++ (bad ++ semicolon :: rest) := by
      decide +kernel
    exact atTurn_of_header {} hTokens
  have hTurn : p.AtStmt := by decide
  have hStmt : stmt wholeBlock p = .error d q := rfl
  have hFatal : d.isFatal = false := rfl
  have hRoom : q.diagnostics.length < q.maxErrors := by decide
  have hEnd : IsFirstEnd q.stream.tokens [] semicolon rest := by
    change IsFirstEnd ([] ++ semicolon :: rest) [] semicolon rest
    exact isFirstEnd_semicolon (by simp) rfl
  have hNot : ¬ GivesUp (wholeBlock p) := by decide +kernel
  have hBad :
      ∀ t ∈ bad,
        IsPlain t.token ∧
          t.token ≠ .symbol .semicolon ∧ t.token ≠ .endOfFile := by
    simp [bad, IsPlain]
  have hLocal := recovery_isLocal hPoint
  have hGoesOn :=
    (hLocal.1 d q hTurn hStmt hFatal hRoom).2.1 [] _ rest hEnd
  have hSame :=
    hLocal.2 bad semicolon rest d q rfl rfl hBad hStmt hFatal hRoom
      (List.suffix_refl _)
  rcases hSame.2 hNot with ⟨hOutcome, _, hKept⟩
  exact ⟨hPoint, hTurn, hStmt, hFatal, hRoom, hEnd, hGoesOn.1 rfl,
    hNot, hOutcome, hKept⟩

end Parser

end DotLang
