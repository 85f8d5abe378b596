import DotLang.Proofs.Parser.Nesting

/-
  This file proves that each turn of a loop of the parser that
  is not the last one takes a token.

  Key theorems include:
    * `Parser.length_lt_of_listedAttribute`
    * `Parser.length_lt_of_anotherList`
    * `Parser.length_lt_of_edgeStep`
    * `Parser.length_lt_of_stmtOrRecover`
    * `Parser.length_lt_of_anotherGraph`
-/

------------------------------------------------------------
-- Attributes
------------------------------------------------------------

namespace DotLang

namespace Parser

theorem length_lt_of_listedAttribute
    {p q : Parser}
    {a : Attribute}
    (h : listedAttribute p = .ok (some a) q) :
    q.stream.tokens.length < p.stream.tokens.length := by
  rw [listedAttribute, bind_apply, peek_apply] at h
  dsimp only at h
  split at h
  · cases h
  · rcases bind_eq_ok.mp h with ⟨name, r, hStep, h⟩
    rcases read_of_expectName hStep with ⟨_, hRead, _⟩
    refine length_lt_of_read hRead (IsForward.of_ok ?_ h)
    refine (isForward_expect _).bind fun _ => ?_
    refine isForward_expectValue.bind fun value => ?_
    refine (isForward_accept _).bind fun _ => ?_
    exact (isForward_accept _).bind fun _ => isForward_pure _

theorem length_lt_of_anotherList
    {p q : Parser}
    {attributes : List Attribute}
    (h : anotherList p = .ok (some attributes) q) :
    q.stream.tokens.length < p.stream.tokens.length := by
  rw [anotherList, bind_apply, peek_apply] at h
  dsimp only at h
  split at h
  · rcases bind_eq_ok.mp h with ⟨_, r, hList, hLast⟩
    cases hLast
    rcases bind_eq_ok.mp hList with ⟨_, s, hStep, hRest⟩
    rcases read_of_expect hStep with ⟨_, hRead⟩
    refine length_lt_of_read hRead (IsForward.of_ok ?_ hRest)
    refine isForward_get.bind fun _ => ?_
    refine (isForward_listedAttribute.many _).bind fun _ => ?_
    exact (isForward_expect _).bind fun _ => isForward_pure _
  · cases h

------------------------------------------------------------
-- Statements
------------------------------------------------------------

section

variable {inner : Step (List Stmt)}

theorem length_lt_of_edgeStep
    (hForward : IsForward inner)
    {p q : Parser}
    {edge : EdgeStep}
    (h : edgeStep inner p = .ok (some edge) q) :
    q.stream.tokens.length < p.stream.tokens.length := by
  rw [edgeStep, bind_apply, peek_apply] at h
  dsimp only at h
  cases hArrow : arrowOf? p.current with
  | none =>
      rw [hArrow] at h
      cases h
  | some arrow =>
      rw [hArrow] at h
      rcases bind_eq_ok.mp h with ⟨_, _, hGet, h⟩
      cases hGet
      rcases bind_eq_ok.mp h with ⟨_, _, hTake, h⟩
      cases hTake
      have hToken : p.current ≠ .endOfFile := by
        intro hEnd
        rw [hEnd] at hArrow
        cases hArrow
      refine length_lt_of_read (read_advance rfl hToken)
        (IsForward.of_ok ?_ h)
      exact (isForward_endpoint hForward).bind fun _ =>
        isForward_pure _

/-
  A broken statement has a token at least as well: what cannot
  start a statement is skipped.
-/
theorem length_lt_of_stmtOrRecover
    (hForward : IsForward inner)
    {p q : Parser}
    {parsed : Option Stmt}
    (hEnd : p.current ≠ .endOfFile)
    (hClose : p.current ≠ .symbol .closeBrace)
    (h : stmtOrRecover inner p = .ok parsed q) :
    q.stream.tokens.length < p.stream.tokens.length := by
  rw [stmtOrRecover_apply] at h
  cases hStmt : stmt inner p with
  | ok first r =>
      rw [hStmt] at h
      cases h
      exact length_lt_of_stmt hForward hStmt
  | error d r =>
      have hSuffix :=
        ((isForward_stmt hForward).of_error hStmt).1.tokens
      simp only [hStmt] at h
      split at h
      · cases h
      · cases hRecover : recover d r with
        | error e s =>
            rw [hRecover] at h
            cases h
        | ok u s =>
            rw [hRecover] at h
            cases h
            rcases recover_eq_ok hRecover with
              ⟨_, rest, hSkip, rfl⟩
            have hRest := (skipBroken_suffix hSkip).length_le
            show rest.length < p.stream.tokens.length
            by_cases hSame : r.stream.tokens = p.stream.tokens
            · rcases exists_cons_of_current hEnd with
                ⟨t, left, hTokens, hToken⟩
              rw [hSame, hTokens] at hSkip
              rw [hToken] at hClose
              rw [hTokens]
              exact length_skipBroken_lt hClose hSkip
            · have hLess := hSuffix.length_le
              have hLength :
                  r.stream.tokens.length ≠
                    p.stream.tokens.length :=
                fun hEq => hSame (hSuffix.eq_of_length hEq)
              omega

end

------------------------------------------------------------
-- Graphs
------------------------------------------------------------

theorem length_lt_of_anotherGraph
    {p q : Parser}
    {decl : GraphDecl}
    (h : anotherGraph p = .ok (some decl) q) :
    q.stream.tokens.length < p.stream.tokens.length := by
  rw [anotherGraph, bind_apply, peek_apply] at h
  dsimp only at h
  split at h
  · cases h
  · rcases bind_eq_ok.mp h with ⟨_, _, hGraph, hLast⟩
    cases hLast
    rcases bind_eq_ok.mp hGraph with ⟨strict, r, hStrict, hGraph⟩
    have hFirst := (isForward_accept _).of_ok hStrict
    rcases bind_eq_ok.mp hGraph with ⟨directed, s, hKind, hRest⟩
    rcases graphKind_eq_ok hKind with ⟨_, hRead, _⟩
    refine Nat.lt_of_lt_of_le ?_ hFirst.length_le
    refine length_lt_of_read hRead (IsForward.of_ok ?_ hRest)
    refine isForward_acceptName.bind fun name => ?_
    refine (isForward_expect _).bind fun _ => ?_
    exact isForward_wholeBlock.bind fun _ => isForward_pure _

end Parser

end DotLang
