import DotLang.Proofs.Grammar.Completeness
import DotLang.Proofs.Grammar.Soundness
import DotLang.Proofs.Grammar.Uniqueness
import DotLang.Proofs.Token.Layout

/-
  This file proves that the parser accepts the texts of the
  grammar and no others.

  A text is accepted if the parser succeeds without a diagnostic
  on the way.  It then has one derivation, and the parser gives
  the graphs that the derivation stands for.

  Key definitions include:
    * `Parser.Accepts`

  Key theorems include:
    * `Parser.accepts_iff_derivation`
-/

namespace DotLang

namespace Parser

/- The parser gives these graphs and keeps no diagnostic. -/
def Accepts
    (text : List Char)
    (options : Options)
    (decls : List GraphDecl) : Prop :=
  ∃ p,
    file (ofText text options) = .ok decls p ∧ p.diagnostics = []

/- A derivation of a text, without the end of the file. -/
def IsDerivation
    (text : List Char)
    (d : FileTree) : Prop :=
  d.tokens = (TokenStream.ofText text).tokens

theorem accepts_of_isDerivation
    {text : List Char}
    {d : FileTree}
    (options : Options)
    (h : IsDerivation text d) :
    Accepts text options d.decls := by
  have hFile := file_facing (ofText text options)
    ⟨.symbol .colon, (Cursor.start text).location⟩ d
  rw [h] at hFile
  exact ⟨_, hFile, rfl⟩

theorem isDerivation_of_accepts
    {text : List Char}
    {options : Options}
    {decls : List GraphDecl}
    (h : Accepts text options decls) :
    ∃ d, IsDerivation text d ∧ d.decls = decls := by
  rcases h with ⟨p, hFile, hQuiet⟩
  exact file_eq_ok hFile hQuiet (Cursor.token_ne_endOfFile _)

/-
  A text is accepted exactly if it is derived.  Its derivation
  is then the only one, and the parser gives what it stands for.
-/
theorem accepts_iff_derivation
    (text : List Char)
    (options : Options) :
    ((∃ decls, Accepts text options decls) ↔
        ∃ d, IsDerivation text d) ∧
      ∀ decls,
        Accepts text options decls ↔
          ∃ d,
            decls = d.decls ∧
              ∀ d', IsDerivation text d' ↔ d' = d := by
  refine ⟨⟨?_, ?_⟩, fun decls => ⟨?_, ?_⟩⟩
  · rintro ⟨decls, hAccepts⟩
    rcases isDerivation_of_accepts hAccepts with ⟨d, hDerives, _⟩
    exact ⟨d, hDerives⟩
  · rintro ⟨d, hDerives⟩
    exact ⟨_, accepts_of_isDerivation options hDerives⟩
  · intro hAccepts
    rcases isDerivation_of_accepts hAccepts with
      ⟨d, hDerives, rfl⟩
    refine ⟨d, rfl, fun d' => ⟨?_, ?_⟩⟩
    · intro hDerives'
      exact fileTree_unique (hDerives'.trans hDerives.symm)
    · rintro rfl
      exact hDerives
  · rintro ⟨d, rfl, hOnly⟩
    exact accepts_of_isDerivation options ((hOnly d).mpr rfl)

end Parser

end DotLang
