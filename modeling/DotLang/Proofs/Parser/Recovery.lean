import DotLang.Proofs.Grammar.Completeness
import DotLang.Proofs.Parser.Nesting
import DotLang.Proofs.Token.Layout

/-
  This file proves that the parser gets over everything but bad
  headers and braces that do not balance.

  Key definitions include:
    * `GraphFrame`
    * `Parser.IsFramed`

  Key theorems include:
    * `Parser.graph_ok_of_frame`
    * `Parser.frame_of_graph_ok`
    * `Parser.file_ok_iff_isFramed`
-/

------------------------------------------------------------
-- Frames
------------------------------------------------------------

namespace DotLang

/-
  The tokens of a graph of which only the header and the braces
  are well formed.
-/
structure GraphFrame where
  header : HeaderTree
  body : List Located
  closing : Location

namespace GraphFrame

def tokens (f : GraphFrame) : List Located :=
  f.header.tokens ++
    (f.body ++ [Symbol.located .closeBrace f.closing])

/- The graph has the name and the flags of the header. -/
def Heads (f : GraphFrame) (decl : GraphDecl) : Prop :=
  ∃ body, decl = f.header.decl body

end GraphFrame

namespace Parser

/- A graph gets behind the brace that ends its frame. -/
theorem graph_ok_of_frame
    {n : Nat}
    {p : Parser}
    {f : GraphFrame}
    {rest : List Located}
    (hReady : Ready n p)
    (hBody : IsBalanced f.body)
    (hTokens : p.stream.tokens = f.tokens ++ rest) :
    ∃ decl q,
      graph p = .ok decl q ∧
        f.Heads decl ∧ q.stream.tokens = rest ∧ Ready n q := by
  let inside := f.body ++ Symbol.located .closeBrace f.closing :: rest
  have hParser : p = p.facing (f.header.tokens ++ inside) := by
    rw [← facing_tokens p, hTokens]
    simp [GraphFrame.tokens, inside]
  have hSuffix : inside <:+ p.stream.tokens := by
    refine ⟨f.header.tokens, ?_⟩
    rw [hTokens]
    simp [GraphFrame.tokens, inside]
  have hPrecedes := precedes_facing hSuffix
  have hLength := hPrecedes.length_le
  have hInside : Ready inside.length (p.facing inside) := by
    refine hReady.of_precedes hPrecedes ?_ (Nat.le_refl _)
    exact Nat.add_le_add_left hLength _
  have hAfter : afterBlock 0 inside = some rest :=
    afterBlock_eq_some_iff.mpr ⟨f.body, f.closing, rfl, hBody⟩
  have hEnd := endsBlock_block inside.length _ hInside
  rw [hParser, header_facing, map_apply, wholeBlock_facing]
  cases hBlock : block (inside.length + 1) (p.facing inside) with
  | error d q =>
      rw [hBlock] at hEnd
      have hNone : afterBlock 0 inside = none := hEnd.2
      rw [hAfter] at hNone
      cases hNone
  | ok body q =>
      rw [hBlock] at hEnd
      rcases hEnd with ⟨hRest, hSome, hLess⟩
      have hRestTokens : afterBlock 0 inside = some q.stream.tokens :=
        hSome
      rw [hAfter] at hRestTokens
      refine ⟨_, q, rfl, ⟨body, rfl⟩, ?_, ?_⟩
      · exact (Option.some.inj hRestTokens).symm
      · have hAll := hPrecedes.trans hRest
        refine hReady.of_precedes hAll ?_
          (hAll.length_le.trans hReady.bound)
        exact (Nat.le_of_lt hLess).trans
          (Nat.add_le_add_left hLength _)

/- A graph that is parsed stood in a frame. -/
theorem frame_of_graph_ok
    {n : Nat}
    {p q : Parser}
    {decl : GraphDecl}
    (hReady : Ready n p)
    (h : graph p = .ok decl q) :
    ∃ f : GraphFrame,
      IsBalanced f.body ∧
        p.stream.tokens = f.tokens ++ q.stream.tokens ∧
          f.Heads decl ∧ Ready n q := by
  rcases graph_eq_ok h with ⟨header, r, stmts, hHeader, hBody, rfl⟩
  have hPrecedes := hHeader.precedes
  have hCost : r.errorBound ≤ p.errorBound := by
    have hLength := hPrecedes.length_le
    rw [errorBound, errorBound, hHeader.diagnostics_eq]
    omega
  have hInside : Ready r.stream.tokens.length r :=
    hReady.of_precedes hPrecedes hCost (Nat.le_refl _)
  have hEnd := endsBlock_block r.stream.tokens.length r hInside
  rw [hBody] at hEnd
  rcases hEnd with ⟨hRest, hAfter, hLess⟩
  rcases afterBlock_eq_some_iff.mp hAfter with
    ⟨body, closing, hTokens, hBalanced⟩
  have hAll := hPrecedes.trans hRest
  refine ⟨⟨header, body, closing⟩, hBalanced, ?_,
    ⟨stmts, rfl⟩, ?_⟩
  · rw [hHeader.tokens_eq, hTokens]
    simp [GraphFrame.tokens]
  · exact hReady.of_precedes hAll
      ((Nat.le_of_lt hLess).trans hCost)
      (hAll.length_le.trans hReady.bound)

------------------------------------------------------------
-- Files
------------------------------------------------------------

theorem length_graphFrame_pos
    (f : GraphFrame) :
    0 < f.tokens.length := by
  have hHeader := length_headerTree_pos f.header
  rw [GraphFrame.tokens, List.length_append]
  omega

theorem anotherGraph_apply
    (p : Parser) :
    anotherGraph p =
      if p.current = .endOfFile then
        .ok none p
      else
        (some <$> graph) p := by
  simp only [anotherGraph, bind_apply, peek_apply]
  split <;> rfl

/- A row of frames is parsed to the end. -/
theorem many_ok_of_frames
    {n bound : Nat}
    {p : Parser}
    {frames : List GraphFrame}
    (hReady : Ready n p)
    (hBodies : ∀ f ∈ frames, IsBalanced f.body)
    (hTokens : p.stream.tokens = frames.flatMap GraphFrame.tokens)
    (hBound : frames.length < bound) :
    ∃ decls q,
      many anotherGraph bound p = .ok decls q ∧
        List.Forall₂ GraphFrame.Heads frames decls := by
  induction frames generalizing p bound with
  | nil =>
      have hEnd : p.current = .endOfFile := by
        rw [current, TokenStream.current, hTokens]
        rfl
      have hStop : anotherGraph p = .ok none p := by
        rw [anotherGraph_apply, if_pos hEnd]
      exact ⟨[], p, many_apply_none hStop hBound, .nil⟩
  | cons f frames ih =>
      cases bound with
      | zero => cases hBound
      | succ bound =>
          rw [List.flatMap_cons] at hTokens
          have hFirst := hBodies f List.mem_cons_self
          have hOthers : ∀ f ∈ frames, IsBalanced f.body :=
            fun f hMem => hBodies f (List.mem_cons_of_mem _ hMem)
          rcases graph_ok_of_frame hReady hFirst hTokens with
            ⟨decl, q, hGraph, hHeads, hRest, hNext⟩
          rcases ih hNext hOthers hRest
            (Nat.lt_of_succ_lt_succ hBound) with
            ⟨decls, r, hMany, hAll⟩
          have hSome : p.current ≠ .endOfFile := by
            intro hEnd
            have hNil :=
              tokens_eq_nil_of_endOfFile hEnd hReady.noEnd
            have hPos := length_graphFrame_pos f
            rw [hTokens] at hNil
            rw [(List.append_eq_nil_iff.mp hNil).1] at hPos
            cases hPos
          have hStep : anotherGraph p = .ok (some decl) q := by
            rw [anotherGraph_apply, if_neg hSome, map_apply, hGraph]
          exact ⟨decl :: decls, r, many_apply_some hStep hMany,
            .cons hHeads hAll⟩

/- Graphs that are parsed to the end stood in a row of frames. -/
theorem frames_of_many_ok
    {n bound : Nat}
    {p q : Parser}
    {decls : List GraphDecl}
    (hReady : Ready n p)
    (hBound : p.stream.tokens.length < bound)
    (h : many anotherGraph bound p = .ok decls q) :
    ∃ frames : List GraphFrame,
      (∀ f ∈ frames, IsBalanced f.body) ∧
        p.stream.tokens = frames.flatMap GraphFrame.tokens ∧
          List.Forall₂ GraphFrame.Heads frames decls := by
  induction bound generalizing p decls with
  | zero => cases hBound
  | succ bound ih =>
      rcases bind_eq_ok.mp h with ⟨first, r, hStep, h⟩
      cases first with
      | none =>
          cases h
          rcases anotherGraph_eq_ok_none hStep with ⟨rfl, hEnd⟩
          refine ⟨[], by simp, ?_, .nil⟩
          exact tokens_eq_nil_of_endOfFile hEnd hReady.noEnd
      | some decl =>
          rcases bind_eq_ok.mp h with ⟨others, _, hMany, h⟩
          cases h
          rcases frame_of_graph_ok hReady
            (anotherGraph_eq_ok hStep) with
            ⟨f, hBody, hTokens, hHeads, hNext⟩
          have hPos := length_graphFrame_pos f
          have hLess : r.stream.tokens.length < bound := by
            rw [hTokens, List.length_append] at hBound
            omega
          rcases ih hNext hLess hMany with
            ⟨frames, hBodies, hRest, hAll⟩
          refine ⟨f :: frames, ?_, ?_, .cons hHeads hAll⟩
          · exact List.forall_mem_cons.mpr ⟨hBody, hBodies⟩
          · rw [hTokens, hRest, List.flatMap_cons]

/-
  The tokens of a text are those of graphs of which the headers
  and the braces are well formed, one graph at least.
-/
structure IsFramed
    (text : List Char)
    (frames : List GraphFrame) : Prop where
  some : frames ≠ []
  balanced : ∀ f ∈ frames, IsBalanced f.body
  tokens :
    (TokenStream.ofText text).tokens =
      frames.flatMap GraphFrame.tokens

/- The parser that a step leaves, also where it fails. -/
def stateAfter
    {α : Type} :
    EStateM.Result Diagnostic Parser α → Parser
| .ok _ p => p
| .error _ p => p

theorem IsForward.precedes_stateAfter
    {α : Type}
    {step : Step α}
    (h : IsForward step)
    (p : Parser) :
    p.Precedes (stateAfter (step p)) := by
  cases hStep : step p with
  | ok a q => exact h.of_ok hStep
  | error d q => exact (h.of_error hStep).1

theorem ready_ofText
    {text : List Char}
    {options : Options}
    (hErrors :
      (TokenStream.ofText text).tokens.length ≤
        options.maxErrors) :
    Ready (TokenStream.ofText text).tokens.length
      (ofText text options).advance where
  noEnd := Cursor.token_ne_endOfFile _
  room := (Nat.le_of_eq (Nat.zero_add _)).trans hErrors
  bound := Nat.le_refl _

theorem file_ok_of_isFramed
    {text : List Char}
    {options : Options}
    {frames : List GraphFrame}
    (hErrors :
      (TokenStream.ofText text).tokens.length ≤
        options.maxErrors)
    (h : IsFramed text frames) :
    ∃ decls p,
      file (ofText text options) = .ok decls p ∧
        List.Forall₂ GraphFrame.Heads frames decls := by
  have hLength :=
    length_le_length_flatMap length_graphFrame_pos frames
  rw [← h.tokens] at hLength
  rcases many_ok_of_frames (ready_ofText hErrors) h.balanced
    h.tokens (Nat.lt_succ_of_le hLength) with
    ⟨decls, p, hMany, hAll⟩
  refine ⟨decls, p, ?_, hAll⟩
  have hSome : decls.isEmpty = false := by
    cases hAll with
    | nil => exact absurd rfl h.some
    | cons hHeads hAll => rfl
  have hBound :
      (ofText text options).advance.bound =
        (TokenStream.ofText text).tokens.length + 1 := rfl
  simp only [file, bind_apply, take_apply, get_apply, hBound, hMany,
    hSome, Bool.false_eq_true, if_false, pure_apply]

theorem isFramed_of_file_ok
    {text : List Char}
    {options : Options}
    {decls : List GraphDecl}
    {p : Parser}
    (hErrors :
      (TokenStream.ofText text).tokens.length ≤
        options.maxErrors)
    (h : file (ofText text options) = .ok decls p) :
    ∃ frames, IsFramed text frames := by
  rcases bind_eq_ok.mp h with ⟨_, _, hTake, h⟩
  cases hTake
  rcases bind_eq_ok.mp h with ⟨_, _, hGet, h⟩
  cases hGet
  rcases bind_eq_ok.mp h with ⟨graphs, r, hGraphs, h⟩
  rcases frames_of_many_ok (ready_ofText hErrors)
    (Nat.lt_succ_self _) hGraphs with
    ⟨frames, hBodies, hTokens, hAll⟩
  refine ⟨frames, ?_, hBodies, hTokens⟩
  rintro rfl
  cases hAll
  cases h

/- Diagnostics that a parser keeps are those of statements. -/
theorem isOfStatement_of_mem_diagnostics
    {text : List Char}
    {options : Options}
    {d : Diagnostic}
    (h :
      d ∈
        (stateAfter (file (ofText text options))).diagnostics) :
    d.IsOfStatement := by
  have hPrecedes :=
    isForward_file.precedes_stateAfter (ofText text options)
  rcases hPrecedes.diagnostics with ⟨kept, hKept, hAll⟩
  rw [hKept] at h
  exact hAll d h

/-
  With room for all errors, a text is parsed exactly if it is
  framed.  There is then one graph for each header, and what is
  kept about the statements is about their tokens or grammar.
-/
theorem file_ok_iff_isFramed
    (text : List Char)
    (options : Options)
    (hErrors :
      (TokenStream.ofText text).tokens.length ≤
        options.maxErrors) :
    ((∃ decls p, file (ofText text options) = .ok decls p) ↔
        ∃ frames, IsFramed text frames) ∧
      (∀ frames,
        IsFramed text frames →
          ∃ decls p,
            file (ofText text options) = .ok decls p ∧
              List.Forall₂ GraphFrame.Heads frames decls) ∧
      ∀ d ∈ (stateAfter (file (ofText text options))).diagnostics,
        d.kind = .lexical ∨ d.kind = .grammatical := by
  refine ⟨⟨?_, ?_⟩, ?_, ?_⟩
  · rintro ⟨decls, p, hFile⟩
    exact isFramed_of_file_ok hErrors hFile
  · rintro ⟨frames, hFramed⟩
    rcases file_ok_of_isFramed hErrors hFramed with
      ⟨decls, p, hFile, _⟩
    exact ⟨decls, p, hFile⟩
  · intro frames hFramed
    exact file_ok_of_isFramed hErrors hFramed
  · intro d hMem
    exact isOfStatement_of_mem_diagnostics hMem

/- A bracket that is no statement does not end the parser. -/
theorem file_ok_of_stray_bracket :
    (TokenStream.ofText
          ['g', 'r', 'a', 'p', 'h', '{', ']', '}']).tokens.length ≤
        32 ∧
      ∃ decls p,
        file
            (ofText ['g', 'r', 'a', 'p', 'h', '{', ']', '}'] {}) =
          .ok decls p := by
  have hLayout :
      IsLayout true
        [.keyword .graph, .symbol .openBrace, .symbol .closeBracket,
          .symbol .closeBrace]
        ([] ++ (['g', 'r', 'a', 'p', 'h'] ++
          ([] ++ (['{'] ++ ([] ++ ([']'] ++
            ([] ++ (['}'] ++ [])))))))) := by
    refine .token true [] _ _ _ _ (.nil true)
      (.keyword .graph _ (by decide)) (by simp [IsApart]; decide) ?_
    refine .token false [] _ _ _ _ (.nil false)
      (.symbol .openBrace) (by simp [IsApart]; decide) ?_
    refine .token false [] _ _ _ _ (.nil false)
      (.symbol .closeBracket) (by simp [IsApart]; decide) ?_
    exact .token false [] _ _ _ _ (.nil false)
      (.symbol .closeBrace) (by simp [IsApart])
      (.finish false [] (.nil false))
  have hTokens := hLayout.tokens_eq (Cursor.faces_start _)
    (fun _ => rfl)
  have hLength := congrArg List.length hTokens
  rw [List.length_map] at hLength
  have hErrors :
      (TokenStream.ofText
        ['g', 'r', 'a', 'p', 'h', '{', ']', '}']).tokens.length ≤
          32 :=
    hLength.trans_le (by decide)
  refine ⟨hErrors, ?_⟩
  refine (file_ok_iff_isFramed _ {} hErrors).1.mpr ?_
  simp only [List.map_eq_cons_iff, List.map_eq_nil_iff] at hTokens
  rcases hTokens with ⟨⟨_, l⟩, _, hTokens, rfl, ⟨_, l₁⟩, _, rfl, rfl,
    stray, _, rfl, hStray, ⟨_, l₂⟩, _, rfl, rfl, rfl⟩
  refine ⟨[⟨⟨none, ⟨false, l⟩, none, l₁⟩, [stray], l₂⟩], by simp,
    ?_, hTokens⟩
  intro f hMem
  rw [List.mem_singleton.mp hMem]
  exact (closes_cons_plain (by simp [IsPlain, hStray])).mpr
    closes_nil

end Parser

end DotLang
