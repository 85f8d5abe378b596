import DotLang.Proofs.Registry.Forest
import DotLang.Proofs.Token.Quoting
import DotLang.Registry.Dot

/-
  This file proves which tokens the text of a graph has.

  Texts are put together from pieces.  A piece that writes some
  tokens does so in front of whatever does not run into it.

  Key definitions include:
    * `Writes`
    * `Registry.graphTokens`
    * `Registry.IsReadable`

  Key theorems include:
    * `Registry.tokens_toDot`
-/

------------------------------------------------------------
-- Pieces of Text
------------------------------------------------------------

namespace DotLang

/- The text lays out the tokens in front of other ones. -/
def Writes (tokens : List Token) (text : String) : Prop :=
  ∀ (more : List Token) (rest : List Char),
    IsLayout false more rest →
      IsApart rest →
      IsLayout false (tokens ++ more) (text.toList ++ rest)

theorem isApart_cons
    {c : Char}
    (hPart : isNamePart c = false)
    (hPeriod : c ≠ '.')
    (rest : List Char) :
    IsApart (c :: rest) := by
  intro d hd
  rw [← Option.some.inj hd]
  exact ⟨hPart, hPeriod⟩

/- The text keeps apart what stands before it. -/
def StartsApart (text : String) : Prop :=
  ∀ rest, IsApart rest → IsApart (text.toList ++ rest)

theorem startsApart_of_head
    {text : String}
    {c : Char}
    (hHead : text.toList.head? = some c)
    (hPart : isNamePart c = false)
    (hPeriod : c ≠ '.') :
    StartsApart text := by
  intro rest _
  cases hText : text.toList with
  | nil => simp [hText] at hHead
  | cons d others =>
      rw [hText, List.head?_cons, Option.some.injEq] at hHead
      rw [hHead]
      exact isApart_cons hPart hPeriod _

theorem writes_nil : Writes [] "" := by
  intro more rest hRest _
  simpa using hRest

theorem writes_word
    {text : String}
    {token : Token}
    (h : Spells text.toList token) :
    Writes [token] text :=
  fun more rest hRest hApart =>
    .token false [] text.toList rest token more (.nil _) h hApart
      hRest

theorem Writes.append
    {tokens tokens' : List Token}
    {text text' : String}
    (h : Writes tokens text)
    (h' : Writes tokens' text')
    (hApart : StartsApart text') :
    Writes (tokens ++ tokens') (text ++ text') := by
  intro more rest hRest hRestApart
  rw [String.toList_append, List.append_assoc, List.append_assoc]
  exact h _ _ (h' more rest hRest hRestApart)
    (hApart rest hRestApart)

/- A symbol stands in front of anything. -/
theorem Writes.symbol
    {tokens : List Token}
    {text : String}
    (h : Writes tokens text)
    (mark : Symbol) :
    Writes (.symbol mark :: tokens) (mark.spelling ++ text) := by
  intro more rest hRest hApart
  rw [String.toList_append, List.append_assoc]
  exact .symbol false [] _ mark _ (.nil _) (h more rest hRest hApart)

/- Trivia may stand in the first column. -/
theorem isTrivia_of_false
    {gap : List Char}
    (h : IsTrivia false gap)
    (fresh : Bool) :
    IsTrivia fresh gap := by
  cases h with
  | nil => exact .nil fresh
  | blank _ c gap hBlank hGap => exact .blank fresh c gap hBlank hGap
  | line _ body gap hBody hGap => exact .line fresh body gap hBody hGap
  | block _ body gap hBody hGap =>
      exact .block fresh body gap hBody hGap

/- A blank in front of a layout makes no difference. -/
theorem IsLayout.blank
    {tokens : List Token}
    {text : List Char}
    (h : IsLayout false tokens text)
    {c : Char}
    (hBlank : isAsciiBlank c = true) :
    IsLayout false tokens (c :: text) := by
  have hGap :
      ∀ {gap : List Char},
        IsTrivia false gap → IsTrivia false (c :: gap) := by
    intro gap hTrivia
    exact .blank false c gap hBlank (isTrivia_of_false hTrivia _)
  cases h with
  | finish _ _ hTrivia => exact .finish false _ (hGap hTrivia)
  | token _ gap word rest token tokens hTrivia hWord hApart hRest =>
      exact .token false (c :: gap) word rest token tokens
        (hGap hTrivia) hWord hApart hRest
  | symbol _ gap rest mark tokens hTrivia hRest =>
      exact .symbol false (c :: gap) rest mark tokens
        (hGap hTrivia) hRest

theorem Writes.spaces
    {tokens : List Token}
    {text : String}
    (h : Writes tokens text)
    (n : Nat) :
    Writes tokens (spaces n ++ text) := by
  intro more rest hRest hApart
  have hText := h more rest hRest hApart
  rw [String.toList_append, List.append_assoc, DotLang.spaces,
    String.toList_ofList]
  induction n with
  | zero => exact hText
  | succ n ih => exact ih.blank (by decide)

theorem startsApart_space
    (text : String) :
    StartsApart (" " ++ text) :=
  startsApart_of_head (c := ' ') (by simp) (by decide) (by decide)

theorem Writes.space
    {tokens : List Token}
    {text : String}
    (h : Writes tokens text) :
    Writes tokens (" " ++ text) :=
  h.spaces 1

------------------------------------------------------------
-- Attributes
------------------------------------------------------------

/- The token of a value. -/
def Value.token : Value → Token
| plain text => .identifier text
| html text => .html text

/- The tokens of an attribute. -/
def Attribute.tokens (a : Attribute) : List Token :=
  [.identifier a.name, .symbol .equal, a.value.token]

/- The tokens of attributes with commas between them. -/
def commaTokens : List Attribute → List Token
| [] => []
| [a] => a.tokens
| a :: rest => a.tokens ++ .symbol .comma :: commaTokens rest

/- The tokens of a table behind a name, if it has entries. -/
def AttributeTable.suffixTokens (t : AttributeTable) : List Token :=
  if t.isEmpty then
    []
  else
    .symbol .openBracket ::
      (commaTokens t.entries ++ [.symbol .closeBracket])

/- The value is read back from how it is written. -/
def Value.IsReadable : Value → Prop
| plain text => ReadsBack text
| html text => IsMarkup text.toList

/- Names and values are read back from how they are written. -/
def AttributeTable.IsReadable (t : AttributeTable) : Prop :=
  ∀ a ∈ t.entries, ReadsBack a.name ∧ a.value.IsReadable

theorem ReadsBack.writes
    {name : String}
    (h : ReadsBack name) :
    Writes [.identifier name] (quoteIdentifier name) :=
  writes_word h.spells

theorem Value.IsReadable.writes
    {value : Value}
    (h : value.IsReadable) :
    Writes [value.token] value.written := by
  cases value with
  | plain text => exact ReadsBack.writes h
  | html text =>
      apply writes_word
      have hSpells := Spells.html text.toList h
      rw [String.ofList_toList] at hSpells
      simpa [Value.written, Value.token] using hSpells

theorem startsApart_symbol
    (mark : Symbol)
    (text : String) :
    StartsApart (mark.spelling ++ text) := by
  cases mark
  all_goals
    exact startsApart_of_head (by simp [Symbol.spelling]; rfl)
      (by decide) (by decide)

theorem writes_attribute
    {a : Attribute}
    (hName : ReadsBack a.name)
    (hValue : a.value.IsReadable) :
    Writes a.tokens a.written := by
  have hRight := hValue.writes.symbol .equal
  have hAll := hName.writes.append hRight (startsApart_symbol _ _)
  rwa [← String.append_assoc] at hAll

theorem writes_comma
    (entries : List Attribute)
    (h :
      ∀ a ∈ entries, ReadsBack a.name ∧ a.value.IsReadable) :
    Writes (commaTokens entries)
      (joinWith ", " (entries.map Attribute.written)) := by
  fun_induction commaTokens entries with
  | case1 => exact writes_nil
  | case2 a =>
      have ha := h a List.mem_cons_self
      exact writes_attribute ha.1 ha.2
  | case3 a rest hRest ih =>
      have ha := h a List.mem_cons_self
      have hMore := ih fun b hb => h b (List.mem_cons_of_mem _ hb)
      have hAll := (writes_attribute ha.1 ha.2).append
        (hMore.space.symbol .comma) (startsApart_symbol _ _)
      cases rest with
      | nil => exact absurd rfl hRest
      | cons b rest =>
          have hComma :
              Symbol.comma.spelling ++
                  (" " ++ joinWith ", "
                    ((b :: rest).map Attribute.written)) =
                ", " ++ joinWith ", "
                  ((b :: rest).map Attribute.written) := by
            rw [← String.append_assoc]
            rfl
          rw [hComma, ← String.append_assoc] at hAll
          exact hAll

theorem AttributeTable.IsReadable.writes
    {t : AttributeTable}
    (h : t.IsReadable) :
    Writes t.suffixTokens t.suffix ∧ StartsApart t.suffix := by
  unfold AttributeTable.suffixTokens AttributeTable.suffix
  by_cases hEmpty : t.isEmpty = true
  · rw [if_pos hEmpty, if_pos hEmpty]
    exact ⟨writes_nil, fun rest hRest => by simpa using hRest⟩
  · rw [if_neg hEmpty, if_neg hEmpty]
    have hClose := (writes_comma t.entries h).append
      (writes_nil.symbol .closeBracket) (startsApart_symbol _ _)
    have hAll := (hClose.symbol .openBracket).space
    refine ⟨?_, startsApart_space _⟩
    simpa [AttributeTable.written, Symbol.spelling,
      String.append_assoc] using hAll

------------------------------------------------------------
-- Lines
------------------------------------------------------------

/- Lines as the characters of a text. -/
def lineChars (lines : List String) : List Char :=
  lines.flatMap fun line => line.toList ++ ['\n']

theorem toList_unlines
    (lines : List String) :
    (unlines lines).toList = lineChars lines := by
  have hFold :
      ∀ (texts : List String) (start : String),
        (texts.foldl (· ++ ·) start).toList =
          start.toList ++ texts.flatMap String.toList := by
    intro texts
    induction texts with
    | nil => simp
    | cons text texts ih =>
        intro start
        rw [List.foldl_cons, ih]
        simp
  unfold unlines String.join lineChars
  rw [hFold]
  simp [List.flatMap_map]

/- The lines lay out the tokens in front of other ones. -/
def WritesLines (tokens : List Token) (lines : List String) : Prop :=
  ∀ (more : List Token) (rest : List Char),
    IsLayout false more rest →
      IsLayout false (tokens ++ more) (lineChars lines ++ rest)

theorem writesLines_nil : WritesLines [] [] :=
  fun _ _ hRest => hRest

theorem WritesLines.append
    {tokens tokens' : List Token}
    {lines lines' : List String}
    (h : WritesLines tokens lines)
    (h' : WritesLines tokens' lines') :
    WritesLines (tokens ++ tokens') (lines ++ lines') := by
  intro more rest hRest
  unfold lineChars
  rw [List.flatMap_append, List.append_assoc, List.append_assoc]
  exact h _ _ (h' more rest hRest)

theorem Writes.line
    {tokens : List Token}
    {text : String}
    (h : Writes tokens text) :
    WritesLines tokens [text] := by
  intro more rest hRest
  have hFeed := hRest.blank (c := '\n') (by decide)
  have hAll := h more ('\n' :: rest) hFeed
    (isApart_cons (by decide) (by decide) rest)
  simpa [lineChars] using hAll

theorem writesLines_flatMap
    {α : Type}
    (items : List α)
    {tokens : α → List Token}
    {lines : α → List String}
    (h : ∀ x ∈ items, WritesLines (tokens x) (lines x)) :
    WritesLines (items.flatMap tokens) (items.flatMap lines) := by
  induction items with
  | nil => exact writesLines_nil
  | cons x items ih =>
      exact (h x List.mem_cons_self).append
        (ih fun y hy => h y (List.mem_cons_of_mem _ hy))

/- One line for each item, all of them indented alike. -/
theorem writesLines_map
    {α : Type}
    (items : List α)
    {tokens : α → List Token}
    {line : α → String}
    (n : Nat)
    (h : ∀ x ∈ items, Writes (tokens x) (line x)) :
    WritesLines (items.flatMap tokens)
      ((items.map line).map (spaces n ++ ·)) := by
  rw [List.map_map, List.map_eq_flatMap]
  apply writesLines_flatMap
  intro x hx
  exact ((h x hx).spaces n).line

/- A line that a semicolon ends. -/
theorem Writes.semicolon
    {tokens : List Token}
    {text : String}
    (h : Writes tokens text) :
    Writes (tokens ++ [.symbol .semicolon]) (text ++ ";") :=
  h.append (writes_nil.symbol .semicolon)
    (startsApart_symbol .semicolon "")

------------------------------------------------------------
-- Tokens of a Graph
------------------------------------------------------------

/- The keywords in front of the name of a graph. -/
def Graph.kindTokens (g : Graph) : List Token :=
  if g.isRoot then
    (if g.strict then [.keyword .strict] else []) ++
      [.keyword (if g.directed then .digraph else .graph)]
  else
    [.keyword .subgraph]

/- The tokens of the first line of a graph. -/
def Graph.headerTokens (g : Graph) : List Token :=
  g.kindTokens ++
    ((if g.name.isEmpty then [] else [.identifier g.name]) ++
      [.symbol .openBrace])

/- The token of the operator of an edge. -/
def Arrow.token : Arrow → Token
| directed => .symbol .arrow
| undirected => .symbol .line

theorem writes_keyword
    (word : Keyword) :
    Writes [.keyword word] word.spelling := by
  apply writes_word
  apply Spells.keyword
  cases word <;> decide

theorem Graph.writes_header
    {g : Graph}
    (hName : ReadsBack g.name) :
    Writes g.headerTokens g.header := by
  have hKind :
      Writes g.kindTokens
        (if g.isRoot then
          (if g.strict then "strict " else "") ++
            (if g.directed then "digraph" else "graph")
        else
          "subgraph") := by
    unfold Graph.kindTokens
    by_cases hRoot : g.isRoot = true
    · rw [if_pos hRoot, if_pos hRoot]
      have hKeyword :
          Writes [.keyword (if g.directed then .digraph else .graph)]
            (if g.directed then "digraph" else "graph") := by
        by_cases hDirected : g.directed = true
        · rw [if_pos hDirected, if_pos hDirected]
          exact writes_keyword .digraph
        · rw [if_neg hDirected, if_neg hDirected]
          exact writes_keyword .graph
      by_cases hStrict : g.strict = true
      · rw [if_pos hStrict, if_pos hStrict]
        have hAll := (writes_keyword .strict).append hKeyword.space
          (startsApart_space _)
        rwa [← String.append_assoc] at hAll
      · rw [if_neg hStrict, if_neg hStrict]
        simpa using hKeyword
    · rw [if_neg hRoot, if_neg hRoot]
      exact writes_keyword .subgraph
  have hBrace : Writes [.symbol .openBrace] " \x7b" :=
    (writes_nil.symbol .openBrace).space
  have hBehind :
      Writes
          ((if g.name.isEmpty then [] else [.identifier g.name]) ++
            [.symbol .openBrace])
          ((if g.name.isEmpty then
              ""
            else
              " " ++ quoteIdentifier g.name) ++ " \x7b") ∧
        StartsApart
          ((if g.name.isEmpty then
              ""
            else
              " " ++ quoteIdentifier g.name) ++ " \x7b") := by
    by_cases hEmpty : g.name.isEmpty = true
    · rw [if_pos hEmpty, if_pos hEmpty]
      exact ⟨by simpa using hBrace,
        startsApart_of_head (c := ' ') (by simp) (by decide)
          (by decide)⟩
    · rw [if_neg hEmpty, if_neg hEmpty]
      exact ⟨hName.writes.space.append hBrace
          (startsApart_of_head (c := ' ') (by simp) (by decide)
            (by decide)),
        startsApart_of_head (c := ' ') (by simp) (by decide)
          (by decide)⟩
  have hAll := hKind.append hBehind.1 hBehind.2
  rwa [← String.append_assoc] at hAll

namespace Registry

variable {F : Factory} {r : Registry F}

/- The tokens of the line of a node in a graph. -/
def nodeTokens
    (r : Registry F)
    (g : GraphId)
    (n : NodeId) : List Token :=
  .identifier (r.node n).name ::
    ((if (r.node n).owner = g then
        (r.node n).attributes.suffixTokens
      else
        []) ++
      [.symbol .semicolon])

/- The tokens of the line of an edge in a graph. -/
def edgeTokens
    (r : Registry F)
    (directed : Bool)
    (e : EdgeId) : List Token :=
  [.identifier (r.node (r.edge e).tail).name,
      (Arrow.ofDirected directed).token,
      .identifier (r.node (r.edge e).head).name] ++
    ((r.edge e).attributes.suffixTokens ++ [.symbol .semicolon])

/- The tokens of a graph, with those inside it down to a depth. -/
def graphTokens (r : Registry F) : Nat → GraphId → List Token
| 0, _ => []
| depth + 1, g =>
    let graph := r.graph g
    graph.headerTokens ++
      (graph.attributes.entries.flatMap
          (fun a => a.tokens ++ [.symbol .semicolon]) ++
        ((r.visibleNodes g).flatMap (r.nodeTokens g) ++
          (graph.children.flatMap (r.graphTokens depth) ++
            ((r.nestedNodes g).flatMap (r.nodeTokens g) ++
              (graph.edges.flatMap (r.edgeTokens graph.directed) ++
                [.symbol .closeBrace])))))

/- All that the lines of a graph write is read back. -/
structure IsReadable (r : Registry F) (g : GraphId) : Prop where
  name : ReadsBack (r.graph g).name
  attributes : (r.graph g).attributes.IsReadable
  nodes :
    ∀ n ∈ r.visibleNodes g ++ r.nestedNodes g,
      ReadsBack (r.node n).name ∧ (r.node n).attributes.IsReadable
  edges :
    ∀ e ∈ (r.graph g).edges,
      ReadsBack (r.node (r.edge e).tail).name ∧
        ReadsBack (r.node (r.edge e).head).name ∧
        (r.edge e).attributes.IsReadable

theorem IsReadable.writes_nodeLine
    {g : GraphId}
    (h : r.IsReadable g)
    {n : NodeId}
    (hn : n ∈ r.visibleNodes g ++ r.nestedNodes g) :
    Writes (r.nodeTokens g n) (r.nodeLine g n) := by
  rcases h.nodes n hn with ⟨hName, hTable⟩
  unfold nodeTokens nodeLine
  by_cases hOwner : (r.node n).owner = g
  · simp only [hOwner, if_true]
    have hAll := (hName.writes.append hTable.writes.1
      hTable.writes.2).semicolon
    simpa using hAll
  · simp only [hOwner, if_false]
    simpa using hName.writes.semicolon

theorem IsReadable.writes_edgeLine
    {g : GraphId}
    (h : r.IsReadable g)
    {e : EdgeId}
    (he : e ∈ (r.graph g).edges)
    (directed : Bool) :
    Writes (r.edgeTokens directed e) (r.edgeLine directed e) := by
  rcases h.edges e he with ⟨hTail, hHead, hTable⟩
  have hArrow :
      Writes [(Arrow.ofDirected directed).token]
        (Arrow.ofDirected directed).spelling := by
    cases directed with
    | true => exact writes_nil.symbol .arrow
    | false => exact writes_nil.symbol .line
  have hRight := hHead.writes.append hTable.writes.1 hTable.writes.2
  have hBehind := hArrow.append hRight.space (startsApart_space _)
  have hAll := (hTail.writes.append hBehind.space
    (startsApart_space _)).semicolon
  unfold edgeTokens edgeLine
  simpa [String.append_assoc] using hAll

/- The lines of a graph write its tokens. -/
theorem writesLines_dotLines
    (depth : Nat) :
    ∀ (level : Nat) (g : GraphId),
      (∀ h ∈ r.preorderWithin depth g, r.IsReadable h) →
        WritesLines (r.graphTokens depth g)
          (r.dotLines depth level g) := by
  induction depth with
  | zero => exact fun _ _ _ => writesLines_nil
  | succ depth ih =>
      intro level g hReadable
      have hg : r.IsReadable g :=
        hReadable g List.mem_cons_self
      have hHeader :=
        ((Graph.writes_header hg.name).spaces (2 * level)).line
      have hAttributes := writesLines_map
        (r.graph g).attributes.entries (2 * (level + 1)) fun a ha =>
          (writes_attribute (hg.attributes a ha).1
            (hg.attributes a ha).2).semicolon
      have hBefore := writesLines_map (r.visibleNodes g)
        (2 * (level + 1)) fun n hn =>
          hg.writes_nodeLine (List.mem_append_left _ hn)
      have hChildren := writesLines_flatMap
        (r.graph g).children fun c hc =>
          ih (level + 1) c fun h hh =>
            hReadable h (List.mem_cons_of_mem _
              (List.mem_flatMap.mpr ⟨c, hc, hh⟩))
      have hBehind := writesLines_map (r.nestedNodes g)
        (2 * (level + 1)) fun n hn =>
          hg.writes_nodeLine (List.mem_append_right _ hn)
      have hEdges := writesLines_map (r.graph g).edges
        (2 * (level + 1)) fun e he =>
          hg.writes_edgeLine he (r.graph g).directed
      have hClose :=
        ((writes_nil.symbol .closeBrace).spaces (2 * level)).line
      have hAll := hHeader.append (hAttributes.append
        (hBefore.append (hChildren.append (hBehind.append
          (hEdges.append hClose)))))
      simpa [graphTokens, dotLines, Symbol.spelling] using hAll

/- The text of a graph has the tokens of the graph. -/
theorem tokens_toDot
    {g : GraphId}
    (h :
      ∀ f ∈ r.preorderWithin r.graphs.size g, r.IsReadable f) :
    (TokenStream.ofText (r.toDot g).toList).tokens.map
        Located.token =
      r.graphTokens r.graphs.size g := by
  have hLayout := writesLines_dotLines r.graphs.size 0 g h [] []
    (.finish false [] (.nil _))
  rw [List.append_nil, List.append_nil, ← toList_unlines] at hLayout
  apply hLayout.tokens_eq (Cursor.faces_start _)
  simp

end Registry

end DotLang
