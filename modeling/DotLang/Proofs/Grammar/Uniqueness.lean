import DotLang.Proofs.Grammar.FirstToken

/-
  This file proves that the grammar is unambiguous: derivations
  of the same tokens are the same.

  Parts are compared together with the tokens behind them, of
  which only the first one matters.

  Key theorems include:
    * `Parser.refTree_unique`
    * `Parser.listTree_unique`
    * `Parser.bodyTree_unique`
    * `Parser.fileTree_unique`
-/

------------------------------------------------------------
-- Terminals
------------------------------------------------------------

namespace DotLang

namespace Parser

@[simp] theorem located_inj
    {mark : Symbol}
    {l l' : Location} :
    mark.located l = mark.located l' ↔ l = l' := by
  simp [Symbol.located]

@[simp] theorem keywordLocated_inj
    {word : Keyword}
    {l l' : Location} :
    word.located l = word.located l' ↔ l = l' := by
  simp [Keyword.located]

@[simp] theorem nameToken_inj
    {name name' : Placed String} :
    nameToken name = nameToken name' ↔ name = name' := by
  rcases name with ⟨name, l⟩
  rcases name' with ⟨name', l'⟩
  simp [nameToken]

@[simp] theorem valueToken_inj
    {value value' : Placed Value} :
    valueToken value = valueToken value' ↔ value = value' := by
  rcases value with ⟨value, l⟩
  rcases value' with ⟨value', l'⟩
  cases value <;> cases value' <;> simp [valueToken]

@[simp] theorem arrowToken_inj
    {arrow arrow' : Placed Arrow} :
    arrowToken arrow = arrowToken arrow' ↔ arrow = arrow' := by
  rcases arrow with ⟨arrow, l⟩
  rcases arrow' with ⟨arrow', l'⟩
  cases arrow <;> cases arrow' <;> simp [arrowToken]

@[simp] theorem kindToken_inj
    {kind kind' : Placed EntityKind} :
    kindToken kind = kindToken kind' ↔ kind = kind' := by
  rcases kind with ⟨kind, l⟩
  rcases kind' with ⟨kind', l'⟩
  cases kind <;> cases kind' <;> simp [kindToken]

@[simp] theorem directedToken_inj
    {directed directed' : Placed Bool} :
    directedToken directed = directedToken directed' ↔
      directed = directed' := by
  rcases directed with ⟨directed, l⟩
  rcases directed' with ⟨directed', l'⟩
  cases directed <;> cases directed' <;> simp [directedToken]

------------------------------------------------------------
-- Mentions and Attributes
------------------------------------------------------------

theorem refTree_unique
    {d d' : RefTree}
    {k k' : List Located}
    (h : d.tokens ++ k = d'.tokens ++ k')
    (hK : headToken k ≠ .symbol .colon)
    (hK' : headToken k' ≠ .symbol .colon) :
    d = d' ∧ k = k' := by
  rcases d with ⟨name, _ | ⟨colon, port, _ | ⟨colon₂, compass⟩⟩⟩
  all_goals
    rcases d' with
      ⟨name', _ | ⟨colon', port', _ | ⟨colon₂', compass'⟩⟩⟩
  all_goals
    grind [RefTree.tokens, PortTree.tokens, nameToken_inj,
      located_inj, headToken_cons, token_located]

/- A symbol that may be missing is seen by its token. -/
theorem optional_unique
    (mark : Symbol)
    {l l' : Option Location}
    {k k' : List Located}
    (h :
      (l.map mark.located).toList ++ k =
        (l'.map mark.located).toList ++ k')
    (hK : headToken k ≠ .symbol mark)
    (hK' : headToken k' ≠ .symbol mark) :
    l = l' ∧ k = k' := by
  cases l <;> cases l'
  all_goals grind [located_inj, headToken_cons, token_located]

theorem attrTree_unique
    {d d' : AttrTree}
    {k k' : List Located}
    (h : d.tokens ++ k = d'.tokens ++ k')
    (hK : ClosesAttribute (headToken k))
    (hK' : ClosesAttribute (headToken k')) :
    d = d' ∧ k = k' := by
  rcases d with ⟨name, equal, value, semicolon, comma⟩
  rcases d' with ⟨name', equal', value', semicolon', comma'⟩
  simp only [AttrTree.tokens, List.cons_append, List.append_assoc,
    List.cons.injEq, nameToken_inj, located_inj,
    valueToken_inj] at h
  rcases h with ⟨rfl, rfl, rfl, h⟩
  have hComma (comma : Option Location) {k : List Located}
      (hK : ClosesAttribute (headToken k)) :
      headToken ((comma.map Symbol.comma.located).toList ++ k) ≠
        .symbol .semicolon := by
    cases comma with
    | none => exact hK.1
    | some comma => simp
  rcases optional_unique .semicolon h (hComma comma hK)
    (hComma comma' hK') with ⟨rfl, hEnd⟩
  rcases optional_unique .comma hEnd hK.2 hK'.2 with ⟨rfl, rfl⟩
  exact ⟨rfl, rfl⟩

/-
  Rows of derivations are unambiguous if the derivations are,
  and if what follows a row does not start like one of them.
-/
theorem row_unique
    {δ : Type}
    {tokens : δ → List Located}
    (IsNext Starts : Token → Prop)
    (hUnique :
      ∀ {d d' k k'},
        tokens d ++ k = tokens d' ++ k' →
          IsNext (headToken k) →
            IsNext (headToken k') → d = d' ∧ k = k')
    (hStarts : ∀ d k, Starts (headToken (tokens d ++ k)))
    (hNext : ∀ d k, IsNext (headToken (tokens d ++ k)))
    {row row' : List δ}
    {k k' : List Located}
    (h : row.flatMap tokens ++ k = row'.flatMap tokens ++ k')
    (hK : IsNext (headToken k) ∧ ¬ Starts (headToken k))
    (hK' : IsNext (headToken k') ∧ ¬ Starts (headToken k')) :
    row = row' ∧ k = k' := by
  have hRow (row : List δ) {k : List Located}
      (hK : IsNext (headToken k)) :
      IsNext (headToken (row.flatMap tokens ++ k)) := by
    cases row with
    | nil => exact hK
    | cons d row =>
        rw [List.flatMap_cons, List.append_assoc]
        exact hNext d _
  induction row generalizing row' with
  | nil =>
      cases row' with
      | nil => exact ⟨rfl, h⟩
      | cons d row' =>
          rw [List.flatMap_nil, List.nil_append, List.flatMap_cons,
            List.append_assoc] at h
          rw [h] at hK
          exact absurd (hStarts d _) hK.2
  | cons d row ih =>
      rw [List.flatMap_cons, List.append_assoc] at h
      cases row' with
      | nil =>
          rw [List.flatMap_nil, List.nil_append] at h
          rw [← h] at hK'
          exact absurd (hStarts d _) hK'.2
      | cons d' row' =>
          rw [List.flatMap_cons, List.append_assoc] at h
          rcases hUnique h (hRow row hK.1) (hRow row' hK'.1) with
            ⟨rfl, hRest⟩
          rcases ih hRest with ⟨rfl, hEnd⟩
          exact ⟨rfl, hEnd⟩

/- A token that an attribute starts with. -/
def IsName : Token → Prop
| .identifier _ => True
| _ => False

theorem listTree_unique
    {d d' : ListTree}
    {k k' : List Located}
    (h : d.tokens ++ k = d'.tokens ++ k') :
    d = d' ∧ k = k' := by
  rcases d with ⟨opening, entries, closing⟩
  rcases d' with ⟨opening', entries', closing'⟩
  simp only [ListTree.tokens, List.cons_append, List.append_assoc,
    List.nil_append, List.cons.injEq, located_inj] at h
  rcases h with ⟨rfl, hEntries⟩
  have hClosing (l : Location) (k : List Located) :
      ClosesAttribute
          (headToken (Symbol.closeBracket.located l :: k)) ∧
        ¬ IsName
          (headToken (Symbol.closeBracket.located l :: k)) := by
    simp [ClosesAttribute, IsName]
  have hName (d : AttrTree) (k : List Located) :
      IsName (headToken (d.tokens ++ k)) ∧
        ClosesAttribute (headToken (d.tokens ++ k)) := by
    simp [AttrTree.tokens, ClosesAttribute, IsName]
  rcases row_unique ClosesAttribute IsName attrTree_unique
    (fun d k => (hName d k).1) (fun d k => (hName d k).2)
    hEntries (hClosing closing k) (hClosing closing' k') with
    ⟨rfl, hEnd⟩
  rw [List.cons.injEq, located_inj] at hEnd
  rcases hEnd with ⟨rfl, rfl⟩
  exact ⟨rfl, rfl⟩

theorem lists_unique
    {lists lists' : List ListTree}
    {k k' : List Located}
    (h :
      lists.flatMap ListTree.tokens ++ k =
        lists'.flatMap ListTree.tokens ++ k')
    (hK : headToken k ≠ .symbol .openBracket)
    (hK' : headToken k' ≠ .symbol .openBracket) :
    lists = lists' ∧ k = k' :=
  row_unique (fun _ => True) (· = .symbol .openBracket)
    (fun h _ _ => listTree_unique h) (fun _ _ => rfl)
    (fun _ _ => trivial) h ⟨trivial, hK⟩ ⟨trivial, hK'⟩

------------------------------------------------------------
-- Statements
------------------------------------------------------------

/- A mention does not start like a subgraph. -/
theorem ref_ne_subgraph
    {ref : RefTree}
    {tree : SubgraphTree}
    {k k' : List Located}
    (h : ref.tokens ++ k = tree.tokens ++ k') :
    False := by
  have hRef :
      headToken (ref.tokens ++ k) =
        .identifier ref.name.value := rfl
  rw [h] at hRef
  rcases headToken_subgraphTree tree k' with hHead | hHead
  · rw [hHead] at hRef
    cases hRef
  · rw [hHead] at hRef
    cases hRef

/- Mentions are not confused with other ends of edges. -/
theorem refTree_endTree_unique
    {ref : RefTree}
    {d : EndTree}
    {k k' : List Located}
    (h : ref.tokens ++ k = d.tokens ++ k')
    (hK : headToken k ≠ .symbol .colon)
    (hK' : headToken k' ≠ .symbol .colon) :
    .node ref = d ∧ k = k' := by
  cases d with
  | node ref' =>
      rcases refTree_unique h hK hK' with ⟨rfl, hEnd⟩
      exact ⟨rfl, hEnd⟩
  | subgraph tree => exact (ref_ne_subgraph h).elim

/- What stands in front of the brace of a subgraph. -/
theorem keywordTokens_unique
    {keyword keyword' : Option (Location × Option (Placed String))}
    {opening opening' : Location}
    {k k' : List Located}
    (h :
      keywordTokens keyword ++
          Symbol.located .openBrace opening :: k =
        keywordTokens keyword' ++
          Symbol.located .openBrace opening' :: k') :
    keyword = keyword' ∧ opening = opening' ∧ k = k' := by
  rcases keyword with _ | ⟨location, _ | name⟩
  all_goals
    rcases keyword' with _ | ⟨location', _ | name'⟩
  all_goals
    grind [keywordTokens, located_inj, keywordLocated_inj,
      nameToken_inj, token_located, token_keywordLocated,
      token_nameToken]

/- Steps start with an edge operator. -/
theorem ne_stepsTree
    {d : StepsTree}
    {k k' : List Located}
    (h : k = d.tokens ++ k')
    (hK : arrowOf? (headToken k) = none) :
    False := by
  rw [h] at hK
  rcases headToken_stepsTree d k' with hHead | hHead
  · rw [hHead] at hK
    cases hK
  · rw [hHead] at hK
    cases hK

theorem notColon_stepsTree
    (d : StepsTree)
    (k : List Located) :
    headToken (d.tokens ++ k) ≠ .symbol .colon := by
  rcases headToken_stepsTree d k with hHead | hHead
  · simp [hHead]
  · simp [hHead]

/- A statement of defaults does not start like an end. -/
theorem endTree_ne_kind
    {d : EndTree}
    {kind : Placed EntityKind}
    {k k' : List Located}
    (h : d.tokens ++ k = kindToken kind :: k') :
    False := by
  have hHead := congrArg headToken h
  rcases kind with ⟨kind, l⟩
  cases d with
  | node ref =>
      cases kind <;>
        simp [EndTree.tokens, RefTree.tokens, kindToken] at hHead
  | subgraph tree =>
      rw [EndTree.tokens] at hHead
      rcases headToken_subgraphTree tree k with hTree | hTree
      · rw [hTree] at hHead
        cases kind <;> cases hHead
      · rw [hTree] at hHead
        cases kind <;> cases hHead

/- An assignment starts with a mention that has no port. -/
theorem tokens_assign
    (name : Placed String)
    (equal : Location)
    (value : Placed Value)
    (k : List Located) :
    (StmtTree.assign name equal value).tokens ++ k =
      (RefTree.mk name none).tokens ++
        Symbol.equal.located equal :: valueToken value :: k := rfl

/- The lists of a mention are the rest of its statement. -/
theorem mentionStmt_unique
    {ref : RefTree}
    {lists : List ListTree}
    {d : StmtTree}
    {k k' : List Located}
    (h :
      ref.tokens ++ (lists.flatMap ListTree.tokens ++ k) =
        d.tokens ++ k')
    (hK : ClosesStmt (headToken k))
    (hK' : ClosesStmt (headToken k')) :
    .node ref lists = d ∧ k = k' := by
  have hLists := closesRef_lists lists hK
  cases d with
  | node ref' lists' =>
      rw [StmtTree.tokens, List.append_assoc] at h
      have hLists' := closesRef_lists lists' hK'
      rcases refTree_unique h hLists.notColon hLists'.notColon with
        ⟨rfl, hBack⟩
      rcases lists_unique hBack hK.notBracket hK'.notBracket with
        ⟨rfl, hEnd⟩
      exact ⟨rfl, hEnd⟩
  | edge tail steps lists' =>
      rw [StmtTree.tokens, List.append_assoc,
        List.append_assoc] at h
      rcases refTree_endTree_unique h hLists.notColon
        (notColon_stepsTree steps _) with ⟨_, hBack⟩
      exact (ne_stepsTree hBack hLists.notArrow).elim
  | defaults kind first others =>
      exact (endTree_ne_kind (d := .node ref) h).elim
  | assign name equal value =>
      rw [tokens_assign] at h
      rcases refTree_unique h hLists.notColon (by simp) with
        ⟨_, hBack⟩
      rw [hBack] at hLists
      exact (hLists.notEqual rfl).elim
  | subgraph tree => exact (ref_ne_subgraph h).elim

theorem assignStmt_unique
    {name : Placed String}
    {equal : Location}
    {value : Placed Value}
    {d : StmtTree}
    {k k' : List Located}
    (h :
      (StmtTree.assign name equal value).tokens ++ k =
        d.tokens ++ k')
    (hK' : ClosesStmt (headToken k')) :
    .assign name equal value = d ∧ k = k' := by
  cases d with
  | node ref' lists' =>
      have hLists' := closesRef_lists lists' hK'
      rw [tokens_assign, StmtTree.tokens, List.append_assoc] at h
      rcases refTree_unique h (by simp) hLists'.notColon with
        ⟨_, hBack⟩
      rw [← hBack] at hLists'
      exact (hLists'.notEqual rfl).elim
  | edge tail steps lists' =>
      rw [tokens_assign, StmtTree.tokens, List.append_assoc,
        List.append_assoc] at h
      rcases refTree_endTree_unique h (by simp)
        (notColon_stepsTree steps _) with ⟨_, hBack⟩
      exact (ne_stepsTree hBack rfl).elim
  | defaults kind first others =>
      exact (endTree_ne_kind (d := .node ⟨name, none⟩) h).elim
  | assign name' equal' value' =>
      simp only [StmtTree.tokens, List.cons_append,
        List.nil_append, List.cons.injEq, nameToken_inj,
        located_inj, valueToken_inj] at h
      rcases h with ⟨rfl, rfl, rfl, hEnd⟩
      exact ⟨rfl, hEnd⟩
  | subgraph tree =>
      rw [tokens_assign] at h
      exact (ref_ne_subgraph h).elim

theorem defaultsStmt_unique
    {kind : Placed EntityKind}
    {first : ListTree}
    {others : List ListTree}
    {d : StmtTree}
    {k k' : List Located}
    (h :
      (StmtTree.defaults kind first others).tokens ++ k =
        d.tokens ++ k')
    (hK : ClosesStmt (headToken k))
    (hK' : ClosesStmt (headToken k')) :
    .defaults kind first others = d ∧ k = k' := by
  cases d with
  | node ref lists =>
      rw [StmtTree.tokens, StmtTree.tokens, List.append_assoc] at h
      exact (endTree_ne_kind (d := .node ref) h.symm).elim
  | edge tail steps lists =>
      rw [StmtTree.tokens, StmtTree.tokens, List.append_assoc] at h
      exact (endTree_ne_kind h.symm).elim
  | defaults kind' first' others' =>
      simp only [StmtTree.tokens, List.cons_append,
        List.append_assoc, List.cons.injEq, kindToken_inj] at h
      rcases h with ⟨rfl, h⟩
      rcases listTree_unique h with ⟨rfl, hOthers⟩
      rcases lists_unique hOthers hK.notBracket hK'.notBracket with
        ⟨rfl, hEnd⟩
      exact ⟨rfl, hEnd⟩
  | assign name equal value =>
      rw [tokens_assign] at h
      exact (endTree_ne_kind (d := .node ⟨name, none⟩) h.symm).elim
  | subgraph tree =>
      rw [StmtTree.tokens, StmtTree.tokens] at h
      exact (endTree_ne_kind (d := .subgraph tree) h.symm).elim

/- The steps behind an end tell an edge from other statements. -/
theorem edgeStmt_unique
    {tail : EndTree}
    {steps : StepsTree}
    {lists : List ListTree}
    {d : StmtTree}
    {k k' : List Located}
    (hTail :
      ∀ {e : EndTree} {k k'},
        tail.tokens ++ k = e.tokens ++ k' →
          headToken k ≠ .symbol .colon →
            headToken k' ≠ .symbol .colon → tail = e ∧ k = k')
    (hSteps :
      ∀ {d' : StepsTree} {k k'},
        steps.tokens ++ k = d'.tokens ++ k' →
          ClosesRef (headToken k) →
            ClosesRef (headToken k') → steps = d' ∧ k = k')
    (h :
      tail.tokens ++
          (steps.tokens ++
            (lists.flatMap ListTree.tokens ++ k)) =
        d.tokens ++ k')
    (hK : ClosesStmt (headToken k))
    (hK' : ClosesStmt (headToken k')) :
    .edge tail steps lists = d ∧ k = k' := by
  have hColon :=
    notColon_stepsTree steps (lists.flatMap ListTree.tokens ++ k)
  cases d with
  | node ref lists' =>
      have hLists' := closesRef_lists lists' hK'
      rw [StmtTree.tokens, List.append_assoc] at h
      rcases hTail (e := .node ref) h hColon hLists'.notColon with
        ⟨_, hBack⟩
      exact (ne_stepsTree hBack.symm hLists'.notArrow).elim
  | edge tail' steps' lists' =>
      rw [StmtTree.tokens, List.append_assoc,
        List.append_assoc] at h
      rcases hTail h hColon (notColon_stepsTree steps' _) with
        ⟨rfl, hBack⟩
      rcases hSteps hBack (closesRef_lists lists hK)
        (closesRef_lists lists' hK') with ⟨rfl, hLists⟩
      rcases lists_unique hLists hK.notBracket hK'.notBracket with
        ⟨rfl, hEnd⟩
      exact ⟨rfl, hEnd⟩
  | defaults kind first others => exact (endTree_ne_kind h).elim
  | assign name equal value =>
      rw [tokens_assign] at h
      rcases hTail (e := .node ⟨name, none⟩) h hColon (by simp)
        with ⟨_, hBack⟩
      exact (ne_stepsTree hBack.symm rfl).elim
  | subgraph tree =>
      rcases hTail (e := .subgraph tree) h hColon hK'.notColon with
        ⟨_, hBack⟩
      exact (ne_stepsTree hBack.symm hK'.notArrow).elim

theorem subgraphStmt_unique
    {tree : SubgraphTree}
    {d : StmtTree}
    {k k' : List Located}
    (hTree :
      ∀ {d' : SubgraphTree} {k k'},
        tree.tokens ++ k = d'.tokens ++ k' → tree = d' ∧ k = k')
    (h : tree.tokens ++ k = d.tokens ++ k')
    (hK : ClosesStmt (headToken k)) :
    .subgraph tree = d ∧ k = k' := by
  cases d with
  | node ref lists =>
      rw [StmtTree.tokens, List.append_assoc] at h
      exact (ref_ne_subgraph h.symm).elim
  | edge tail steps lists =>
      rw [StmtTree.tokens, List.append_assoc] at h
      cases tail with
      | node ref => exact (ref_ne_subgraph h.symm).elim
      | subgraph tree' =>
          rw [List.append_assoc] at h
          rcases hTree h with ⟨_, hBack⟩
          exact (ne_stepsTree hBack hK.notArrow).elim
  | defaults kind first others =>
      exact (endTree_ne_kind (d := .subgraph tree) h).elim
  | assign name equal value =>
      rw [tokens_assign] at h
      exact (ref_ne_subgraph h.symm).elim
  | subgraph tree' =>
      rcases hTree h with ⟨rfl, hEnd⟩
      exact ⟨rfl, hEnd⟩

/- A token in front of which a statement stands starts it. -/
theorem startsStmt_of_eq
    {d : StmtTree}
    {t : Located}
    {k k' : List Located}
    (h : d.tokens ++ k = t :: k') :
    StartsStmt t.token := by
  have hStarts := startsStmt_stmtTree d k
  rw [h] at hStarts
  exact hStarts

mutual

theorem endTree_unique
    (d : EndTree)
    {d' : EndTree}
    {k k' : List Located}
    (h : d.tokens ++ k = d'.tokens ++ k')
    (hK : headToken k ≠ .symbol .colon)
    (hK' : headToken k' ≠ .symbol .colon) :
    d = d' ∧ k = k' := by
  cases d with
  | node ref => exact refTree_endTree_unique h hK hK'
  | subgraph tree =>
      cases d' with
      | node ref => exact (ref_ne_subgraph h.symm).elim
      | subgraph tree' =>
          rcases subgraphTree_unique tree h with ⟨rfl, hEnd⟩
          exact ⟨rfl, hEnd⟩
termination_by structural d

theorem subgraphTree_unique
    (d : SubgraphTree)
    {d' : SubgraphTree}
    {k k' : List Located}
    (h : d.tokens ++ k = d'.tokens ++ k') :
    d = d' ∧ k = k' := by
  rcases d with ⟨keyword, opening, body⟩
  rcases d' with ⟨keyword', opening', body'⟩
  rw [SubgraphTree.tokens, SubgraphTree.tokens, List.append_assoc,
    List.append_assoc] at h
  rcases keywordTokens_unique h with ⟨rfl, rfl, hBody⟩
  rcases bodyTree_unique body hBody with ⟨rfl, hEnd⟩
  exact ⟨rfl, hEnd⟩
termination_by structural d

theorem stepsTree_unique
    (d : StepsTree)
    {d' : StepsTree}
    {k k' : List Located}
    (h : d.tokens ++ k = d'.tokens ++ k')
    (hK : ClosesRef (headToken k))
    (hK' : ClosesRef (headToken k')) :
    d = d' ∧ k = k' := by
  cases d with
  | one arrow head =>
      cases d' with
      | one arrow' head' =>
          simp only [StepsTree.tokens, List.cons_append,
            List.cons.injEq, arrowToken_inj] at h
          rcases h with ⟨rfl, h⟩
          rcases endTree_unique head h hK.notColon hK'.notColon
            with ⟨rfl, hEnd⟩
          exact ⟨rfl, hEnd⟩
      | more arrow' head' others' =>
          simp only [StepsTree.tokens, List.cons_append,
            List.append_assoc, List.cons.injEq] at h
          rcases endTree_unique head h.2 hK.notColon
            (notColon_stepsTree others' k') with ⟨_, hEnd⟩
          exact (ne_stepsTree hEnd hK.notArrow).elim
  | more arrow head others =>
      cases d' with
      | one arrow' head' =>
          simp only [StepsTree.tokens, List.cons_append,
            List.append_assoc, List.cons.injEq] at h
          rcases endTree_unique head h.2
            (notColon_stepsTree others k) hK'.notColon with
            ⟨_, hEnd⟩
          exact (ne_stepsTree hEnd.symm hK'.notArrow).elim
      | more arrow' head' others' =>
          simp only [StepsTree.tokens, List.cons_append,
            List.append_assoc, List.cons.injEq,
            arrowToken_inj] at h
          rcases h with ⟨rfl, h⟩
          rcases endTree_unique head h
            (notColon_stepsTree others k)
            (notColon_stepsTree others' k') with ⟨rfl, hOthers⟩
          rcases stepsTree_unique others hOthers hK hK' with
            ⟨rfl, hEnd⟩
          exact ⟨rfl, hEnd⟩
termination_by structural d

theorem stmtTree_unique
    (d : StmtTree)
    {d' : StmtTree}
    {k k' : List Located}
    (h : d.tokens ++ k = d'.tokens ++ k')
    (hK : ClosesStmt (headToken k))
    (hK' : ClosesStmt (headToken k')) :
    d = d' ∧ k = k' := by
  cases d with
  | node ref lists =>
      rw [StmtTree.tokens, List.append_assoc] at h
      exact mentionStmt_unique h hK hK'
  | edge tail steps lists =>
      rw [StmtTree.tokens, List.append_assoc,
        List.append_assoc] at h
      exact edgeStmt_unique (endTree_unique tail)
        (stepsTree_unique steps) h hK hK'
  | defaults kind first others => exact defaultsStmt_unique h hK hK'
  | assign name equal value => exact assignStmt_unique h hK'
  | subgraph tree =>
      exact subgraphStmt_unique (subgraphTree_unique tree) h hK
termination_by structural d

theorem bodyTree_unique
    (d : BodyTree)
    {d' : BodyTree}
    {k k' : List Located}
    (h : d.tokens ++ k = d'.tokens ++ k') :
    d = d' ∧ k = k' := by
  cases d with
  | close closing =>
      cases d' with
      | close closing' =>
          simp only [BodyTree.tokens, List.cons_append,
            List.nil_append, List.cons.injEq, located_inj] at h
          rcases h with ⟨rfl, hEnd⟩
          exact ⟨rfl, hEnd⟩
      | semicolon l' others' => cases congrArg headToken h
      | stmt first' others' =>
          rw [BodyTree.tokens, BodyTree.tokens,
            List.append_assoc] at h
          exact (startsStmt_of_eq h.symm).elim
  | semicolon l others =>
      cases d' with
      | close closing' => cases congrArg headToken h
      | semicolon l' others' =>
          simp only [BodyTree.tokens, List.cons_append,
            List.cons.injEq, located_inj] at h
          rcases h with ⟨rfl, h⟩
          rcases bodyTree_unique others h with ⟨rfl, hEnd⟩
          exact ⟨rfl, hEnd⟩
      | stmt first' others' =>
          rw [BodyTree.tokens, BodyTree.tokens,
            List.append_assoc] at h
          exact (startsStmt_of_eq h.symm).elim
  | stmt first others =>
      rw [BodyTree.tokens, List.append_assoc] at h
      cases d' with
      | close closing' =>
          rw [BodyTree.tokens] at h
          exact (startsStmt_of_eq h).elim
      | semicolon l' others' =>
          rw [BodyTree.tokens] at h
          exact (startsStmt_of_eq h).elim
      | stmt first' others' =>
          rw [BodyTree.tokens, List.append_assoc] at h
          rcases stmtTree_unique first h
            (closesStmt_bodyTree others k)
            (closesStmt_bodyTree others' k') with ⟨rfl, hOthers⟩
          rcases bodyTree_unique others hOthers with ⟨rfl, hEnd⟩
          exact ⟨rfl, hEnd⟩
termination_by structural d

end

------------------------------------------------------------
-- Graphs
------------------------------------------------------------

theorem optionalStrict_unique
    {strict strict' : Option Location}
    {directed directed' : Placed Bool}
    {k k' : List Located}
    (h :
      (strict.map Keyword.strict.located).toList ++
          directedToken directed :: k =
        (strict'.map Keyword.strict.located).toList ++
          directedToken directed' :: k') :
    strict = strict' ∧
      directedToken directed :: k =
        directedToken directed' :: k' := by
  have hNot := token_directedToken_ne_strict
  cases strict <;> cases strict'
  all_goals
    grind [keywordLocated_inj, token_keywordLocated]

theorem optionalName_unique
    {name name' : Option (Placed String)}
    {opening opening' : Location}
    {k k' : List Located}
    (h :
      (name.map nameToken).toList ++
          Symbol.openBrace.located opening :: k =
        (name'.map nameToken).toList ++
          Symbol.openBrace.located opening' :: k') :
    name = name' ∧ opening = opening' ∧ k = k' := by
  cases name <;> cases name'
  all_goals
    grind [nameToken_inj, located_inj, token_nameToken,
      token_located]

theorem headerTree_unique
    {d d' : HeaderTree}
    {k k' : List Located}
    (h : d.tokens ++ k = d'.tokens ++ k') :
    d = d' ∧ k = k' := by
  rcases d with ⟨strict, directed, name, opening⟩
  rcases d' with ⟨strict', directed', name', opening'⟩
  simp only [HeaderTree.tokens, List.append_assoc,
    List.cons_append, List.nil_append] at h
  rcases optionalStrict_unique h with ⟨rfl, hDirected⟩
  rw [List.cons.injEq, directedToken_inj] at hDirected
  rcases hDirected with ⟨rfl, hName⟩
  rcases optionalName_unique hName with ⟨rfl, rfl, hEnd⟩
  exact ⟨rfl, hEnd⟩

theorem graphTree_unique
    {d d' : GraphTree}
    {k k' : List Located}
    (h : d.tokens ++ k = d'.tokens ++ k') :
    d = d' ∧ k = k' := by
  rcases d with ⟨header, body⟩
  rcases d' with ⟨header', body'⟩
  rw [GraphTree.tokens, GraphTree.tokens, List.append_assoc,
    List.append_assoc] at h
  rcases headerTree_unique h with ⟨rfl, hBody⟩
  rcases bodyTree_unique body hBody with ⟨rfl, hEnd⟩
  exact ⟨rfl, hEnd⟩

/- A file has one derivation at most. -/
theorem fileTree_unique
    {d d' : FileTree}
    (h : d.tokens = d'.tokens) :
    d = d' := by
  rcases d with ⟨first, others⟩
  rcases d' with ⟨first', others'⟩
  rcases graphTree_unique h with ⟨rfl, hOthers⟩
  rw [← List.append_nil (others.flatMap _),
    ← List.append_nil (others'.flatMap _)] at hOthers
  rcases row_unique (fun _ => True) (· ≠ .endOfFile)
    (fun h _ _ => graphTree_unique h) headToken_graphTree
    (fun _ _ => trivial) hOthers ⟨trivial, by simp⟩
    ⟨trivial, by simp⟩ with ⟨rfl, _⟩
  rfl

end Parser

end DotLang
