import DotLang.Proofs.Grammar.FirstToken

/-
  This file proves that the parser follows every derivation: in
  front of the tokens that a derivation derives it succeeds, and
  gives what the derivation stands for.

  What stands behind a derivation matters only by its first
  token, which must not carry the derivation on.

  Key theorems include:
    * `Parser.nodeRef_facing`
    * `Parser.attributeLists_facing`
    * `Parser.block_facing`
    * `Parser.file_facing`
-/

------------------------------------------------------------
-- Mentions and Attributes
------------------------------------------------------------

namespace DotLang

namespace Parser

/- A mention is read up to a token that is not a colon. -/
theorem nodeRef_facing
    (p : Parser)
    (d : RefTree)
    {rest : List Located}
    (hRest : headToken rest ≠ .symbol .colon) :
    nodeRef (p.facing (d.tokens ++ rest)) =
      .ok d.ref (p.facing rest) := by
  rcases d with ⟨name, port⟩
  cases port with
  | none =>
      simp [nodeRef, bind_apply, expectName_apply, accept_apply,
        pure_apply, RefTree.tokens, RefTree.ref, hRest]
  | some port =>
      rcases port with ⟨colon, portName, compass⟩
      cases compass with
      | none =>
          simp [nodeRef, bind_apply, expectName_apply, accept_apply,
            pure_apply, RefTree.tokens, RefTree.ref,
            PortTree.tokens, PortTree.text, hRest]
      | some compass =>
          simp [nodeRef, bind_apply, map_apply, expectName_apply,
            accept_apply, RefTree.tokens, RefTree.ref,
            PortTree.tokens, PortTree.text]

theorem expectValue_facing
    (p : Parser)
    (value : Placed Value)
    (rest : List Located) :
    expectValue (p.facing (valueToken value :: rest)) =
      .ok value.value (p.facing rest) := by
  rcases value with ⟨value, location⟩
  cases value <;> simp [expectValue_apply, valueToken]

theorem listedAttribute_facing
    (p : Parser)
    (d : AttrTree)
    {rest : List Located}
    (hRest : ClosesAttribute (headToken rest)) :
    listedAttribute (p.facing (d.tokens ++ rest)) =
      .ok (some d.attr) (p.facing rest) := by
  rcases d with ⟨name, equal, value, semicolon, comma⟩
  cases semicolon <;> cases comma <;>
    simp [listedAttribute, bind_apply, map_apply, peek_apply,
      expectName_apply, expect_apply, expectValue_facing,
      accept_apply, AttrTree.tokens, AttrTree.attr,
      hRest.1, hRest.2]

/-
  A step that follows a derivation in front of certain tokens
  follows a row of derivations that start with such tokens.
-/
theorem many_facing
    {α δ : Type}
    {step : Step (Option α)}
    {tokens : δ → List Located}
    {value : δ → α}
    (IsNext : Token → Prop)
    (p : Parser)
    (derivations : List δ)
    {rest : List Located}
    {bound : Nat}
    (hStep :
      ∀ d more, IsNext (headToken more) →
        step (p.facing (tokens d ++ more)) =
          .ok (some (value d)) (p.facing more))
    (hNext : ∀ d more, IsNext (headToken (tokens d ++ more)))
    (hRest : IsNext (headToken rest))
    (hStop : step (p.facing rest) = .ok none (p.facing rest))
    (hBound : derivations.length < bound) :
    many step bound
        (p.facing (derivations.flatMap tokens ++ rest)) =
      .ok (derivations.map value) (p.facing rest) := by
  induction derivations generalizing bound with
  | nil => exact many_apply_none hStop hBound
  | cons first others ih =>
      cases bound with
      | zero => cases hBound
      | succ bound =>
          have hMore :
              IsNext (headToken (others.flatMap tokens ++ rest)) := by
            cases others with
            | nil => exact hRest
            | cons d others =>
                rw [List.flatMap_cons, List.append_assoc]
                exact hNext d _
          have hFirst := hStep first _ hMore
          have hOthers := ih (Nat.lt_of_succ_lt_succ hBound)
          rw [List.flatMap_cons, List.append_assoc]
          exact many_apply_some hFirst hOthers

theorem attributeList_facing
    (p : Parser)
    (d : ListTree)
    (rest : List Located) :
    attributeList (p.facing (d.tokens ++ rest)) =
      .ok d.attributes (p.facing rest) := by
  rcases d with ⟨opening, entries, closing⟩
  have hLength :=
    length_le_length_flatMap length_attrTree_pos entries
  have hMany :
      many listedAttribute
          ((entries.flatMap AttrTree.tokens).length +
            rest.length + 2)
          (p.facing (entries.flatMap AttrTree.tokens ++
            Symbol.closeBracket.located closing :: rest)) =
        .ok (entries.map AttrTree.attr)
          (p.facing
            (Symbol.closeBracket.located closing :: rest)) := by
    apply many_facing ClosesAttribute p entries
    · intro d more hMore
      exact listedAttribute_facing p d hMore
    · intro d more
      simp [AttrTree.tokens, ClosesAttribute]
    · simp [ClosesAttribute]
    · simp [listedAttribute, bind_apply, peek_apply, pure_apply]
    · omega
  have hBound :
      (entries.flatMap AttrTree.tokens ++
          Symbol.closeBracket.located closing :: rest).length + 1 =
        (entries.flatMap AttrTree.tokens).length +
          rest.length + 2 := by
    simp only [List.length_append, List.length_cons]
    omega
  simp only [attributeList, ListTree.tokens, bind_apply,
    expect_apply, get_apply, List.cons_append, List.append_assoc,
    List.nil_append, current_facing, headToken_cons,
    token_located, if_true, advance_facing, List.tail_cons,
    bound_facing, hBound, hMany, pure_apply]
  rfl

/- Another list follows at every opening bracket. -/
theorem anotherList_facing
    (p : Parser)
    (d : ListTree)
    (rest : List Located) :
    anotherList (p.facing (d.tokens ++ rest)) =
      .ok (some d.attributes) (p.facing rest) := by
  have hHead :
      headToken (d.tokens ++ rest) = .symbol .openBracket := rfl
  have hList := attributeList_facing p d rest
  simp [anotherList, bind_apply, map_apply, peek_apply, hHead,
    hList]

theorem attributeLists_facing
    (p : Parser)
    (first : ListTree)
    (others : List ListTree)
    {rest : List Located}
    (hRest : headToken rest ≠ .symbol .openBracket) :
    attributeLists
        (p.facing (first.tokens ++
          (others.flatMap ListTree.tokens ++ rest))) =
      .ok (first.attributes ++
        others.flatMap ListTree.attributes) (p.facing rest) := by
  have hLength :=
    length_le_length_flatMap length_listTree_pos others
  have hMany :
      many anotherList
          ((others.flatMap ListTree.tokens ++ rest).length + 1)
          (p.facing (others.flatMap ListTree.tokens ++ rest)) =
        .ok (others.map ListTree.attributes) (p.facing rest) := by
    apply many_facing (fun _ => True) p others
    · intro d more _
      exact anotherList_facing p d more
    · intro d more
      trivial
    · trivial
    · simp [anotherList, bind_apply, peek_apply, pure_apply, hRest]
    · simp only [List.length_append]
      omega
  have hFirst := attributeList_facing p first
    (others.flatMap ListTree.tokens ++ rest)
  simp only [attributeLists, bind_apply, hFirst, get_apply,
    bound_facing, hMany, pure_apply]
  rfl

/- The lists behind a mention or an edge may be missing. -/
theorem optionalLists_facing
    (p : Parser)
    (lists : List ListTree)
    {rest : List Located}
    (hRest : headToken rest ≠ .symbol .openBracket) :
    optionalLists
        (p.facing (lists.flatMap ListTree.tokens ++ rest)) =
      .ok (lists.flatMap ListTree.attributes) (p.facing rest) := by
  cases lists with
  | nil =>
      simp [optionalLists, bind_apply, peek_apply, pure_apply, hRest]
  | cons first others =>
      have hHead :
          headToken
              (first.tokens ++
                (others.flatMap ListTree.tokens ++ rest)) =
            .symbol .openBracket := rfl
      have hLists := attributeLists_facing p first others hRest
      simp [optionalLists, bind_apply, peek_apply, hHead, hLists]

theorem assignment_facing
    (p : Parser)
    (name : Placed String)
    (equal : Location)
    (value : Placed Value)
    (rest : List Located) :
    assignment ⟨name.value, none⟩
        (p.facing
          (Symbol.equal.located equal :: valueToken value :: rest)) =
      .ok (.assign ⟨name.value, value.value⟩) (p.facing rest) := by
  simp [assignment, bind_apply, map_apply, expect_apply,
    expectValue_facing]

------------------------------------------------------------
-- Statements
------------------------------------------------------------

theorem edgeStep_facing
    {block : Step (List Stmt)}
    {p : Parser}
    {head : Endpoint}
    {tokens rest : List Located}
    (arrow : Placed Arrow)
    (hHead :
      endpoint block (p.facing tokens) =
        .ok head (p.facing rest)) :
    edgeStep block (p.facing (arrowToken arrow :: tokens)) =
      .ok (some (.mk arrow.value arrow.location head))
        (p.facing rest) := by
  simp [edgeStep, bind_apply, map_apply, peek_apply, get_apply,
    take_apply, hHead, TokenStream.location]

/- No step follows at a token that is not an edge operator. -/
theorem edgeStep_facing_none
    {block : Step (List Stmt)}
    {p : Parser}
    {rest : List Located}
    (hRest : arrowOf? (headToken rest) = none) :
    edgeStep block (p.facing rest) = .ok none (p.facing rest) := by
  simp [edgeStep, bind_apply, peek_apply, pure_apply, hRest]

theorem edgeStmt_facing
    {block : Step (List Stmt)}
    {p : Parser}
    {tokens rest : List Located}
    {steps : List EdgeStep}
    (tail : Endpoint)
    (lists : List ListTree)
    (hSteps :
      many (edgeStep block)
          ((tokens ++
            (lists.flatMap ListTree.tokens ++ rest)).length + 1)
          (p.facing
            (tokens ++
              (lists.flatMap ListTree.tokens ++ rest))) =
        .ok steps
          (p.facing (lists.flatMap ListTree.tokens ++ rest)))
    (hRest : headToken rest ≠ .symbol .openBracket) :
    edgeStmt block tail
        (p.facing
          (tokens ++ (lists.flatMap ListTree.tokens ++ rest))) =
      .ok (.edge tail steps (lists.flatMap ListTree.attributes))
        (p.facing rest) := by
  have hLists := optionalLists_facing p lists hRest
  simp only [edgeStmt, bind_apply, get_apply, bound_facing, hSteps,
    hLists, pure_apply]

/- Defaults are the lists behind their keyword. -/
theorem defaultsStmt_facing
    (kind : Placed EntityKind)
    (block : Step (List Stmt))
    (p : Parser)
    (first : ListTree)
    (others : List ListTree)
    {rest : List Located}
    (hRest : headToken rest ≠ .symbol .openBracket) :
    stmt block
        (p.facing
          (kindToken kind ::
            (first.tokens ++
              (others.flatMap ListTree.tokens ++ rest)))) =
      .ok
        (.defaults kind.value
          (first.attributes ++
            others.flatMap ListTree.attributes))
        (p.facing rest) := by
  have hLists := attributeLists_facing p first others hRest
  rcases kind with ⟨kind, location⟩
  cases kind
  all_goals
    simp [stmt, defaultsStmt, bind_apply, map_apply, peek_apply,
      take_apply, kindToken, hLists]

/- A mention and the lists behind it. -/
theorem mentionStmt_facing
    (block : Step (List Stmt))
    (p : Parser)
    (ref : RefTree)
    (lists : List ListTree)
    {rest : List Located}
    (hRest : ClosesStmt (headToken rest)) :
    stmt block
        (p.facing
          (ref.tokens ++ (lists.flatMap ListTree.tokens ++ rest))) =
      .ok (.node ref.ref (lists.flatMap ListTree.attributes))
        (p.facing rest) := by
  have hHead :
      headToken
          (ref.tokens ++
            (lists.flatMap ListTree.tokens ++ rest)) =
        .identifier ref.name.value := rfl
  have hNext := closesRef_lists lists hRest
  have hRef := nodeRef_facing p ref hNext.notColon
  have hLists := optionalLists_facing p lists hRest.notBracket
  have hNamed := namedStmt_apply block hRef
  simp only [current_facing, hNext.notArrow, hNext.notEqual,
    map_apply, hLists] at hNamed
  simpa [stmt, bind_apply, peek_apply, hHead] using hNamed

/- An assignment is a name, an equals sign and a value. -/
theorem assignStmt_facing
    (block : Step (List Stmt))
    (p : Parser)
    (name : Placed String)
    (equal : Location)
    (value : Placed Value)
    (rest : List Located) :
    stmt block
        (p.facing
          (nameToken name :: Symbol.equal.located equal ::
            valueToken value :: rest)) =
      .ok (.assign ⟨name.value, value.value⟩) (p.facing rest) := by
  have hEqual :
      headToken
          (Symbol.equal.located equal :: valueToken value :: rest) ≠
        .symbol .colon := by
    simp
  have hRef := nodeRef_facing p ⟨name, none⟩ hEqual
  have hAssign := assignment_facing p name equal value rest
  have hNamed := namedStmt_apply block hRef
  rw [if_neg (by simp [arrowOf?]), if_pos (by simp)] at hNamed
  have hStmt := hNamed.trans hAssign
  simpa [stmt, bind_apply, peek_apply, RefTree.tokens] using hStmt

mutual

theorem endpoint_facing
    (d : EndTree)
    (p : Parser)
    (bound : Nat)
    (rest : List Located)
    (hBound : d.tokens.length ≤ bound + 1)
    (hRest : headToken rest ≠ .symbol .colon) :
    endpoint (block bound) (p.facing (d.tokens ++ rest)) =
      .ok d.endpoint (p.facing rest) := by
  cases d with
  | node ref =>
      have hHead :
          headToken (ref.tokens ++ rest) =
            .identifier ref.name.value := rfl
      have hRef := nodeRef_facing p ref hRest
      simp [endpoint, bind_apply, map_apply, peek_apply,
        EndTree.tokens, EndTree.endpoint, hHead, hRef]
  | subgraph tree =>
      have hTree := subgraph_facing tree p bound rest hBound
      rcases headToken_subgraphTree tree rest with hHead | hHead
      all_goals
        simp [endpoint, bind_apply, map_apply, peek_apply,
          EndTree.tokens, EndTree.endpoint, hHead, hTree]

theorem subgraph_facing
    (d : SubgraphTree)
    (p : Parser)
    (bound : Nat)
    (rest : List Located)
    (hBound : d.tokens.length ≤ bound + 1) :
    subgraph (block bound) (p.facing (d.tokens ++ rest)) =
      .ok (d.name, d.body) (p.facing rest) := by
  rcases d with ⟨keyword, opening, body⟩
  have hBody := block_facing body p bound rest
    (by
      simp only [SubgraphTree.tokens, List.length_append,
        List.length_cons] at hBound
      omega)
  rcases keyword with _ | ⟨location, _ | name⟩
  all_goals
    simp [subgraph, bind_apply, map_apply, accept_apply,
      acceptName_apply, expect_apply, SubgraphTree.tokens,
      SubgraphTree.name, SubgraphTree.body, keywordTokens,
      keywordName, hBody]

theorem steps_facing
    (d : StepsTree)
    (p : Parser)
    (bound count : Nat)
    (rest : List Located)
    (hBound : d.tokens.length ≤ bound + 1)
    (hCount : d.tokens.length < count)
    (hColon : headToken rest ≠ .symbol .colon)
    (hArrow : arrowOf? (headToken rest) = none) :
    many (edgeStep (block bound)) count
        (p.facing (d.tokens ++ rest)) =
      .ok d.steps (p.facing rest) := by
  cases d with
  | one arrow head =>
      simp only [StepsTree.tokens, List.length_cons] at hBound hCount
      cases count with
      | zero => cases hCount
      | succ count =>
          have hHead := endpoint_facing head p bound rest (by omega) hColon
          have hStep := edgeStep_facing arrow hHead
          have hStop :
              many (edgeStep (block bound)) count (p.facing rest) =
                .ok [] (p.facing rest) :=
            many_apply_none (edgeStep_facing_none hArrow) (by omega)
          exact many_apply_some hStep hStop
  | more arrow head others =>
      simp only [StepsTree.tokens, List.length_cons,
        List.length_append] at hBound hCount
      cases count with
      | zero => cases hCount
      | succ count =>
          have hNext :
              headToken (others.tokens ++ rest) ≠
                .symbol .colon := by
            rcases headToken_stepsTree others rest with hHead | hHead
            · simp [hHead]
            · simp [hHead]
          have hHead := endpoint_facing head p bound
            (others.tokens ++ rest) (by omega) hNext
          have hOthers := steps_facing others p bound count rest
            (by omega) (by omega) hColon hArrow
          rw [StepsTree.tokens, List.cons_append, List.append_assoc]
          exact many_apply_some (edgeStep_facing arrow hHead) hOthers

theorem stmt_facing
    (d : StmtTree)
    (p : Parser)
    (bound : Nat)
    (rest : List Located)
    (hBound : d.tokens.length ≤ bound + 1)
    (hRest : ClosesStmt (headToken rest)) :
    stmt (block bound) (p.facing (d.tokens ++ rest)) =
      .ok d.stmt (p.facing rest) := by
  cases d with
  | node ref lists =>
      rw [StmtTree.tokens, List.append_assoc]
      exact mentionStmt_facing (block bound) p ref lists hRest
  | edge tail steps lists =>
      simp only [StmtTree.tokens, List.length_append] at hBound
      have hAfter :
          ClosesRef
            (headToken
              (lists.flatMap ListTree.tokens ++ rest)) :=
        closesRef_lists lists hRest
      have hSteps := steps_facing steps p bound
        ((steps.tokens ++
          (lists.flatMap ListTree.tokens ++ rest)).length + 1)
        (lists.flatMap ListTree.tokens ++ rest)
        (by omega)
        (by
          simp only [List.length_append]
          omega)
        hAfter.notColon hAfter.notArrow
      have hEdge :=
        edgeStmt_facing tail.endpoint lists hSteps hRest.notBracket
      have hFirst := headToken_stepsTree steps
        (lists.flatMap ListTree.tokens ++ rest)
      have hTail := endpoint_facing tail p bound
        (steps.tokens ++
          (lists.flatMap ListTree.tokens ++ rest))
        (by omega)
        (by rcases hFirst with hFirst | hFirst <;> simp [hFirst])
      have hStmt := stmt_apply_of_endpoint (block bound) hTail
        (by
          rcases hFirst with hFirst | hFirst <;>
            simp [hFirst, arrowOf?])
      rw [StmtTree.tokens, List.append_assoc, List.append_assoc,
        hStmt]
      exact hEdge
  | defaults kind first others =>
      have hStmt := defaultsStmt_facing kind (block bound) p first
        others hRest.notBracket
      simpa [StmtTree.tokens, StmtTree.stmt] using hStmt
  | assign name equal value =>
      exact assignStmt_facing (block bound) p name equal value rest
  | subgraph tree =>
      have hTree := subgraph_facing tree p bound rest hBound
      have hStmt := subgraphStmt_apply (block bound) hTree
      simp only [current_facing, hRest.notArrow] at hStmt
      rcases headToken_subgraphTree tree rest with hHead | hHead
      all_goals
        simpa [stmt, bind_apply, peek_apply, hHead,
          StmtTree.tokens, StmtTree.stmt] using hStmt

theorem block_facing
    (d : BodyTree)
    (p : Parser)
    (bound : Nat)
    (rest : List Located)
    (hBound : d.tokens.length ≤ bound) :
    block bound (p.facing (d.tokens ++ rest)) =
      .ok d.stmts (p.facing rest) := by
  cases bound with
  | zero =>
      have hPos := length_bodyTree_pos d
      omega
  | succ bound =>
      rw [block_apply]
      cases d with
      | close closing => simp [BodyTree.tokens, BodyTree.stmts]
      | semicolon location others =>
          simp only [BodyTree.tokens, List.length_cons] at hBound
          have hOthers := block_facing others p bound rest (by omega)
          simp [BodyTree.tokens, BodyTree.stmts, hOthers]
      | stmt first others =>
          simp only [BodyTree.tokens, List.length_append] at hBound
          have hPos := length_stmtTree_pos first
          have hFirst := stmt_facing first p bound
            (others.tokens ++ rest) (by omega)
            (closesStmt_bodyTree others rest)
          have hOthers := block_facing others p bound rest (by omega)
          have hStarts :=
            startsStmt_stmtTree first (others.tokens ++ rest)
          rw [BodyTree.tokens, List.append_assoc, current_facing,
            if_neg hStarts.notSemicolon, if_neg hStarts.notBrace,
            if_neg hStarts.notEnd]
          simp [bind_apply, map_apply, stmtOrRecover, hFirst,
            hOthers, BodyTree.stmts]

end

------------------------------------------------------------
-- Graphs
------------------------------------------------------------

theorem graphKind_facing
    (p : Parser)
    (directed : Placed Bool)
    (rest : List Located) :
    graphKind (p.facing (directedToken directed :: rest)) =
      .ok directed.value (p.facing rest) := by
  rcases directed with ⟨directed, location⟩
  cases directed
  all_goals
    simp [graphKind, bind_apply, map_apply, peek_apply,
      take_apply, directedToken]

/- Behind a header there is a block. -/
theorem header_facing
    (p : Parser)
    (d : HeaderTree)
    (rest : List Located) :
    graph (p.facing (d.tokens ++ rest)) =
      (d.decl <$> wholeBlock) (p.facing rest) := by
  rcases d with ⟨strict, directed, name, opening⟩
  have hKind := graphKind_facing p directed
  have hNotStrict := token_directedToken_ne_strict directed
  cases strict <;> cases name <;>
    simp [graph, bind_apply, map_apply, accept_apply,
      acceptName_apply, expect_apply, HeaderTree.tokens,
      HeaderTree.decl, hKind, hNotStrict]

theorem wholeBlock_facing
    (p : Parser)
    (tokens : List Located) :
    wholeBlock (p.facing tokens) =
      block (tokens.length + 1) (p.facing tokens) := by
  simp only [wholeBlock, bind_apply, get_apply, bound_facing]

theorem graph_facing
    (p : Parser)
    (d : GraphTree)
    (rest : List Located) :
    graph (p.facing (d.tokens ++ rest)) =
      .ok d.decl (p.facing rest) := by
  have hBody :=
    block_facing d.body p ((d.body.tokens ++ rest).length + 1) rest
      (by
        rw [List.length_append]
        omega)
  rw [GraphTree.tokens, List.append_assoc, header_facing, map_apply,
    wholeBlock_facing, hBody]
  rfl

/- Another graph follows unless the file ends. -/
theorem anotherGraph_facing
    (p : Parser)
    (d : GraphTree)
    (rest : List Located) :
    anotherGraph (p.facing (d.tokens ++ rest)) =
      .ok (some d.decl) (p.facing rest) := by
  have hHead := headToken_graphTree d rest
  have hGraph := graph_facing p d rest
  simp [anotherGraph, bind_apply, map_apply, peek_apply, hHead,
    hGraph]

/- The first token is dropped, and the others are a file. -/
theorem file_facing
    (p : Parser)
    (first : Located)
    (d : FileTree) :
    file (p.facing (first :: d.tokens)) =
      .ok d.decls (p.facing []) := by
  have hFirst := length_graphTree_pos d.first
  have hOthers :=
    length_le_length_flatMap length_graphTree_pos d.others
  have hLength :
      d.tokens.length =
        d.first.tokens.length +
          (d.others.flatMap GraphTree.tokens).length := by
    rw [FileTree.tokens, List.length_append]
  have hMany :
      many anotherGraph (d.tokens.length + 1)
          (p.facing
            ((d.first :: d.others).flatMap GraphTree.tokens ++
              [])) =
        .ok ((d.first :: d.others).map GraphTree.decl)
          (p.facing []) := by
    apply many_facing (fun _ => True) p
    · intro d more _
      exact anotherGraph_facing p d more
    · intro d more
      trivial
    · trivial
    · rfl
    · rw [List.length_cons]
      omega
  rw [List.append_nil, List.flatMap_cons] at hMany
  simp only [file, bind_apply, take_apply, get_apply,
    advance_facing, List.tail_cons, bound_facing]
  rw [FileTree.tokens] at hMany ⊢
  rw [hMany]
  rfl

end Parser

end DotLang
