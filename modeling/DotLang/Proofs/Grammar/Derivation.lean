import DotLang.Stmt.Basic
import DotLang.Token.Stream

/-
  This file defines the grammar of the graph language by its
  derivations.

  There is one type of derivations for each nonterminal, and one
  constructor for each of its productions; terminals are kept
  with their places.  A derivation derives its `tokens`, and it
  stands for a part of the syntax tree.  A block is derived
  together with the brace that closes it:

    file     = graph+
    graph    = [strict] (graph | digraph) [ID] '{' body
    body     = '}' | ';' body | stmt body
    stmt     = ref list*
             | end (arrow end)+ list*
             | (graph | node | edge) list+
             | ID '=' (ID | HTML)
             | subgraph
    end      = ref | subgraph
    ref      = ID [':' ID [':' ID]]
    subgraph = [subgraph [ID]] '{' body
    list     = '[' (ID '=' (ID | HTML) [';'] [','])* ']'

  Key definitions include:
    * `RefTree`
    * `ListTree`
    * `StmtTree`
    * `BodyTree`
    * `HeaderTree`
    * `GraphTree`
    * `FileTree`
-/

------------------------------------------------------------
-- Terminals
------------------------------------------------------------

namespace DotLang

/- A terminal of a derivation: what it says, and where. -/
structure Placed (α : Type) where
  value : α
  location : Location
deriving DecidableEq, Repr

/- The token of a symbol. -/
def Symbol.located (mark : Symbol) (l : Location) : Located :=
  ⟨.symbol mark, l⟩

/- The token of a keyword. -/
def Keyword.located (word : Keyword) (l : Location) : Located :=
  ⟨.keyword word, l⟩

/- The token of a name. -/
def nameToken (name : Placed String) : Located :=
  ⟨.identifier name.value, name.location⟩

/- The token of a value. -/
def valueToken (value : Placed Value) : Located :=
  match value.value with
  | .plain text => ⟨.identifier text, value.location⟩
  | .html text => ⟨.html text, value.location⟩

/- The token of an edge operator. -/
def arrowToken (arrow : Placed Arrow) : Located :=
  match arrow.value with
  | .directed => ⟨.symbol .arrow, arrow.location⟩
  | .undirected => ⟨.symbol .line, arrow.location⟩

/- The token of the keyword of a defaults statement. -/
def kindToken (kind : Placed EntityKind) : Located :=
  match kind.value with
  | .graph => ⟨.keyword .graph, kind.location⟩
  | .node => ⟨.keyword .node, kind.location⟩
  | .edge => ⟨.keyword .edge, kind.location⟩

/- The token of the keyword of a graph that may be directed. -/
def directedToken (directed : Placed Bool) : Located :=
  match directed.value with
  | true => ⟨.keyword .digraph, directed.location⟩
  | false => ⟨.keyword .graph, directed.location⟩

------------------------------------------------------------
-- Mentions and Attributes
------------------------------------------------------------

/- A colon and a name, and maybe a compass point likewise. -/
structure PortTree where
  colon : Location
  name : Placed String
  compass : Option (Location × Placed String)

namespace PortTree

def tokens (d : PortTree) : List Located :=
  Symbol.located .colon d.colon :: nameToken d.name ::
    match d.compass with
    | none => []
    | some (colon, compass) =>
        [Symbol.located .colon colon, nameToken compass]

/- A port with a compass point is one text. -/
def text (d : PortTree) : String :=
  match d.compass with
  | none => d.name.value
  | some (_, compass) => d.name.value ++ ":" ++ compass.value

end PortTree

/- A name that may have a port. -/
structure RefTree where
  name : Placed String
  port : Option PortTree

namespace RefTree

def tokens (d : RefTree) : List Located :=
  nameToken d.name ::
    match d.port with
    | none => []
    | some port => port.tokens

def ref (d : RefTree) : NodeRef where
  name := d.name.value
  port := d.port.map PortTree.text

end RefTree

/- An attribute with the separators behind it. -/
structure AttrTree where
  name : Placed String
  equal : Location
  value : Placed Value
  semicolon : Option Location
  comma : Option Location

namespace AttrTree

def tokens (d : AttrTree) : List Located :=
  nameToken d.name :: Symbol.located .equal d.equal ::
    valueToken d.value ::
      ((d.semicolon.map (Symbol.located .semicolon)).toList ++
        (d.comma.map (Symbol.located .comma)).toList)

def attr (d : AttrTree) : Attribute where
  name := d.name.value
  value := d.value.value

end AttrTree

/- Attributes in brackets. -/
structure ListTree where
  opening : Location
  entries : List AttrTree
  closing : Location

namespace ListTree

def tokens (d : ListTree) : List Located :=
  Symbol.located .openBracket d.opening ::
    (d.entries.flatMap AttrTree.tokens ++
      [Symbol.located .closeBracket d.closing])

def attributes (d : ListTree) : List Attribute :=
  d.entries.map AttrTree.attr

end ListTree

------------------------------------------------------------
-- Statements
------------------------------------------------------------

mutual

inductive EndTree where
| node (ref : RefTree)
| subgraph (tree : SubgraphTree)

/- A subgraph with or without its keyword and its name. -/
inductive SubgraphTree where
| mk
    (keyword : Option (Location × Option (Placed String)))
    (opening : Location)
    (body : BodyTree)

/- The steps of an edge statement, one at least. -/
inductive StepsTree where
| one (arrow : Placed Arrow) (head : EndTree)
| more
    (arrow : Placed Arrow)
    (head : EndTree)
    (rest : StepsTree)

inductive StmtTree where
| node (ref : RefTree) (lists : List ListTree)
| edge
    (tail : EndTree)
    (steps : StepsTree)
    (lists : List ListTree)
| defaults
    (kind : Placed EntityKind)
    (first : ListTree)
    (others : List ListTree)
| assign
    (name : Placed String)
    (equal : Location)
    (value : Placed Value)
| subgraph (tree : SubgraphTree)

inductive BodyTree where
| close (closing : Location)
| semicolon (location : Location) (rest : BodyTree)
| stmt (first : StmtTree) (rest : BodyTree)

end

/- The tokens in front of the brace that opens a subgraph. -/
def keywordTokens :
    Option (Location × Option (Placed String)) → List Located
| none => []
| some (location, name) =>
    Keyword.located .subgraph location ::
      (name.map nameToken).toList

/- The name of a subgraph, which is empty if it has none. -/
def keywordName :
    Option (Location × Option (Placed String)) → String
| some (_, some name) => name.value
| _ => ""

mutual

def EndTree.tokens : EndTree → List Located
| .node ref => ref.tokens
| .subgraph tree => tree.tokens

def SubgraphTree.tokens : SubgraphTree → List Located
| .mk keyword opening body =>
    keywordTokens keyword ++
      Symbol.located .openBrace opening :: body.tokens

def StepsTree.tokens : StepsTree → List Located
| .one arrow head => arrowToken arrow :: head.tokens
| .more arrow head rest =>
    arrowToken arrow :: (head.tokens ++ rest.tokens)

def StmtTree.tokens : StmtTree → List Located
| .node ref lists => ref.tokens ++ lists.flatMap ListTree.tokens
| .edge tail steps lists =>
    tail.tokens ++
      (steps.tokens ++ lists.flatMap ListTree.tokens)
| .defaults kind first others =>
    kindToken kind ::
      (first.tokens ++ others.flatMap ListTree.tokens)
| .assign name equal value =>
    [nameToken name, Symbol.located .equal equal, valueToken value]
| .subgraph tree => tree.tokens

def BodyTree.tokens : BodyTree → List Located
| .close closing => [Symbol.located .closeBrace closing]
| .semicolon location rest =>
    Symbol.located .semicolon location :: rest.tokens
| .stmt first rest => first.tokens ++ rest.tokens

end

mutual

/- The end of an edge that a derivation stands for. -/
def EndTree.endpoint : EndTree → Endpoint
| .node ref => .node ref.ref
| .subgraph tree => .subgraph tree.name tree.body

def SubgraphTree.name : SubgraphTree → String
| .mk keyword _ _ => keywordName keyword

def SubgraphTree.body : SubgraphTree → List Stmt
| .mk _ _ body => body.stmts

def StepsTree.steps : StepsTree → List EdgeStep
| .one arrow head =>
    [.mk arrow.value arrow.location head.endpoint]
| .more arrow head rest =>
    .mk arrow.value arrow.location head.endpoint :: rest.steps

/- The statement that a derivation stands for. -/
def StmtTree.stmt : StmtTree → Stmt
| .node ref lists => .node ref.ref (lists.flatMap ListTree.attributes)
| .edge tail steps lists =>
    .edge tail.endpoint steps.steps
      (lists.flatMap ListTree.attributes)
| .defaults kind first others =>
    .defaults kind.value
      (first.attributes ++ others.flatMap ListTree.attributes)
| .assign name _ value => .assign ⟨name.value, value.value⟩
| .subgraph tree => .subgraph tree.name tree.body

def BodyTree.stmts : BodyTree → List Stmt
| .close _ => []
| .semicolon _ rest => rest.stmts
| .stmt first rest => first.stmt :: rest.stmts

end

------------------------------------------------------------
-- Graphs
------------------------------------------------------------

/- What a graph starts with, up to its opening brace. -/
structure HeaderTree where
  strict : Option Location
  directed : Placed Bool
  name : Option (Placed String)
  opening : Location

namespace HeaderTree

def tokens (d : HeaderTree) : List Located :=
  (d.strict.map (Keyword.located .strict)).toList ++
    directedToken d.directed ::
      ((d.name.map nameToken).toList ++
        [Symbol.located .openBrace d.opening])

/- The top level graph with this header. -/
def decl (d : HeaderTree) (body : List Stmt) : GraphDecl where
  name := (d.name.map Placed.value).getD ""
  strict := d.strict.isSome
  directed := d.directed.value
  body := body

end HeaderTree

structure GraphTree where
  header : HeaderTree
  body : BodyTree

namespace GraphTree

def tokens (d : GraphTree) : List Located :=
  d.header.tokens ++ d.body.tokens

def decl (d : GraphTree) : GraphDecl :=
  d.header.decl d.body.stmts

end GraphTree

/- The derivations of a whole file hold one graph at least. -/
structure FileTree where
  first : GraphTree
  others : List GraphTree

namespace FileTree

def tokens (d : FileTree) : List Located :=
  d.first.tokens ++ d.others.flatMap GraphTree.tokens

def decls (d : FileTree) : List GraphDecl :=
  d.first.decl :: d.others.map GraphTree.decl

end FileTree

------------------------------------------------------------
-- Lengths
------------------------------------------------------------

/- There are no more derivations in a row than tokens. -/
theorem length_le_length_flatMap
    {δ : Type}
    {tokens : δ → List Located}
    (hTokens : ∀ d, 0 < (tokens d).length)
    (derivations : List δ) :
    derivations.length ≤ (derivations.flatMap tokens).length := by
  induction derivations with
  | nil => simp
  | cons d derivations ih =>
      have hPos := hTokens d
      simp only [List.length_cons, List.flatMap_cons,
        List.length_append]
      omega

theorem length_attrTree_pos
    (d : AttrTree) :
    0 < d.tokens.length := by
  simp [AttrTree.tokens]

theorem length_listTree_pos
    (d : ListTree) :
    0 < d.tokens.length := by
  simp [ListTree.tokens]

theorem length_headerTree_pos
    (d : HeaderTree) :
    0 < d.tokens.length := by
  rw [HeaderTree.tokens, List.length_append, List.length_cons]
  omega

theorem length_graphTree_pos
    (d : GraphTree) :
    0 < d.tokens.length := by
  have hHeader := length_headerTree_pos d.header
  rw [GraphTree.tokens, List.length_append]
  omega

end DotLang
