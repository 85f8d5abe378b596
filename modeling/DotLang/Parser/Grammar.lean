import DotLang.Parser.Basic
import DotLang.Stmt.Basic

/-
  This file defines the grammar of the graph language, one step
  for each of its rules.

  Rules that hold a block of statements take the step for the
  block as an argument, so that only `block` recurs: each block
  inside another one has fewer tokens left.

  Key definitions include:
    * `Parser.nodeRef`
    * `Parser.attributeList`
    * `Parser.attributeLists`
    * `Parser.endpoint`
    * `Parser.edgeSteps`
    * `Parser.stmt`
    * `Parser.block`
    * `Parser.graph`
    * `Parser.file`
-/

------------------------------------------------------------
-- Mentions and Attributes
------------------------------------------------------------

namespace DotLang

namespace Parser

/- A name with an optional port and compass point. -/
def nodeRef : Step NodeRef := do
  let name ← expectName .nodeName
  if ← accept (.symbol .colon) then
    let port ← expectName .portName
    if ← accept (.symbol .colon) then
      let compass ← expectName .compassPoint
      return ⟨name, some (port ++ ":" ++ compass)⟩
    else
      return ⟨name, some port⟩
  else
    return ⟨name, none⟩

/-
  One attribute of a list with the separators behind it, or
  nothing at the bracket that closes the list.
-/
def listedAttribute : Step (Option Attribute) := do
  if (← peek) = .symbol .closeBracket then
    return none
  else
    let name ← expectName .propertyName
    expect .equal
    let value ← expectValue
    let _ ← accept (.symbol .semicolon)
    let _ ← accept (.symbol .comma)
    return some ⟨name, value⟩

/- A list of attributes in brackets. -/
def attributeList : Step (List Attribute) := do
  expect .openBracket
  let attributes ← many listedAttribute (← get).bound
  expect .closeBracket
  return attributes

/- One more list of attributes, if one follows. -/
def anotherList : Step (Option (List Attribute)) := do
  if (← peek) = .symbol .openBracket then
    return some (← attributeList)
  else
    return none

/- One or more lists of attributes. -/
def attributeLists : Step (List Attribute) := do
  let first ← attributeList
  let others ← many anotherList (← get).bound
  return first ++ others.flatten

/- Any number of lists of attributes. -/
def optionalLists : Step (List Attribute) := do
  if (← peek) = .symbol .openBracket then
    attributeLists
  else
    return []

/- The diagnostic of a port in front of an equals sign. -/
def portAssigned (p : Parser) : Diagnostic where
  kind := .grammatical
  message := "Can't assign into a port"
  location := p.stream.location

/- The equals sign and the value behind a name. -/
def assignment (ref : NodeRef) : Step Stmt := do
  if ref.port.isSome then
    throw (← get).portAssigned
  else
    expect .equal
    let value ← expectValue
    return .assign ⟨ref.name, value⟩

------------------------------------------------------------
-- Edges
------------------------------------------------------------

/- A subgraph: its name, empty if it has none, and its body. -/
def subgraph
    (block : Step (List Stmt)) :
    Step (String × List Stmt) := do
  if ← accept (.keyword .subgraph) then
    let name ← acceptName
    expect .openBrace
    return (name.getD "", ← block)
  else
    expect .openBrace
    return ("", ← block)

/- One end of an edge. -/
def endpoint
    (block : Step (List Stmt)) : Step Endpoint := do
  match ← peek with
  | .identifier _ => return .node (← nodeRef)
  | .keyword .subgraph | .symbol .openBrace =>
      let (name, body) ← subgraph block
      return .subgraph name body
  | _ => unexpected .nodeOrSubgraph

/- The edge operator that a token stands for. -/
def arrowOf? : Token → Option Arrow
| .symbol .arrow => some .directed
| .symbol .line => some .undirected
| _ => none

/- An edge operator and the end behind it, if one follows. -/
def edgeStep
    (block : Step (List Stmt)) : Step (Option EdgeStep) := do
  match arrowOf? (← peek) with
  | none => return none
  | some arrow =>
      let location := (← get).stream.location
      let _ ← take
      let head ← endpoint block
      return some (.mk arrow location head)

/- The steps and the attributes behind the first end. -/
def edgeStmt
    (block : Step (List Stmt))
    (tail : Endpoint) : Step Stmt := do
  let steps ← many (edgeStep block) (← get).bound
  let attributes ← optionalLists
  return .edge tail steps attributes

------------------------------------------------------------
-- Statements
------------------------------------------------------------

/- A statement that starts with a name. -/
def namedStmt
    (block : Step (List Stmt)) : Step Stmt := do
  let ref ← nodeRef
  match ← peek with
  | .symbol .arrow | .symbol .line =>
      edgeStmt block (.node ref)
  | .symbol .equal => assignment ref
  | _ => return .node ref (← optionalLists)

/- A statement that starts with a subgraph. -/
def subgraphStmt
    (block : Step (List Stmt)) : Step Stmt := do
  let (name, body) ← subgraph block
  match arrowOf? (← peek) with
  | some _ => edgeStmt block (.subgraph name body)
  | none => return .subgraph name body

/- The default attributes behind a keyword. -/
def defaultsStmt (kind : EntityKind) : Step Stmt := do
  let _ ← take
  return .defaults kind (← attributeLists)

/- Any statement. -/
def stmt (block : Step (List Stmt)) : Step Stmt := do
  match ← peek with
  | .identifier _ => namedStmt block
  | .keyword .subgraph | .symbol .openBrace => subgraphStmt block
  | .keyword .graph => defaultsStmt .graph
  | .keyword .node => defaultsStmt .node
  | .keyword .edge => defaultsStmt .edge
  | _ => unexpected .statement

/-
  A statement, or nothing if it is broken and the parser could
  move behind it.
-/
def stmtOrRecover
    (block : Step (List Stmt)) : Step (Option Stmt) :=
  fun p =>
    match stmt block p with
    | .ok parsed p => .ok (some parsed) p
    | .error d p =>
        if d.isFatal then
          .error d p
        else
          (recover d *> pure none) p

/-
  Statements up to and including the closing brace.  `bound` is
  more than the number of tokens that are left.
-/
def block : Nat → Step (List Stmt)
| 0 => unexpected (.symbol .closeBrace)
| bound + 1 => do
    match ← peek with
    | .symbol .semicolon =>
        let _ ← take
        block bound
    | .symbol .closeBrace =>
        let _ ← take
        return []
    | .endOfFile => unexpected (.symbol .closeBrace)
    | _ =>
        let parsed ← stmtOrRecover (block bound)
        let rest ← block bound
        return parsed.toList ++ rest

/- A block with a bound that suffices for the tokens left. -/
def wholeBlock : Step (List Stmt) := do
  block (← get).bound

------------------------------------------------------------
-- Graphs
------------------------------------------------------------

/- The keyword that tells whether a graph is directed. -/
def graphKind : Step Bool := do
  match ← peek with
  | .keyword .graph =>
      let _ ← take
      return false
  | .keyword .digraph =>
      let _ ← take
      return true
  | _ => unexpected .header

/- A top level graph. -/
def graph : Step GraphDecl := do
  let strict ← accept (.keyword .strict)
  let directed ← graphKind
  let name ← acceptName
  expect .openBrace
  let body ← wholeBlock
  return { name := name.getD "", strict, directed, body }

/- One more graph, unless the file ends here. -/
def anotherGraph : Step (Option GraphDecl) := do
  if (← peek) = .endOfFile then
    return none
  else
    return some (← graph)

/-
  All graphs of a file, of which there has to be one.  The
  token in front of the file is dropped first.
-/
def file : Step (List GraphDecl) := do
  let _ ← take
  let graphs ← many anotherGraph (← get).bound
  if graphs.isEmpty then
    unexpected .header
  else
    return graphs

end Parser

end DotLang
