import DotLang.Parser.Grammar
import DotLang.Proofs.Reader.Basic

/-
  This file restates the grammar of the graph language for the
  reader.  Each loop stands with the body of one turn of it,
  which gives nothing where the loop ends.

  Blocks and the steps of an edge recur through each other.  The
  rules between them take both as arguments, and are reducible
  so that the recursion is seen through them.

  Key definitions include:
    * `Reader.listedAttribute`
    * `Reader.anotherList`
    * `Reader.edgeStep`
    * `Reader.blockTurn`
    * `Reader.block`
    * `Reader.anotherGraph`
    * `Reader.file`
-/

------------------------------------------------------------
-- Mentions and Attributes
------------------------------------------------------------

namespace DotLang

namespace Reader

/- A name with an optional port and compass point. -/
def nodeRef : Step NodeRef := do
  let name ← expectName .nodeName
  if ← accept (.symbol .colon) then
    let port ← expectName .portName
    if ← accept (.symbol .colon) then
      let compass ← expectName .compassPoint
      return ⟨name, some (port ++ ":" ++ compass)⟩
    else
      return ⟨name, some port⟩
  else
    return ⟨name, none⟩

/- One attribute of a list, or nothing at its closing bracket. -/
def listedAttribute : Step (Option Attribute) := do
  if (← peek) = .symbol .closeBracket then
    return none
  else
    let name ← expectName .propertyName
    expect .equal
    let value ← expectValue
    let _ ← accept (.symbol .semicolon)
    let _ ← accept (.symbol .comma)
    return some ⟨name, value⟩

/- A list of attributes in brackets. -/
def attributeList : Step (List Attribute) := do
  expect .openBracket
  let attributes ← listedAttribute.many
  expect .closeBracket
  return attributes

/- One more list of attributes, if one follows. -/
def anotherList : Step (Option (List Attribute)) := do
  if (← peek) = .symbol .openBracket then
    return some (← attributeList)
  else
    return none

/- One or more lists of attributes. -/
def attributeLists : Step (List Attribute) := do
  let first ← attributeList
  let others ← anotherList.many
  return first ++ others.flatten

/- Any number of lists of attributes. -/
def optionalLists : Step (List Attribute) := do
  if (← peek) = .symbol .openBracket then
    attributeLists
  else
    return []

/- The diagnostic of a port in front of an equals sign. -/
def portAssigned (r : Reader) : Diagnostic where
  kind := .grammatical
  message := "Can't assign into a port"
  location := r.current.location

/- The equals sign and the value behind a name. -/
def assignment (ref : NodeRef) : Step Stmt := do
  if ref.port.isSome then
    throw (← get).portAssigned
  else
    expect .equal
    let value ← expectValue
    return .assign ⟨ref.name, value⟩

/- The default attributes behind a keyword. -/
def defaultsStmt (kind : EntityKind) : Step Stmt := do
  take
  return .defaults kind (← attributeLists)

------------------------------------------------------------
-- Rules that Hold Blocks
------------------------------------------------------------

/- A subgraph: its name, empty if it has none, and its body. -/
abbrev subgraph
    (block : Step (List Stmt)) :
    Step (String × List Stmt) := do
  if ← accept (.keyword .subgraph) then
    let name ← acceptName
    expect .openBrace
    return (name.getD "", ← block)
  else
    expect .openBrace
    return ("", ← block)

/- One end of an edge. -/
abbrev endpoint
    (block : Step (List Stmt)) : Step Endpoint := do
  match ← peek with
  | .identifier _ => return .node (← nodeRef)
  | .keyword .subgraph | .symbol .openBrace =>
      let (name, body) ← subgraph block
      return .subgraph name body
  | _ => unexpected .nodeOrSubgraph

/- An edge operator and the end behind it, if one follows. -/
abbrev edgeStep
    (block : Step (List Stmt)) : Step (Option EdgeStep) := do
  match Parser.arrowOf? (← peek) with
  | none => return none
  | some arrow =>
      let location := (← get).current.location
      take
      let head ← endpoint block
      return some (.mk arrow location head)

/- The steps and the attributes behind the first end. -/
abbrev edgeStmt
    (edgeSteps : Step (List EdgeStep))
    (tail : Endpoint) : Step Stmt := do
  let steps ← edgeSteps
  let attributes ← optionalLists
  return .edge tail steps attributes

/- A statement that starts with a name. -/
abbrev namedStmt
    (edgeSteps : Step (List EdgeStep)) : Step Stmt := do
  let ref ← nodeRef
  match ← peek with
  | .symbol .arrow | .symbol .line =>
      edgeStmt edgeSteps (.node ref)
  | .symbol .equal => assignment ref
  | _ => return .node ref (← optionalLists)

/- A statement that starts with a subgraph. -/
abbrev subgraphStmt
    (block : Step (List Stmt))
    (edgeSteps : Step (List EdgeStep)) : Step Stmt := do
  let (name, body) ← subgraph block
  match Parser.arrowOf? (← peek) with
  | some _ => edgeStmt edgeSteps (.subgraph name body)
  | none => return .subgraph name body

/- Any statement. -/
abbrev stmt
    (block : Step (List Stmt))
    (edgeSteps : Step (List EdgeStep)) : Step Stmt := do
  match ← peek with
  | .identifier _ => namedStmt edgeSteps
  | .keyword .subgraph | .symbol .openBrace =>
      subgraphStmt block edgeSteps
  | .keyword .graph => defaultsStmt .graph
  | .keyword .node => defaultsStmt .node
  | .keyword .edge => defaultsStmt .edge
  | _ => unexpected .statement

/- Nothing in place of a broken statement, if it can be left. -/
def brokenStmt (d : Diagnostic) : Step (Option Stmt) := do
  if d.isFatal then
    throw d
  else
    recover d
    return none

/-
  A statement, or nothing if it is broken and the reader could
  move behind it.  A statement that fails leaves the reader
  where it failed.
-/
abbrev stmtOrRecover
    (block : Step (List Stmt))
    (edgeSteps : Step (List EdgeStep)) : Step (Option Stmt) :=
  ((do
    match ← (stmt block edgeSteps).run with
    | .ok parsed => return .ok (some parsed)
    | .error d => (brokenStmt d).run) :
      StateT Reader Option (Except Diagnostic (Option Stmt)))

------------------------------------------------------------
-- Blocks
------------------------------------------------------------

/- A semicolon in front of a statement, if there is one. -/
def anotherSemicolon : Step (Option Unit) := do
  if ← accept (.symbol .semicolon) then
    return some ()
  else
    return none

/-
  One more statement, if it is not broken, or nothing behind the
  closing brace.
-/
abbrev anotherStmt
    (block : Step (List Stmt))
    (edgeSteps : Step (List EdgeStep)) :
    Step (Option (Option Stmt)) := do
  match ← peek with
  | .symbol .closeBrace =>
      take
      return none
  | .endOfFile => unexpected (.symbol .closeBrace)
  | _ => return some (← stmtOrRecover block edgeSteps)

/- Semicolons and the statement behind them, if there is one. -/
abbrev blockTurn
    (block : Step (List Stmt))
    (edgeSteps : Step (List EdgeStep)) :
    Step (Option (Option Stmt)) := do
  let _ ← anotherSemicolon.many
  anotherStmt block edgeSteps

/- The rules of the grammar that recur through each other. -/
inductive Rule where
| edgeSteps
| block

namespace Rule

/- What a rule repeats. -/
abbrev Item : Rule → Type
| edgeSteps => EdgeStep
| block => Stmt

/- All that a rule repeats. -/
def items : (rule : Rule) → Step (List rule.Item)
| edgeSteps => do
    match ← edgeStep (block |>.items) with
    | none => return []
    | some first =>
        let rest ← edgeSteps |>.items
        return first :: rest
| block => do
    match ← blockTurn (block |>.items) (edgeSteps |>.items) with
    | none => return []
    | some parsed =>
        let rest ← block |>.items
        return parsed.toList ++ rest
partial_fixpoint

end Rule

/- All edge operators that follow, with the ends behind them. -/
def edgeSteps : Step (List EdgeStep) :=
  Rule.edgeSteps.items

/- Statements up to and including the closing brace. -/
def block : Step (List Stmt) :=
  Rule.block.items

------------------------------------------------------------
-- Graphs
------------------------------------------------------------

/- The keyword that tells whether a graph is directed. -/
def graphKind : Step Bool := do
  match ← peek with
  | .keyword .graph =>
      take
      return false
  | .keyword .digraph =>
      take
      return true
  | _ => unexpected .header

/- A top level graph. -/
def graph : Step GraphDecl := do
  let strict ← accept (.keyword .strict)
  let directed ← graphKind
  let name ← acceptName
  expect .openBrace
  let body ← block
  return { name := name.getD "", strict, directed, body }

/- One more graph, unless the file ends here. -/
def anotherGraph : Step (Option GraphDecl) := do
  if (← peek) = .endOfFile then
    return none
  else
    return some (← graph)

/-
  All graphs of a file, of which there has to be one.  The first
  call of the lexer brings the first token of the text.
-/
def file : Step (List GraphDecl) := do
  take
  let graphs ← anotherGraph.many
  if graphs.isEmpty then
    unexpected .header
  else
    return graphs

end Reader

end DotLang
