import DotLang.Stmt.Basic
import DotLang.Text.Layout

/-
  This file defines the outline of a declaration: its
  statements as an indented tree, one column a level.

  Key definitions include:
    * `Stmt.outline`
    * `GraphDecl.outline`
-/

------------------------------------------------------------
-- Attributes
------------------------------------------------------------

namespace DotLang

/- The numbered lines of a list of attributes. -/
def outlineAttributes
    (indent : Nat)
    (attributes : List Attribute) : List String :=
  attributes.zipIdx.map fun (attr, i) =>
    spaces indent ++ toString i ++ ")\"" ++ attr.name ++
      "\" = \"" ++ attr.value.display ++ "\""

/- The name of a kind of entity in an outline. -/
def EntityKind.title : EntityKind → String
| graph => "Graph"
| node => "Node"
| edge => "Edge"

------------------------------------------------------------
-- Statements
------------------------------------------------------------

mutual

/- The lines of one end of an edge. -/
def Endpoint.outline (indent : Nat) : Endpoint → List String
| .node ref => [spaces indent ++ ref.display]
| .subgraph name body =>
    (spaces indent ++ "Graph: " ++ name) ::
      outlineBody (indent + 1) body

/- The lines of the steps of an edge statement. -/
def outlineSteps (indent : Nat) : List EdgeStep → List String
| [] => []
| .mk arrow _ head :: rest =>
    (spaces indent ++ arrow.spelling) ::
      (head.outline indent ++ outlineSteps indent rest)

/- The lines of a statement. -/
def Stmt.outline (indent : Nat) : Stmt → List String
| .edge tail steps attributes =>
    (spaces indent ++ "Edge:") ::
      (tail.outline (indent + 1) ++
        outlineSteps (indent + 1) steps ++
        outlineAttributes (indent + 1) attributes)
| .node ref attributes =>
    (spaces indent ++ "Node " ++ ref.display) ::
      outlineAttributes (indent + 1) attributes
| .defaults kind attributes =>
    (spaces indent ++ "Attribute " ++ kind.title ++ ":") ::
      outlineAttributes (indent + 1) attributes
| .assign attr =>
    [spaces indent ++ "Assign \"" ++ attr.name ++
      "\" = \"" ++ attr.value.display ++ "\""]
| .subgraph name body =>
    (spaces indent ++ "Graph: " ++ name) ::
      outlineBody (indent + 1) body

/- The lines of a list of statements. -/
def outlineBody (indent : Nat) : List Stmt → List String
| [] => []
| stmt :: rest =>
    stmt.outline indent ++ outlineBody indent rest

end

/- The outline of a top level graph. -/
def GraphDecl.outline (g : GraphDecl) : String :=
  unlines (("Graph: " ++ g.name) :: outlineBody 1 g.body)

end DotLang
