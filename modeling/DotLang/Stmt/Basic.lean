import DotLang.Attribute
import DotLang.Location

/-
  This file defines the statements of the graph language, as
  they are written: no name is looked up and no default is
  applied.

  Key definitions include:
    * `NodeRef`
    * `Arrow`
    * `EntityKind`
    * `Endpoint`
    * `EdgeStep`
    * `Stmt`
    * `GraphDecl`
-/

------------------------------------------------------------
-- Parts of Statements
------------------------------------------------------------

namespace DotLang

/-
  A mention of a node, with an optional port.  A port with a
  compass point is one text with a colon inside.
-/
structure NodeRef where
  name : String
  port : Option String
deriving DecidableEq, Repr, Inhabited

/- The name of a mention, with its port behind a colon. -/
def NodeRef.display (ref : NodeRef) : String :=
  match ref.port with
  | some port => ref.name ++ ":" ++ port
  | none => ref.name

/- The two edge operators. -/
inductive Arrow where
| directed
| undirected
deriving DecidableEq, Repr, Inhabited

namespace Arrow

/- An edge operator as it is written. -/
def spelling : Arrow → String
| directed => "->"
| undirected => "--"

/- The operator that fits a graph. -/
def ofDirected (isDirected : Bool) : Arrow :=
  if isDirected then directed else undirected

end Arrow

/- What default attributes are for. -/
inductive EntityKind where
| graph
| node
| edge
deriving DecidableEq, Repr, Inhabited

------------------------------------------------------------
-- Statements
------------------------------------------------------------

mutual

/- An end of an edge: one node, or all nodes of a subgraph. -/
inductive Endpoint where
| node (ref : NodeRef)
| subgraph (name : String) (body : List Stmt)

/- An edge operator, its place, and the end behind it. -/
inductive EdgeStep where
| mk (arrow : Arrow) (location : Location) (head : Endpoint)

/-
  A statement.  The attributes are the pairs of all brackets in
  their order, and names may repeat.  A subgraph without a name
  has the empty name.
-/
inductive Stmt where
| edge
    (tail : Endpoint)
    (steps : List EdgeStep)
    (attributes : List Attribute)
| node (ref : NodeRef) (attributes : List Attribute)
| defaults (kind : EntityKind) (attributes : List Attribute)
| assign (attr : Attribute)
| subgraph (name : String) (body : List Stmt)

end

instance : Inhabited Endpoint :=
  ⟨.node default⟩

instance : Inhabited EdgeStep :=
  ⟨.mk default default default⟩

instance : Inhabited Stmt :=
  ⟨.node default []⟩

------------------------------------------------------------
-- Graph Declarations
------------------------------------------------------------

/- A top level graph as it is written. -/
structure GraphDecl where
  name : String
  strict : Bool
  directed : Bool
  body : List Stmt
deriving Inhabited

end DotLang
