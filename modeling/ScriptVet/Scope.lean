import ScriptVet.Ast
import ScriptVet.Text.Map

namespace ScriptVet

/-- The part of a query that a scope belongs to. -/
inductive Scope.Role where
  | root | subquery | derivedTable | cte | union | udtf
  deriving DecidableEq, Repr

namespace Scope.Role

def tag : Role → Text
  | root => .ascii "root"
  | subquery => .ascii "subquery"
  | derivedTable => .ascii "derived_table"
  | cte => .ascii "cte"
  | union => .ascii "union"
  | udtf => .ascii "udtf"

def all : List Role := [root, subquery, derivedTable, cte, union, udtf]

def ofTag? (t : Text) : Option Role := all.find? (·.tag = t)

end Scope.Role

/-- What a name stands for: a node, or a scope by its place in the list of all scopes. A binding of
either form may be void. -/
inductive Scope.Source where
  | node (node : Option Ast.Node)
  | scope (index : Option Nat)

structure Scope where
  role : Scope.Role
  parent : Option Nat
  sources : Text.Map Scope.Source

namespace Scope

/-- The table node that a binding stands for, if it stands for one. -/
def Source.table? : Source → Option Ast.Node
  | .node (some n) => if n.kind = .table then some n else none
  | _ => none

/-- The binding stands for a common table expression among `scopes`. -/
def Source.isCte (scopes : List Scope) : Source → Bool
  | .scope (some i) => (scopes[i]?).any (·.role = .cte)
  | _ => false

/-- The scope around this one binds `name` to a common table expression, so that a table of this
name, read inside, is not a stored one. -/
def seesCte (scopes : List Scope) (s : Scope) (name : Text) : Bool :=
  match s.parent.bind (scopes[·]?) with
  | none => false
  | some parent => (parent.sources.get? name).any (·.isCte scopes)

end Scope

end ScriptVet
