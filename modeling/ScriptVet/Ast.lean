import ScriptVet.Text

namespace ScriptVet.Ast

inductive Kind where
  | select | union | withClause | cte | subquery | join | table | column | identifier | literal
  | star | eq | insert | update | delete | merge | create | drop | truncateTable | describe
  | command | set | setItem | values | other
  deriving DecidableEq, Repr

namespace Kind

def tag : Kind → Text
  | select => .ascii "select"
  | union => .ascii "union"
  | withClause => .ascii "with"
  | cte => .ascii "cte"
  | subquery => .ascii "subquery"
  | join => .ascii "join"
  | table => .ascii "table"
  | column => .ascii "column"
  | identifier => .ascii "identifier"
  | literal => .ascii "literal"
  | star => .ascii "star"
  | eq => .ascii "eq"
  | insert => .ascii "insert"
  | update => .ascii "update"
  | delete => .ascii "delete"
  | merge => .ascii "merge"
  | create => .ascii "create"
  | drop => .ascii "drop"
  | truncateTable => .ascii "truncate_table"
  | describe => .ascii "describe"
  | command => .ascii "command"
  | set => .ascii "set"
  | setItem => .ascii "set_item"
  | values => .ascii "values"
  | other => .ascii "other"

def all : List Kind :=
  [select, union, withClause, cte, subquery, join, table, column, identifier, literal, star, eq,
    insert, update, delete, merge, create, drop, truncateTable, describe, command, set, setItem,
    values, other]

def ofTag? (t : Text) : Option Kind := all.find? (·.tag = t)

end Kind

structure Node where
  kind : Kind
  name : Text
  database : Text
  catalog : Text
  comments : List Text
  children : List Node

namespace Node

instance : Inhabited Node := ⟨⟨.other, [], [], [], [], []⟩⟩

/-- The first direct child of a kind. -/
def child? (n : Node) (kind : Kind) : Option Node := n.children.find? (·.kind = kind)

mutual

/-- The number of nodes of a tree. -/
def size : Node → Nat
  | ⟨_, _, _, _, _, children⟩ => 1 + totalSize children

/-- The number of nodes of several trees together. -/
def totalSize : List Node → Nat
  | [] => 0
  | n :: ns => n.size + totalSize ns

end

theorem totalSize_append (ms ns : List Node) :
    totalSize (ms ++ ns) = totalSize ms + totalSize ns := by
  induction ms with
  | nil => simp [totalSize]
  | cons m ms ih => simp [totalSize, ih, Nat.add_assoc]

theorem size_eq (n : Node) : n.size = 1 + totalSize n.children := by
  cases n; rfl

end Node

end ScriptVet.Ast
