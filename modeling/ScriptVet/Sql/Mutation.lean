import ScriptVet.Ast.Search
import ScriptVet.Run

namespace ScriptVet.Sql

open Ast (Node)

/-- The node changes data or schema. -/
def writes (n : Node) : Bool :=
  match n.kind with
  | .insert | .update | .delete | .merge | .create | .drop | .truncateTable => true
  | .command => n.name.upper = .ascii "ALTER"
  | _ => false

def analyze : Text := .ascii "ANALYZE "

/-- The text that an `EXPLAIN ANALYZE` command explains. -/
def explained? (n : Node) : Option Text :=
  if n.kind = .command ∧ n.name.upper = .ascii "EXPLAIN" then
    match n.child? .literal with
    | some operand =>
      if analyze.isPrefixOf operand.name.upper then some (operand.name.drop analyze.length)
      else none
    | none => none
  else none

def unreadTarget (reason : Text) : Text :=
  .ascii "mutation_classifier: cannot parse EXPLAIN ANALYZE target, treating as mutating (fail-close): "
    ++ reason

def splitTarget (count : Nat) : Text :=
  .ascii "mutation_classifier: EXPLAIN ANALYZE target has " ++ .decimal count ++
    .ascii " statements, treating as mutating (fail-close)"

/-- The statement changes something. Postgres runs the statement that `EXPLAIN ANALYZE` explains, so there
it is judged as well, where `nesting` statements explained inside one another may be read. -/
def mutates (g : Grammar) (dialect : Option Dialect) : Nat → Node → Run Bool
  | nesting, root =>
    if root.any writes then pure true
    else if dialect ≠ some .postgres then pure false
    else
      match explained? root with
      | none => pure false
      | some target =>
        match nesting with
        | 0 => .unfinished
        | nesting + 1 => do
          match ← g.parsed target dialect with
          | .refused reason =>
            Run.note .warn (unreadTarget reason)
            return true
          | .units units =>
            match units.filterMap id with
            | [unit] => mutates g dialect nesting unit
            | others =>
              Run.note .warn (splitTarget others.length)
              return true

end ScriptVet.Sql
