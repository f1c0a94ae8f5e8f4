import ScriptVet.Rejection
import ScriptVet.Settings
import ScriptVet.Sql.Mutation
import ScriptVet.Sql.References

namespace ScriptVet.Sql

open Ast (Node)

structure Statement where
  grammar : Grammar
  engine : Text
  root : Node
  tables : TableSet

namespace Statement

def dialect (s : Statement) : Option Dialect := Dialect.ofEngine? s.engine

def ofRoot (g : Grammar) (engine : Text) (root : Node) : Run Statement := do
  let tables ← references g (Dialect.ofEngine? engine) root
  return ⟨g, engine, root, tables⟩

def parseFailed (dialect : Option Dialect) (reason : Text) : Text :=
  .ascii "sql_statement: parse failed (dialect=" ++ Dialect.name dialect ++ .ascii "): " ++ reason

/-- The units of a text that are not void. -/
def roots (g : Grammar) (t engine : Text) : Run (Except Rejection (List Node)) := do
  let dialect := Dialect.ofEngine? engine
  match ← g.parsed t dialect with
  | .refused reason =>
    Run.note .debug (parseFailed dialect reason)
    return .error ⟨.unparseable reason, t.excerpt⟩
  | .units units => return .ok (units.filterMap id)

/-- The statements of a text in their order. -/
def split (g : Option Grammar) (t engine : Text) : Run (Except Rejection (List Statement)) :=
  match g with
  | none => pure (.error ⟨.noGrammar, t.excerpt⟩)
  | some g => do
    match ← roots g t engine with
    | .error e => return .error e
    | .ok ns => return .ok (← ns.mapM (ofRoot g engine))

/-- Reads a text as one statement. -/
def read (g : Option Grammar) (t engine : Text) : Run (Except Rejection Statement) :=
  match g with
  | none => pure (.error ⟨.noGrammar, t.excerpt⟩)
  | some g => do
    match ← roots g t engine with
    | .error e => return .error e
    | .ok [root] => return .ok (← ofRoot g engine root)
    | .ok ns => return .error ⟨.notSingle .sql ns.length, t.excerpt⟩

def format (s : Statement) (comments : Bool) : Run Text :=
  s.grammar.generated s.root s.dialect ⟨true, comments⟩

def mutating (s : Statement) : Run Bool := mutates s.grammar s.dialect s.grammar.nesting s.root

/-- The two sides of every assignment in a settings clause. One that stands below several clauses
comes once for each of them. -/
def assignments (root : Node) : List (Node × Node) :=
  (root.findAll (·.kind = .setItem)).flatMap fun item =>
    (item.findAll (·.kind = .eq)).filterMap fun eq =>
      match eq.children with
      | target :: value :: _ => some (target, value)
      | _ => none

/-- The settings, where a later assignment replaces an earlier one with the same target. -/
def settings (s : Statement) : Run Settings :=
  (assignments s.root).foldlM (fun settings a => do
    let target ← s.grammar.generated a.1 s.dialect ⟨false, false⟩
    let value ← s.grammar.generated a.2 s.dialect ⟨false, false⟩
    return settings.insert target (.text value)) ∅

end Statement

end ScriptVet.Sql
