import ScriptVet.Statement

namespace ScriptVet

structure Script where
  engine : Text
  statements : List Statement

namespace Script

/-- Splits a text into statements of the language that its engine speaks. -/
def read (g : Option Grammar) (t engine : Text) : Run (Except Rejection Script) := do
  if engine = Kql.engine then
    return (← Kql.Statement.split t engine).map fun ss => ⟨engine, ss.map .kql⟩
  else
    return (← Sql.Statement.split g t engine).map fun ss => ⟨engine, ss.map .sql⟩

/-- The statements as texts, each but the last followed by a semicolon and a new line. -/
def format (s : Script) (comments : Bool) : Run Text := do
  return Text.joined (.ascii ";\n") (← s.statements.mapM (·.format comments))

/-- The settings of all statements, where a later statement wins. -/
def settings (s : Script) : Run Settings :=
  s.statements.foldlM (fun settings statement => return settings.merge (← statement.settings)) ∅

/-- Some statement changes something; those after it are not looked at. -/
def mutating (s : Script) : Run Bool := s.statements.anyM (·.mutating)

/-- The tables of all statements, with the reference of the first statement that has it. -/
def tables (s : Script) : TableSet :=
  s.statements.foldl (fun tables statement => tables.union statement.tables) ∅

end Script

end ScriptVet
