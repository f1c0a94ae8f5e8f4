import ScriptVet.Kql.Statement
import ScriptVet.Sql.Statement

namespace ScriptVet

inductive Statement where
  | kql (statement : Kql.Statement)
  | sql (statement : Sql.Statement)

namespace Statement

def engine : Statement → Text
  | kql _ => Kql.engine
  | sql s => s.engine

def tables : Statement → TableSet
  | kql _ => ∅
  | sql s => s.tables

def mutating : Statement → Run Bool
  | kql s => pure s.mutating
  | sql s => s.mutating

def settings : Statement → Run Settings
  | kql s => pure s.settings
  | sql s => s.settings

/-- The statement as text. KQL keeps the comments that it has. -/
def format (comments : Bool) : Statement → Run Text
  | kql s => pure s.text
  | sql s => s.format comments

end Statement

end ScriptVet
