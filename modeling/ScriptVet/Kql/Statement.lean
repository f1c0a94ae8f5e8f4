import ScriptVet.Kql.Segment
import ScriptVet.Kql.SetCommand
import ScriptVet.Rejection
import ScriptVet.Run
import ScriptVet.Settings

namespace ScriptVet.Kql

/-- The one engine that speaks KQL. -/
def engine : Text := .ascii "kustokql"

/-- A statement without the white space around it. -/
structure Statement where
  text : Text
  deriving DecidableEq

namespace Statement

/-- Access rights that hang on tables cannot be enforced on a statement of this engine. -/
def warning (engine : Text) : Text :=
  .ascii "kql_statement: Kusto KQL doesn't support table extraction. Data access roles will not be enforced for engine '"
    ++ engine ++ .ascii "'."

/-- Reads a text as one statement. -/
def read (t engine : Text) : Run (Except Rejection Statement) :=
  if engine ≠ Kql.engine then pure (.error ⟨.foreignEngine engine, t.excerpt⟩)
  else
    match segments t with
    | [segment] => do
      Run.note .warn (warning engine)
      return .ok ⟨segment.trim⟩
    | segments => pure (.error ⟨.notSingle .kql segments.length, t.excerpt⟩)

/-- Reads each of the texts as one statement, up to the first one that is none. -/
def readAll (engine : Text) : List Text → Run (Except Rejection (List Statement))
  | [] => pure (.ok [])
  | t :: ts => do
    match ← read t engine with
    | .error e => return .error e
    | .ok s => Except.map (s :: ·) <$> readAll engine ts

/-- The statements of a text in their order. -/
def split (t engine : Text) : Run (Except Rejection (List Statement)) :=
  readAll engine (segments t)

/-- Management commands start with a dot and change something, unless they only show. -/
def mutating (s : Statement) : Bool :=
  (Text.ascii ".").isPrefixOf s.text && !(Text.ascii ".show").isPrefixOf s.text

def settings (s : Statement) : Settings :=
  match setCommand? s.text with
  | none => ∅
  | some (name, none) => Text.Map.empty.insert name .enabled
  | some (name, some value) => Text.Map.empty.insert name (.text value)

end Statement

end ScriptVet.Kql
