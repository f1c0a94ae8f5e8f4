import ScriptVet.Text.Percent

namespace ScriptVet

/-- A part that is present is not empty. -/
def Table.presentPart (part : Option Text) : Option Text := part.filter (· ≠ [])

theorem Table.presentPart_ne_some_nil (part : Option Text) :
    Table.presentPart part ≠ some [] := by
  simp [Table.presentPart, Option.filter_eq_some_iff]

/-- The parts that are not empty, from the outermost in, each percent-coded, with dots between. -/
def Table.canonicalName (catalog schema : Option Text) (name : Text) : Text :=
  Text.joined [Text.byte '.'] <|
    ([catalog.getD [], schema.getD [], name].filter (· ≠ [])).map Text.Percent.encode

/-- A reference whose schema and catalog are each absent or not empty. -/
structure Table where
  name : Text
  schema : Option Text
  catalog : Option Text
  schema_ne_some_nil : schema ≠ some []
  catalog_ne_some_nil : catalog ≠ some []
  deriving DecidableEq

namespace Table

/-- The reference with these parts, where an empty schema or catalog counts as absent. -/
def ofParts (name : Text) (schema catalog : Option Text) : Table where
  name := name
  schema := presentPart schema
  catalog := presentPart catalog
  schema_ne_some_nil := Table.presentPart_ne_some_nil schema
  catalog_ne_some_nil := Table.presentPart_ne_some_nil catalog

def canonical (t : Table) : Text := canonicalName t.catalog t.schema t.name

/-- Both references denote the same table. -/
def same (t u : Table) : Bool := t.canonical = u.canonical

end Table

end ScriptVet
