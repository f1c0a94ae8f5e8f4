import ScriptVet.Kql.Quote

namespace ScriptVet.Kql

def semicolon : UInt8 := Text.byte ';'

/-- The text with a semicolon at its end. -/
def terminated (t : Text) : Text :=
  if t.getLast? = some semicolon then t else t ++ [semicolon]

/-- The segments that a semicolon ends. Of the text so far, `before` holds all bytes and `current`
those of the segment under way, both from the nearest byte on. What follows the last semicolon
belongs to a literal that is never closed, and is dropped. -/
def segmentsFrom (q : Quote) (before current : Text) : Text → List Text
  | [] => []
  | c :: rest =>
    if q = .outside ∧ c = semicolon then
      current.reverse :: segmentsFrom .outside (c :: before) [] rest
    else segmentsFrom (q.next before c) (c :: before) (c :: current) rest

def segments (t : Text) : List Text := segmentsFrom .outside [] [] (terminated t)

end ScriptVet.Kql
