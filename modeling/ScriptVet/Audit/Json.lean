import ScriptVet.Text

namespace ScriptVet.Audit.Json

inductive Value where
  | text (t : Text)
  | number (n : Int)
  | flag (b : Bool)
  | texts (ts : List Text)
  deriving DecidableEq

/-- The keys with their values, in the order in which they are written. -/
abbrev Object := List (Text × Value)

def quote : UInt8 := Text.byte '"'

def backslash : UInt8 := Text.byte '\\'

/-- The lower-case hexadecimal digit of a value below 16. -/
def hexDigit (n : UInt8) : UInt8 := if n < 10 then 48 + n else 87 + n

def escapeByte (c : UInt8) : Text :=
  if c = quote ∨ c = backslash then [backslash, c]
  else if c = 8 then [backslash, Text.byte 'b']
  else if c = 12 then [backslash, Text.byte 'f']
  else if c = 10 then [backslash, Text.byte 'n']
  else if c = 13 then [backslash, Text.byte 'r']
  else if c = 9 then [backslash, Text.byte 't']
  else if c < 32 then backslash :: Text.ascii "u00" ++ [hexDigit (c >>> 4), hexDigit (c &&& 15)]
  else [c]

def string (t : Text) : Text := quote :: t.flatMap escapeByte ++ [quote]

def Value.render : Value → Text
  | text t => string t
  | number n => .signedDecimal n
  | flag true => .ascii "true"
  | flag false => .ascii "false"
  | texts ts => .ascii "[" ++ Text.joined (.ascii ",") (ts.map string) ++ .ascii "]"

def member (key : Text) (v : Value) : Text := string key ++ .ascii ":" ++ v.render

def render (o : Object) : Text :=
  .ascii "\x7b" ++ Text.joined (.ascii ",") (o.map fun m => member m.1 m.2) ++ .ascii "\x7d"

end ScriptVet.Audit.Json
