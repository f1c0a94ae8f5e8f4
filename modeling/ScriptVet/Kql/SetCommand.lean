import ScriptVet.Text

namespace ScriptVet.Kql

/-- The longest beginning whose bytes satisfy `p`, which must not be empty, and the rest. -/
def run? (p : UInt8 → Bool) (t : Text) : Option (Text × Text) :=
  match t.takeWhile p with
  | [] => none
  | c :: cs => some (c :: cs, t.dropWhile p)

/-- The value after an equals sign, up to the end of the text. -/
def assigned? : Text → Option Text
  | [] => none
  | c :: rest =>
    if c = Text.byte '=' then
      match run? Text.isWord (rest.dropWhile Text.isSpace) with
      | some (value, []) => some value
      | _ => none
    else none

/-- The name that a text sets, and its value if there is one. -/
def setCommand? (t : Text) : Option (Text × Option Text) :=
  if Text.lower (t.take 3) = .ascii "set" then
    match run? Text.isSpace (t.drop 3) with
    | none => none
    | some (_, rest) =>
      match run? Text.isWord rest with
      | none => none
      | some (name, []) => some (name, none)
      | some (name, rest) =>
        (assigned? (rest.dropWhile Text.isSpace)).map fun value => (name, some value)
  else none

end ScriptVet.Kql
