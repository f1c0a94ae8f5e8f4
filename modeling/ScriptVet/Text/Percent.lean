import ScriptVet.Text

namespace ScriptVet.Text.Percent

/-- Letters, digits, the underscore, the hyphen and the tilde stand for themselves. -/
def isPlain (c : UInt8) : Bool := isAlnum c || c == byte '_' || c == byte '-' || c == byte '~'

/-- The upper-case hexadecimal digit of a value below 16. -/
def hexDigit (n : UInt8) : UInt8 := if n < 10 then 48 + n else 55 + n

def hexValue? (c : UInt8) : Option UInt8 :=
  if isDigit c then some (c - 48)
  else if 65 ≤ c && c ≤ 70 then some (c - 55)
  else none

def encodeByte (c : UInt8) : Text :=
  if isPlain c then [c] else [byte '%', hexDigit (c >>> 4), hexDigit (c &&& 15)]

def encode (part : Text) : Text := part.flatMap encodeByte

/-- Reads what `encode` writes; a percent sign without two hexadecimal digits stands for itself. -/
def decode : Text → Text
  | [] => []
  | [c] => [c]
  | [c, d] => [c, d]
  | c :: h :: l :: rest =>
    if c = byte '%' then
      match hexValue? h, hexValue? l with
      | some hi, some lo => (hi <<< 4 ||| lo) :: decode rest
      | _, _ => c :: decode (h :: l :: rest)
    else c :: decode (h :: l :: rest)

end ScriptVet.Text.Percent
