import ScriptVet.Text

namespace ScriptVet.Text.Utf8

/-- A byte that continues a character. -/
def isTail (c : UInt8) : Bool := 128 ≤ c && c < 192

/-- The second byte of a character of three bytes, which starts with `c`. -/
def isSecondOfThree (c d : UInt8) : Bool :=
  isTail d && (c ≠ 224 || 160 ≤ d) && (c ≠ 237 || d < 160)

/-- The second byte of a character of four bytes, which starts with `c`. -/
def isSecondOfFour (c d : UInt8) : Bool :=
  isTail d && (c ≠ 240 || 144 ≤ d) && (c ≠ 244 || d < 144)

def isValid : Text → Bool
  | [] => true
  | c :: rest =>
    if c < 128 then isValid rest
    else if 194 ≤ c ∧ c < 224 then
      match rest with
      | d :: rest => isTail d && isValid rest
      | [] => false
    else if 224 ≤ c ∧ c < 240 then
      match rest with
      | d :: e :: rest => isSecondOfThree c d && isTail e && isValid rest
      | _ => false
    else if 240 ≤ c ∧ c ≤ 244 then
      match rest with
      | d :: e :: f :: rest => isSecondOfFour c d && isTail e && isTail f && isValid rest
      | _ => false
    else false

end ScriptVet.Text.Utf8
