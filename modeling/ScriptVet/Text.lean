namespace ScriptVet

/-- A text is a sequence of bytes; nothing promises that they are UTF-8. -/
abbrev Text := List UInt8

namespace Text

/-- The byte of an ASCII character. -/
def byte (c : Char) : UInt8 := c.toNat.toUInt8

/-- The bytes of an ASCII literal. -/
def ascii (s : String) : Text := s.toList.map byte

/-- The space and the five control characters from tab to carriage return. -/
def isSpace (c : UInt8) : Bool := c == 32 || (9 ≤ c && c ≤ 13)

def isDigit (c : UInt8) : Bool := 48 ≤ c && c ≤ 57

def isUpper (c : UInt8) : Bool := 65 ≤ c && c ≤ 90

def isLower (c : UInt8) : Bool := 97 ≤ c && c ≤ 122

def isAlnum (c : UInt8) : Bool := isDigit c || isUpper c || isLower c

/-- Letters, digits and the underscore. -/
def isWord (c : UInt8) : Bool := isAlnum c || c == 95

def upperByte (c : UInt8) : UInt8 := if isLower c then c - 32 else c

def lowerByte (c : UInt8) : UInt8 := if isUpper c then c + 32 else c

def upper (t : Text) : Text := t.map upperByte

def lower (t : Text) : Text := t.map lowerByte

@[simp] theorem length_upper (t : Text) : t.upper.length = t.length := List.length_map upperByte

@[simp] theorem length_lower (t : Text) : t.lower.length = t.length := List.length_map lowerByte

theorem upper_append (s t : Text) : upper (s ++ t) = s.upper ++ t.upper := List.map_append

def trimLeft (t : Text) : Text := t.dropWhile isSpace

def trimRight (t : Text) : Text := (t.reverse.dropWhile isSpace).reverse

/-- Drops the white space at both ends. -/
def trim (t : Text) : Text := trimRight (trimLeft t)

/-- The pieces with `glue` between each two neighbours. -/
def joined (glue : Text) (pieces : List Text) : Text := (pieces.intersperse glue).flatten

/-- The bytes before the first zero byte. -/
def untilNul (t : Text) : Text := t.takeWhile (· ≠ 0)

/-- The first 80 bytes, enough to recognise a text in a report. -/
def excerpt (t : Text) : Text := t.take 80

/-- The decimal numeral of `n`, without leading zeros. -/
def decimal (n : Nat) : Text := (Nat.toDigits 10 n).map byte

/-- The decimal numeral of `n`, with a minus sign in front of a negative one. -/
def signedDecimal (n : Int) : Text :=
  if n < 0 then byte '-' :: decimal n.natAbs else decimal n.natAbs

/-- Fills up with zeros on the left to at least `width` bytes. -/
def zeroPadded (width : Nat) (t : Text) : Text :=
  List.replicate (width - t.length) (byte '0') ++ t

/-- The value of a text of decimal digits alone, of which there is at least one. -/
def natural? (t : Text) : Option Nat :=
  if t ≠ [] ∧ t.all isDigit then some (t.foldl (fun n c => 10 * n + (c.toNat - 48)) 0) else none

end Text

end ScriptVet
