import ScriptVet.Audit.Json

namespace ScriptVet.Audit.Json

def hexValue? (c : UInt8) : Option UInt8 :=
  if Text.isDigit c then some (c - 48)
  else if 97 ≤ c && c ≤ 102 then some (c - 87)
  else if 65 ≤ c && c ≤ 70 then some (c - 55)
  else none

/-- The byte that an escape of one letter stands for. -/
def escaped? (c : UInt8) : Option UInt8 :=
  if c = quote ∨ c = backslash then some c
  else if c = Text.byte 'b' then some 8
  else if c = Text.byte 'f' then some 12
  else if c = Text.byte 'n' then some 10
  else if c = Text.byte 'r' then some 13
  else if c = Text.byte 't' then some 9
  else none

/-- The byte that a letter and four hexadecimal digits stand for, if it is below 256. -/
def unicode? (letter a b h l : UInt8) : Option UInt8 :=
  if letter = Text.byte 'u' ∧ a = Text.byte '0' ∧ b = Text.byte '0' then do
    return (← hexValue? h) <<< 4 ||| (← hexValue? l)
  else none

def prepended (c : UInt8) (r : Option (Text × Text)) : Option (Text × Text) :=
  r.map fun p => (c :: p.1, p.2)

/-- The string that begins behind an opening quote, and the rest behind its closing quote. -/
def readOpened : Text → Option (Text × Text)
  | [] => none
  | c :: rest =>
    if c = quote then some ([], rest)
    else if c = backslash then
      match rest with
      | [] => none
      | e :: rest =>
        match escaped? e with
        | some d => prepended d (readOpened rest)
        | none =>
          match rest with
          | a :: b :: h :: l :: rest =>
            (unicode? e a b h l).bind fun d => prepended d (readOpened rest)
          | _ => none
    else if c < 32 then none
    else prepended c (readOpened rest)

/-- The rest behind a byte that has to come first. -/
def expect (c : UInt8) : Text → Option Text
  | [] => none
  | d :: rest => if d = c then some rest else none

def readString (t : Text) : Option (Text × Text) := (expect quote t).bind readOpened

/-- At most `n` strings with commas between them, up to a closing bracket. -/
def readStrings : Nat → Text → Option (List Text × Text)
  | 0, _ => none
  | n + 1, t => do
    let (s, rest) ← readString t
    match expect (Text.byte ',') rest with
    | some rest => do
      let (ss, rest) ← readStrings n rest
      return (s :: ss, rest)
    | none => return ([s], ← expect (Text.byte ']') rest)

def readNatural (t : Text) : Option (Nat × Text) :=
  (Text.natural? (t.takeWhile Text.isDigit)).map fun n => (n, t.dropWhile Text.isDigit)

def readNumber (t : Text) : Option (Int × Text) :=
  match expect (Text.byte '-') t with
  | some rest => (readNatural rest).map fun p => (-(p.1 : Int), p.2)
  | none => (readNatural t).map fun p => ((p.1 : Int), p.2)

/-- The rest behind a word that has to come first. -/
def expectWord (word t : Text) : Option Text :=
  if word.isPrefixOf t then some (t.drop word.length) else none

def readValue (t : Text) : Option (Value × Text) :=
  if t.head? = some quote then
    (readString t).map fun p => (.text p.1, p.2)
  else if t.head? = some (Text.byte '[') then
    match expectWord (.ascii "[]") t with
    | some rest => some (.texts [], rest)
    | none => (readStrings t.length (t.drop 1)).map fun p => (.texts p.1, p.2)
  else if t.head? = some (Text.byte 't') then
    (expectWord (.ascii "true") t).map fun rest => (.flag true, rest)
  else if t.head? = some (Text.byte 'f') then
    (expectWord (.ascii "false") t).map fun rest => (.flag false, rest)
  else (readNumber t).map fun p => (.number p.1, p.2)

/-- At most `n` members with commas between them, up to a closing brace. -/
def readMembers : Nat → Text → Option (Object × Text)
  | 0, _ => none
  | n + 1, t => do
    let (key, rest) ← readString t
    let (v, rest) ← readValue (← expect (Text.byte ':') rest)
    match expect (Text.byte ',') rest with
    | some rest => do
      let (members, rest) ← readMembers n rest
      return ((key, v) :: members, rest)
    | none => return ([(key, v)], ← expect (Text.byte '\x7d') rest)

/-- The members of a text that is one object from its first byte to its last. -/
def read? (t : Text) : Option Object := do
  match ← readMembers t.length (← expect (Text.byte '\x7b') t) with
  | (members, []) => return members
  | _ => none

end ScriptVet.Audit.Json
