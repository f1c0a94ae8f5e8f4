import ScriptVet.Text

/-!
String literals in KQL, recognised byte by byte. A literal stands in single or double quotes or
between triple backticks. Whether a byte opens or closes one depends on the bytes right before it:
a quote after a backslash closes nothing, and a backtick counts only as the third in a row.
-/

namespace ScriptVet.Kql

/-- Where a byte stands: outside of literals, or inside a literal of some kind. -/
inductive Quote where
  | outside | single | double | multiline
  deriving DecidableEq, Repr

namespace Quote

def all : List Quote := [outside, single, double, multiline]

/-- Two backticks stand right before. The bytes before are given from the nearest one on. -/
def afterTwoBackticks : Text → Bool
  | c :: d :: _ => c == Text.byte '\x60' && d == Text.byte '\x60'
  | _ => false

/-- A backslash stands right before. -/
def afterBackslash : Text → Bool
  | c :: _ => c == Text.byte '\\'
  | [] => false

/-- The state behind the byte `c`, which has the bytes `before` in front, the nearest one first. -/
def next (q : Quote) (before : Text) (c : UInt8) : Quote :=
  match q with
  | outside =>
    if c = Text.byte '\'' then single
    else if c = Text.byte '"' then double
    else if c = Text.byte '\x60' ∧ afterTwoBackticks before then multiline
    else outside
  | single => if c = Text.byte '\'' ∧ ¬afterBackslash before then outside else single
  | double => if c = Text.byte '"' ∧ ¬afterBackslash before then outside else double
  | multiline =>
    if c = Text.byte '\x60' ∧ afterTwoBackticks before then outside else multiline

/-- The state behind a text that starts in state `q` with the bytes `before` in front of it. -/
def scan (q : Quote) (before : Text) : Text → Quote
  | [] => q
  | c :: rest => scan (q.next before c) (c :: before) rest

theorem scan_append (q : Quote) (before s t : Text) :
    q.scan before (s ++ t) = (q.scan before s).scan (s.reverse ++ before) t := by
  induction s generalizing q before with
  | nil => rfl
  | cons c s ih => simp [scan, ih]

/-- The states behind each byte of a text. -/
def trace (q : Quote) (before : Text) : Text → List Quote
  | [] => []
  | c :: rest => q.next before c :: trace (q.next before c) (c :: before) rest

/-- What each byte of a text makes of one and the same state. -/
def stepwise (q : Quote) (before : Text) : Text → List Quote
  | [] => []
  | c :: rest => q.next before c :: stepwise q (c :: before) rest

end Quote

end ScriptVet.Kql
