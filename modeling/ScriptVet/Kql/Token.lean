import ScriptVet.Kql.Quote
import Mathlib.Logic.Function.Iterate

namespace ScriptVet.Kql

def backtick : UInt8 := Text.byte '\x60'

def backslash : UInt8 := Text.byte '\\'

/-- A piece of text that is read as a whole. -/
inductive Token where
  /-- A literal between two of the same quotes. One that is not closed goes on to the end. -/
  | quoted (quote : UInt8) (content : Text) (closed : Bool)
  | backticks (count : Nat)
  | plain (c : UInt8)
  deriving DecidableEq

namespace Quote

def IsQuote (c : UInt8) : Prop := c = Text.byte '\'' ∨ c = Text.byte '"'

instance (c : UInt8) : Decidable (IsQuote c) := inferInstanceAs (Decidable (_ ∨ _))

/-- The state inside of a literal that this quote opens. -/
def ofQuote (quote : UInt8) : Quote := if quote = Text.byte '\'' then single else double

/-- The other one of the two states in which a fence is read. -/
def switched : Quote → Quote
  | outside => multiline
  | multiline => outside
  | q => q

end Quote

namespace Token

def text : Token → Text
  | quoted quote content closed => quote :: content ++ if closed then [quote] else []
  | backticks count => List.replicate count backtick
  | plain c => [c]

/-- What stands in front of the first `quote` that has no backslash right before it, and what follows
this quote. The byte in front of the text is `last`. -/
def untilQuote? (quote last : UInt8) : Text → Option (Text × Text)
  | [] => none
  | c :: rest =>
    if c = quote ∧ last ≠ backslash then some ([], rest)
    else (untilQuote? quote c rest).map fun found => (c :: found.1, found.2)

/-- The literal that `quote` opens in front of `rest`, and what follows the literal. -/
def literal (quote : UInt8) (rest : Text) : Token × Text :=
  match untilQuote? quote quote rest with
  | some (content, rest) => (quoted quote content true, rest)
  | none => (quoted quote rest false, [])

/-- The first token of `c :: rest` in state `q`, and what follows it. Only outside of literals a quote
opens one. -/
def first (q : Quote) (c : UInt8) (rest : Text) : Token × Text :=
  if c = backtick then
    (backticks ((rest.takeWhile (· = backtick)).length + 1), rest.dropWhile (· = backtick))
  else if q = .outside ∧ Quote.IsQuote c then literal c rest
  else (plain c, rest)

/-- The state behind the token. Of a run of backticks the third and each further one is a fence. -/
def behind (q : Quote) : Token → Quote
  | quoted quote _ closed => if closed then q else .ofQuote quote
  | backticks count => Quote.switched^[count - 2] q
  | plain _ => q

/-- The states in front of each byte of the token; in front of all backticks the one in which their
run is met. -/
def states (q : Quote) : Token → List Quote
  | quoted quote content closed =>
    q :: List.replicate (content.length + closed.toNat) (.ofQuote quote)
  | backticks count => List.replicate count q
  | plain _ => [q]

theorem eq_of_untilQuote?_eq_some {quote last : UInt8} {t content rest : Text}
    (h : untilQuote? quote last t = some (content, rest)) : t = content ++ quote :: rest := by
  induction t generalizing last content with
  | nil => cases h
  | cons c t ih =>
    rw [untilQuote?] at h
    split at h
    · rename_i hclose
      cases h
      rw [hclose.1, List.nil_append]
    · obtain ⟨found, hfound, heq⟩ := Option.map_eq_some_iff.mp h
      cases heq
      rw [List.cons_append, ← ih hfound]

theorem length_first_le (q : Quote) (c : UInt8) (rest : Text) :
    (first q c rest).2.length ≤ rest.length := by
  rw [first]
  split
  · exact (List.dropWhile_sublist _).length_le
  · split
    · rw [literal]
      split
      · rename_i content rest' h
        change rest'.length ≤ rest.length
        rw [eq_of_untilQuote?_eq_some h, List.length_append, List.length_cons]
        omega
      · exact Nat.zero_le _
    · exact Nat.le_refl _

end Token

/-- The tokens of a text that is met in state `q`. -/
def tokens (q : Quote) : Text → List Token
  | [] => []
  | c :: rest =>
    (Token.first q c rest).1 ::
      tokens ((Token.first q c rest).1.behind q) (Token.first q c rest).2
termination_by t => t.length
decreasing_by exact Nat.lt_succ_of_le (Token.length_first_le q c rest)

/-- The states in front of each byte of a sequence of tokens, and behind the last one. -/
def statesOf (q : Quote) : List Token → List Quote
  | [] => [q]
  | token :: rest => token.states q ++ statesOf (token.behind q) rest

end ScriptVet.Kql
