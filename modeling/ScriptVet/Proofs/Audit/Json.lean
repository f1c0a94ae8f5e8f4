import ScriptVet.Audit.Json.Reader
import ScriptVet.Proofs.Text.Line
import ScriptVet.Proofs.Text.Numeral
import ScriptVet.Proofs.Text.Percent
import Mathlib.Data.List.Basic

namespace ScriptVet.Audit.Json

open Text (NoDigitAhead OneLine)

theorem expect_self (c : UInt8) (t : Text) : expect c (c :: t) = some t := by
  rw [expect, if_pos rfl]

theorem expect_of_ne {c d : UInt8} (h : d ≠ c) (t : Text) : expect c (d :: t) = none := by
  rw [expect, if_neg h]

theorem expectWord_append (word t : Text) : expectWord word (word ++ t) = some t := by
  simp [expectWord]

theorem hexValue?_hexDigit {n : UInt8} (hn : n < 16) : hexValue? (hexDigit n) = some n := by
  rw [hexValue?, hexDigit, Text.isDigit]
  grind

/-- The digits of a byte give the byte back. -/
theorem unicode?_escape (c : UInt8) :
    unicode? (Text.byte 'u') (Text.byte '0') (Text.byte '0') (hexDigit (c >>> 4))
      (hexDigit (c &&& 15)) = some c := by
  rw [unicode?, if_pos ⟨rfl, rfl, rfl⟩, hexValue?_hexDigit (Text.Percent.high_lt c),
    hexValue?_hexDigit (Text.Percent.low_lt c)]
  change some ((c >>> 4) <<< 4 ||| (c &&& 15)) = some c
  rw [Text.Percent.high_or_low]

/-- However a byte is written, it is read as itself, and the reader goes on behind it. -/
theorem readOpened_escapeByte (c : UInt8) (rest : Text) :
    readOpened (escapeByte c ++ rest) = prepended c (readOpened rest) := by
  rw [escapeByte]
  split
  · rename_i h
    rcases h with rfl | rfl <;> rfl
  rename_i hmark
  obtain ⟨hquote, hbackslash⟩ := not_or.mp hmark
  split
  · subst c; rfl
  split
  · subst c; rfl
  split
  · subst c; rfl
  split
  · subst c; rfl
  split
  · subst c; rfl
  split
  · change (unicode? (Text.byte 'u') (Text.byte '0') (Text.byte '0') (hexDigit (c >>> 4))
      (hexDigit (c &&& 15))).bind (fun d => prepended d (readOpened rest)) = _
    rw [unicode?_escape]
    rfl
  · rename_i hcontrol
    rw [List.singleton_append, readOpened.eq_def]
    simp only [if_neg hquote, if_neg hbackslash, if_neg hcontrol]

theorem readOpened_append (t rest : Text) :
    readOpened (t.flatMap escapeByte ++ quote :: rest) = some (t, rest) := by
  induction t with
  | nil =>
    rw [List.flatMap_nil, List.nil_append, readOpened.eq_def]
    exact if_pos rfl
  | cons c t ih =>
    rw [List.flatMap_cons, List.append_assoc, readOpened_escapeByte, ih]
    rfl

theorem readString_append (t rest : Text) : readString (string t ++ rest) = some (t, rest) := by
  have hstring : string t ++ rest = quote :: (t.flatMap escapeByte ++ quote :: rest) := by
    simp [string]
  rw [readString, hstring, expect_self, Option.bind_some, readOpened_append]

theorem string_ne_nil (t : Text) : string t ≠ [] := List.cons_ne_nil _ _

theorem readStrings_append {ts : List Text} (hne : ts ≠ []) {n : Nat} (hn : ts.length ≤ n)
    (rest : Text) :
    readStrings n (Text.joined (.ascii ",") (ts.map string) ++ Text.byte ']' :: rest) =
      some (ts, rest) := by
  induction ts generalizing n with
  | nil => exact absurd rfl hne
  | cons t ts ih =>
    cases n with
    | zero => simp at hn
    | succ n =>
      cases ts with
      | nil =>
        rw [List.map_singleton, Text.joined_singleton, readStrings, readString_append]
        rfl
      | cons u us =>
        have hrest := ih (List.cons_ne_nil u us) (Nat.le_of_succ_le_succ hn)
        rw [List.map_cons] at hrest
        rw [List.map_cons, List.map_cons, Text.joined_cons_cons, List.append_assoc,
          List.append_assoc, readStrings, readString_append]
        change (readStrings n (Text.joined (.ascii ",") (string u :: us.map string) ++
          Text.byte ']' :: rest)).bind _ = _
        rw [hrest]
        rfl

theorem readNatural_append (n : Nat) {rest : Text} (hrest : NoDigitAhead rest) :
    readNatural (Text.decimal n ++ rest) = some (n, rest) := by
  rw [readNatural, Text.takeWhile_decimal_append n hrest, Text.dropWhile_decimal_append n hrest,
    Text.natural?_decimal]
  rfl

/-- A numeral starts with a digit, which no other value does. -/
theorem exists_decimal_cons (n : Nat) :
    ∃ d ds, Text.decimal n = d :: ds ∧ Text.isDigit d = true := by
  obtain ⟨d, ds, hn⟩ := List.exists_cons_of_ne_nil (Text.decimal_ne_nil n)
  exact ⟨d, ds, hn, Text.isDigit_of_mem_decimal (hn ▸ List.mem_cons_self)⟩

theorem readNumber_append (n : Int) {rest : Text} (hrest : NoDigitAhead rest) :
    readNumber (Text.signedDecimal n ++ rest) = some (n, rest) := by
  rw [Text.signedDecimal]
  split
  · rename_i hneg
    rw [List.cons_append, readNumber, expect_self]
    dsimp only
    rw [readNatural_append n.natAbs hrest, Option.map_some]
    have habs : -(n.natAbs : Int) = n := by omega
    rw [habs]
  · rename_i hpos
    obtain ⟨d, ds, hn, hd⟩ := exists_decimal_cons n.natAbs
    have hminus : d ≠ Text.byte '-' := by
      rintro rfl
      exact absurd hd (by decide)
    have habs : (n.natAbs : Int) = n := by omega
    rw [readNumber, hn, List.cons_append, expect_of_ne hminus]
    dsimp only
    rw [← List.cons_append, ← hn, readNatural_append n.natAbs hrest, Option.map_some, habs]

theorem exists_signedDecimal_cons (n : Int) :
    ∃ d ds, Text.signedDecimal n = d :: ds ∧ (d = Text.byte '-' ∨ Text.isDigit d = true) := by
  rw [Text.signedDecimal]
  split
  · exact ⟨_, _, rfl, .inl rfl⟩
  · obtain ⟨d, ds, hn, hd⟩ := exists_decimal_cons n.natAbs
    exact ⟨d, ds, hn, .inr hd⟩

theorem readValue_text (t rest : Text) :
    readValue (string t ++ rest) = some (.text t, rest) := by
  have hhead : (string t ++ rest).head? = some quote := rfl
  rw [readValue, if_pos hhead, readString_append]
  rfl

/-- The first byte of a numeral begins no value of another kind. -/
theorem readValue_number (n : Int) {rest : Text} (hrest : NoDigitAhead rest) :
    readValue (Text.signedDecimal n ++ rest) = some (.number n, rest) := by
  obtain ⟨d, ds, hn, hd⟩ := exists_signedDecimal_cons n
  have hhead : (Text.signedDecimal n ++ rest).head? = some d := by rw [hn]; rfl
  have hother (c : UInt8) (hc : c ≠ Text.byte '-') (hdigit : Text.isDigit c = false) :
      some d ≠ some c := by
    rintro ⟨⟩
    rcases hd with hd | hd
    · exact hc hd
    · rw [hdigit] at hd
      cases hd
  rw [readValue, hhead, if_neg (hother quote (by decide) (by decide)),
    if_neg (hother (Text.byte '[') (by decide) (by decide)),
    if_neg (hother (Text.byte 't') (by decide) (by decide)),
    if_neg (hother (Text.byte 'f') (by decide) (by decide)), readNumber_append n hrest]
  rfl

theorem readValue_flag (b : Bool) (rest : Text) :
    readValue ((Value.flag b).render ++ rest) = some (.flag b, rest) := by
  cases b with
  | true =>
    have hhead : (Text.ascii "true" ++ rest).head? = some (Text.byte 't') := rfl
    rw [Value.render, readValue, hhead, if_neg (by decide), if_neg (by decide), if_pos rfl,
      expectWord_append]
    rfl
  | false =>
    have hhead : (Text.ascii "false" ++ rest).head? = some (Text.byte 'f') := rfl
    rw [Value.render, readValue, hhead, if_neg (by decide), if_neg (by decide), if_neg (by decide),
      if_pos rfl, expectWord_append]
    rfl

theorem readValue_texts (ts : List Text) (rest : Text) :
    readValue ((Value.texts ts).render ++ rest) = some (.texts ts, rest) := by
  cases ts with
  | nil =>
    have hempty : (Value.texts []).render ++ rest = .ascii "[]" ++ rest := rfl
    have hhead : (Text.ascii "[]" ++ rest).head? = some (Text.byte '[') := rfl
    rw [hempty, readValue, hhead, if_neg (by decide), if_pos rfl, expectWord_append]
  | cons u us =>
    let body : Text := Text.joined (.ascii ",") ((u :: us).map string) ++ Text.byte ']' :: rest
    have hline : (Value.texts (u :: us)).render ++ rest = Text.byte '[' :: body := by
      simp [Value.render, body, Text.ascii]
    have hfuel : (u :: us).length ≤ (Text.byte '[' :: body).length := by
      have hlen := Text.length_le_length_joined string_ne_nil (.ascii ",") (u :: us)
      simp only [body, List.length_cons, List.length_append] at hlen ⊢
      omega
    -- the opening bracket is not closed at once
    have hword : expectWord (.ascii "[]") (Text.byte '[' :: body) = none := by
      have hbody : ∃ tail, body = quote :: tail := by cases us <;> exact ⟨_, rfl⟩
      obtain ⟨tail, htail⟩ := hbody
      rw [htail]
      rfl
    rw [hline, readValue, List.head?_cons, if_neg (by decide), if_pos rfl, hword]
    dsimp only
    rw [List.drop_one, List.tail_cons, readStrings_append (List.cons_ne_nil u us) hfuel]
    rfl

/-- What stands behind a value tells where a numeral ends. -/
theorem readValue_append (v : Value) {rest : Text} (hrest : NoDigitAhead rest) :
    readValue (v.render ++ rest) = some (v, rest) := by
  cases v with
  | text t => exact readValue_text t rest
  | number n => exact readValue_number n hrest
  | flag b => exact readValue_flag b rest
  | texts ts => exact readValue_texts ts rest

theorem readMembers_append {o : Object} (hne : o ≠ []) {n : Nat} (hn : o.length ≤ n) (rest : Text) :
    readMembers n (Text.joined (.ascii ",") (o.map fun m => member m.1 m.2) ++
      Text.byte '\x7d' :: rest) = some (o, rest) := by
  induction o generalizing n with
  | nil => exact absurd rfl hne
  | cons m ms ih =>
    obtain ⟨key, v⟩ := m
    cases n with
    | zero => simp at hn
    | succ n =>
      have hmember (tail : Text) : member key v ++ tail =
          string key ++ Text.byte ':' :: (v.render ++ tail) := by
        simp [member, Text.ascii]
      cases ms with
      | nil =>
        rw [List.map_singleton, Text.joined_singleton, hmember, readMembers, readString_append]
        change (readValue (v.render ++ Text.byte '\x7d' :: rest)).bind _ = _
        rw [readValue_append v (Text.noDigitAhead_cons (by decide) rest)]
        rfl
      | cons m ms =>
        have hrest := ih (List.cons_ne_nil m ms) (Nat.le_of_succ_le_succ hn)
        rw [List.map_cons] at hrest
        let members : Text :=
          Text.joined (.ascii ",") (member m.1 m.2 :: ms.map fun m => member m.1 m.2)
        rw [List.map_cons, List.map_cons, Text.joined_cons_cons, List.append_assoc,
          List.append_assoc, hmember, readMembers, readString_append]
        change (readValue (v.render ++ Text.byte ',' :: (members ++ Text.byte '\x7d' :: rest))).bind _ = _
        rw [readValue_append v (Text.noDigitAhead_cons (by decide) _)]
        change (readMembers n (members ++ Text.byte '\x7d' :: rest)).bind _ = _
        rw [hrest]
        rfl

theorem member_ne_nil (key : Text) (v : Value) : member key v ≠ [] := List.cons_ne_nil _ _

/-- An object with members is read as itself, and to the end of the line. -/
theorem read?_render {o : Object} (hne : o ≠ []) : read? (render o) = some o := by
  let body : Text :=
    Text.joined (.ascii ",") (o.map fun m => member m.1 m.2) ++ Text.byte '\x7d' :: []
  have hline : render o = Text.byte '\x7b' :: body := by simp [render, body, Text.ascii]
  have hfuel : o.length ≤ (Text.byte '\x7b' :: body).length := by
    have hlen := Text.length_le_length_joined (fun m => member_ne_nil m.1 m.2) (.ascii ",") o
    simp only [body, List.length_cons, List.length_append] at hlen ⊢
    omega
  rw [read?, hline, expect_self]
  change (readMembers _ body).bind _ = _
  rw [readMembers_append hne hfuel]
  rfl

theorem printable_hexDigit {n : UInt8} (hn : n < 16) : 32 ≤ hexDigit n ∧ hexDigit n < 128 := by
  rw [hexDigit]
  grind

/-- The text consists of ASCII characters that are no control characters. -/
def Printable (t : Text) : Prop := ∀ c ∈ t, 32 ≤ c ∧ c < 128

instance (t : Text) : Decidable (Printable t) := List.decidableBAll (fun c => 32 ≤ c ∧ c < 128) t

/-- Of the escapes, all are printable, and what is not escaped is no control character. -/
theorem printable_escapeByte (c : UInt8) :
    Printable (escapeByte c) ∨ escapeByte c = [c] ∧ 32 ≤ c := by
  rw [escapeByte]
  split
  · rename_i h
    left
    rcases h with rfl | rfl <;> decide
  split
  · exact .inl (by decide)
  split
  · exact .inl (by decide)
  split
  · exact .inl (by decide)
  split
  · exact .inl (by decide)
  split
  · exact .inl (by decide)
  split
  · have hfront : Printable (backslash :: Text.ascii "u00") := by decide
    have hdigits : Printable [hexDigit (c >>> 4), hexDigit (c &&& 15)] :=
      List.forall_mem_cons.mpr ⟨printable_hexDigit (Text.Percent.high_lt c),
        List.forall_mem_singleton.mpr (printable_hexDigit (Text.Percent.low_lt c))⟩
    exact .inl (List.forall_mem_append.mpr ⟨hfront, hdigits⟩)
  · rename_i hcontrol
    exact .inr ⟨rfl, UInt8.not_lt.mp hcontrol⟩

theorem oneLine_escapeByte (c : UInt8) : OneLine (escapeByte c) := by
  rcases printable_escapeByte c with hprintable | ⟨hself, hc⟩
  · exact fun d hd => (hprintable d hd).1
  · rw [hself]
    exact List.forall_mem_singleton.mpr hc

section Verbatim

/-- Every byte stands for itself in a string. -/
def Verbatim (t : Text) : Prop := ∀ c ∈ t, escapeByte c = [c]

instance (t : Text) : Decidable (Verbatim t) := List.decidableBAll (fun c => escapeByte c = [c]) t

namespace Verbatim

variable {t : Text}

/-- What is escaped has no control characters, so neither has what need not be escaped. -/
theorem oneLine (ht : Verbatim t) : OneLine t := by
  intro c hc
  have hescaped := oneLine_escapeByte c
  rw [ht c hc] at hescaped
  exact hescaped c List.mem_cons_self

theorem string_eq (ht : Verbatim t) : string t = quote :: t ++ [quote] := by
  have hcontent : t.flatMap escapeByte = t := by
    rw [List.flatMap_congr ht, List.flatMap_singleton']
  rw [string, hcontent]

end Verbatim

theorem escapeByte_of_isDigit {c : UInt8} (hc : Text.isDigit c = true) : escapeByte c = [c] := by
  rw [Text.isDigit] at hc
  have hquote : quote = 34 := rfl
  have hbackslash : backslash = 92 := rfl
  rw [escapeByte, hquote, hbackslash]
  grind

theorem verbatim_decimal (n : Nat) : Verbatim (Text.decimal n) :=
  fun _ hc => escapeByte_of_isDigit (Text.isDigit_of_mem_decimal hc)

theorem verbatim_signedDecimal (n : Int) : Verbatim (Text.signedDecimal n) := by
  rw [Text.signedDecimal]
  split
  · exact List.forall_mem_cons.mpr ⟨rfl, verbatim_decimal n.natAbs⟩
  · exact verbatim_decimal n.natAbs

end Verbatim

theorem oneLine_string (t : Text) : OneLine (string t) := by
  have hcontent : OneLine (t.flatMap escapeByte) := .flatMap oneLine_escapeByte t
  exact .cons (by decide) (hcontent.append (by decide))

theorem oneLine_value (v : Value) : v.render.OneLine := by
  cases v with
  | text t => exact oneLine_string t
  | number n => exact (verbatim_signedDecimal n).oneLine
  | flag b => cases b <;> decide
  | texts ts =>
    have hstrings : (Text.joined (.ascii ",") (ts.map string)).OneLine := by
      apply OneLine.joined (by decide)
      intro p hp
      obtain ⟨t, -, rfl⟩ := List.mem_map.mp hp
      exact oneLine_string t
    exact (OneLine.append (by decide) hstrings).append (by decide)

theorem oneLine_render (o : Object) : (render o).OneLine := by
  have hmembers : (Text.joined (.ascii ",") (o.map fun m => member m.1 m.2)).OneLine := by
    apply OneLine.joined (by decide)
    intro p hp
    obtain ⟨m, -, rfl⟩ := List.mem_map.mp hp
    have hkey : (string m.1 ++ .ascii ":").OneLine := (oneLine_string m.1).append (by decide)
    exact hkey.append (oneLine_value m.2)
  exact (OneLine.append (by decide) hmembers).append (by decide)

end ScriptVet.Audit.Json
