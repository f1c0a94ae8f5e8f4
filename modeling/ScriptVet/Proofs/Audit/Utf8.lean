import ScriptVet.Proofs.Audit
import ScriptVet.Proofs.Text.Utf8

namespace ScriptVet

open Text.Utf8 (Ascii isValid)

namespace Text

theorem lt_of_isDigit {c : UInt8} (hc : isDigit c = true) : c < 128 := by
  rw [isDigit] at hc
  grind

theorem ascii_decimal (n : Nat) : Ascii (decimal n) :=
  fun _ hc => lt_of_isDigit (isDigit_of_mem_decimal hc)

theorem ascii_signedDecimal (n : Int) : Ascii (signedDecimal n) := by
  rw [signedDecimal]
  split
  · exact List.forall_mem_cons.mpr ⟨by decide, ascii_decimal n.natAbs⟩
  · exact ascii_decimal n.natAbs

end Text

namespace Audit

namespace Json

theorem escapeByte_of_not_lt {c : UInt8} (hc : ¬c < 128) : escapeByte c = [c] := by
  have hquote : quote = 34 := rfl
  have hbackslash : backslash = 92 := rfl
  rw [escapeByte, hquote, hbackslash]
  grind

theorem ascii_escapeByte {c : UInt8} (hc : c < 128) : Ascii (escapeByte c) := by
  rcases printable_escapeByte c with hprintable | ⟨hself, -⟩
  · exact fun d hd => (hprintable d hd).2
  · rw [hself]
    exact List.forall_mem_singleton.mpr hc

theorem escapeByte_ne_nil (c : UInt8) : escapeByte c ≠ [] := by
  rw [escapeByte]
  grind

theorem isValid_string (t : Text) : isValid (string t) = isValid t := by
  have hquote : Ascii [quote] := by decide
  have hescaped := Text.Utf8.isValid_append_flatMap (fun _ => escapeByte_of_not_lt)
    (fun c hc => ⟨escapeByte_ne_nil c, ascii_escapeByte hc⟩) [quote] t
  rw [string, hquote.append_isValid]
  exact hescaped.trans (hquote.isValid_append t)

/-- All texts in the value are well-formed. -/
def Value.isUtf8 : Value → Bool
  | text t => isValid t
  | number _ => true
  | flag _ => true
  | texts ts => ts.all isValid

theorem isValid_value (v : Value) : isValid v.render = v.isUtf8 := by
  cases v with
  | text t => exact isValid_string t
  | number n => exact (Text.ascii_signedDecimal n).isValid
  | flag b => cases b <;> rfl
  | texts ts =>
    have hopen : Ascii (.ascii "[") := by decide
    have hcomma : Ascii (.ascii ",") := by decide
    have hclose : Ascii (.ascii "]") := by decide
    rw [Value.render, hclose.append_isValid, hopen.isValid_append,
      Text.Utf8.isValid_joined hcomma (by decide), List.all_map]
    exact congrArg ts.all (funext isValid_string)

theorem isValid_member (key : Text) (v : Value) :
    isValid (member key v) = (isValid key && v.isUtf8) := by
  have hcolon : Ascii (.ascii ":") := by decide
  rw [member, List.append_assoc, hcolon.isValid_between (by decide), isValid_string, isValid_value]

/-- A line is well-formed if all its keys and texts are. -/
theorem isValid_render (o : Object) :
    isValid (render o) = o.all fun m => isValid m.1 && m.2.isUtf8 := by
  have hopen : Ascii (.ascii "\x7b") := by decide
  have hcomma : Ascii (.ascii ",") := by decide
  have hclose : Ascii (.ascii "\x7d") := by decide
  rw [render, hclose.append_isValid, hopen.isValid_append,
    Text.Utf8.isValid_joined hcomma (by decide), List.all_map]
  exact congrArg o.all (funext fun m => isValid_member m.1 m.2)

end Json

namespace Timestamp

theorem IsPart.lt {c : UInt8} (hc : IsPart c) : c < 128 := by
  rcases hc with hdigit | hmark
  · exact Text.lt_of_isDigit hdigit
  · have h : Ascii (.ascii "-T:.Z") := by decide
    exact h c hmark

theorem isValid_render (t : Timestamp) : isValid t.render = true :=
  Ascii.isValid fun c hc => IsPart.lt (t.isPart_render c hc)

end Timestamp

namespace Entry

/-- The line about a report depends on the names in it. -/
theorem isValid_text_accepted (e : Acceptance) :
    isValid (accepted e).text =
      (isValid e.requestId && isValid e.engine && isValid e.dialect && e.tables.all isValid) := by
  rw [text, Json.isValid_render]
  simp (disch := decide) [Ascii.isValid, members, Acceptance.members, Json.Value.isUtf8, Timestamp.isValid_render,
    Bool.and_assoc]

theorem isValid_text_refused (e : Refusal) :
    isValid (refused e).text =
      (isValid e.requestId && isValid e.engine && isValid e.code && isValid e.reason &&
        isValid e.sqlStart) := by
  rw [text, Json.isValid_render]
  simp (disch := decide) [Ascii.isValid, members, Refusal.members, Json.Value.isUtf8, Timestamp.isValid_render,
    Bool.and_assoc]

end Entry

end Audit

end ScriptVet
