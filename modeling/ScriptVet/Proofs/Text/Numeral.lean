import ScriptVet.Text

namespace ScriptVet.Text

/-- The next byte, if there is one, is no digit. -/
def NoDigitAhead (t : Text) : Prop := ∀ c, t.head? = some c → isDigit c = false

theorem noDigitAhead_cons {c : UInt8} (hc : isDigit c = false) (t : Text) :
    NoDigitAhead (c :: t) := by
  intro d hd
  obtain rfl := Option.some.inj hd
  exact hc

theorem toNat_byte {c : Char} (hc : c.toNat < 256) : (byte c).toNat = c.toNat :=
  UInt8.toNat_ofNat_of_lt' hc

theorem toNat_of_isDigit {c : Char} (hc : c.isDigit = true) : 48 ≤ c.toNat ∧ c.toNat ≤ 57 := by
  simpa [Char.isDigit, UInt32.le_iff_toNat_le] using hc

theorem isDigit_byte {c : Char} (hc : c.isDigit = true) : isDigit (byte c) = true := by
  obtain ⟨hlow, hhigh⟩ := toNat_of_isDigit hc
  have hbyte : (byte c).toNat = c.toNat := toNat_byte (by omega)
  rw [isDigit, Bool.and_eq_true, decide_eq_true_eq, decide_eq_true_eq, UInt8.le_iff_toNat_le,
    UInt8.le_iff_toNat_le, hbyte]
  exact ⟨hlow, hhigh⟩

theorem isDigit_of_mem_decimal {n : Nat} {c : UInt8} (hc : c ∈ decimal n) : isDigit c = true := by
  obtain ⟨d, hd, rfl⟩ := List.mem_map.mp hc
  exact isDigit_byte (Nat.isDigit_of_mem_toDigits (by decide) (by decide) hd)

theorem decimal_ne_nil (n : Nat) : decimal n ≠ [] := by
  intro h
  exact Nat.toDigits_ne_nil (List.map_eq_nil_iff.mp h)

/-- Reading the digits as bytes gives what reading them as characters gives. -/
theorem foldl_map_byte {cs : List Char} (hcs : ∀ c ∈ cs, c.isDigit = true) (m : Nat) :
    (cs.map byte).foldl (fun n c => 10 * n + (c.toNat - 48)) m = Nat.ofDigitChars 10 cs m := by
  induction cs generalizing m with
  | nil => rfl
  | cons c cs ih =>
    obtain ⟨hc, hcs⟩ := List.forall_mem_cons.mp hcs
    have hbound := toNat_of_isDigit hc
    rw [List.map_cons, List.foldl_cons, ih hcs, toNat_byte (by omega)]
    rfl

theorem natural?_decimal (n : Nat) : natural? (decimal n) = some n := by
  have hdigits : ∀ c ∈ Nat.toDigits 10 n, c.isDigit = true :=
    fun _ => Nat.isDigit_of_mem_toDigits (by decide) (by decide)
  have hall : (decimal n).all isDigit = true :=
    List.all_eq_true.mpr fun _ => isDigit_of_mem_decimal
  rw [natural?, if_pos ⟨decimal_ne_nil n, hall⟩, decimal, foldl_map_byte hdigits,
    Nat.ofDigitChars_toDigits (by decide) (by decide)]

/-- A numeral ends where its digits end. -/
theorem takeWhile_decimal_append (n : Nat) {t : Text} (ht : NoDigitAhead t) :
    (decimal n ++ t).takeWhile isDigit = decimal n := by
  rw [List.takeWhile_append_of_pos fun _ => isDigit_of_mem_decimal]
  cases t with
  | nil => simp
  | cons c t => simp [ht c rfl]

theorem dropWhile_decimal_append (n : Nat) {t : Text} (ht : NoDigitAhead t) :
    (decimal n ++ t).dropWhile isDigit = t := by
  rw [List.dropWhile_append_of_pos fun _ => isDigit_of_mem_decimal]
  cases t with
  | nil => rfl
  | cons c t => simp [ht c rfl]

end ScriptVet.Text
