import ScriptVet.Text.Percent

namespace ScriptVet.Text.Percent

theorem toNat_high (c : UInt8) : (c >>> 4).toNat = c.toNat / 16 := by
  rw [UInt8.toNat_shiftRight]
  exact Nat.shiftRight_eq_div_pow c.toNat 4

theorem toNat_low (c : UInt8) : (c &&& 15).toNat = c.toNat % 16 := by
  rw [UInt8.toNat_and]
  exact Nat.and_two_pow_sub_one_eq_mod c.toNat 4

theorem high_lt (c : UInt8) : c >>> 4 < 16 := by
  have hc : c.toNat < 256 := c.toNat_lt
  have hhigh : c.toNat / 16 < 16 := by omega
  rwa [UInt8.lt_iff_toNat_lt, toNat_high]

theorem low_lt (c : UInt8) : c &&& 15 < 16 := by
  have hlow : c.toNat % 16 < 16 := by omega
  rwa [UInt8.lt_iff_toNat_lt, toNat_low]

theorem high_or_low (c : UInt8) : (c >>> 4) <<< 4 ||| (c &&& 15) = c := by
  have hc : c.toNat < 256 := c.toNat_lt
  have hlow : c.toNat % 16 < 2 ^ 4 := by omega
  have hshift : ((c >>> 4) <<< 4).toNat = (c.toNat / 16) <<< 4 := by
    rw [UInt8.toNat_shiftLeft, toNat_high]
    change (c.toNat / 16) <<< 4 % 256 = _
    rw [Nat.shiftLeft_eq]
    omega
  apply UInt8.toNat_inj.mp
  rw [UInt8.toNat_or, hshift, toNat_low, ← Nat.shiftLeft_add_eq_or_of_lt hlow, Nat.shiftLeft_eq]
  omega

theorem hexValue?_hexDigit {n : UInt8} (hn : n < 16) : hexValue? (hexDigit n) = some n := by
  rw [hexValue?, hexDigit, isDigit]
  grind

theorem hexDigit_ne_dot {n : UInt8} (hn : n < 16) : hexDigit n ≠ byte '.' := by
  have hdot : byte '.' = 46 := rfl
  rw [hexDigit, hdot]
  grind

theorem hexDigit_lt {n : UInt8} (hn : n < 16) : hexDigit n < 128 := by
  rw [hexDigit]
  grind

theorem lt_of_isPlain {c : UInt8} (hc : isPlain c = true) : c < 128 := by
  have hmarks : byte '_' = 95 ∧ byte '-' = 45 ∧ byte '~' = 126 := ⟨rfl, rfl, rfl⟩
  rw [isPlain, hmarks.1, hmarks.2.1, hmarks.2.2, isAlnum, isDigit, isUpper, isLower] at hc
  grind

theorem decode_cons {c : UInt8} (hc : c ≠ byte '%') (rest : Text) :
    decode (c :: rest) = c :: decode rest := by
  match rest with
  | [] => rfl
  | [_] => rfl
  | _ :: _ :: _ => rw [decode, if_neg hc]

theorem decode_encodeByte_append (c : UInt8) (rest : Text) :
    decode (encodeByte c ++ rest) = c :: decode rest := by
  rw [encodeByte]
  by_cases hplain : isPlain c
  · have hc : c ≠ byte '%' := by
      rintro rfl
      exact absurd hplain (by decide)
    rw [if_pos hplain, List.singleton_append, decode_cons hc]
  · rw [if_neg hplain]
    change decode (byte '%' :: hexDigit (c >>> 4) :: hexDigit (c &&& 15) :: rest) = _
    rw [decode, if_pos rfl, hexValue?_hexDigit (high_lt c), hexValue?_hexDigit (low_lt c)]
    change ((c >>> 4) <<< 4 ||| (c &&& 15)) :: decode rest = _
    rw [high_or_low]

theorem decode_encode (part : Text) : decode (encode part) = part := by
  induction part with
  | nil => rfl
  | cons c part ih => rw [encode, List.flatMap_cons, decode_encodeByte_append, ← encode, ih]

theorem dot_not_mem_encode (part : Text) : byte '.' ∉ encode part := by
  intro h
  obtain ⟨c, -, hdot⟩ := List.mem_flatMap.mp h
  rw [encodeByte] at hdot
  by_cases hplain : isPlain c
  · rw [if_pos hplain, List.mem_singleton] at hdot
    rw [← hdot] at hplain
    exact absurd hplain (by decide)
  · rw [if_neg hplain] at hdot
    rcases List.mem_cons.mp hdot with hdot | hdot
    · exact absurd hdot (by decide)
    · rcases List.mem_cons.mp hdot with hdot | hdot
      · exact hexDigit_ne_dot (high_lt c) hdot.symm
      · exact hexDigit_ne_dot (low_lt c) (List.mem_singleton.mp hdot).symm

/-- Whatever bytes a part has, the coded part is ASCII. -/
theorem lt_of_mem_encode {c : UInt8} {part : Text} (h : c ∈ encode part) : c < 128 := by
  obtain ⟨d, -, hc⟩ := List.mem_flatMap.mp h
  rw [encodeByte] at hc
  by_cases hplain : isPlain d
  · rw [if_pos hplain, List.mem_singleton] at hc
    rw [hc]
    exact lt_of_isPlain hplain
  · rw [if_neg hplain] at hc
    rcases List.mem_cons.mp hc with rfl | hc
    · decide
    · rcases List.mem_cons.mp hc with rfl | hc
      · exact hexDigit_lt (high_lt d)
      · rw [List.mem_singleton.mp hc]
        exact hexDigit_lt (low_lt d)

end ScriptVet.Text.Percent
