import ScriptVet.Proofs.Text.Numeral
import Mathlib.Algebra.GroupWithZero.Nat

namespace ScriptVet.Text

/-- The number that digits stand for, where `n` stands for the digits in front of them. -/
def valueFrom (n : Nat) (t : Text) : Nat := t.foldl (fun n c => 10 * n + (c.toNat - 48)) n

theorem toNat_le_of_isDigit {c : UInt8} (h : isDigit c = true) : 48 ≤ c.toNat ∧ c.toNat ≤ 57 := by
  simpa [isDigit, UInt8.le_iff_toNat_le] using h

/-- Of two texts the beginnings decide, if they have the same length and are not the same. -/
theorem append_lt_append_iff {a b x y : Text} (h : a.length = b.length) :
    a ++ x < b ++ y ↔ a < b ∨ a = b ∧ x < y := by
  induction a generalizing b with
  | nil =>
    obtain rfl := List.eq_nil_of_length_eq_zero h.symm
    simp
  | cons c a ih =>
    cases b with
    | nil => cases h
    | cons d b =>
      have hrest := ih (Nat.succ.inj h)
      rw [List.cons_append, List.cons_append, List.cons_lt_cons_iff, List.cons_lt_cons_iff, hrest,
        List.cons.injEq]
      grind

/-- A smaller beginning cannot be made up for by the digits behind it. -/
theorem valueFrom_lt_of_lt {s t : Text} (hs : ∀ c ∈ s, isDigit c = true) (hlen : s.length = t.length)
    {m n : Nat} (h : m < n) : valueFrom m s < valueFrom n t := by
  induction s generalizing t m n with
  | nil =>
    obtain rfl := List.eq_nil_of_length_eq_zero hlen.symm
    exact h
  | cons c s ih =>
    cases t with
    | nil => cases hlen
    | cons d t =>
      obtain ⟨hc, hs⟩ := List.forall_mem_cons.mp hs
      have hdigit := toNat_le_of_isDigit hc
      have hnext : 10 * m + (c.toNat - 48) < 10 * n + (d.toNat - 48) := by omega
      exact ih hs (Nat.succ.inj hlen) hnext

/-- Digits of one width come in the order of the numbers that they stand for. -/
theorem lt_iff_valueFrom_lt {s t : Text} (hs : ∀ c ∈ s, isDigit c = true)
    (ht : ∀ c ∈ t, isDigit c = true) (hlen : s.length = t.length) (n : Nat) :
    s < t ↔ valueFrom n s < valueFrom n t := by
  induction s generalizing t n with
  | nil =>
    obtain rfl := List.eq_nil_of_length_eq_zero hlen.symm
    exact iff_of_false (List.lt_irrefl []) (Nat.lt_irrefl _)
  | cons c s ih =>
    cases t with
    | nil => cases hlen
    | cons d t =>
      obtain ⟨hc, hss⟩ := List.forall_mem_cons.mp hs
      obtain ⟨hd, hts⟩ := List.forall_mem_cons.mp ht
      have htails : s.length = t.length := Nat.succ.inj hlen
      have hcdigit := toNat_le_of_isDigit hc
      have hddigit := toNat_le_of_isDigit hd
      rw [List.cons_lt_cons_iff, UInt8.lt_iff_toNat_lt]
      change _ ↔ valueFrom (10 * n + (c.toNat - 48)) s < valueFrom (10 * n + (d.toNat - 48)) t
      rcases Nat.lt_trichotomy c.toNat d.toNat with hlt | heq | hgt
      · exact iff_of_true (.inl hlt) (valueFrom_lt_of_lt hss htails (by omega))
      · obtain rfl := UInt8.toNat_inj.mp heq
        simpa using ih hss hts htails (10 * n + (c.toNat - 48))
      · have hfirst : 10 * n + (d.toNat - 48) < 10 * n + (c.toNat - 48) := by omega
        have hback := valueFrom_lt_of_lt hts htails.symm hfirst
        refine iff_of_false ?_ (Nat.lt_asymm hback)
        rintro (hlt | ⟨rfl, -⟩)
        · exact Nat.lt_asymm hlt hgt
        · exact Nat.lt_irrefl _ hgt

section Padded

variable {width n : Nat}

theorem isDigit_of_mem_padded {c : UInt8} (hc : c ∈ zeroPadded width (decimal n)) :
    isDigit c = true := by
  rcases List.mem_append.mp hc with hc | hc
  · obtain ⟨-, rfl⟩ := List.mem_replicate.mp hc
    rfl
  · exact isDigit_of_mem_decimal hc

theorem length_padded (hwidth : 0 < width) (hn : n < 10 ^ width) :
    (zeroPadded width (decimal n)).length = width := by
  have hdigits : (decimal n).length ≤ width := by
    rw [decimal, List.length_map]
    exact (Nat.length_toDigits_le_iff (by decide) hwidth).mpr hn
  rw [zeroPadded, List.length_append, List.length_replicate]
  omega

theorem valueFrom_padded (width n : Nat) : valueFrom 0 (zeroPadded width (decimal n)) = n := by
  have hzeros (k : Nat) : valueFrom 0 (List.replicate k (byte '0')) = 0 := by
    induction k with
    | zero => rfl
    | succ k ih => exact ih
  have hnumber := natural?_decimal n
  rw [natural?] at hnumber
  split at hnumber
  · rw [zeroPadded, valueFrom, List.foldl_append]
    change valueFrom (valueFrom 0 (List.replicate (width - (decimal n).length) (byte '0'))) _ = n
    rw [hzeros]
    exact Option.some.inj hnumber
  · cases hnumber

theorem natural?_padded (width n : Nat) : natural? (zeroPadded width (decimal n)) = some n := by
  have hne : zeroPadded width (decimal n) ≠ [] :=
    fun h => decimal_ne_nil n (List.append_eq_nil_iff.mp h).2
  have hall : (zeroPadded width (decimal n)).all isDigit = true :=
    List.all_eq_true.mpr fun _ => isDigit_of_mem_padded
  rw [natural?, if_pos ⟨hne, hall⟩]
  exact congrArg some (valueFrom_padded width n)

theorem padded_inj {m : Nat} :
    zeroPadded width (decimal m) = zeroPadded width (decimal n) ↔ m = n := by
  constructor
  · intro h
    rw [← valueFrom_padded width m, h, valueFrom_padded]
  · rintro rfl
    rfl

theorem padded_lt_iff {m : Nat} (hwidth : 0 < width) (hm : m < 10 ^ width) (hn : n < 10 ^ width) :
    zeroPadded width (decimal m) < zeroPadded width (decimal n) ↔ m < n := by
  have hlen : (zeroPadded width (decimal m)).length = (zeroPadded width (decimal n)).length := by
    rw [length_padded hwidth hm, length_padded hwidth hn]
  rw [lt_iff_valueFrom_lt (fun _ => isDigit_of_mem_padded) (fun _ => isDigit_of_mem_padded) hlen 0,
    valueFrom_padded, valueFrom_padded]

end Padded

end ScriptVet.Text
