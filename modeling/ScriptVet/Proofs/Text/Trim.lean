import ScriptVet.Text

namespace ScriptVet.Text

/-- A text of white space alone. -/
def Blank (t : Text) : Prop := ∀ c ∈ t, isSpace c = true

theorem toNat_le_of_isSpace {c : UInt8} (hc : isSpace c = true) : c.toNat ≤ 32 := by
  simp only [isSpace, Bool.or_eq_true, Bool.and_eq_true, decide_eq_true_eq, beq_iff_eq] at hc
  rcases hc with rfl | ⟨-, hc⟩
  · decide
  · exact Nat.le_trans (UInt8.le_iff_toNat_le.mp hc) (by decide)

theorem blank_singleton {c : UInt8} (hc : isSpace c = true) : Blank [c] := by
  intro d hd
  rw [List.mem_singleton.mp hd]
  exact hc

theorem blank_or_exists_inner (t : Text) :
    Blank t ∨ ∃ (a : Text) (c : UInt8) (b : Text), t = a ++ c :: b ∧ isSpace c = false := by
  by_cases ht : Blank t
  · exact .inl ht
  · obtain ⟨c, hc, hspace⟩ : ∃ c ∈ t, isSpace c = false := by
      simpa [Blank] using ht
    obtain ⟨a, b, rfl⟩ := List.append_of_mem hc
    exact .inr ⟨a, c, b, rfl, hspace⟩

theorem trimLeft_blank_append {u : Text} (hu : Blank u) (t : Text) :
    trimLeft (u ++ t) = trimLeft t :=
  List.dropWhile_append_of_pos hu

theorem trimRight_append_blank {w : Text} (hw : Blank w) (t : Text) :
    trimRight (t ++ w) = trimRight t := by
  have hback : Blank w.reverse := by
    intro c hc
    exact hw c (List.mem_reverse.mp hc)
  rw [trimRight, trimRight, List.reverse_append, List.dropWhile_append_of_pos hback]

theorem trimLeft_inner (a b : Text) {c : UInt8} (hc : isSpace c = false) :
    trimLeft (a ++ c :: b) = trimLeft a ++ c :: b := by
  induction a with
  | nil => simp [trimLeft, hc]
  | cons d a ih =>
    by_cases hd : isSpace d
    · have hdrop : ∀ x : Text, trimLeft (d :: x) = trimLeft x := by
        intro x
        simp [trimLeft, hd]
      rw [List.cons_append, hdrop, hdrop, ih]
    · simp [trimLeft, hd]

theorem trimRight_inner (a b : Text) {c : UInt8} (hc : isSpace c = false) :
    trimRight (a ++ c :: b) = a ++ c :: trimRight b := by
  have hback : (b.reverse ++ c :: a.reverse).dropWhile isSpace =
      b.reverse.dropWhile isSpace ++ c :: a.reverse :=
    trimLeft_inner b.reverse a.reverse hc
  simp [trimRight, hback]

/-- Each side of a byte that is no space is trimmed on its own. -/
theorem trim_inner (a b : Text) {c : UInt8} (hc : isSpace c = false) :
    trim (a ++ c :: b) = trimLeft a ++ c :: trimRight b := by
  rw [trim, trimLeft_inner a b hc, trimRight_inner _ b hc]

theorem trim_of_blank {t : Text} (ht : Blank t) : trim t = [] := by
  have hleft : trimLeft t = [] := by
    have h := trimLeft_blank_append ht []
    rwa [List.append_nil] at h
  rw [trim, hleft]
  rfl

theorem trim_blank_append {u : Text} (hu : Blank u) (t : Text) : trim (u ++ t) = trim t := by
  rw [trim, trimLeft_blank_append hu, trim]

theorem trim_append_blank {w : Text} (hw : Blank w) (t : Text) : trim (t ++ w) = trim t := by
  rcases blank_or_exists_inner t with ht | ⟨a, c, b, rfl, hc⟩
  · have hboth : Blank (t ++ w) := by
      intro c hc
      exact (List.mem_append.mp hc).elim (ht c) (hw c)
    rw [trim_of_blank hboth, trim_of_blank ht]
  · rw [List.append_assoc, List.cons_append, trim_inner a _ hc, trimRight_append_blank hw,
      trim_inner a b hc]

theorem exists_blank_trimLeft (t : Text) : ∃ u : Text, Blank u ∧ t = u ++ trimLeft t :=
  ⟨t.takeWhile isSpace, List.all_eq_true.mp List.all_takeWhile,
    List.takeWhile_append_dropWhile.symm⟩

theorem exists_blank_trimRight (t : Text) : ∃ w : Text, Blank w ∧ t = trimRight t ++ w := by
  obtain ⟨u, hu, ht⟩ := exists_blank_trimLeft t.reverse
  refine ⟨u.reverse, ?_, ?_⟩
  · intro c hc
    exact hu c (List.mem_reverse.mp hc)
  · calc t = (u ++ trimLeft t.reverse).reverse := by rw [← ht, List.reverse_reverse]
      _ = trimRight t ++ u.reverse := List.reverse_append

/-- What trimming drops is white space at both ends. -/
theorem exists_blank_trim (t : Text) :
    ∃ u w : Text, Blank u ∧ Blank w ∧ t = u ++ trim t ++ w := by
  obtain ⟨u, hu, hleft⟩ := exists_blank_trimLeft t
  obtain ⟨w, hw, hright⟩ := exists_blank_trimRight (trimLeft t)
  refine ⟨u, w, hu, hw, ?_⟩
  rw [List.append_assoc, trim, ← hright, ← hleft]

theorem trim_trim (t : Text) : trim (trim t) = trim t := by
  obtain ⟨u, w, hu, hw, ht⟩ := exists_blank_trim t
  calc trim (trim t) = trim (u ++ trim t ++ w) := by
        rw [trim_append_blank hw, trim_blank_append hu]
    _ = trim t := by rw [← ht]

end ScriptVet.Text
