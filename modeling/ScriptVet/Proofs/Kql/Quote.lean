import ScriptVet.Kql.Quote

namespace ScriptVet.Kql

/-- Two beginnings that no byte behind them can tell apart, near or far. -/
def Alike (before before' : Text) : Prop :=
  ∀ near : Text,
    Quote.afterTwoBackticks (near ++ before) = Quote.afterTwoBackticks (near ++ before') ∧
    Quote.afterBackslash (near ++ before) = Quote.afterBackslash (near ++ before')

theorem Alike.refl (before : Text) : Alike before before := by
  intro near
  exact ⟨rfl, rfl⟩

theorem Alike.symm {before before' : Text} (h : Alike before before') : Alike before' before := by
  intro near
  exact ⟨(h near).1.symm, (h near).2.symm⟩

theorem Alike.trans {x y z : Text} (hxy : Alike x y) (hyz : Alike y z) : Alike x z := by
  intro near
  exact ⟨(hxy near).1.trans (hyz near).1, (hxy near).2.trans (hyz near).2⟩

theorem Alike.append {before before' : Text} (h : Alike before before') (near : Text) :
    Alike (near ++ before) (near ++ before') := by
  intro nearer
  rw [← List.append_assoc, ← List.append_assoc]
  exact h (nearer ++ near)

theorem Alike.cons {before before' : Text} (h : Alike before before') (c : UInt8) :
    Alike (c :: before) (c :: before') :=
  h.append [c]

/-- Behind a byte that is neither a backtick nor a backslash a text is read as at the beginning. -/
theorem alike_nil {c : UInt8} (htick : c ≠ Text.byte '\x60') (hslash : c ≠ Text.byte '\\')
    (before : Text) : Alike (c :: before) [] := by
  intro near
  cases near with
  | nil => cases before <;> simp [Quote.afterTwoBackticks, Quote.afterBackslash, htick, hslash]
  | cons d near =>
    -- the byte between hides a backslash, but not yet the first of two backticks
    refine ⟨?_, rfl⟩
    cases near <;> simp [Quote.afterTwoBackticks, htick]

theorem alike_of_two (c d : UInt8) (before before' : Text) :
    Alike (c :: d :: before) (c :: d :: before') := by
  intro near
  match near with
  | [] => exact ⟨rfl, rfl⟩
  | [_] => exact ⟨rfl, rfl⟩
  | _ :: _ :: _ => exact ⟨rfl, rfl⟩

theorem Alike.next {before before' : Text} (h : Alike before before') (q : Quote) (c : UInt8) :
    q.next before c = q.next before' c := by
  have hticks : Quote.afterTwoBackticks before = Quote.afterTwoBackticks before' := (h []).1
  have hslash : Quote.afterBackslash before = Quote.afterBackslash before' := (h []).2
  cases q <;> simp only [Quote.next, hticks, hslash]

theorem Alike.scan {before before' : Text} (h : Alike before before') (q : Quote) (t : Text) :
    q.scan before t = q.scan before' t := by
  induction t generalizing q before before' with
  | nil => rfl
  | cons c t ih => rw [Quote.scan, Quote.scan, h.next q c, ih (h.cons c)]

/-- Only quotes and backticks change the state. -/
theorem Quote.next_of_plain {c : UInt8} (hsingle : c ≠ Text.byte '\'') (hdouble : c ≠ Text.byte '"')
    (htick : c ≠ Text.byte '\x60') (q : Quote) (before : Text) : q.next before c = q := by
  cases q <;> simp [Quote.next, hsingle, hdouble, htick]

theorem Quote.outside_next_backtick (before : Text) :
    outside.next before (Text.byte '\x60') =
      if afterTwoBackticks before then multiline else outside := by
  rw [next, if_neg (by decide), if_neg (by decide)]
  simp

theorem Quote.multiline_next_backtick (before : Text) :
    multiline.next before (Text.byte '\x60') =
      if afterTwoBackticks before then outside else multiline := by
  simp [next]

theorem Quote.scan_of_keeps {q : Quote} {t : Text} (h : ∀ c ∈ t, ∀ before, q.next before c = q)
    (before : Text) : q.scan before t = q := by
  induction t generalizing before with
  | nil => rfl
  | cons c t ih =>
    obtain ⟨hc, ht⟩ := List.forall_mem_cons.mp h
    rw [Quote.scan, hc, ih ht]

/-- White space opens and closes nothing, and nothing behind it looks past it. -/
theorem Quote.next_space {c : UInt8} (hc : Text.isSpace c = true) (q : Quote) (before : Text) :
    q.next before c = q := by
  apply Quote.next_of_plain <;> rintro rfl <;> revert hc <;> decide

theorem alike_space {c : UInt8} (hc : Text.isSpace c = true) (before : Text) :
    Alike (c :: before) [] := by
  apply alike_nil <;> rintro rfl <;> revert hc <;> decide

end ScriptVet.Kql
