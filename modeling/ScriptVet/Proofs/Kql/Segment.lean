import ScriptVet.Kql.Segment

namespace ScriptVet.Kql

theorem Quote.next_semicolon (q : Quote) (before : Text) : q.next before semicolon = q := by
  cases q <;> simp [Quote.next, semicolon, Text.byte]

theorem Quote.scan_concat (q : Quote) (before t : Text) (c : UInt8) :
    q.scan before (t ++ [c]) = (q.scan before t).next (t.reverse ++ before) c := by
  rw [Quote.scan_append]
  rfl

theorem Quote.scan_concat_semicolon (q : Quote) (before t : Text) :
    q.scan before (t ++ [semicolon]) = q.scan before t := by
  rw [Quote.scan_concat, Quote.next_semicolon]

/-- The state in front of place `i`. -/
def stateAt (t : Text) (i : Nat) : Quote := Quote.outside.scan [] (t.take i)

theorem stateAt_append (s t : Text) {i : Nat} (hi : i ≤ s.length) :
    stateAt (s ++ t) i = stateAt s i := by
  rw [stateAt, stateAt, List.take_append_of_le_length hi]

/-- The places of the semicolons that stand outside of literals, in ascending order. -/
def separators (t : Text) : List Nat :=
  (List.range t.length).filter fun i => t[i]? = some semicolon ∧ stateAt t i = .outside

theorem mem_separators {t : Text} {i : Nat} :
    i ∈ separators t ↔ i < t.length ∧ t[i]? = some semicolon ∧ stateAt t i = .outside := by
  simp only [separators, List.mem_filter, List.mem_range, decide_eq_true_eq]

theorem separators_concat (s : Text) (c : UInt8) :
    separators (s ++ [c]) =
      separators s ++
        if c = semicolon ∧ Quote.outside.scan [] s = .outside then [s.length] else [] := by
  have hstate : stateAt (s ++ [c]) s.length = Quote.outside.scan [] s := by
    rw [stateAt, List.take_left]
  have hfront : (List.range s.length).filter
      (fun i => (s ++ [c])[i]? = some semicolon ∧ stateAt (s ++ [c]) i = .outside) =
        separators s := by
    apply List.filter_congr
    intro i hi
    have hlt : i < s.length := List.mem_range.mp hi
    rw [List.getElem?_append_left hlt, stateAt_append s [c] (Nat.le_of_lt hlt)]
  rw [separators, List.length_append, List.length_singleton, List.range_succ, List.filter_append,
    hfront]
  congr 1
  rw [List.filter_cons, List.filter_nil, hstate]
  simp

/-- The places behind consecutive segments, the first of which starts at `start`. -/
def closings (start : Nat) : List Text → List Nat
  | [] => []
  | s :: ss => (start + s.length) :: closings (start + s.length + 1) ss

theorem length_closings (start : Nat) (ss : List Text) : (closings start ss).length = ss.length := by
  induction ss generalizing start with
  | nil => rfl
  | cons s ss ih => rw [closings, List.length_cons, List.length_cons, ih]

/-- The segments of `rest` are closed by the separators of the text that stand in `rest`. The text is
known through the bytes `before`, whose state is `q`, and `current` starts where the segment does. -/
theorem closings_segmentsFrom (t before current rest : Text) (q : Quote) (start : Nat)
    (ht : t = before.reverse ++ rest) (hq : q = Quote.outside.scan [] before.reverse)
    (hstart : start + current.length = before.length) :
    closings start (segmentsFrom q before current rest) =
      (List.range' before.length rest.length).filter
        fun i => t[i]? = some semicolon ∧ stateAt t i = .outside := by
  induction rest generalizing before current q start with
  | nil => rfl
  | cons c rest ih =>
    have hc : t[before.length]? = some c := by simp [ht]
    have hstate : stateAt t before.length = q := by
      rw [stateAt, ht, ← List.length_reverse, List.take_left, hq]
    have ht' : t = (c :: before).reverse ++ rest := by simp [ht]
    have hq' : q.next before c = Quote.outside.scan [] (c :: before).reverse := by
      rw [List.reverse_cons, Quote.scan_concat, ← hq, List.reverse_reverse, List.append_nil]
    rw [segmentsFrom, List.length_cons, List.range'_succ, List.filter_cons, hc, hstate]
    by_cases hcut : q = .outside ∧ c = semicolon
    · -- a separator is skipped by the cutting but scanned by the states, which it does not change
      have hsame : Quote.outside = Quote.outside.scan [] (c :: before).reverse := by
        rw [← hq', hcut.1, hcut.2, Quote.next_semicolon]
      have hrest := ih (c :: before) [] .outside (before.length + 1) ht' hsame (by simp)
      rw [if_pos hcut, if_pos (by simp [hcut]), closings, List.length_reverse, hstart, hrest]
      rfl
    · have hplace : start + (c :: current).length = (c :: before).length := by
        simp
        omega
      have hrest := ih (c :: before) (c :: current) _ start ht' hq' hplace
      rw [if_neg hcut, if_neg (by simpa [and_comm] using hcut), hrest]
      rfl

theorem closings_segments (t : Text) : closings 0 (segments t) = separators (terminated t) := by
  have hcut := closings_segmentsFrom (terminated t) [] [] (terminated t) .outside 0 rfl rfl rfl
  rw [segments, hcut, separators, List.range_eq_range', List.length_nil]

/-- What is left behind the last segment. -/
def tailFrom (q : Quote) (before current : Text) : Text → Text
  | [] => current.reverse
  | c :: rest =>
    if q = .outside ∧ c = semicolon then tailFrom .outside (c :: before) [] rest
    else tailFrom (q.next before c) (c :: before) (c :: current) rest

/-- No byte is lost, added or moved. -/
theorem segmentsFrom_append_tailFrom (q : Quote) (before current rest : Text) :
    (segmentsFrom q before current rest).flatMap (· ++ [semicolon]) ++
        tailFrom q before current rest =
      current.reverse ++ rest := by
  induction rest generalizing q before current with
  | nil => simp [segmentsFrom, tailFrom]
  | cons c rest ih =>
    rw [segmentsFrom, tailFrom]
    by_cases hcut : q = .outside ∧ c = semicolon
    · rw [if_pos hcut, if_pos hcut, List.flatMap_cons, List.append_assoc, ih, hcut.2]
      simp
    · rw [if_neg hcut, if_neg hcut, ih]
      simp

/-- A text that ends in a semicolon leaves a tail exactly when this semicolon stands in a literal. -/
theorem tailFrom_eq_nil_iff (q : Quote) (before current rest : Text) :
    tailFrom q before current (rest ++ [semicolon]) = [] ↔ q.scan before rest = .outside := by
  induction rest generalizing q before current with
  | nil =>
    rw [List.nil_append, tailFrom, Quote.scan]
    by_cases hq : q = .outside
    · rw [if_pos ⟨hq, rfl⟩]
      exact iff_of_true rfl hq
    · have hin : ¬(q = .outside ∧ semicolon = semicolon) := by
        intro h
        exact hq h.1
      rw [if_neg hin]
      exact iff_of_false (by simp [tailFrom]) hq
  | cons c rest ih =>
    rw [List.cons_append, tailFrom, Quote.scan]
    by_cases hcut : q = .outside ∧ c = semicolon
    · rw [if_pos hcut, ih, hcut.1, hcut.2, Quote.next_semicolon]
    · rw [if_neg hcut]
      exact ih _ _ _

/-- What stands in front of the closing semicolon holds every separator but a final one. -/
theorem exists_terminated_concat (t : Text) :
    ∃ body, terminated t = body ++ [semicolon] ∧
      (separators t).filter (· + 1 ≠ t.length) = separators body := by
  by_cases hend : t.getLast? = some semicolon
  · obtain ⟨body, rfl⟩ := List.getLast?_eq_some_iff.mp hend
    have hkeep : (separators body).filter (· + 1 ≠ (body ++ [semicolon]).length) =
        separators body := by
      apply List.filter_eq_self.mpr
      intro i hi
      have hlt : i < body.length := (mem_separators.mp hi).1
      simp
      omega
    have hdrop : ∀ l : List Nat, (∀ i ∈ l, i = body.length) →
        l.filter (· + 1 ≠ (body ++ [semicolon]).length) = [] := by
      intro l hl
      apply List.filter_eq_nil_iff.mpr
      intro i hi
      simp [hl i hi]
    refine ⟨body, by rw [terminated, if_pos hend], ?_⟩
    rw [separators_concat, List.filter_append, hkeep, hdrop _ (by split <;> simp), List.append_nil]
  · refine ⟨t, by rw [terminated, if_neg hend], ?_⟩
    apply List.filter_eq_self.mpr
    intro i hi
    have hc : t[i]? = some semicolon := (mem_separators.mp hi).2.1
    have hne : i + 1 ≠ t.length := by
      intro he
      rw [List.getLast?_eq_getElem?, ← he, Nat.add_sub_cancel] at hend
      exact hend hc
    simpa using hne

/-- The text with its final semicolon is made up of the segments, each with its semicolon, and of the
tail of a literal that is never closed. The segments are closed by the semicolons outside of literals
and by no other. -/
theorem segments_partition (t : Text) :
    ∃ tail : Text,
      terminated t = (segments t).flatMap (· ++ [semicolon]) ++ tail ∧
      closings 0 (segments t) = separators (terminated t) ∧
      (tail = [] ↔ Quote.outside.scan [] (terminated t) = .outside) ∧
      (segments t).length =
        ((separators t).filter (· + 1 ≠ t.length)).length +
          if Quote.outside.scan [] (terminated t) = .outside then 1 else 0 := by
  obtain ⟨body, ht, hcount⟩ := exists_terminated_concat t
  have hstate : Quote.outside.scan [] (terminated t) = Quote.outside.scan [] body := by
    rw [ht, Quote.scan_concat, Quote.next_semicolon]
  refine ⟨tailFrom .outside [] [] (terminated t), ?_, closings_segments t, ?_, ?_⟩
  · exact (segmentsFrom_append_tailFrom .outside [] [] (terminated t)).symm
  · rw [hstate, ht]
    exact tailFrom_eq_nil_iff .outside [] [] body
  · calc (segments t).length
        = (separators (terminated t)).length := by
          rw [← length_closings 0, closings_segments]
      _ = (separators body).length +
            if Quote.outside.scan [] body = .outside then 1 else 0 := by
          rw [ht, separators_concat, List.length_append]
          congr 1
          by_cases hout : Quote.outside.scan [] body = .outside <;> simp [hout]
      _ = _ := by rw [hcount, hstate]

example : segments (.ascii "a;'b;") = [.ascii "a"] := by decide

end ScriptVet.Kql
