import ScriptVet.Proofs.Kql.Quote
import ScriptVet.Proofs.Kql.Segment
import ScriptVet.Proofs.Text.Trim

namespace ScriptVet.Kql

theorem Alike.segmentsFrom {before before' : Text} (h : Alike before before') (q : Quote)
    (current rest : Text) :
    segmentsFrom q before current rest = segmentsFrom q before' current rest := by
  induction rest generalizing q before before' current with
  | nil => rfl
  | cons c rest ih =>
    rw [Kql.segmentsFrom, Kql.segmentsFrom, h.next q c, ih (h.cons c), ih (h.cons c)]

/-- What stands in the segment under way goes to the front of the first segment. -/
theorem segmentsFrom_current (q : Quote) (before near far rest : Text) :
    segmentsFrom q before (near ++ far) rest =
      (segmentsFrom q before near rest).modifyHead (far.reverse ++ ·) := by
  induction rest generalizing q before near with
  | nil => rfl
  | cons c rest ih =>
    rw [segmentsFrom, segmentsFrom]
    by_cases hcut : q = .outside ∧ c = semicolon
    · rw [if_pos hcut, if_pos hcut, List.reverse_append, List.modifyHead_cons]
    · rw [if_neg hcut, if_neg hcut, ← List.cons_append, ih]

theorem segmentsFrom_append (q : Quote) (before current s t : Text) :
    segmentsFrom q before current (s ++ t) =
      segmentsFrom q before current s ++
        segmentsFrom (q.scan before s) (s.reverse ++ before)
          (tailFrom q before current s).reverse t := by
  induction s generalizing q before current with
  | nil => simp [segmentsFrom, tailFrom, Quote.scan]
  | cons c s ih =>
    rw [List.cons_append, segmentsFrom, segmentsFrom, tailFrom, Quote.scan, List.reverse_cons,
      List.append_assoc, List.singleton_append]
    by_cases hcut : q = .outside ∧ c = semicolon
    · -- the scan reads the separator that the cutting skips, and stays outside
      rw [if_pos hcut, if_pos hcut, if_pos hcut, ih, hcut.1, hcut.2, Quote.next_semicolon,
        List.cons_append]
    · rw [if_neg hcut, if_neg hcut, if_neg hcut, ih]

/-- Behind a part that is not cut the first segment goes on. -/
theorem segmentsFrom_uncut {q : Quote} {before current s : Text}
    (hs : segmentsFrom q before current s = []) (t : Text) :
    segmentsFrom q before current (s ++ t) =
      (segmentsFrom (q.scan before s) (s.reverse ++ before) [] t).modifyHead
        (current.reverse ++ s ++ ·) := by
  have htail : tailFrom q before current s = current.reverse ++ s := by
    rw [← segmentsFrom_append_tailFrom, hs, List.flatMap_nil, List.nil_append]
  rw [segmentsFrom_append, hs, List.nil_append, htail]
  have hmove := segmentsFrom_current (q.scan before s) (s.reverse ++ before) []
    (current.reverse ++ s).reverse t
  rwa [List.nil_append, List.reverse_reverse] at hmove

theorem segmentsFrom_of_not_mem {t : Text} (ht : semicolon ∉ t) (q : Quote)
    (before current : Text) : segmentsFrom q before current t = [] := by
  induction t generalizing q before current with
  | nil => rfl
  | cons c t ih =>
    obtain ⟨hc, ht⟩ := not_or.mp (mt List.mem_cons.mpr ht)
    have hgo : ¬(q = .outside ∧ c = semicolon) := fun h => hc h.2.symm
    rw [segmentsFrom, if_neg hgo]
    exact ih ht _ _ _

/-- Inside of a literal nothing is cut. -/
theorem segmentsFrom_of_inside {q : Quote} (hq : q ≠ .outside) {t : Text}
    (h : ∀ c ∈ t, ∀ before, q.next before c = q) (before current : Text) :
    segmentsFrom q before current t = [] := by
  induction t generalizing before current with
  | nil => rfl
  | cons c t ih =>
    obtain ⟨hc, ht⟩ := List.forall_mem_cons.mp h
    have hgo : ¬(q = .outside ∧ c = semicolon) := fun hcut => hq hcut.1
    rw [segmentsFrom, if_neg hgo, hc]
    exact ih ht _ _

/-- Only the end of a text decides about its final semicolon. -/
theorem terminated_append {s t : Text} (h : t ≠ [] ∨ s.getLast? ≠ some semicolon) :
    terminated (s ++ t) = s ++ terminated t := by
  cases t with
  | nil =>
    have hs : s.getLast? ≠ some semicolon := h.resolve_left fun hne => hne rfl
    rw [List.append_nil, terminated, if_neg hs]
    rfl
  | cons c t =>
    have hlast : (s ++ c :: t).getLast? = (c :: t).getLast? := by
      rw [List.getLast?_append, List.getLast?_cons, Option.some_or]
    rw [terminated, terminated, hlast]
    split
    · rfl
    · rw [List.append_assoc]

theorem terminated_concat (a : Text) : terminated (a ++ [semicolon]) = a ++ [semicolon] := by
  rw [terminated, if_pos List.getLast?_concat]

/-- Behind a semicolon outside of literals a text is cut as if it began there. -/
theorem segments_separator {a b : Text} (ha : Quote.outside.scan [] a = .outside) (hb : b ≠ []) :
    segments (a ++ semicolon :: b) = segments (a ++ [semicolon]) ++ segments b := by
  have hfresh : Alike ((a ++ [semicolon]).reverse ++ []) [] := by
    rw [List.reverse_append]
    exact alike_nil (by decide) (by decide) _
  have hstate : Quote.outside.scan [] (a ++ [semicolon]) = .outside := by
    rw [Quote.scan_concat_semicolon, ha]
  have htail : tailFrom .outside [] [] (a ++ [semicolon]) = [] :=
    (tailFrom_eq_nil_iff .outside [] [] a).mpr ha
  rw [List.append_cons, segments, terminated_append (.inl hb), segmentsFrom_append, hstate, htail,
    hfresh.segmentsFrom, segments, terminated_concat]
  rfl

/-- A final semicolon outside of literals is cut. -/
theorem segmentsFrom_concat_ne_nil {a : Text} (ha : Quote.outside.scan [] a = .outside) :
    segmentsFrom .outside [] [] (a ++ [semicolon]) ≠ [] := by
  rw [segmentsFrom_append, ha, segmentsFrom, if_pos ⟨rfl, rfl⟩]
  simp

/-- The final semicolon can be left out. -/
theorem segments_concat {a : Text} (ha : a.getLast? ≠ some semicolon) :
    segments (a ++ [semicolon]) = segments a := by
  rw [segments, segments, terminated_concat, terminated, if_neg ha]

/-- A text that ends outside of literals and is not cut anywhere. -/
structure Whole (s : Text) : Prop where
  uncut : segmentsFrom .outside [] [] s = []
  closed : Quote.outside.scan [] s = .outside

/-- The text so far is a number of finished segments and `current`, which are read as they would be
on their own, so each segment keeps what was found out while it was read. -/
theorem whole_of_mem_segmentsFrom {before current rest : Text} {q : Quote} {s : Text}
    (hbefore : Alike before current) (huncut : segmentsFrom .outside [] [] current.reverse = [])
    (hq : q = Quote.outside.scan [] current.reverse)
    (hs : s ∈ segmentsFrom q before current rest) : Whole s := by
  induction rest generalizing q before current with
  | nil => cases hs
  | cons c rest ih =>
    rw [segmentsFrom] at hs
    by_cases hcut : q = .outside ∧ c = semicolon
    · rw [if_pos hcut] at hs
      rcases List.mem_cons.mp hs with rfl | hs
      · exact ⟨huncut, hq.symm.trans hcut.1⟩
      · have hfresh : Alike (c :: before) [] := by
          rw [hcut.2]
          exact alike_nil (by decide) (by decide) before
        exact ih hfresh rfl rfl hs
    · rw [if_neg hcut] at hs
      have hnext : q.next before c = Quote.outside.scan [] (c :: current).reverse := by
        rw [List.reverse_cons, Quote.scan_concat, ← hq, List.reverse_reverse, List.append_nil,
          hbefore.next]
      have hgo : segmentsFrom .outside [] [] (c :: current).reverse = [] := by
        rw [List.reverse_cons, segmentsFrom_uncut huncut, ← hq, segmentsFrom, if_neg hcut]
        rfl
      exact ih (hbefore.cons c) hgo hnext hs

theorem whole_of_mem_segments {t s : Text} (hs : s ∈ segments t) : Whole s :=
  whole_of_mem_segmentsFrom (Alike.refl []) rfl rfl hs

theorem Whole.getLast?_ne {s : Text} (hs : Whole s) : s.getLast? ≠ some semicolon := by
  intro hlast
  obtain ⟨body, rfl⟩ := List.getLast?_eq_some_iff.mp hlast
  have hbody : Quote.outside.scan [] body = .outside := by
    rw [← Quote.scan_concat_semicolon, hs.closed]
  exact segmentsFrom_concat_ne_nil hbody hs.uncut

/-- A whole text is read to its end as a part of one segment. -/
theorem Whole.segmentsFrom_append {s before : Text} (hs : Whole s) (hbefore : Alike before [])
    (rest : Text) :
    segmentsFrom .outside before [] (s ++ rest) =
      (segmentsFrom .outside (s.reverse ++ before) [] rest).modifyHead (s ++ ·) := by
  have huncut : segmentsFrom .outside before [] s = [] := by
    rw [hbefore.segmentsFrom, hs.uncut]
  rw [segmentsFrom_uncut huncut, hbefore.scan, hs.closed]
  rfl

theorem Whole.segments_eq {s : Text} (hs : Whole s) : segments s = [s] := by
  rw [segments, terminated, if_neg hs.getLast?_ne,
    hs.segmentsFrom_append (Alike.refl []), segmentsFrom, if_pos ⟨rfl, rfl⟩]
  simp [segmentsFrom]

/-- A whole text and the semicolon behind it make up the first segment. -/
theorem Whole.segments_append {s t : Text} (hs : Whole s) (ht : t ≠ []) :
    segments (s ++ semicolon :: t) = s :: segments t := by
  rw [segments_separator hs.closed ht, segments_concat hs.getLast?_ne, hs.segments_eq]
  rfl

theorem semicolon_not_mem_blank {u : Text} (hu : u.Blank) : semicolon ∉ u := by
  intro h
  exact absurd (hu semicolon h) (by decide)

theorem Quote.scan_blank {u : Text} (hu : u.Blank) (q : Quote) (before : Text) :
    q.scan before u = q :=
  Quote.scan_of_keeps (fun _ hc => Quote.next_space (hu _ hc) q) before

theorem whole_of_blank {u : Text} (hu : u.Blank) : Whole u where
  uncut := segmentsFrom_of_not_mem (semicolon_not_mem_blank hu) .outside [] []
  closed := Quote.scan_blank hu .outside []

theorem alike_blank {u : Text} (hu : u.Blank) : Alike u.reverse [] := by
  cases h : u.reverse with
  | nil => exact Alike.refl []
  | cons c u' =>
    have hc : c ∈ u := List.mem_reverse.mp (h ▸ List.mem_cons_self)
    exact alike_space (hu c hc) u'

/-- White space in front belongs to the first segment. -/
theorem segmentsFrom_blank_append {u : Text} (hu : u.Blank) (t : Text) :
    segmentsFrom .outside [] [] (u ++ t) =
      (segmentsFrom .outside [] [] t).modifyHead (u ++ ·) := by
  rw [(whole_of_blank hu).segmentsFrom_append (Alike.refl []), List.append_nil,
    (alike_blank hu).segmentsFrom]

theorem segments_blank_append {u : Text} (hu : u.Blank) (t : Text) :
    segments (u ++ t) = (segments t).modifyHead (u ++ ·) := by
  have hend : terminated (u ++ t) = u ++ terminated t :=
    terminated_append (.inr (whole_of_blank hu).getLast?_ne)
  rw [segments, hend, segmentsFrom_blank_append hu, segments]

theorem map_trim_modifyHead {u : Text} (hu : u.Blank) (ss : List Text) :
    (ss.modifyHead (u ++ ·)).map Text.trim = ss.map Text.trim := by
  cases ss with
  | nil => rfl
  | cons s ss => rw [List.modifyHead_cons, List.map_cons, List.map_cons, Text.trim_blank_append hu]

/-- White space at the ends makes no difference to whether a text is whole. -/
theorem whole_blank_append_iff {u s w : Text} (hu : u.Blank) (hw : w.Blank) :
    Whole (u ++ s ++ w) ↔ Whole s := by
  have huncut : segmentsFrom .outside [] [] (u ++ s ++ w) =
      (segmentsFrom .outside [] [] s).modifyHead (u ++ ·) := by
    rw [segmentsFrom_append, segmentsFrom_of_not_mem (semicolon_not_mem_blank hw), List.append_nil,
      segmentsFrom_blank_append hu]
  have hclosed : Quote.outside.scan [] (u ++ s ++ w) = Quote.outside.scan [] s := by
    rw [Quote.scan_append, Quote.scan_blank hw, Quote.scan_append, Quote.scan_blank hu,
      List.append_nil, (alike_blank hu).scan]
  constructor
  · intro h
    exact ⟨List.modifyHead_eq_nil_iff.mp (huncut ▸ h.uncut), hclosed ▸ h.closed⟩
  · intro h
    exact ⟨by rw [huncut, h.uncut, List.modifyHead_nil], hclosed.trans h.closed⟩

theorem Whole.trim {s : Text} (hs : Whole s) : Whole s.trim := by
  obtain ⟨u, w, hu, hw, h⟩ := s.exists_blank_trim
  rw [h] at hs
  exact (whole_blank_append_iff hu hw).mp hs

end ScriptVet.Kql
