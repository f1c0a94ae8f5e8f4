import ScriptVet.Proofs.Kql.Whole
import ScriptVet.Proofs.Statement

namespace ScriptVet.Kql

/-- The text ends in a semicolon that ends a segment. -/
def EndsSegment (t : Text) : Prop :=
  t.getLast? = some semicolon ∧ Quote.outside.scan [] t = .outside

instance (t : Text) : Decidable (EndsSegment t) := inferInstanceAs (Decidable (_ ∧ _))

theorem EndsSegment.exists_body {t : Text} (h : EndsSegment t) :
    ∃ body, t = body ++ [semicolon] ∧ Quote.outside.scan [] body = .outside := by
  obtain ⟨hlast, hclosed⟩ := h
  obtain ⟨body, rfl⟩ := List.getLast?_eq_some_iff.mp hlast
  rw [Quote.scan_concat_semicolon] at hclosed
  exact ⟨body, rfl, hclosed⟩

/-- What follows the end of the last segment is cut as if it began there. -/
theorem EndsSegment.segments_append {a b : Text} (ha : EndsSegment a) (hb : b ≠ []) :
    segments (a ++ b) = segments a ++ segments b := by
  obtain ⟨body, rfl, hbody⟩ := ha.exists_body
  rw [List.append_assoc, List.singleton_append, segments_separator hbody hb]

theorem EndsSegment.segments_ne_nil {t : Text} (h : EndsSegment t) : segments t ≠ [] := by
  obtain ⟨body, rfl, hbody⟩ := h.exists_body
  rw [segments, terminated_concat]
  exact segmentsFrom_concat_ne_nil hbody

/-- A semicolon separates the segments of a closed text that does not end in one from those of any
text that is not empty. Where just one of the two conditions fails, the semicolon between the texts
makes one segment less or more. -/
theorem segments_distribute {a : Text} (ha : Quote.outside.scan [] a = .outside) (b : Text) :
    (a.getLast? ≠ some semicolon → b ≠ [] →
      segments (a ++ semicolon :: b) = segments a ++ segments b) ∧
    (segments (a ++ semicolon :: b) = segments a ++ segments b →
      (a.getLast? ≠ some semicolon ↔ b ≠ [])) := by
  constructor
  · intro hlast hb
    rw [segments_separator ha hb, segments_concat hlast]
  · intro h
    constructor
    · rintro hlast rfl
      have hlength := congrArg List.length h
      rw [segments_concat hlast, List.length_append] at hlength
      have hempty : (segments []).length = 1 := rfl
      omega
    · intro hb hlast
      have hends : EndsSegment a := ⟨hlast, ha⟩
      rw [segments_separator ha hb, hends.segments_append (List.cons_ne_nil semicolon [])] at h
      have hlength := congrArg List.length h
      have hempty : (segments [semicolon]).length = 1 := rfl
      rw [List.length_append, List.length_append, List.length_append] at hlength
      omega

/-- The second text is read as it would be on its own, up to a literal that is never closed. -/
theorem segments_distribute_open :
    Quote.outside.scan [] (.ascii "a ';'") = .outside ∧
    (Text.ascii "a ';'").getLast? ≠ some semicolon ∧ Text.ascii "b;;'c;" ≠ [] ∧
    segments (.ascii "a ';';b;;'c;") = segments (.ascii "a ';'") ++ segments (.ascii "b;;'c;") ∧
    segments (.ascii "a ';';b;;'c;") = [Text.ascii "a ';'", Text.ascii "b", []] := by
  have ha : Quote.outside.scan [] (.ascii "a ';'") = .outside := by decide
  have hlast : (Text.ascii "a ';'").getLast? ≠ some semicolon := by decide
  have hb : Text.ascii "b;;'c;" ≠ [] := by decide
  exact ⟨ha, hlast, hb, (segments_distribute ha (.ascii "b;;'c;")).1 hlast hb, by decide⟩

theorem getLast?_append_blank {t w : Text} (hw : w.Blank)
    (h : w ≠ [] ∨ t.getLast? ≠ some semicolon) : (t ++ w).getLast? ≠ some semicolon := by
  rw [List.getLast?_append]
  cases hlast : w.getLast? with
  | none =>
    have hnil : w = [] := List.getLast?_eq_none_iff.mp hlast
    exact h.resolve_left fun hne => hne hnil
  | some c =>
    rw [Option.some_or, ← hlast]
    exact (whole_of_blank hw).getLast?_ne

/-- White space at the end belongs to the segment under way, if the text is closed, and is dropped
with the literal that it stands in otherwise. -/
theorem segments_append_blank {t w : Text} (hw : w.Blank)
    (h : w ≠ [] ∨ t.getLast? ≠ some semicolon) :
    segments (t ++ w) =
      segmentsFrom .outside [] [] t ++
        if Quote.outside.scan [] t = .outside then [tailFrom .outside [] [] t ++ w] else [] := by
  have huncut (q : Quote) (before current : Text) : segmentsFrom q before current w = [] :=
    segmentsFrom_of_not_mem (semicolon_not_mem_blank hw) q before current
  rw [segments, terminated, if_neg (getLast?_append_blank hw h), List.append_assoc,
    segmentsFrom_append, segmentsFrom_uncut (huncut _ _ _), Quote.scan_blank hw, segmentsFrom]
  by_cases hout : Quote.outside.scan [] t = .outside
  · rw [if_pos ⟨hout, rfl⟩, if_pos hout]
    simp [segmentsFrom]
  · rw [if_neg fun hcut => hout hcut.1, if_neg hout]
    rfl

/-- The statements that a text is split into. -/
def statements (t : Text) : List Statement := (segments t).map fun s => ⟨s.trim⟩

theorem statements_blank_append {u : Text} (hu : u.Blank) (t : Text) :
    statements (u ++ t) = statements t := by
  have htrim := congrArg (List.map Statement.mk) (map_trim_modifyHead hu (segments t))
  rw [List.map_map, List.map_map] at htrim
  rw [statements, segments_blank_append hu]
  exact htrim

theorem statements_append_blank {t w : Text} (hw : w.Blank) (h : w = [] ∨ ¬EndsSegment t) :
    statements (t ++ w) = statements t := by
  by_cases hnil : w = []
  · rw [hnil, List.append_nil]
  have hends : ¬EndsSegment t := h.resolve_left hnil
  rw [statements, statements, segments_append_blank hw (.inl hnil)]
  by_cases hlast : t.getLast? = some semicolon
  · -- the semicolon stands in a literal that is never closed, and the white space with it
    have hopen : Quote.outside.scan [] t ≠ .outside := fun hout => hends ⟨hlast, hout⟩
    rw [if_neg hopen, List.append_nil, segments, terminated, if_pos hlast]
  · have hbare := segments_append_blank (t := t) (List.forall_mem_nil _) (.inr hlast)
    rw [List.append_nil, List.append_nil] at hbare
    rw [hbare, List.map_append, List.map_append]
    split
    · rw [List.map_singleton, List.map_singleton, Text.trim_append_blank hw]
    · rfl

/-- Behind the end of the last segment white space is a segment of its own. -/
theorem statements_append_blank_of_ends {t w : Text} (hw : w.Blank) (hne : w ≠ [])
    (h : EndsSegment t) : statements (t ++ w) = statements t ++ [⟨[]⟩] := by
  rw [statements, h.segments_append hne, (whole_of_blank hw).segments_eq, List.map_append,
    List.map_singleton, Text.trim_of_blank hw, statements]

namespace Statement

/-- White space around a text changes nothing in its statements, unless it stands behind a semicolon
that has ended the last segment. There it adds an empty statement, so that the text is never read as
one statement. -/
theorem surrounded_by_space {u w : Text} (hu : u.Blank) (hw : w.Blank) (t : Text) :
    (w = [] ∨ ¬EndsSegment t →
      split (u ++ t ++ w) Kql.engine = split t Kql.engine ∧
      ∀ x, (read (u ++ t ++ w) Kql.engine).outcome = .done (.ok x) ↔
        (read t Kql.engine).outcome = .done (.ok x)) ∧
    (w ≠ [] → EndsSegment t → ∃ xs : List Statement,
      (split t Kql.engine).outcome = .done (.ok xs) ∧
      (split (u ++ t ++ w) Kql.engine).outcome = .done (.ok (xs ++ [⟨[]⟩])) ∧
      (read (u ++ t ++ w) Kql.engine).outcome =
        .done (.error ⟨.notSingle .kql (xs.length + 1), (u ++ t ++ w).excerpt⟩)) := by
  have hsplit (t : Text) : split t Kql.engine =
      ⟨List.replicate (statements t).length (.note .warn (warning Kql.engine)),
        .done (.ok (statements t))⟩ := by
    rw [split_eq, statements, List.length_map]
  have hread (t : Text) :
      (read t Kql.engine).outcome = .done (sole .kql t (.ok (statements t))) :=
    outcome_read t
  rw [List.append_assoc]
  constructor
  · intro h
    have hsame : statements (u ++ (t ++ w)) = statements t := by
      rw [statements_blank_append hu, statements_append_blank hw h]
    refine ⟨by rw [hsplit, hsplit, hsame], fun x => ?_⟩
    rw [hread, hread, hsame, Outcome.done.injEq, Outcome.done.injEq, sole_eq_ok, sole_eq_ok]
  · intro hne hends
    have hadded : statements (u ++ (t ++ w)) = statements t ++ [⟨[]⟩] := by
      rw [statements_blank_append hu, statements_append_blank_of_ends hw hne hends]
    have hpos : 0 < (statements t).length := by
      rw [statements, List.length_map]
      exact List.length_pos_iff.mpr hends.segments_ne_nil
    have hlength : (statements (u ++ (t ++ w))).length = (statements t).length + 1 := by
      rw [hadded, List.length_append, List.length_singleton]
    refine ⟨statements t, by rw [hsplit], by rw [hsplit, hadded], ?_⟩
    rw [hread, sole_of_length_ne (by omega), hlength]

/-- Spaces around a semicolon do not show, nor does white space in an open literal, but a new line
behind the semicolon does. -/
theorem surrounded_by_space_newline :
    (Text.ascii "\t").Blank ∧ (Text.ascii " \n").Blank ∧
    ¬EndsSegment (.ascii "a; b") ∧ ¬EndsSegment (.ascii "a; 'b;") ∧ EndsSegment (.ascii "a;") ∧
    split (.ascii "\ta; b \n") Kql.engine = split (.ascii "a; b") Kql.engine ∧
    split (.ascii "\ta; 'b; \n") Kql.engine = split (.ascii "a; 'b;") Kql.engine ∧
    ∃ xs : List Statement, (split (.ascii "a;") Kql.engine).outcome = .done (.ok xs) ∧
      (split (.ascii "\ta; \n") Kql.engine).outcome = .done (.ok (xs ++ [⟨[]⟩])) := by
  have hu : (Text.ascii "\t").Blank := Text.blank_singleton (by decide)
  have hw : (Text.ascii " \n").Blank :=
    List.all_eq_true.mp (by decide : (Text.ascii " \n").all Text.isSpace = true)
  have hends : EndsSegment (.ascii "a;") := by decide
  obtain ⟨xs, hxs, hmore, -⟩ := (surrounded_by_space hu hw (.ascii "a;")).2 (by decide) hends
  exact ⟨hu, hw, by decide, by decide, hends,
    ((surrounded_by_space hu hw (.ascii "a; b")).1 (.inr (by decide))).1,
    ((surrounded_by_space hu hw (.ascii "a; 'b;")).1 (.inr (by decide))).1, xs, hxs, hmore⟩

/-- A text that is one statement is two with a new line behind it, the second of them empty. -/
theorem newline_adds_statement :
    (Text.ascii "\n").Blank ∧
    (read (.ascii "a;") Kql.engine).outcome = .done (.ok ⟨.ascii "a"⟩) ∧
    (read (.ascii "a;" ++ .ascii "\n") Kql.engine).outcome =
      .done (.error ⟨.notSingle .kql 2, .ascii "a;\n"⟩) ∧
    (split (.ascii "a;") Kql.engine).outcome = .done (.ok [⟨.ascii "a"⟩]) ∧
    (split (.ascii "a;" ++ .ascii "\n") Kql.engine).outcome =
      .done (.ok [⟨.ascii "a"⟩, ⟨[]⟩]) :=
  ⟨Text.blank_singleton (by decide), rfl, rfl, rfl, rfl⟩

end Statement

end ScriptVet.Kql
