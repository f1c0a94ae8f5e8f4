import ScriptVet.Proofs.Kql.Statement

namespace ScriptVet.Kql

/-- A literal that is never closed begins in front of the first semicolon that would end a segment. -/
structure Swallowed (t : Text) : Prop where
  uncut : separators t = []
  unclosed : Quote.outside.scan [] t ≠ .outside

instance (t : Text) : Decidable (Swallowed t) :=
  decidable_of_iff (separators t = [] ∧ Quote.outside.scan [] t ≠ .outside)
    ⟨fun h => ⟨h.1, h.2⟩, fun h => ⟨h.uncut, h.unclosed⟩⟩

/-- The semicolon at the end makes a segment of any text that is closed in front of it. -/
theorem separators_concat_eq_nil {body : Text} :
    separators (body ++ [semicolon]) = [] ↔ Swallowed body := by
  rw [separators_concat, List.append_eq_nil_iff]
  constructor
  · rintro ⟨huncut, hlast⟩
    refine ⟨huncut, fun hclosed => ?_⟩
    rw [if_pos ⟨rfl, hclosed⟩] at hlast
    exact List.cons_ne_nil _ _ hlast
  · intro h
    exact ⟨h.uncut, if_neg fun hlast => h.unclosed hlast.2⟩

theorem swallowed_concat {body : Text} : Swallowed (body ++ [semicolon]) ↔ Swallowed body := by
  constructor
  · intro h
    exact separators_concat_eq_nil.mp h.uncut
  · intro h
    exact ⟨separators_concat_eq_nil.mpr h, by rw [Quote.scan_concat_semicolon]; exact h.unclosed⟩

theorem segments_eq_nil_iff {t : Text} : segments t = [] ↔ Swallowed t := by
  have hcut : segments t = [] ↔ separators (terminated t) = [] := by
    rw [← closings_segments, ← List.length_eq_zero_iff, ← List.length_eq_zero_iff, length_closings]
  rw [hcut]
  by_cases hlast : t.getLast? = some semicolon
  · obtain ⟨body, rfl⟩ := List.getLast?_eq_some_iff.mp hlast
    rw [terminated_concat, separators_concat_eq_nil, swallowed_concat]
  · rw [terminated, if_neg hlast, separators_concat_eq_nil]

namespace Statement

variable {engine : Text}

theorem read_foreign (h : engine ≠ Kql.engine) (t : Text) :
    read t engine = ⟨[], .done (.error ⟨.foreignEngine engine, t.excerpt⟩)⟩ := by
  rw [read, if_pos h]
  rfl

/-- The first segment is refused, and the others are not looked at. -/
theorem readAll_foreign (h : engine ≠ Kql.engine) (s : Text) (ss : List Text) :
    readAll engine (s :: ss) = ⟨[], .done (.error ⟨.foreignEngine engine, s.excerpt⟩)⟩ := by
  rw [readAll, Run.bind_done (by rw [read_foreign h]), read_foreign h]
  rfl

/-- A text for another engine is never read and never warned about. Splitting it fails with the same
cause as reading it, at its first segment, just when there is a segment; where an open literal swallows
the text, it ends without statements and without an error. -/
theorem split_foreign (h : engine ≠ Kql.engine) (t : Text) :
    read t engine = ⟨[], .done (.error ⟨.foreignEngine engine, t.take 80⟩)⟩ ∧
    (∀ s ss, segments t = s :: ss →
      split t engine = ⟨[], .done (.error ⟨.foreignEngine engine, s.take 80⟩)⟩) ∧
    (Swallowed t → split t engine = ⟨[], .done (.ok [])⟩) ∧
    ((∃ e, (split t engine).outcome = .done (.error e) ∧ e.cause = .foreignEngine engine ∧
      e.cause.code = .ascii "invalid_engine") ↔ ¬Swallowed t) := by
  have hrefused (s : Text) (ss : List Text) (hs : segments t = s :: ss) :
      split t engine = ⟨[], .done (.error ⟨.foreignEngine engine, s.take 80⟩)⟩ := by
    rw [split, hs, readAll_foreign h]
    rfl
  have hempty (ht : Swallowed t) : split t engine = ⟨[], .done (.ok [])⟩ := by
    rw [split, segments_eq_nil_iff.mpr ht]
    rfl
  refine ⟨read_foreign h t, hrefused, hempty, ?_⟩
  constructor
  · rintro ⟨e, he, -⟩ ht
    rw [hempty ht] at he
    cases he
  · intro ht
    obtain ⟨s, ss, hs⟩ := List.exists_cons_of_ne_nil (mt segments_eq_nil_iff.mp ht)
    rw [hrefused s ss hs]
    exact ⟨_, rfl, rfl, rfl⟩

/-- A segment in front of the open literal is enough for the refusal. -/
theorem split_foreign_segment :
    Text.ascii "mysql" ≠ Kql.engine ∧ ¬Swallowed (.ascii "a;'b;") ∧ Swallowed (.ascii "'a;b") ∧
    split (.ascii "a;'b;") (.ascii "mysql") =
      ⟨[], .done (.error ⟨.foreignEngine (.ascii "mysql"), .ascii "a"⟩)⟩ ∧
    split (.ascii "'a;b") (.ascii "mysql") = ⟨[], .done (.ok [])⟩ := by
  have hengine : Text.ascii "mysql" ≠ Kql.engine := by decide
  have hswallowed : Swallowed (.ascii "'a;b") := by decide
  exact ⟨hengine, by decide, hswallowed,
    (split_foreign hengine (.ascii "a;'b;")).2.1 (.ascii "a") [] (by decide),
    (split_foreign hengine (.ascii "'a;b")).2.2.1 hswallowed⟩

/-- A quote that is never closed passes for another engine, and leaves no statements. -/
theorem open_quote_splits :
    Text.ascii "mysql" ≠ Kql.engine ∧
    split (.ascii "'a") (.ascii "mysql") = ⟨[], .done (.ok [])⟩ ∧
    ¬∃ e, (split (.ascii "'a") (.ascii "mysql")).outcome = .done (.error e) := by
  refine ⟨by decide, rfl, ?_⟩
  rintro ⟨e, he⟩
  cases he

end Statement

end ScriptVet.Kql
