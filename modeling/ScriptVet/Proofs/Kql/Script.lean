import ScriptVet.Proofs.Kql.Statement
import ScriptVet.Proofs.Text.Line
import ScriptVet.Script

namespace ScriptVet

namespace Kql

theorem blank_newline : (Text.ascii "\n").Blank := Text.blank_singleton (by decide)

/-- Joining puts a new line in front of each statement but the first. -/
theorem segments_joined_cons {x : Text} (hx : Whole x) (y : Text) (ys : List Text) :
    segments (Text.joined (.ascii ";\n") (x :: y :: ys)) =
      x :: (segments (Text.joined (.ascii ";\n") (y :: ys))).modifyHead (Text.ascii "\n" ++ ·) := by
  have hrest : Text.ascii "\n" ++ Text.joined (.ascii ";\n") (y :: ys) ≠ [] :=
    List.append_ne_nil_of_left_ne_nil (by decide) _
  rw [Text.joined_cons_cons]
  change segments (x ++ semicolon :: (Text.ascii "\n" ++ _)) = _
  rw [hx.segments_append hrest, segments_blank_append blank_newline]

/-- The statements of a script are separated again where they were joined. -/
theorem map_trim_segments_joined {xs : List Text} (hne : xs ≠ []) (hxs : ∀ x ∈ xs, Whole x) :
    (segments (Text.joined (.ascii ";\n") xs)).map Text.trim = xs.map Text.trim := by
  induction xs with
  | nil => exact absurd rfl hne
  | cons x xs ih =>
    obtain ⟨hx, hxs⟩ := List.forall_mem_cons.mp hxs
    cases xs with
    | nil =>
      rw [Text.joined_singleton, hx.segments_eq]
    | cons y ys =>
      rw [segments_joined_cons hx, List.map_cons, map_trim_modifyHead blank_newline,
        ih (List.cons_ne_nil y ys) hxs]
      rfl

end Kql

namespace Script

/-- The KQL script of these statement texts. -/
def ofKql (xs : List Text) : Script := ⟨Kql.engine, xs.map fun x => .kql ⟨x⟩⟩

theorem read_kql (g : Option Grammar) (t : Text) :
    (read g t Kql.engine).outcome = .done (.ok (ofKql ((Kql.segments t).map Text.trim))) := by
  rw [read, if_pos rfl, Kql.Statement.split_eq, Run.bind_done rfl]
  simp [Run.pure_eq, Except.map, ofKql]

theorem format_ofKql (xs : List Text) (comments : Bool) :
    (ofKql xs).format comments = pure (Text.joined (.ascii ";\n") xs) := by
  have htexts : (ofKql xs).statements.mapM (·.format comments) = (pure xs : Run (List Text)) := by
    rw [ofKql, List.mapM_map]
    exact (List.mapM_pure).trans (by rw [List.map_id'])
  rw [format, htexts, pure_bind]

/-- Formatting a KQL script and reading the result again changes nothing, except that a text of no
statement becomes the one empty statement. -/
theorem format_read (g g' : Option Grammar) (t : Text) (comments : Bool) :
    ∃ (s s' : Script) (formatted : Text),
      (read g t Kql.engine).outcome = .done (.ok s) ∧
      s.format comments = pure formatted ∧
      (read g' formatted Kql.engine).outcome = .done (.ok s') ∧
      (s.statements ≠ [] → s'.statements = s.statements) ∧
      (s.statements = [] → formatted = [] ∧ s'.statements = [.kql ⟨[]⟩]) ∧
      (∀ comments', s'.format comments' = s.format comments') ∧
      s'.mutating = s.mutating ∧
      s'.settings = s.settings := by
  let xs : List Text := (Kql.segments t).map Text.trim
  have hxs : ∀ x ∈ xs, Kql.Whole x ∧ x.trim = x := by
    intro x hx
    obtain ⟨s, hs, rfl⟩ := List.mem_map.mp hx
    exact ⟨(Kql.whole_of_mem_segments hs).trim, s.trim_trim⟩
  refine ⟨ofKql xs, _, _, read_kql g t, format_ofKql xs comments, read_kql g' _, ?_⟩
  by_cases hne : xs = []
  · rw [hne]
    refine ⟨fun h => absurd rfl h, fun _ => ⟨rfl, rfl⟩, ?_, rfl, rfl⟩
    intro comments'
    rw [format_ofKql, format_ofKql]
    rfl
  · have hsame : (Kql.segments (Text.joined (.ascii ";\n") xs)).map Text.trim = xs :=
      calc _ = xs.map Text.trim := Kql.map_trim_segments_joined hne fun x hx => (hxs x hx).1
        _ = xs.map id := List.map_congr_left fun x hx => (hxs x hx).2
        _ = xs := List.map_id xs
    rw [hsame]
    exact ⟨fun _ => rfl, fun h => absurd (List.map_eq_nil_iff.mp h) hne, fun _ => rfl, rfl, rfl⟩

/-- An open literal is no statement. -/
example : Kql.segments (.ascii "'a;") = [] := by decide

end Script

end ScriptVet
