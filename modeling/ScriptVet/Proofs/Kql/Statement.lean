import ScriptVet.Kql.Statement
import ScriptVet.Proofs.Kql.Whole

namespace ScriptVet.Kql.Statement

theorem read_single {t s : Text} (ht : segments t = [s]) :
    read t Kql.engine = ⟨[.note .warn (warning Kql.engine)], .done (.ok ⟨s.trim⟩)⟩ := by
  rw [read, if_neg (not_not_intro rfl), ht]
  rfl

/-- Each text is one statement, so no reading fails and each one leaves its warning. -/
theorem readAll_whole {ss : List Text} (hss : ∀ s ∈ ss, Whole s) :
    readAll Kql.engine ss =
      ⟨List.replicate ss.length (.note .warn (warning Kql.engine)),
        .done (.ok (ss.map fun s => ⟨s.trim⟩))⟩ := by
  induction ss with
  | nil => rfl
  | cons s ss ih =>
    obtain ⟨hs, hss⟩ := List.forall_mem_cons.mp hss
    rw [readAll, Run.bind_done (by rw [read_single hs.segments_eq])]
    rw [read_single hs.segments_eq, ih hss]
    rfl

theorem split_eq (t : Text) :
    split t Kql.engine =
      ⟨List.replicate (segments t).length (.note .warn (warning Kql.engine)),
        .done (.ok ((segments t).map fun s => ⟨s.trim⟩))⟩ :=
  readAll_whole fun _ => whole_of_mem_segments

/-- A segment stays one segment when it is cut again, as it is or trimmed. So a text is split into
one statement for each segment, with one warning for each, and a statement's text is read as this
statement. -/
theorem split_stable (t : Text) :
    (∀ s ∈ segments t, segments s = [s] ∧ segments s.trim = [s.trim]) ∧
    split t Kql.engine =
      ⟨List.replicate (segments t).length (.note .warn (warning Kql.engine)),
        .done (.ok ((segments t).map fun s => ⟨s.trim⟩))⟩ ∧
    ∀ x ∈ (segments t).map Text.trim,
      read x Kql.engine = ⟨[.note .warn (warning Kql.engine)], .done (.ok ⟨x⟩)⟩ := by
  refine ⟨?_, split_eq t, ?_⟩
  · intro s hs
    have hwhole : Whole s := whole_of_mem_segments hs
    exact ⟨hwhole.segments_eq, hwhole.trim.segments_eq⟩
  · intro x hx
    obtain ⟨s, hs, rfl⟩ := List.mem_map.mp hx
    have hwhole : Whole s := whole_of_mem_segments hs
    rw [read_single hwhole.trim.segments_eq, Text.trim_trim]

/-- The literal keeps its semicolon and its space, and the space behind it is trimmed. -/
theorem split_stable_literal :
    Text.ascii " '; ' " ∈ segments (.ascii "a; '; ' ;") ∧
    segments (.ascii " '; ' ") = [.ascii " '; ' "] ∧
    segments (.ascii "'; '") = [.ascii "'; '"] ∧
    read (.ascii "'; '") Kql.engine =
      ⟨[.note .warn (warning Kql.engine)], .done (.ok ⟨.ascii "'; '"⟩)⟩ :=
  have hseg : Text.ascii " '; ' " ∈ segments (.ascii "a; '; ' ;") := by decide
  have hstable := split_stable (.ascii "a; '; ' ;")
  ⟨hseg, (hstable.1 _ hseg).1, (hstable.1 _ hseg).2, hstable.2.2 _ (by decide)⟩

end ScriptVet.Kql.Statement
