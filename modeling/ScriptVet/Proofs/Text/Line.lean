import ScriptVet.Text

namespace ScriptVet.Text

theorem joined_singleton (glue x : Text) : joined glue [x] = x := by
  simp [joined]

theorem joined_cons_cons (glue x y : Text) (ys : List Text) :
    joined glue (x :: y :: ys) = x ++ (glue ++ joined glue (y :: ys)) := by
  simp [joined]

/-- Joined pieces are as long as their number at least, unless some of them are empty. -/
theorem length_le_length_joined {α : Type} {f : α → Text} (hf : ∀ a, f a ≠ []) (glue : Text)
    (as : List α) : as.length ≤ (joined glue (as.map f)).length := by
  induction as with
  | nil => exact Nat.zero_le _
  | cons a as ih =>
    have hpos : 0 < (f a).length := List.length_pos_iff.mpr (hf a)
    cases as with
    | nil =>
      rw [List.map_singleton, joined_singleton]
      exact hpos
    | cons b bs =>
      rw [List.map_cons] at ih
      rw [List.map_cons, List.map_cons, joined_cons_cons, List.length_append, List.length_append,
        List.length_cons]
      omega

/-- The text has no control characters. -/
def OneLine (t : Text) : Prop := ∀ c ∈ t, 32 ≤ c

instance (t : Text) : Decidable t.OneLine := List.decidableBAll (32 ≤ ·) t

namespace OneLine

theorem append {s t : Text} (hs : s.OneLine) (ht : t.OneLine) : OneLine (s ++ t) :=
  List.forall_mem_append.mpr ⟨hs, ht⟩

theorem cons {c : UInt8} {t : Text} (hc : 32 ≤ c) (ht : t.OneLine) : OneLine (c :: t) :=
  List.forall_mem_cons.mpr ⟨hc, ht⟩

theorem flatMap {f : UInt8 → Text} (hf : ∀ c, (f c).OneLine) (t : Text) : OneLine (t.flatMap f) := by
  intro c hc
  obtain ⟨d, -, hc⟩ := List.mem_flatMap.mp hc
  exact hf d c hc

theorem joined {glue : Text} (hglue : glue.OneLine) {pieces : List Text}
    (hpieces : ∀ p ∈ pieces, p.OneLine) : OneLine (joined glue pieces) := by
  induction pieces with
  | nil =>
    intro c hc
    cases hc
  | cons x xs ih =>
    obtain ⟨hx, hxs⟩ := List.forall_mem_cons.mp hpieces
    cases xs with
    | nil =>
      rw [joined_singleton]
      exact hx
    | cons y ys =>
      rw [joined_cons_cons]
      exact hx.append (hglue.append (ih hxs))

end OneLine

end ScriptVet.Text
