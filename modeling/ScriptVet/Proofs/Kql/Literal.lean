import ScriptVet.Proofs.Kql.Script
import ScriptVet.Proofs.Kql.SetCommand
import ScriptVet.Proofs.Kql.Token

namespace ScriptVet

namespace Kql

namespace Quote

/-- What stands at both ends of a literal. -/
def fence : Quote → Text
  | outside => []
  | single => .ascii "'"
  | double => .ascii "\""
  | multiline => .ascii "```"

def literal (q : Quote) (content : Text) : Text := q.fence ++ content ++ q.fence

/-- The literal with this content, written behind the text `p`, opens and closes where its ends
stand. -/
def Fits (q : Quote) (p content : Text) : Prop :=
  match q with
  | outside => False
  | single => Text.byte '\'' ∉ content ∧ Text.byte '\\' ∉ content
  | double => Text.byte '"' ∉ content ∧ Text.byte '\\' ∉ content
  | multiline =>
    content ≠ [] ∧ Text.byte '\x60' ∉ content ∧ p.getLast? ≠ some (Text.byte '\x60')

instance (q : Quote) (p content : Text) : Decidable (q.Fits p content) :=
  match q with
  | outside => inferInstanceAs (Decidable False)
  | single => inferInstanceAs (Decidable (_ ∧ _))
  | double => inferInstanceAs (Decidable (_ ∧ _))
  | multiline => inferInstanceAs (Decidable (_ ∧ _))

theorem Fits.ne_outside {q : Quote} {p content : Text} (h : q.Fits p content) : q ≠ .outside := by
  rintro rfl
  exact h

/-- A literal begins and ends with a byte that is foreign to all that is looked for in the text of a
statement. -/
theorem exists_mark {q : Quote} (hq : q ≠ .outside) :
    ∃ (m : UInt8) (f : Text), Foreign m ∧ m ≠ semicolon ∧ m ∉ Text.ascii ".show" ∧
      ∀ content, q.literal content = m :: (f ++ content ++ f ++ [m]) := by
  cases q with
  | outside => exact absurd rfl hq
  | single =>
    refine ⟨Text.byte '\'', [], ⟨by decide, by decide, by decide⟩, by decide, by decide, ?_⟩
    intro content
    simp [literal, fence, Text.ascii]
  | double =>
    refine ⟨Text.byte '"', [], ⟨by decide, by decide, by decide⟩, by decide, by decide, ?_⟩
    intro content
    simp [literal, fence, Text.ascii]
  | multiline =>
    refine ⟨Text.byte '\x60', .ascii "``", ⟨by decide, by decide, by decide⟩, by decide,
      by decide, ?_⟩
    intro content
    simp [literal, fence, Text.ascii]

theorem semicolon_not_mem_fence (q : Quote) : semicolon ∉ q.fence := by
  cases q <;> decide

/-- Behind a fence nothing can be seen of what stands in front of it. -/
theorem alike_fence {q : Quote} (hq : q ≠ .outside) (before : Text) :
    Alike (q.fence.reverse ++ before) q.fence.reverse := by
  cases q with
  | outside => exact absurd rfl hq
  | single =>
    exact (alike_nil (by decide) (by decide) before).trans
      (alike_nil (by decide) (by decide) []).symm
  | double =>
    exact (alike_nil (by decide) (by decide) before).trans
      (alike_nil (by decide) (by decide) []).symm
  | multiline => exact alike_of_two _ _ (Text.byte '\x60' :: before) [Text.byte '\x60']

/-- Three backticks that stand behind another byte lead into a literal and out of it. -/
theorem scan_backticks {before : Text} (h : before.head? ≠ some backtick) :
    outside.scan before multiline.fence = multiline ∧
      multiline.scan before multiline.fence = outside := by
  have hfence : multiline.fence = List.replicate 3 backtick := rfl
  rw [hfence]
  exact ⟨Between.scan_backticks (.inl rfl) h 3, Between.scan_backticks (.inr rfl) h 3⟩

theorem afterBackslash_eq_false {content : Text} {c : UInt8} (hcontent : Text.byte '\\' ∉ content)
    (hc : c ≠ Text.byte '\\') (before : Text) :
    afterBackslash (content.reverse ++ c :: before) = false := by
  cases h : content.reverse with
  | nil => simp [afterBackslash, hc]
  | cons d rest =>
    have hd : d ∈ content := List.mem_reverse.mp (h ▸ List.mem_cons_self)
    have hne : d ≠ Text.byte '\\' := fun he => hcontent (he ▸ hd)
    simp [afterBackslash, hne]

theorem Fits.scan_open {q : Quote} {p content : Text} (h : q.Fits p content) :
    Quote.outside.scan p.reverse q.fence = q := by
  cases q with
  | outside => exact h.elim
  | single => rfl
  | double => rfl
  | multiline =>
    have hp : p.reverse.head? ≠ some (Text.byte '\x60') := by
      rw [List.head?_reverse]
      exact h.2.2
    exact (scan_backticks hp).1

theorem Fits.next_eq {q : Quote} {p content : Text} (h : q.Fits p content) {c : UInt8}
    (hc : c ∈ content) (before : Text) : q.next before c = q := by
  cases q with
  | outside => exact h.elim
  | single =>
    have hne : c ≠ Text.byte '\'' := fun he => h.1 (he ▸ hc)
    simp [Quote.next, hne]
  | double =>
    have hne : c ≠ Text.byte '"' := fun he => h.1 (he ▸ hc)
    simp [Quote.next, hne]
  | multiline =>
    have hne : c ≠ Text.byte '\x60' := fun he => h.2.1 (he ▸ hc)
    simp [Quote.next, hne]

theorem Fits.scan_close {q : Quote} {p content : Text} (h : q.Fits p content) (before : Text) :
    q.scan (content.reverse ++ (q.fence.reverse ++ before)) q.fence = .outside := by
  cases q with
  | outside => exact h.elim
  | single =>
    have hback := afterBackslash_eq_false h.2 (by decide : Text.byte '\'' ≠ _) before
    change Quote.single.next (content.reverse ++ Text.byte '\'' :: before) (Text.byte '\'') = _
    simp [next, hback]
  | double =>
    have hback := afterBackslash_eq_false h.2 (by decide : Text.byte '"' ≠ _) before
    change Quote.double.next (content.reverse ++ Text.byte '"' :: before) (Text.byte '"') = _
    simp [next, hback]
  | multiline =>
    obtain ⟨hne, htick, -⟩ := h
    obtain ⟨d, rest, hlast⟩ := List.exists_cons_of_ne_nil (mt List.reverse_eq_nil_iff.mp hne)
    have hd : d ∈ content := List.mem_reverse.mp (hlast ▸ List.mem_cons_self)
    refine (scan_backticks ?_).2
    rw [hlast]
    intro hhead
    have he : d = Text.byte '\x60' := Option.some.inj hhead
    exact htick (he ▸ hd)

theorem Fits.scan_content {q : Quote} {p content : Text} (h : q.Fits p content) (before : Text) :
    q.scan before content = q :=
  scan_of_keeps (fun _ hc => h.next_eq hc) before

theorem Fits.uncut_content {q : Quote} {p content : Text} (h : q.Fits p content)
    (before current : Text) : segmentsFrom q before current content = [] :=
  segmentsFrom_of_inside h.ne_outside (fun _ hc => h.next_eq hc) before current

/-- A literal is read over without a cut. -/
theorem Fits.uncut_literal {q : Quote} {p content : Text} (h : q.Fits p content) (current : Text) :
    segmentsFrom .outside p.reverse current (q.literal content) = [] := by
  have hfence : ∀ (q' : Quote) (before current : Text),
      segmentsFrom q' before current q.fence = [] :=
    segmentsFrom_of_not_mem (semicolon_not_mem_fence q)
  rw [literal, List.append_assoc, segmentsFrom_append, hfence, h.scan_open, segmentsFrom_append,
    h.uncut_content, hfence]
  rfl

theorem Fits.scan_literal {q : Quote} {p content : Text} (h : q.Fits p content) :
    Quote.outside.scan p.reverse (q.literal content) = .outside := by
  rw [literal, List.append_assoc, scan_append, h.scan_open, scan_append, h.scan_content,
    h.scan_close]

end Quote

/-- A text with a literal is cut in front of it and behind it, each without regard to the content. -/
theorem segments_literal {q : Quote} {p content : Text} (h : q.Fits p content)
    (hp : Quote.outside.scan [] p = .outside) (s : Text) :
    segments (p ++ q.literal content ++ s) =
      segmentsFrom .outside [] [] p ++
        (segmentsFrom .outside q.fence.reverse [] (terminated s)).modifyHead
          (tailFrom .outside [] [] p ++ q.literal content ++ ·) := by
  have hlast : (p ++ q.literal content).getLast? ≠ some semicolon := by
    obtain ⟨m, f, -, hm, -, hliteral⟩ := Quote.exists_mark h.ne_outside
    rw [hliteral, ← List.cons_append, ← List.append_assoc, List.getLast?_concat]
    exact fun he => hm (Option.some.inj he)
  have hend : terminated (p ++ q.literal content ++ s) =
      p ++ (q.literal content ++ terminated s) := by
    rw [terminated_append (.inr hlast), List.append_assoc]
  have hseen : Alike ((q.literal content).reverse ++ p.reverse) q.fence.reverse := by
    rw [Quote.literal, List.reverse_append, List.append_assoc]
    exact Quote.alike_fence h.ne_outside _
  rw [segments, hend, segmentsFrom_append, hp, List.append_nil,
    segmentsFrom_uncut (h.uncut_literal _), h.scan_literal, hseen.segmentsFrom,
    List.reverse_reverse]

theorem length_segmentsFrom (p : Text) :
    (segmentsFrom .outside [] [] p).length = (separators p).length := by
  have hclosings := closings_segmentsFrom p [] [] p .outside 0 rfl rfl rfl
  rw [← length_closings 0, hclosings, separators, List.range_eq_range', List.length_nil]

namespace Statement

/-- A byte that a pattern lacks ends the search for it. -/
theorem isPrefixOf_inner {pattern : Text} {m : UInt8} (hm : m ∉ pattern) (l r : Text) :
    pattern.isPrefixOf (l ++ m :: r) = pattern.isPrefixOf l := by
  induction pattern generalizing l with
  | nil => simp
  | cons c pattern ih =>
    obtain ⟨hc, hrest⟩ := not_or.mp (mt List.mem_cons.mpr hm)
    cases l with
    | nil => simp [List.isPrefixOf, Ne.symm hc]
    | cons d l => rw [List.cons_append, List.isPrefixOf, List.isPrefixOf, ih hrest]

/-- Whether a statement changes something shows in front of its first literal. -/
theorem mutating_literal {q : Quote} (hq : q ≠ .outside) (l content r : Text) :
    mutating ⟨l ++ q.literal content ++ r⟩ = mutating ⟨l⟩ := by
  obtain ⟨m, f, -, -, hshow, hliteral⟩ := Quote.exists_mark hq
  have hdot : m ∉ Text.ascii "." := by
    intro h
    exact hshow (List.mem_cons.mpr (.inl (List.mem_singleton.mp h)))
  have htext : l ++ q.literal content ++ r = l ++ m :: (f ++ content ++ f ++ m :: r) := by
    simp [hliteral]
  rw [mutating, htext, isPrefixOf_inner hdot, isPrefixOf_inner hshow, mutating]

/-- No setting holds a literal. -/
theorem settings_literal {q : Quote} (hq : q ≠ .outside) (l content r : Text) :
    settings ⟨l ++ q.literal content ++ r⟩ = ∅ := by
  obtain ⟨m, f, hforeign, -, -, hliteral⟩ := Quote.exists_mark hq
  have hm : m ∈ l ++ q.literal content ++ r := by simp [hliteral]
  rw [settings, setCommand?_eq_none hforeign hm]

end Statement

/-- Trimming goes on no further than to the ends of a literal. -/
theorem trim_literal {q : Quote} (hq : q ≠ .outside) (l content r : Text) :
    (l ++ q.literal content ++ r).trim = l.trimLeft ++ q.literal content ++ r.trimRight := by
  obtain ⟨m, f, hforeign, -, -, hliteral⟩ := Quote.exists_mark hq
  have htext : l ++ q.literal content ++ r = l ++ m :: (f ++ content ++ f ++ m :: r) := by
    simp [hliteral]
  rw [htext, Text.trim_inner _ _ hforeign.space, Text.trimRight_inner _ _ hforeign.space, hliteral]
  simp

end Kql

namespace Script

/-- What a script has besides the content of a literal does not depend on the content: the
statements in front, those behind, and the text around the literal in the statement between them. No
statement shows the literal if a later one is never closed. -/
theorem read_literal (g : Option Grammar) {q : Kql.Quote} {p : Text}
    (hp : Kql.Quote.outside.scan [] p = .outside) (s : Text) :
    ∃ front : List Text, front.length = (Kql.separators p).length ∧
      ((∀ content, q.Fits p content →
          (read g (p ++ q.literal content ++ s) Kql.engine).outcome = .done (.ok (ofKql front))) ∨
        ∃ (l r : Text) (back : List Text), ∀ content, q.Fits p content →
          (read g (p ++ q.literal content ++ s) Kql.engine).outcome =
            .done (.ok (ofKql (front ++ (l ++ q.literal content ++ r) :: back)))) := by
  let stem : Text := Kql.tailFrom .outside [] [] p
  refine ⟨(Kql.segmentsFrom .outside [] [] p).map Text.trim, ?_, ?_⟩
  · rw [List.length_map, Kql.length_segmentsFrom]
  · cases hrest : Kql.segmentsFrom .outside q.fence.reverse [] (Kql.terminated s) with
    | nil =>
      left
      intro content h
      rw [read_kql, Kql.segments_literal h hp, hrest, List.modifyHead_nil, List.append_nil]
    | cons rest back =>
      right
      refine ⟨stem.trimLeft, rest.trimRight, back.map Text.trim, ?_⟩
      intro content h
      rw [read_kql, Kql.segments_literal h hp, hrest, List.modifyHead_cons, List.map_append,
        List.map_cons, Kql.trim_literal h.ne_outside]

theorem getElem?_beside {α : Type} {xs ys : List α} {y : α} {i : Nat} (hi : i ≠ xs.length)
    (y' : α) : (xs ++ y :: ys)[i]? = (xs ++ y' :: ys)[i]? := by
  rcases Nat.lt_or_gt_of_ne hi with hlt | hgt
  · rw [List.getElem?_append_left hlt, List.getElem?_append_left hlt]
  · obtain ⟨k, hk⟩ : ∃ k, i - xs.length = k + 1 := ⟨i - xs.length - 1, by omega⟩
    have hle : xs.length ≤ i := Nat.le_of_lt hgt
    rw [List.getElem?_append_right hle, List.getElem?_append_right hle, hk,
      List.getElem?_cons_succ, List.getElem?_cons_succ]

/-- The content of a literal cannot be told from a script's statements, except by the text of the
statement that shows the literal, whatever stands behind it. -/
theorem literal_content_hidden (g : Option Grammar) {q : Kql.Quote} {p content content' : Text}
    (hp : Kql.Quote.outside.scan [] p = .outside) (h : q.Fits p content)
    (h' : q.Fits p content') (s : Text) :
    ∃ x x' : Script,
      (read g (p ++ q.literal content ++ s) Kql.engine).outcome = .done (.ok x) ∧
      (read g (p ++ q.literal content' ++ s) Kql.engine).outcome = .done (.ok x') ∧
      x.statements.length = x'.statements.length ∧
      ∀ (i : Nat) (a a' : Statement), x.statements[i]? = some a → x'.statements[i]? = some a' →
        a.mutating = a'.mutating ∧ a.settings = a'.settings ∧
        (i ≠ (Kql.separators p).length → a = a') ∧
        (i = (Kql.separators p).length → ∃ l r : Text,
          a = .kql ⟨l ++ q.literal content ++ r⟩ ∧ a' = .kql ⟨l ++ q.literal content' ++ r⟩) := by
  obtain ⟨front, hfront, hnone | ⟨l, r, back, hone⟩⟩ := read_literal g (q := q) hp s
  · -- the literal is dropped with the tail that it stands in, so both scripts are the same
    refine ⟨_, _, hnone content h, hnone content' h', rfl, ?_⟩
    intro i a a' ha ha'
    obtain rfl : a = a' := Option.some.inj (ha.symm.trans ha')
    refine ⟨rfl, rfl, fun _ => rfl, ?_⟩
    intro hi
    have hlt := (List.getElem?_eq_some_iff.mp ha).1
    rw [ofKql, List.length_map] at hlt
    omega
  · refine ⟨_, _, hone content h, hone content' h', by simp [ofKql], ?_⟩
    intro i a a' ha ha'
    rw [ofKql, List.getElem?_map] at ha ha'
    by_cases hi : i = front.length
    · rw [hi, List.getElem?_append_right (Nat.le_refl _), Nat.sub_self, List.getElem?_cons_zero,
        Option.map_some] at ha ha'
      cases ha
      cases ha'
      refine ⟨?_, ?_, fun hne => absurd (hi.trans hfront) hne, fun _ => ⟨l, r, rfl, rfl⟩⟩
      · rw [Statement.mutating, Statement.mutating, Kql.Statement.mutating_literal h.ne_outside,
          Kql.Statement.mutating_literal h.ne_outside]
      · rw [Statement.settings, Statement.settings, Kql.Statement.settings_literal h.ne_outside,
          Kql.Statement.settings_literal h.ne_outside]
    · rw [getElem?_beside hi (l ++ q.literal content' ++ r)] at ha
      obtain rfl : a = a' := Option.some.inj (ha.symm.trans ha')
      exact ⟨rfl, rfl, fun _ => rfl, fun he => absurd (he.trans hfront.symm) hi⟩

/-- A semicolon, a quote and a command in a literal do not show outside of it. -/
theorem literal_content_hidden_command :
    Kql.Quote.outside.scan [] (.ascii "a; print ") = .outside ∧
    Kql.Quote.multiline.Fits (.ascii "a; print ") (.ascii "';\n.drop b") ∧
    Kql.Quote.multiline.Fits (.ascii "a; print ") (.ascii "c") ∧
    ∃ x x' : Script,
      (read none (.ascii "a; print ```';\n.drop b```; .drop d") Kql.engine).outcome =
        .done (.ok x) ∧
      (read none (.ascii "a; print ```c```; .drop d") Kql.engine).outcome = .done (.ok x') ∧
      x.statements.length = x'.statements.length ∧
      ∀ (i : Nat) (a a' : Statement), x.statements[i]? = some a → x'.statements[i]? = some a' →
        a.mutating = a'.mutating ∧ a.settings = a'.settings ∧ (i ≠ 1 → a = a') := by
  have hp : Kql.Quote.outside.scan [] (.ascii "a; print ") = .outside := by decide
  have h : Kql.Quote.multiline.Fits (.ascii "a; print ") (.ascii "';\n.drop b") := by decide
  have h' : Kql.Quote.multiline.Fits (.ascii "a; print ") (.ascii "c") := by decide
  have hone : (Kql.separators (.ascii "a; print ")).length = 1 := by decide
  obtain ⟨x, x', hx, hx', hlength, hsame⟩ := literal_content_hidden none hp h h' (.ascii "; .drop d")
  refine ⟨hp, h, h', x, x', hx, hx', hlength, ?_⟩
  intro i a a' ha ha'
  obtain ⟨hmutating, hsettings, hother, -⟩ := hsame i a a' ha ha'
  exact ⟨hmutating, hsettings, hone ▸ hother⟩

end Script

end ScriptVet
