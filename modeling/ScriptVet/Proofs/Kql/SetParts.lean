import ScriptVet.Proofs.Settings

namespace ScriptVet.Kql

/-- Two runs of a class of bytes that reach equally far are the same. -/
theorem append_unique {p : UInt8 → Bool} {run run' rest rest' : Text}
    (hrun : ∀ c ∈ run, p c = true) (hrun' : ∀ c ∈ run', p c = true) (hrest : Ends p rest)
    (hrest' : Ends p rest') (h : run ++ rest = run' ++ rest') : run = run' ∧ rest = rest' := by
  constructor
  · rw [← takeWhile_append hrun hrest, h, takeWhile_append hrun' hrest']
  · rw [← dropWhile_append hrun hrest, h, dropWhile_append hrun' hrest']

/-- The parts of a command that switches a setting on. The word `set` stands in any case. -/
@[ext]
structure SetFlag where
  set : Text
  gap : Text
  name : Text
  set_eq : set.lower = .ascii "set"
  gap_ne_nil : gap ≠ []
  gap_blank : gap.Blank
  name_word : Word name

def SetFlag.text (f : SetFlag) : Text := f.set ++ f.gap ++ f.name

/-- The parts of a command that gives a setting a value. -/
@[ext]
structure SetValue extends SetFlag where
  left : Text
  right : Text
  value : Text
  left_blank : left.Blank
  right_blank : right.Blank
  value_word : Word value

namespace SetValue

/-- What stands behind the name. -/
def tail (a : SetValue) : Text := a.left ++ [Text.byte '='] ++ a.right ++ a.value

def text (a : SetValue) : Text := a.toSetFlag.text ++ a.tail

theorem tail_ne_nil (a : SetValue) : a.tail ≠ [] := by
  intro h
  simp [tail] at h

theorem tail_ends (a : SetValue) : Ends Text.isWord a.tail := by
  rw [tail, List.append_assoc, List.append_assoc]
  exact ends_append (fun c hc => isWord_of_isSpace (a.left_blank c hc)) (ends_cons (by decide) _)

end SetValue

theorem SetFlag.append_unique {f f' : SetFlag} {rest rest' : Text} (hrest : Ends Text.isWord rest)
    (hrest' : Ends Text.isWord rest') (h : f.text ++ rest = f'.text ++ rest') :
    f = f' ∧ rest = rest' := by
  have hlength : f.set.length = f'.set.length := by
    rw [← Text.length_lower, f.set_eq, ← Text.length_lower f'.set, f'.set_eq]
  rw [text, text, List.append_assoc, List.append_assoc, List.append_assoc, List.append_assoc] at h
  obtain ⟨hset, h⟩ := List.append_inj h hlength
  obtain ⟨hgap, h⟩ := Kql.append_unique f.gap_blank f'.gap_blank (f.name_word.ends_space rest)
    (f'.name_word.ends_space rest') h
  -- the gap ends where the name begins, and the name where the rests do
  obtain ⟨hname, h⟩ := Kql.append_unique f.name_word.word f'.name_word.word hrest hrest' h
  exact ⟨SetFlag.ext hset hgap hname, h⟩

theorem SetFlag.text_inj {f f' : SetFlag} (h : f.text = f'.text) : f = f' := by
  have hsame : f.text ++ [] = f'.text ++ [] := by rw [h]
  exact (append_unique (ends_nil _) (ends_nil _) hsame).1

theorem SetValue.text_inj {a a' : SetValue} (h : a.text = a'.text) : a = a' := by
  have hequals (a : SetValue) : Ends Text.isSpace ([Text.byte '='] ++ (a.right ++ a.value)) :=
    ends_cons (by decide) _
  have hvalue (a : SetValue) : Ends Text.isSpace a.value := by
    simpa using a.value_word.ends_space []
  obtain ⟨hflag, htail⟩ := SetFlag.append_unique a.tail_ends a'.tail_ends h
  rw [tail, tail, List.append_assoc, List.append_assoc, List.append_assoc, List.append_assoc] at htail
  obtain ⟨hleft, h⟩ := append_unique a.left_blank a'.left_blank (hequals a) (hequals a') htail
  obtain ⟨hright, hvalue⟩ := append_unique a.right_blank a'.right_blank (hvalue a) (hvalue a')
    (List.append_cancel_left h)
  have hset := congrArg SetFlag.set hflag
  have hgap := congrArg SetFlag.gap hflag
  have hname := congrArg SetFlag.name hflag
  exact SetValue.ext hset hgap hname hleft hright hvalue

/-- Behind the name of a flag nothing is left, but an equals sign behind that of a value. -/
theorem SetValue.text_ne_flag (a : SetValue) (f : SetFlag) : a.text ≠ f.text := by
  intro h
  have hsame : a.toSetFlag.text ++ a.tail = f.text ++ [] := by
    rw [List.append_nil]
    exact h
  exact a.tail_ne_nil (SetFlag.append_unique a.tail_ends (ends_nil _) hsame).2

theorem setForm_none_iff {t name : Text} :
    SetForm t name none ↔ ∃ f : SetFlag, f.text = t ∧ f.name = name := by
  constructor
  · intro h
    cases h with
    | flag hset hne hgap hname ht =>
      exact ⟨⟨_, _, _, hset, hne, hgap, hname⟩, by rw [ht, SetFlag.text, List.append_assoc], rfl⟩
  · intro h
    obtain ⟨f, rfl, rfl⟩ := h
    exact .flag f.set_eq f.gap_ne_nil f.gap_blank f.name_word (List.append_assoc ..)

theorem setForm_some_iff {t name value : Text} :
    SetForm t name (some value) ↔ ∃ a : SetValue, a.text = t ∧ a.name = name ∧ a.value = value := by
  constructor
  · intro h
    cases h with
    | assignment hset hne hgap hname hleft hright hvalue ht =>
      exact ⟨⟨⟨_, _, _, hset, hne, hgap, hname⟩, _, _, _, hleft, hright, hvalue⟩,
        by simp [ht, SetValue.text, SetValue.tail, SetFlag.text], rfl, rfl⟩
  · intro h
    obtain ⟨a, rfl, rfl, rfl⟩ := h
    exact .assignment a.set_eq a.gap_ne_nil a.gap_blank a.name_word a.left_blank a.right_blank
      a.value_word (by simp [SetValue.text, SetValue.tail, SetFlag.text])

namespace Statement

/-- A map of one entry at most is given by this entry. -/
theorem settings_eq_iff (t : Text) (entry : Option (Text × Setting)) :
    settings ⟨t⟩ = .ofList entry.toList ↔ assigned t = entry := by
  have hentries (e : Option (Text × Setting)) :
      (Text.Map.ofList e.toList).entries = e.toList := by
    cases e <;> rfl
  rw [settings_eq]
  constructor
  · intro h
    have hlist := congrArg Text.Map.entries h
    rw [hentries, hentries] at hlist
    simpa using congrArg List.head? hlist
  · intro h
    rw [h]

theorem settings_eq_setting_iff (t name : Text) (value : Option Text) :
    settings ⟨t⟩ = .ofList [(name, .ofValue value)] ↔ SetForm t name value := by
  have hentry := settings_eq_iff t (some (name, .ofValue value))
  rw [assigned_eq_some] at hentry
  refine hentry.trans ⟨?_, fun h => ⟨value, h, rfl⟩⟩
  intro h
  obtain ⟨other, hform, hsame⟩ := h
  cases value <;> cases other <;> cases hsame <;> exact hform

theorem settings_eq_empty_iff {t : Text} :
    settings ⟨t⟩ = ∅ ↔ ∀ name value, ¬SetForm t name value := by
  have hentry := settings_eq_iff t none
  refine hentry.trans ⟨?_, ?_⟩
  · intro h name value hform
    have hsome := assigned_eq_some.mpr ⟨value, hform, rfl⟩
    rw [h] at hsome
    cases hsome
  · intro h
    refine Option.eq_none_iff_forall_ne_some.mpr fun entry hsome => ?_
    obtain ⟨value, hform, -⟩ := assigned_eq_some.mp hsome
    exact h _ _ hform

/-- A KQL statement sets a name to a value, or switches it on, exactly when it is made up of the parts
of such a command, and sets nothing otherwise. The parts are found in one way only, and no text is both
kinds of command. -/
theorem settings_of_parts (t : Text) :
    (∀ name value : Text, settings ⟨t⟩ = .ofList [(name, .text value)] ↔
      ∃ a : SetValue, a.text = t ∧ a.name = name ∧ a.value = value) ∧
    (∀ name : Text, settings ⟨t⟩ = .ofList [(name, .enabled)] ↔
      ∃ f : SetFlag, f.text = t ∧ f.name = name) ∧
    (settings ⟨t⟩ = ∅ ↔ (∀ a : SetValue, a.text ≠ t) ∧ ∀ f : SetFlag, f.text ≠ t) ∧
    (∀ a a' : SetValue, a.text = t → a'.text = t → a = a') ∧
    (∀ f f' : SetFlag, f.text = t → f'.text = t → f = f') ∧
    ∀ (a : SetValue) (f : SetFlag), ¬(a.text = t ∧ f.text = t) := by
  refine ⟨?_, ?_, ?_, ?_, ?_, ?_⟩
  · intro name value
    rw [← setForm_some_iff]
    exact settings_eq_setting_iff t name (some value)
  · intro name
    rw [← setForm_none_iff]
    exact settings_eq_setting_iff t name none
  · rw [settings_eq_empty_iff]
    constructor
    · intro h
      exact ⟨fun a ha => h _ _ (setForm_some_iff.mpr ⟨a, ha, rfl, rfl⟩),
        fun f hf => h _ _ (setForm_none_iff.mpr ⟨f, hf, rfl⟩)⟩
    · intro h name value hform
      obtain ⟨hvalue, hflag⟩ := h
      cases value with
      | none =>
        obtain ⟨f, hf, -⟩ := setForm_none_iff.mp hform
        exact hflag f hf
      | some value =>
        obtain ⟨a, ha, -⟩ := setForm_some_iff.mp hform
        exact hvalue a ha
  · intro a a' ha ha'
    exact SetValue.text_inj (ha.trans ha'.symm)
  · intro f f' hf hf'
    exact SetFlag.text_inj (hf.trans hf'.symm)
  · rintro a f ⟨ha, hf⟩
    exact a.text_ne_flag f (ha.trans hf.symm)

/-- The command `SeT`, a space and a tab, `Trace_1=`, a new line, `On`. -/
def setTrace : SetValue where
  set := .ascii "SeT"
  gap := .ascii " \t"
  name := .ascii "Trace_1"
  set_eq := rfl
  gap_ne_nil := by decide
  gap_blank := List.all_eq_true.mp (by decide : (Text.ascii " \t").all Text.isSpace = true)
  name_word :=
    ⟨by decide, List.all_eq_true.mp (by decide : (Text.ascii "Trace_1").all Text.isWord = true)⟩
  left := []
  right := .ascii "\n"
  value := .ascii "On"
  left_blank := nofun
  right_blank := Text.blank_singleton (by decide)
  value_word :=
    ⟨by decide, List.all_eq_true.mp (by decide : (Text.ascii "On").all Text.isWord = true)⟩

/-- The name and the value keep their case, the parts are the only ones, and a second value is none. -/
theorem settings_of_parts_trace :
    setTrace.text = .ascii "SeT \tTrace_1=\nOn" ∧
    settings ⟨.ascii "SeT \tTrace_1=\nOn"⟩ = .ofList [(.ascii "Trace_1", .text (.ascii "On"))] ∧
    (∀ a : SetValue, a.text = .ascii "SeT \tTrace_1=\nOn" → a = setTrace) ∧
    settings ⟨.ascii "set a = b c"⟩ = ∅ ∧ ∀ a : SetValue, a.text ≠ .ascii "set a = b c" := by
  have htext : setTrace.text = .ascii "SeT \tTrace_1=\nOn" := by decide
  obtain ⟨hvalue, -, -, hunique, -⟩ := settings_of_parts (.ascii "SeT \tTrace_1=\nOn")
  have hempty : settings ⟨.ascii "set a = b c"⟩ = ∅ := rfl
  exact ⟨htext, (hvalue _ _).mpr ⟨setTrace, htext, rfl, rfl⟩,
    fun a ha => hunique a setTrace ha htext, hempty,
    ((settings_of_parts (.ascii "set a = b c")).2.2.1.mp hempty).1⟩

end Statement

end ScriptVet.Kql
