import ScriptVet.Kql.SetCommand
import ScriptVet.Proofs.Text.Trim

namespace ScriptVet.Kql

theorem run?_eq_some {p : UInt8 → Bool} {t run rest : Text} :
    run? p t = some (run, rest) ↔ run ≠ [] ∧ run = t.takeWhile p ∧ rest = t.dropWhile p := by
  rw [run?]
  cases h : t.takeWhile p with
  | nil =>
    constructor
    · intro hrun
      cases hrun
    · intro hrun
      exact absurd hrun.2.1 hrun.1
  | cons c cs =>
    rw [Option.some_inj, Prod.mk.injEq]
    constructor
    · rintro ⟨rfl, rfl⟩
      exact ⟨List.cons_ne_nil c cs, rfl, rfl⟩
    · rintro ⟨-, rfl, rfl⟩
      exact ⟨rfl, rfl⟩

theorem mem_dropWhile {p : UInt8 → Bool} {t : Text} {m : UInt8} (hm : m ∈ t) (hp : p m = false) :
    m ∈ t.dropWhile p := by
  rw [← List.takeWhile_append_dropWhile (p := p) (l := t)] at hm
  rcases List.mem_append.mp hm with hm | hm
  · have hyes : p m = true := List.all_eq_true.mp List.all_takeWhile m hm
    rw [hp] at hyes
    cases hyes
  · exact hm

/-- A byte that a `set` command can hold nowhere. -/
structure Foreign (m : UInt8) : Prop where
  space : Text.isSpace m = false
  word : Text.isWord m = false
  equals : m ≠ Text.byte '='

theorem Foreign.not_mem_set {m : UInt8} (hm : Foreign m) :
    Text.lowerByte m ∉ Text.ascii "set" := by
  have hupper : Text.isUpper m = false := by
    have hword := hm.word
    simp only [Text.isWord, Text.isAlnum, Bool.or_eq_false_iff] at hword
    exact hword.1.1.2
  have hletters : (Text.ascii "set").all Text.isWord = true := by decide
  intro hset
  rw [Text.lowerByte, hupper] at hset
  have hword : Text.isWord m = true := List.all_eq_true.mp hletters m hset
  rw [hm.word] at hword
  cases hword

theorem assigned?_eq_none {t : Text} {m : UInt8} (hm : Foreign m) (ht : m ∈ t) :
    assigned? t = none := by
  cases t with
  | nil => rfl
  | cons c rest =>
    rw [assigned?]
    split
    · rename_i hc
      have hrest : m ∈ rest := (List.mem_cons.mp ht).resolve_left (hc ▸ hm.equals)
      split
      · rename_i value hrun
        obtain ⟨-, -, hnil⟩ := run?_eq_some.mp hrun
        have hleft := mem_dropWhile (mem_dropWhile hrest hm.space) hm.word
        rw [← hnil] at hleft
        cases hleft
      · rfl
    · rfl

theorem setCommand?_eq_none {t : Text} {m : UInt8} (hm : Foreign m) (ht : m ∈ t) :
    setCommand? t = none := by
  rw [setCommand?]
  split
  · rename_i hset
    have hdrop : m ∈ t.drop 3 := by
      rw [← List.take_append_drop 3 t] at ht
      refine (List.mem_append.mp ht).resolve_left fun htake => hm.not_mem_set ?_
      rw [← hset]
      exact List.mem_map_of_mem htake
    split
    · rfl
    · rename_i run rest hrun
      obtain ⟨-, -, rfl⟩ := run?_eq_some.mp hrun
      have hrest := mem_dropWhile hdrop hm.space
      split
      · rfl
      · rename_i name hname
        obtain ⟨-, -, hnil⟩ := run?_eq_some.mp hname
        have hleft := mem_dropWhile hrest hm.word
        rw [← hnil] at hleft
        cases hleft
      · rename_i name rest' _ hname
        obtain ⟨-, -, rfl⟩ := run?_eq_some.mp hname
        rw [assigned?_eq_none hm (mem_dropWhile (mem_dropWhile hrest hm.word) hm.space)]
        rfl
  · rfl

/-- A name or a value: letters, digits and underscores, at least one. -/
structure Word (t : Text) : Prop where
  ne_nil : t ≠ []
  word : ∀ c ∈ t, Text.isWord c = true

/-- The text is a `set` command for `name`, with a value or without. -/
inductive SetForm (t name : Text) : Option Text → Prop where
  | flag {set gap : Text} : set.lower = .ascii "set" → gap ≠ [] → gap.Blank → Word name →
      t = set ++ (gap ++ name) → SetForm t name none
  | assignment {set gap left right value : Text} : set.lower = .ascii "set" → gap ≠ [] →
      gap.Blank → Word name → left.Blank → right.Blank → Word value →
      t = set ++ (gap ++ (name ++ (left ++ Text.byte '=' :: (right ++ value)))) →
      SetForm t name (some value)

/-- The text does not go on with a byte of the class. -/
def Ends (p : UInt8 → Bool) (t : Text) : Prop := ∀ c, t.head? = some c → p c = false

theorem ends_nil (p : UInt8 → Bool) : Ends p [] := nofun

theorem ends_cons {p : UInt8 → Bool} {c : UInt8} (hc : p c = false) (t : Text) : Ends p (c :: t) := by
  intro d hd
  obtain rfl := Option.some.inj hd
  exact hc

theorem ends_append {p : UInt8 → Bool} {s t : Text} (hs : ∀ c ∈ s, p c = false) (ht : Ends p t) :
    Ends p (s ++ t) := by
  cases s with
  | nil => exact ht
  | cons c s => exact ends_cons (hs c List.mem_cons_self) _

theorem dropWhile_of_ends {p : UInt8 → Bool} {t : Text} (ht : Ends p t) : t.dropWhile p = t := by
  cases t with
  | nil => rfl
  | cons c t => rw [List.dropWhile_cons_of_neg (by simp [ht c rfl])]

theorem dropWhile_append {p : UInt8 → Bool} {run rest : Text} (hrun : ∀ c ∈ run, p c = true)
    (hrest : Ends p rest) : (run ++ rest).dropWhile p = rest := by
  rw [List.dropWhile_append_of_pos hrun, dropWhile_of_ends hrest]

theorem takeWhile_append {p : UInt8 → Bool} {run rest : Text} (hrun : ∀ c ∈ run, p c = true)
    (hrest : Ends p rest) : (run ++ rest).takeWhile p = run := by
  have hsplit := List.takeWhile_append_dropWhile (p := p) (l := run ++ rest)
  rw [dropWhile_append hrun hrest] at hsplit
  exact List.append_cancel_right hsplit

theorem run?_append {p : UInt8 → Bool} {run rest : Text} (hne : run ≠ [])
    (hrun : ∀ c ∈ run, p c = true) (hrest : Ends p rest) : run? p (run ++ rest) = some (run, rest) :=
  run?_eq_some.mpr
    ⟨hne, (takeWhile_append hrun hrest).symm, (dropWhile_append hrun hrest).symm⟩

/-- A run and its rest make up the text. -/
theorem run?_split {p : UInt8 → Bool} {t run rest : Text} (h : run? p t = some (run, rest)) :
    run ≠ [] ∧ (∀ c ∈ run, p c = true) ∧ t = run ++ rest := by
  obtain ⟨hne, rfl, rfl⟩ := run?_eq_some.mp h
  exact ⟨hne, List.all_eq_true.mp List.all_takeWhile, List.takeWhile_append_dropWhile.symm⟩

theorem le_toNat_of_isWord {c : UInt8} (hc : Text.isWord c = true) : 48 ≤ c.toNat := by
  simp only [Text.isWord, Text.isAlnum, Text.isDigit, Text.isUpper, Text.isLower, Bool.or_eq_true,
    Bool.and_eq_true, decide_eq_true_eq, beq_iff_eq] at hc
  rcases hc with ((⟨hc, -⟩ | ⟨hc, -⟩) | ⟨hc, -⟩) | rfl
  · exact UInt8.le_iff_toNat_le.mp hc
  · exact Nat.le_trans (by decide) (UInt8.le_iff_toNat_le.mp hc)
  · exact Nat.le_trans (by decide) (UInt8.le_iff_toNat_le.mp hc)
  · decide

/-- No byte is white space and part of a name. -/
theorem not_space_and_word {c : UInt8} (hspace : Text.isSpace c = true)
    (hword : Text.isWord c = true) : False := by
  have hle := Text.toNat_le_of_isSpace hspace
  have hge := le_toNat_of_isWord hword
  omega

theorem isSpace_of_isWord {c : UInt8} (hc : Text.isWord c = true) : Text.isSpace c = false :=
  Bool.eq_false_iff.mpr fun hspace => not_space_and_word hspace hc

theorem isWord_of_isSpace {c : UInt8} (hc : Text.isSpace c = true) : Text.isWord c = false :=
  Bool.eq_false_iff.mpr fun hword => not_space_and_word hc hword

theorem Word.ends_space {t : Text} (ht : Word t) (rest : Text) : Ends Text.isSpace (t ++ rest) := by
  obtain ⟨c, cs, rfl⟩ := List.exists_cons_of_ne_nil ht.ne_nil
  exact ends_cons (isSpace_of_isWord (ht.word c List.mem_cons_self)) _

theorem Word.run?_eq {t : Text} (ht : Word t) : run? Text.isWord t = some (t, []) := by
  simpa using run?_append ht.ne_nil ht.word (ends_nil _)

theorem assigned?_eq_some {t value : Text} :
    assigned? t = some value ↔
      ∃ right : Text, right.Blank ∧ Word value ∧ t = Text.byte '=' :: (right ++ value) := by
  constructor
  · intro h
    cases t with
    | nil => cases h
    | cons c rest =>
      rw [assigned?] at h
      split at h
      · rename_i hc
        split at h
        · rename_i found hrun
          obtain rfl := Option.some.inj h
          obtain ⟨hne, hword, hrest⟩ := run?_split hrun
          obtain ⟨right, hright, hsplit⟩ := Text.exists_blank_trimLeft rest
          refine ⟨right, hright, ⟨hne, hword⟩, ?_⟩
          rw [hc, hsplit, Text.trimLeft, hrest, List.append_nil]
        · cases h
      · cases h
  · intro h
    obtain ⟨right, hright, hvalue, rfl⟩ := h
    have hends : Ends Text.isSpace value := by simpa using hvalue.ends_space []
    rw [assigned?, if_pos rfl, dropWhile_append hright hends, hvalue.run?_eq]

/-- Behind the word `set` and the gap the name is read. -/
theorem setCommand?_append {set gap rest : Text} (hset : set.lower = .ascii "set") (hne : gap ≠ [])
    (hgap : gap.Blank) (hrest : Ends Text.isSpace rest) :
    setCommand? (set ++ (gap ++ rest)) =
      match run? Text.isWord rest with
      | none => none
      | some (name, []) => some (name, none)
      | some (name, rest) =>
        (assigned? (rest.dropWhile Text.isSpace)).map fun value => (name, some value) := by
  have hlen : set.length = 3 := by
    rw [← Text.length_lower, hset]
    rfl
  have htake : Text.lower (List.take 3 (set ++ (gap ++ rest))) = .ascii "set" := by
    rw [← hlen, List.take_left, hset]
  have hrun : run? Text.isSpace (List.drop 3 (set ++ (gap ++ rest))) = some (gap, rest) := by
    rw [← hlen, List.drop_left, run?_append hne hgap hrest]
  rcases hname : run? Text.isWord rest with _ | ⟨name, _ | ⟨c, cs⟩⟩ <;>
    simp only [setCommand?, htake, hrun, hname, if_true]

theorem setCommand?_eq_some {t name : Text} {value? : Option Text} :
    setCommand? t = some (name, value?) ↔ SetForm t name value? := by
  constructor
  · intro h
    rw [setCommand?] at h
    split at h
    · rename_i hset
      split at h
      · cases h
      · rename_i gap rest hgap
        obtain ⟨hne, hblank, hdrop⟩ := run?_split hgap
        have ht : t = t.take 3 ++ (gap ++ rest) := by rw [← hdrop, List.take_append_drop]
        split at h
        · cases h
        · rename_i found hname
          obtain ⟨rfl, rfl⟩ := Prod.mk.inj (Option.some.inj h)
          obtain ⟨hname_ne, hword, hrest⟩ := run?_split hname
          rw [hrest, List.append_nil] at ht
          exact .flag hset hne hblank ⟨hname_ne, hword⟩ ht
        · rename_i found rest' _ hname
          obtain ⟨value, hvalue, heq⟩ := Option.map_eq_some_iff.mp h
          obtain ⟨rfl, rfl⟩ := Prod.mk.inj heq
          obtain ⟨hname_ne, hword, hrest⟩ := run?_split hname
          obtain ⟨right, hright, hvalue, hassigned⟩ := assigned?_eq_some.mp hvalue
          obtain ⟨left, hleft, hsplit⟩ := Text.exists_blank_trimLeft rest'
          rw [hrest, hsplit, Text.trimLeft, hassigned] at ht
          exact .assignment hset hne hblank ⟨hname_ne, hword⟩ hleft hright hvalue ht
    · cases h
  · intro h
    cases h with
    | flag hset hne hgap hname ht =>
      have hends : Ends Text.isSpace name := by simpa using hname.ends_space []
      rw [ht, setCommand?_append hset hne hgap hends, hname.run?_eq]
    | @assignment set gap left right value hset hne hgap hname hleft hright hvalue ht =>
      have hequals : Ends Text.isSpace (Text.byte '=' :: (right ++ value)) := ends_cons (by decide) _
      have hword : Ends Text.isWord (left ++ Text.byte '=' :: (right ++ value)) :=
        ends_append (fun c hc => isWord_of_isSpace (hleft c hc)) (ends_cons (by decide) _)
      have hassigned : assigned? ((left ++ Text.byte '=' :: (right ++ value)).dropWhile Text.isSpace) =
          some value := by
        rw [dropWhile_append hleft hequals]
        exact assigned?_eq_some.mpr ⟨right, hright, hvalue, rfl⟩
      obtain ⟨c, cs, hcs⟩ := List.exists_cons_of_ne_nil
        (List.append_ne_nil_of_right_ne_nil left (List.cons_ne_nil (Text.byte '=') (right ++ value)))
      rw [ht, setCommand?_append hset hne hgap (hname.ends_space _),
        run?_append hname.ne_nil hname.word hword]
      rw [hcs] at hassigned ⊢
      simp only [hassigned, Option.map_some]

end ScriptVet.Kql
