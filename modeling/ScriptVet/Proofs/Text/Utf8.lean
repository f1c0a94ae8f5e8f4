import ScriptVet.Proofs.Text.Line
import ScriptVet.Text.Utf8

namespace ScriptVet.Text.Utf8

/-- How many bytes continue a character that begins with `c`. -/
def tails (c : UInt8) : Nat := if c < 128 then 0 else if c < 224 then 1 else if c < 240 then 2 else 3

/-- A byte and the bytes behind it are one character. -/
def isCharacter (c : UInt8) : Text → Bool
  | [] => c < 128
  | [d] => 194 ≤ c && c < 224 && isTail d
  | [d, e] => 224 ≤ c && c < 240 && isSecondOfThree c d && isTail e
  | [d, e, f] => 240 ≤ c && c ≤ 244 && isSecondOfFour c d && isTail e && isTail f
  | _ => false

/-- The first byte tells where the first character ends. -/
theorem isValid_cons (c : UInt8) (rest : Text) :
    isValid (c :: rest) = (isCharacter c (rest.take (tails c)) && isValid (rest.drop (tails c))) := by
  rw [isValid.eq_def, tails]
  dsimp only
  by_cases h1 : c < 128
  · simp [isCharacter, h1]
  by_cases h2 : c < 224
  · have h3 : ¬224 ≤ c := UInt8.not_le.mpr h2
    have h4 : ¬240 ≤ c := by grind
    cases rest <;> simp [isCharacter, h1, h2, h3, h4, Bool.and_assoc]
  have h224 : 224 ≤ c := UInt8.not_lt.mp h2
  by_cases h3 : c < 240
  · have h4 : ¬240 ≤ c := UInt8.not_le.mpr h3
    match rest with
    | [] => simp [isCharacter, h1, h2, h3, h4]
    | [d] => simp [isCharacter, h1, h2, h3, h4]
    | d :: e :: rest => simp [isCharacter, h1, h2, h3, h224]
  · have h240 : 240 ≤ c := UInt8.not_lt.mp h3
    match rest with
    | [] => simp [isCharacter, h1, h2, h3]
    | [d] => simp [isCharacter, h1, h2, h3]
    | [d, e] => simp [isCharacter, h1, h2, h3]
    | d :: e :: f :: rest => simp [isCharacter, h1, h2, h3, h240, Bool.and_assoc]

/-- A character has as many bytes as its first one says, and all others continue it. -/
theorem isCharacter_spec {c : UInt8} {ts : Text} (h : isCharacter c ts = true) :
    ts.length = tails c ∧ ∀ d ∈ ts, isTail d = true := by
  match ts with
  | [] =>
    have hc : c < 128 := by simpa [isCharacter] using h
    simp [tails, hc]
  | [d] =>
    simp only [isCharacter, Bool.and_eq_true, decide_eq_true_eq] at h
    simp only [tails, List.mem_singleton, forall_eq, List.length_singleton]
    grind
  | [d, e] =>
    simp only [isCharacter, isSecondOfThree, Bool.and_eq_true, decide_eq_true_eq] at h
    simp only [tails, List.forall_mem_cons, List.length_cons, List.length_nil]
    grind
  | [d, e, f] =>
    simp only [isCharacter, isSecondOfFour, Bool.and_eq_true, decide_eq_true_eq] at h
    simp only [tails, List.forall_mem_cons, List.length_cons, List.length_nil]
    grind
  | d :: e :: f :: g :: rest => cases h

/-- No character goes on at the beginning of the text. -/
def NoTailAhead (t : Text) : Prop := ∀ c, t.head? = some c → isTail c = false

/-- A character that is cut short is none, whatever follows the cut. -/
theorem isCharacter_short {c : UInt8} {rest t : Text} (ht : NoTailAhead t)
    (hshort : rest.length < tails c) : isCharacter c ((rest ++ t).take (tails c)) = false := by
  apply Bool.eq_false_iff.mpr
  intro h
  obtain ⟨hcount, htails⟩ := isCharacter_spec h
  cases t with
  | nil =>
    rw [List.append_nil, List.length_take] at hcount
    omega
  | cons d t =>
    obtain ⟨k, hk⟩ : ∃ k, tails c - rest.length = k + 1 := ⟨tails c - rest.length - 1, by omega⟩
    have hmem : d ∈ (rest ++ d :: t).take (tails c) := by
      rw [List.take_append, hk]
      exact List.mem_append_right _ List.mem_cons_self
    have hd : isTail d = false := ht d rfl
    rw [htails d hmem] at hd
    cases hd

/-- Behind whole characters, and in front of one, a text falls in two texts. -/
theorem isValid_append {s t : Text} (h : isValid s = true ∨ NoTailAhead t) :
    isValid (s ++ t) = (isValid s && isValid t) := by
  induction hlength : s.length using Nat.strongRecOn generalizing s with
  | ind n ih =>
  cases s with
  | nil => rfl
  | cons c rest =>
    rw [isValid_cons] at h
    rw [List.cons_append, isValid_cons, isValid_cons]
    by_cases hlen : tails c ≤ rest.length
    · have hrest : (rest.drop (tails c)).length < n := by
        rw [← hlength, List.length_drop, List.length_cons]
        omega
      have hcut := h.imp_left fun hs => (Bool.and_eq_true_iff.mp hs).2
      rw [List.take_append_of_le_length hlen, List.drop_append_of_le_length hlen,
        ih _ hrest hcut rfl, Bool.and_assoc]
    · have hshort : rest.length < tails c := Nat.lt_of_not_le hlen
      have hleft := isCharacter_short (t := []) nofun hshort
      rw [List.append_nil] at hleft
      rw [hleft, Bool.false_and] at h
      have ht : NoTailAhead t := h.resolve_left Bool.false_ne_true
      rw [hleft, isCharacter_short ht hshort]
      rfl

theorem isValid_cons_of_tail {c : UInt8} (hc : isTail c = true) (t : Text) :
    isValid (c :: t) = false := by
  rw [isTail, Bool.and_eq_true, decide_eq_true_eq, decide_eq_true_eq] at hc
  have h1 : ¬c < 128 := UInt8.not_lt.mpr hc.1
  have h2 : c < 224 := by grind
  have h3 : ¬194 ≤ c := by grind
  rw [isValid_cons, tails, if_neg h1, if_pos h2]
  cases t <;> simp [isCharacter, h1, h3]

/-- A text can be cut where no character goes on, and nowhere else. -/
theorem isValid_take_iff {t : Text} (ht : isValid t = true) (n : Nat) :
    isValid (t.take n) = true ↔ ∀ c, t[n]? = some c → isTail c = false := by
  have hwhole : isValid (t.take n ++ t.drop n) = true := by rw [List.take_append_drop, ht]
  constructor
  · intro h c hc
    have hrest : t.drop n = c :: t.drop (n + 1) := by
      obtain ⟨hn, rfl⟩ := List.getElem?_eq_some_iff.mp hc
      exact List.drop_eq_getElem_cons hn
    apply Bool.eq_false_iff.mpr
    intro htail
    rw [isValid_append (.inl h), hrest, isValid_cons_of_tail htail, Bool.and_false] at hwhole
    cases hwhole
  · intro h
    have hcut : NoTailAhead (t.drop n) := by
      intro c hc
      rw [List.head?_drop] at hc
      exact h c hc
    rw [isValid_append (.inr hcut)] at hwhole
    exact (Bool.and_eq_true_iff.mp hwhole).1

section Ascii

/-- All bytes are ASCII characters. -/
def Ascii (t : Text) : Prop := ∀ c ∈ t, c < 128

instance (t : Text) : Decidable (Ascii t) := List.decidableBAll (· < 128) t

theorem isTail_of_lt {c : UInt8} (hc : c < 128) : isTail c = false := by
  rw [isTail, decide_eq_false (UInt8.not_le.mpr hc)]
  rfl

theorem isValid_cons_of_lt {c : UInt8} (hc : c < 128) (t : Text) : isValid (c :: t) = isValid t := by
  rw [isValid_cons, tails, if_pos hc]
  simp [isCharacter, hc]

namespace Ascii

variable {a : Text} (ha : Ascii a)
include ha

theorem noTailAhead : NoTailAhead a :=
  fun c hc => isTail_of_lt (ha c (List.mem_of_mem_head? hc))

/-- ASCII characters in front make no difference. -/
theorem isValid_append (t : Text) : isValid (a ++ t) = isValid t := by
  induction a with
  | nil => rfl
  | cons c a ih =>
    obtain ⟨hc, ha⟩ := List.forall_mem_cons.mp ha
    rw [List.cons_append, isValid_cons_of_lt hc, ih ha]

theorem isValid : isValid a = true := by
  rw [← List.append_nil a, ha.isValid_append]
  rfl

/-- Nor do they behind a text. -/
theorem append_isValid (s : Text) : Utf8.isValid (s ++ a) = Utf8.isValid s := by
  rw [Utf8.isValid_append (.inr ha.noTailAhead), ha.isValid, Bool.and_true]

/-- Two texts with ASCII characters between them do not get mixed up. -/
theorem isValid_between (hne : a ≠ []) (s t : Text) :
    Utf8.isValid (s ++ (a ++ t)) = (Utf8.isValid s && Utf8.isValid t) := by
  have hcut : NoTailAhead (a ++ t) := by
    obtain ⟨c, cs, rfl⟩ := List.exists_cons_of_ne_nil hne
    exact ha.noTailAhead
  rw [Utf8.isValid_append (.inr hcut), ha.isValid_append]

end Ascii

/-- Nor do any number of texts. -/
theorem isValid_joined {glue : Text} (hglue : Ascii glue) (hne : glue ≠ []) (pieces : List Text) :
    isValid (joined glue pieces) = pieces.all isValid := by
  induction pieces with
  | nil => rfl
  | cons x xs ih =>
    cases xs with
    | nil => rw [joined_singleton, List.all_cons, List.all_nil, Bool.and_true]
    | cons y ys =>
      rw [joined_cons_cons, hglue.isValid_between hne, ih]
      rfl

/-- Where ASCII characters are written as other ASCII characters, a text stays as well-formed as it
was. -/
theorem isValid_append_flatMap {f : UInt8 → Text} (hother : ∀ c, ¬c < 128 → f c = [c])
    (hascii : ∀ c, c < 128 → f c ≠ [] ∧ Ascii (f c)) (s t : Text) :
    isValid (s ++ t.flatMap f) = isValid (s ++ t) := by
  induction t generalizing s with
  | nil => rfl
  | cons c t ih =>
    rw [List.flatMap_cons, List.append_cons]
    by_cases hc : c < 128
    · obtain ⟨hne, hf⟩ := hascii c hc
      have hone : Ascii [c] := List.forall_mem_singleton.mpr hc
      have hrest := ih []
      rw [List.nil_append, List.nil_append] at hrest
      rw [hf.isValid_between hne, hrest, List.append_assoc,
        hone.isValid_between (List.cons_ne_nil c [])]
    · have hnext := ih (s ++ [c])
      rw [hother c hc, ← List.append_assoc]
      exact hnext

end Ascii

end ScriptVet.Text.Utf8
