import ScriptVet.Text

namespace ScriptVet.Text

/-- The entries stand in strictly ascending order of their keys. -/
structure Map (α : Type) where
  entries : List (Text × α)
  ascending : entries.Pairwise (fun a b => a.1 < b.1)

namespace Map

variable {α : Type}

def empty : Map α := ⟨[], .nil⟩

instance : EmptyCollection (Map α) := ⟨empty⟩

instance : Inhabited (Map α) := ⟨empty⟩

/-- Puts `value` at `key`, in the place of the entry that has this key, if there is one. -/
def insertEntry (key : Text) (value : α) : List (Text × α) → List (Text × α)
  | [] => [(key, value)]
  | e :: es =>
    if key < e.1 then (key, value) :: e :: es
    else if key = e.1 then (key, value) :: es
    else e :: insertEntry key value es

theorem mem_insertEntry {key : Text} {value : α} {e : Text × α} {es : List (Text × α)}
    (h : e ∈ insertEntry key value es) : e = (key, value) ∨ e ∈ es := by
  induction es with
  | nil => simpa [insertEntry] using h
  | cons d ds ih =>
    simp only [insertEntry] at h
    split at h
    · simpa using h
    · split at h
      · rcases List.mem_cons.1 h with h | h
        · exact .inl h
        · exact .inr (List.mem_cons_of_mem _ h)
      · rcases List.mem_cons.1 h with h | h
        · exact .inr (h ▸ List.mem_cons_self)
        · exact (ih h).imp_right (List.mem_cons_of_mem _)

theorem lt_of_not_lt_of_ne {a b : Text} (hlt : ¬a < b) (hne : a ≠ b) : b < a :=
  List.not_le.1 fun h => hne (List.le_antisymm h (List.not_lt.1 hlt))

theorem insertEntry_ascending (key : Text) (value : α) {es : List (Text × α)}
    (h : es.Pairwise (fun a b => a.1 < b.1)) :
    (insertEntry key value es).Pairwise (fun a b => a.1 < b.1) := by
  induction es with
  | nil => simp [insertEntry]
  | cons d ds ih =>
    obtain ⟨hd, hds⟩ := List.pairwise_cons.1 h
    simp only [insertEntry]
    split
    · rename_i hlt
      refine List.pairwise_cons.2 ⟨fun e he => ?_, h⟩
      rcases List.mem_cons.1 he with rfl | he
      · exact hlt
      · exact List.lt_trans hlt (hd e he)
    · rename_i hlt
      split
      · rename_i heq
        exact List.pairwise_cons.2 ⟨fun e he => heq ▸ hd e he, hds⟩
      · rename_i hne
        refine List.pairwise_cons.2 ⟨fun e he => ?_, ih hds⟩
        rcases mem_insertEntry he with rfl | he
        · exact lt_of_not_lt_of_ne hlt hne
        · exact hd e he

/-- Puts `value` at `key`, in the place of what stood there. -/
def insert (m : Map α) (key : Text) (value : α) : Map α :=
  ⟨insertEntry key value m.entries, insertEntry_ascending key value m.ascending⟩

/-- The value at `key`. -/
def get? (m : Map α) (key : Text) : Option α := (m.entries.find? (·.1 = key)).map (·.2)

/-- The map of a list of pairs, where a later pair replaces an earlier one with the same key. -/
def ofList (pairs : List (Text × α)) : Map α := pairs.foldl (fun m p => m.insert p.1 p.2) ∅

/-- All entries of both maps; those of the second win. -/
def merge (m n : Map α) : Map α := n.entries.foldl (fun m p => m.insert p.1 p.2) m

theorem get?_empty (key : Text) : (∅ : Map α).get? key = none := rfl

theorem find?_insertEntry (key other : Text) (value : α) (es : List (Text × α)) :
    (insertEntry key value es).find? (·.1 = other) =
      if other = key then some (key, value) else es.find? (·.1 = other) := by
  induction es with
  | nil => by_cases h : other = key <;> simp [insertEntry, h, Ne.symm]
  | cons d ds ih =>
    simp only [insertEntry]
    split
    · by_cases h : other = key <;> simp [h, Ne.symm]
    · split
      · rename_i heq
        by_cases h : other = key
        · simp [h]
        · simp [h, heq ▸ Ne.symm h, Ne.symm h]
      · rename_i hne
        rw [List.find?_cons, ih, List.find?_cons]
        by_cases h : other = key
        · simp [h, Ne.symm hne]
        · simp [h]

theorem get?_insert (m : Map α) (key other : Text) (value : α) :
    (m.insert key value).get? other = if other = key then some value else m.get? other := by
  simp only [get?, insert, find?_insertEntry]
  split <;> rfl

end Map

end ScriptVet.Text
