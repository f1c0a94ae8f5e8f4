import ScriptVet.Text.Map

namespace ScriptVet.Text.Map

variable {α : Type}

/-- Where all keys differ, the first element with a key is the only one. -/
theorem find?_eq_some_of_distinct {key : α → Text} {xs : List α}
    (distinct : xs.Pairwise fun x y => key x ≠ key y) {k : Text} {x : α} :
    xs.find? (key · = k) = some x ↔ x ∈ xs ∧ key x = k := by
  constructor
  · intro h
    exact ⟨List.mem_of_find?_eq_some h, by simpa using List.find?_some h⟩
  · rintro ⟨hx, hk⟩
    induction xs with
    | nil => cases hx
    | cons y ys ih =>
      rcases List.mem_cons.mp hx with rfl | hx
      · simp [hk]
      · have hne : key y ≠ k := by
          rw [← hk]
          exact List.rel_of_pairwise_cons distinct hx
        rw [List.find?_cons, decide_eq_false hne]
        exact ih distinct.tail hx

theorem find?_key_eq_some {es : List (Text × α)} (hes : es.Pairwise (fun a b => a.1 < b.1))
    {key : Text} {value : α} :
    es.find? (·.1 = key) = some (key, value) ↔ (key, value) ∈ es := by
  have distinct : es.Pairwise fun a b => a.1 ≠ b.1 := by
    refine hes.imp ?_
    intro a b hlt heq
    rw [heq] at hlt
    exact List.lt_irrefl b.1 hlt
  rw [find?_eq_some_of_distinct distinct, and_iff_left rfl]

theorem get?_eq_some {m : Map α} {key : Text} {value : α} :
    m.get? key = some value ↔ (key, value) ∈ m.entries := by
  rw [← find?_key_eq_some m.ascending, get?, Option.map_eq_some_iff]
  constructor
  · intro h
    obtain ⟨⟨other, v⟩, hfind, hv⟩ := h
    have hkey : other = key := by simpa using List.find?_some hfind
    rw [hfind, hkey, ← hv]
  · intro h
    exact ⟨_, h, rfl⟩

/-- The value of the last pair with the key. -/
def lastValue? (key : Text) : List (Text × α) → Option α
  | [] => none
  | p :: ps => (lastValue? key ps).or (if p.1 = key then some p.2 else none)

theorem lastValue?_append (key : Text) (ps qs : List (Text × α)) :
    lastValue? key (ps ++ qs) = (lastValue? key qs).or (lastValue? key ps) := by
  induction ps with
  | nil => simp [lastValue?]
  | cons p ps ih => rw [List.cons_append, lastValue?, ih, Option.or_assoc, lastValue?]

theorem lastValue?_eq_none {key : Text} {ps : List (Text × α)} :
    lastValue? key ps = none ↔ ∀ p ∈ ps, p.1 ≠ key := by
  induction ps with
  | nil => simp [lastValue?]
  | cons p ps ih => simp [lastValue?, ih, and_comm]

theorem get?_foldl_insert (m : Map α) (ps : List (Text × α)) (key : Text) :
    (ps.foldl (fun m p => m.insert p.1 p.2) m).get? key = (lastValue? key ps).or (m.get? key) := by
  induction ps generalizing m with
  | nil => rfl
  | cons p ps ih =>
    rw [List.foldl_cons, ih, get?_insert, lastValue?, Option.or_assoc]
    by_cases hkey : p.1 = key
    · rw [if_pos hkey, if_pos hkey.symm, Option.some_or]
    · rw [if_neg hkey, if_neg (Ne.symm hkey), Option.none_or]

theorem get?_ofList (ps : List (Text × α)) (key : Text) : (ofList ps).get? key = lastValue? key ps := by
  rw [ofList, get?_foldl_insert, get?_empty, Option.or_none]

/-- The entries of a map have different keys, so the last one with a key is the only one. -/
theorem lastValue?_entries (m : Map α) (key : Text) : lastValue? key m.entries = m.get? key := by
  obtain ⟨es, ascending⟩ := m
  rw [get?]
  induction es with
  | nil => rfl
  | cons e es ih =>
    obtain ⟨hfirst, hrest⟩ := List.pairwise_cons.mp ascending
    rw [lastValue?, ih hrest]
    by_cases hkey : e.1 = key
    · have hnone : lastValue? key es = none := by
        refine lastValue?_eq_none.mpr fun d hd heq => ?_
        have hlt := hfirst d hd
        rw [hkey, heq] at hlt
        exact List.lt_irrefl key hlt
      rw [← ih hrest, hnone]
      simp [hkey]
    · simp [hkey]

theorem get?_merge (m n : Map α) (key : Text) :
    (m.merge n).get? key = (n.get? key).or (m.get? key) := by
  rw [merge, get?_foldl_insert, lastValue?_entries]

end ScriptVet.Text.Map
