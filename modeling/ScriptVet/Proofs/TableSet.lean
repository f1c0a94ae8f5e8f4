import ScriptVet.Proofs.Text.Map
import ScriptVet.TableSet
import Mathlib.Data.List.Nodup

namespace ScriptVet.TableSet

/-- The set refers to the table with the canonical name `c`. -/
def Names (s : TableSet) (c : Text) : Prop := ∃ t ∈ s.toList, t.canonical = c

instance (s : TableSet) (c : Text) : Decidable (s.Names c) :=
  inferInstanceAs (Decidable (∃ t ∈ s.toList, t.canonical = c))

theorem has_eq_true {s : TableSet} {t : Table} : s.has t = true ↔ s.Names t.canonical := by
  simp [has, Names, Table.same]

theorem names_empty (c : Text) : ¬(∅ : TableSet).Names c := by
  intro h
  obtain ⟨t, ht, -⟩ := h
  exact List.not_mem_nil ht

/-- A table that the set refers to already is left out, and its name is there all the same. -/
theorem names_insert {s : TableSet} {t : Table} {c : Text} :
    (s.insert t).Names c ↔ s.Names c ∨ t.canonical = c := by
  rw [Names, toList_insert]
  by_cases hs : s.has t
  · have ht : s.Names t.canonical := has_eq_true.mp hs
    rw [if_pos hs]
    constructor
    · exact .inl
    · intro h
      rcases h with h | rfl
      · exact h
      · exact ht
  · rw [if_neg hs]
    simp only [Names, List.mem_append, List.mem_singleton, or_and_right, exists_or, exists_eq_left]

theorem names_insertAll {s : TableSet} {ts : List Table} {c : Text} :
    (s.insertAll ts).Names c ↔ s.Names c ∨ ∃ t ∈ ts, t.canonical = c := by
  rw [insertAll]
  induction ts generalizing s with
  | nil => simp
  | cons t ts ih =>
    rw [List.foldl_cons, ih, names_insert, or_assoc]
    simp only [List.mem_cons, exists_eq_or_imp]

theorem names_ofList {ts : List Table} {c : Text} :
    (ofList ts).Names c ↔ ∃ t ∈ ts, t.canonical = c := by
  rw [ofList, names_insertAll]
  exact or_iff_right (names_empty c)

/-- The reference to the table with the canonical name `c`, if the set has one. -/
def find? (s : TableSet) (c : Text) : Option Table := s.toList.find? (·.canonical = c)

theorem find?_eq_some {s : TableSet} {c : Text} {t : Table} :
    s.find? c = some t ↔ t ∈ s.toList ∧ t.canonical = c :=
  Text.Map.find?_eq_some_of_distinct s.distinct

theorem names_iff_find? {s : TableSet} {c : Text} : s.Names c ↔ ∃ t, s.find? c = some t := by
  simp only [find?_eq_some, Names]

theorem find?_eq_none {s : TableSet} {c : Text} : s.find? c = none ↔ ¬s.Names c := by
  rw [names_iff_find?, Option.eq_none_iff_forall_ne_some, not_exists]

/-- A reference that was there before stays. -/
theorem find?_insert (s : TableSet) (t : Table) (c : Text) :
    (s.insert t).find? c = (s.find? c).or ([t].find? (·.canonical = c)) := by
  rw [find?, toList_insert]
  split
  · rename_i hs
    by_cases hc : t.canonical = c
    · obtain ⟨u, hu⟩ := names_iff_find?.mp (has_eq_true.mp hs)
      rw [hc] at hu
      rw [hu]
      exact hu
    · simp [hc, find?]
  · rw [List.find?_append]
    rfl

theorem find?_insertAll (s : TableSet) (ts : List Table) (c : Text) :
    (s.insertAll ts).find? c = (s.find? c).or (ts.find? (·.canonical = c)) := by
  rw [insertAll]
  induction ts generalizing s with
  | nil => simp
  | cons t ts ih =>
    rw [List.foldl_cons, ih, find?_insert, Option.or_assoc, ← List.find?_append]
    rfl

/-- The order in which a set is gone through does not matter for what it has. -/
theorem find?_of_perm {s : TableSet} {ts : List Table} (h : ts.Perm s.toList) (c : Text) :
    ts.find? (·.canonical = c) = s.find? c := by
  have hdistinct : ts.Pairwise fun t u => t.canonical ≠ u.canonical :=
    (h.pairwise_iff Ne.symm).mpr s.distinct
  ext t
  rw [Text.Map.find?_eq_some_of_distinct hdistinct, find?_eq_some, h.mem_iff]

theorem nodup (s : TableSet) : s.toList.Nodup :=
  s.distinct.imp fun hne heq => hne (congrArg Table.canonical heq)

theorem perm_of_find?_eq {s u : TableSet} (h : ∀ c, s.find? c = u.find? c) :
    s.toList.Perm u.toList := by
  rw [List.perm_ext_iff_of_nodup s.nodup u.nodup]
  intro t
  have ht := h t.canonical
  constructor
  · intro hs
    rw [find?_eq_some.mpr ⟨hs, rfl⟩] at ht
    exact (find?_eq_some.mp ht.symm).1
  · intro hu
    rw [find?_eq_some.mpr ⟨hu, rfl⟩] at ht
    exact (find?_eq_some.mp ht).1

theorem sorted_perm (s : TableSet) : s.sorted.Perm s.toList := List.mergeSort_perm _ _

theorem canonical_inj {s : TableSet} {t u : Table} (ht : t ∈ s.toList) (hu : u ∈ s.toList)
    (h : t.canonical = u.canonical) : t = u := by
  have hfind := find?_eq_some.mpr ⟨ht, h⟩
  exact Option.some.inj (hfind.symm.trans (find?_eq_some.mpr ⟨hu, rfl⟩))

theorem sorted_pairwise_le (s : TableSet) :
    s.sorted.Pairwise fun t u => t.canonical ≤ u.canonical := by
  have hsorted : s.sorted.Pairwise fun t u => decide (t.canonical ≤ u.canonical) = true := by
    apply List.pairwise_mergeSort
    · intro t u v htu huv
      rw [decide_eq_true_eq] at htu huv ⊢
      exact List.le_trans htu huv
    · intro t u
      rw [Bool.or_eq_true, decide_eq_true_eq, decide_eq_true_eq]
      exact List.le_total t.canonical u.canonical
  exact hsorted.imp of_decide_eq_true

/-- The names differ, so each is smaller than the next. -/
theorem sorted_pairwise_lt (s : TableSet) :
    s.sorted.Pairwise fun t u => t.canonical < u.canonical := by
  have hdistinct : s.sorted.Pairwise fun t u => t.canonical ≠ u.canonical :=
    (s.sorted_perm.pairwise_iff Ne.symm).mpr s.distinct
  exact (s.sorted_pairwise_le.and hdistinct).imp fun ⟨hle, hne⟩ =>
    Text.Map.lt_of_not_lt_of_ne (List.not_lt.mpr hle) hne.symm

/-- There is only one way to sort the references of a set. -/
theorem eq_sorted {s : TableSet} {ts : List Table} (hperm : ts.Perm s.toList)
    (hle : ts.Pairwise fun t u => t.canonical ≤ u.canonical) : ts = s.sorted := by
  refine List.Perm.eq_of_pairwise ?_ hle s.sorted_pairwise_le (hperm.trans s.sorted_perm.symm)
  intro t u ht hu htu hut
  exact canonical_inj (hperm.mem_iff.mp ht) (s.sorted_perm.mem_iff.mp hu) (List.le_antisymm htu hut)

theorem mem_map_canonical_sorted {s : TableSet} {c : Text} :
    c ∈ s.sorted.map (·.canonical) ↔ s.Names c := by
  simp only [List.mem_map, s.sorted_perm.mem_iff, Names]

/-- Sets that refer to the same tables list them by the same names. -/
theorem map_canonical_sorted_eq {s u : TableSet} (h : ∀ c, s.Names c ↔ u.Names c) :
    s.sorted.map (·.canonical) = u.sorted.map (·.canonical) := by
  have hlt (s : TableSet) : (s.sorted.map (·.canonical)).Pairwise (· < ·) :=
    List.pairwise_map.mpr s.sorted_pairwise_lt
  have hnodup (s : TableSet) : (s.sorted.map (·.canonical)).Nodup := by
    refine (hlt s).imp ?_
    rintro c _ hc rfl
    exact List.lt_irrefl c hc
  have hperm : (s.sorted.map (·.canonical)).Perm (u.sorted.map (·.canonical)) := by
    rw [List.perm_ext_iff_of_nodup (hnodup s) (hnodup u)]
    intro c
    rw [mem_map_canonical_sorted, mem_map_canonical_sorted, h]
  refine List.Perm.eq_of_pairwise ?_ (hlt s) (hlt u) hperm
  intro c d _ _ hcd hdc
  exact absurd (List.lt_trans hcd hdc) (List.lt_irrefl c)

end ScriptVet.TableSet
