import ScriptVet.Table

namespace ScriptVet

/-- The references in the order in which they were inserted. -/
structure TableSet where
  toList : List Table
  distinct : toList.Pairwise (fun t u => t.canonical ≠ u.canonical)

namespace TableSet

def empty : TableSet := ⟨[], .nil⟩

instance : EmptyCollection TableSet := ⟨empty⟩

instance : Inhabited TableSet := ⟨empty⟩

/-- The set refers to the table of `t`. -/
def has (s : TableSet) (t : Table) : Bool := s.toList.any (·.same t)

theorem canonical_ne_of_has_eq_false {s : TableSet} {t u : Table} (h : s.has t = false)
    (hu : u ∈ s.toList) : u.canonical ≠ t.canonical := by
  simpa [Table.same] using List.any_eq_false.1 h u hu

/-- Adds a reference, unless the set refers to its table already. -/
def insert (s : TableSet) (t : Table) : TableSet :=
  if h : s.has t then s
  else
    { toList := s.toList ++ [t]
      distinct := List.pairwise_append.2
        ⟨s.distinct, List.pairwise_singleton _ _, fun u hu v hv =>
          List.mem_singleton.1 hv ▸ canonical_ne_of_has_eq_false (by simpa using h) hu⟩ }

theorem toList_insert (s : TableSet) (t : Table) :
    (s.insert t).toList = if s.has t then s.toList else s.toList ++ [t] := by
  rw [insert]
  split <;> rfl

def insertAll (s : TableSet) (ts : List Table) : TableSet := ts.foldl insert s

def ofList (ts : List Table) : TableSet := insertAll ∅ ts

/-- All tables of both sets, with the references of the first one where both have the table. -/
def union (s u : TableSet) : TableSet := s.insertAll u.toList

/-- The references in bytewise order of their canonical names. -/
def sorted (s : TableSet) : List Table :=
  s.toList.mergeSort (fun t u => t.canonical ≤ u.canonical)

end TableSet

end ScriptVet
