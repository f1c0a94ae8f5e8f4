import ScriptVet.Proofs.Text.Percent
import ScriptVet.Table

namespace ScriptVet.Table

/-- The parts that are not empty, from the outermost in. -/
def presentParts (catalog schema : Option Text) (name : Text) : List Text :=
  [catalog.getD [], schema.getD [], name].filter (· ≠ [])

theorem ne_nil_of_mem_presentParts {catalog schema : Option Text} {name part : Text}
    (h : part ∈ presentParts catalog schema name) : part ≠ [] := by
  simpa using (List.mem_filter.mp h).2

/-- The parts that `canonicalName` gives back, where the empty name has one empty piece. -/
theorem map_decode_splitOn_canonicalName (catalog schema : Option Text) (name : Text) :
    ((canonicalName catalog schema name).splitOn (Text.byte '.')).map Text.Percent.decode =
      if presentParts catalog schema name = [] then [[]]
      else presentParts catalog schema name := by
  let codes : List Text := (presentParts catalog schema name).map Text.Percent.encode
  have hname : canonicalName catalog schema name = [Text.byte '.'].intercalate codes := rfl
  split
  · rename_i hnone
    have hcodes : codes = [] := List.map_eq_nil_iff.mpr hnone
    rw [hname, hcodes]
    rfl
  · rename_i hsome
    have hdot : ∀ code ∈ codes, Text.byte '.' ∉ code := by
      intro code hcode
      obtain ⟨part, -, rfl⟩ := List.mem_map.mp hcode
      exact Text.Percent.dot_not_mem_encode part
    have hne : codes ≠ [] := mt List.map_eq_nil_iff.mp hsome
    rw [hname, List.splitOn_intercalate _ hdot hne, List.map_map]
    calc _ = (presentParts catalog schema name).map id :=
          List.map_congr_left fun part _ => Text.Percent.decode_encode part
      _ = presentParts catalog schema name := List.map_id _

/-- No part is the empty one that stands for a name without parts. -/
theorem canonicalName_eq_iff {catalog schema catalog' schema' : Option Text} {name name' : Text} :
    canonicalName catalog schema name = canonicalName catalog' schema' name' ↔
      presentParts catalog schema name = presentParts catalog' schema' name' := by
  constructor
  · intro h
    have hpieces := map_decode_splitOn_canonicalName catalog schema name
    rw [h, map_decode_splitOn_canonicalName] at hpieces
    by_cases hp : presentParts catalog schema name = [] <;>
      by_cases hp' : presentParts catalog' schema' name' = []
    · rw [hp, hp']
    · rw [if_pos hp, if_neg hp'] at hpieces
      have hempty : [] ∈ presentParts catalog' schema' name' := by simp [hpieces]
      exact absurd rfl (ne_nil_of_mem_presentParts hempty)
    · rw [if_neg hp, if_pos hp'] at hpieces
      have hempty : [] ∈ presentParts catalog schema name := by simp [← hpieces]
      exact absurd rfl (ne_nil_of_mem_presentParts hempty)
    · rw [if_neg hp, if_neg hp'] at hpieces
      exact hpieces.symm
  · intro h
    change Text.joined _ ((presentParts catalog schema name).map _) =
      Text.joined _ ((presentParts catalog' schema' name').map _)
    rw [h]

/-- The parts of a table reference that are not empty. -/
def parts (t : Table) : List Text := presentParts t.catalog t.schema t.name

theorem same_iff_parts (t u : Table) : t.same u = true ↔ t.parts = u.parts := by
  rw [same, decide_eq_true_eq]
  exact canonicalName_eq_iff

/-- A table name is there, and a schema whenever there is a catalog. -/
def Gapless (t : Table) : Prop := t.name ≠ [] ∧ (t.catalog ≠ none → t.schema ≠ none)

theorem parts_of_name {t : Table} (hname : t.name ≠ []) :
    t.parts = t.catalog.toList ++ t.schema.toList ++ [t.name] := by
  have hcatalog : t.catalog ≠ some [] := t.catalog_ne_some_nil
  have hschema : t.schema ≠ some [] := t.schema_ne_some_nil
  rw [parts, presentParts]
  cases hc : t.catalog <;> cases hs : t.schema <;> simp_all

/-- The number of parts tells which of them a gapless reference has. -/
theorem fields_eq_of_parts {t u : Table} (ht : t.Gapless) (hu : u.Gapless)
    (h : t.parts = u.parts) : t.name = u.name ∧ t.schema = u.schema ∧ t.catalog = u.catalog := by
  obtain ⟨htname, htgap⟩ := ht
  obtain ⟨huname, hugap⟩ := hu
  rw [parts_of_name htname, parts_of_name huname] at h
  cases htc : t.catalog <;> cases hts : t.schema <;> cases huc : u.catalog <;>
    cases hus : u.schema <;> simp_all

/-- Decoding the pieces of a canonical name gives the parts that are not empty, in order. So
references agree exactly when these parts do, and gapless ones only when they are the same. -/
theorem canonicalName_lossless :
    (∀ (catalog schema : Option Text) (name : Text),
      ((canonicalName catalog schema name).splitOn (Text.byte '.')).map Text.Percent.decode =
          (if presentParts catalog schema name = [] then [[]]
            else presentParts catalog schema name) ∧
        (canonicalName catalog schema name = [] ↔ presentParts catalog schema name = [])) ∧
    (∀ t u : Table, t.same u = true ↔ t.parts = u.parts) ∧
    (∀ t u : Table, t.Gapless → u.Gapless →
      (t.same u = true ↔ t.name = u.name ∧ t.schema = u.schema ∧ t.catalog = u.catalog)) := by
  refine ⟨?_, same_iff_parts, ?_⟩
  · intro catalog schema name
    have hnone : canonicalName none none [] = [] := rfl
    refine ⟨map_decode_splitOn_canonicalName catalog schema name, ?_⟩
    rw [← hnone, canonicalName_eq_iff]
    rfl
  · intro t u ht hu
    rw [same_iff_parts]
    constructor
    · exact fields_eq_of_parts ht hu
    · rintro ⟨hname, hschema, hcatalog⟩
      rw [parts, parts, hname, hschema, hcatalog]

/-- A dot in a schema is no border between a catalog and a schema. -/
theorem canonicalName_lossless_dotted_schema :
    (ofParts (.ascii "c") (some (.ascii "a.b")) none).Gapless ∧
    (ofParts (.ascii "c") (some (.ascii "b")) (some (.ascii "a"))).Gapless ∧
    (ofParts (.ascii "c") (some (.ascii "a.b")) none).same
      (ofParts (.ascii "c") (some (.ascii "b")) (some (.ascii "a"))) = false := by
  have hdotted : (ofParts (.ascii "c") (some (.ascii "a.b")) none).Gapless :=
    ⟨by decide, by decide⟩
  have hnested : (ofParts (.ascii "c") (some (.ascii "b")) (some (.ascii "a"))).Gapless :=
    ⟨by decide, by decide⟩
  refine ⟨hdotted, hnested, Bool.eq_false_iff.mpr fun hsame => ?_⟩
  exact absurd ((canonicalName_lossless.2.2 _ _ hdotted hnested).mp hsame) (by decide)

/-- With a gap the places of the parts are lost. -/
example : (ofParts (.ascii "c") none (some (.ascii "a"))).same
    (ofParts (.ascii "c") (some (.ascii "a")) none) = true := by decide

end ScriptVet.Table
