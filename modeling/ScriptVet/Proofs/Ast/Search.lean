import Mathlib.Tactic.ByContra
import ScriptVet.Ast.Search

namespace ScriptVet.Ast.Node

/-- A direct child of the kind, before which there is none of this kind. -/
def FirstChild (n : Node) (kind : Kind) (c : Node) : Prop :=
  c.kind = kind ∧ ∃ before after, n.children = before ++ c :: after ∧ ∀ b ∈ before, b.kind ≠ kind

theorem child?_eq_some {n c : Node} {kind : Kind} :
    n.child? kind = some c ↔ n.FirstChild kind c := by
  rw [child?, List.find?_eq_some_iff_append, FirstChild]
  simp only [decide_eq_true_eq, Bool.not_eq_true', decide_eq_false_iff_not]

/-- A node that stands somewhere in the tree of `root`. -/
inductive Contains (root : Node) : Node → Prop where
  | root : Contains root root
  | child {parent n : Node} : Contains root parent → n ∈ parent.children → Contains root n

theorem totalSize_children (ns : List Node) :
    totalSize (ns.flatMap (·.children)) + ns.length = totalSize ns := by
  induction ns with
  | nil => rfl
  | cons n ns ih =>
    rw [List.flatMap_cons, totalSize_append, List.length_cons, totalSize, size_eq]
    omega

/-- Every level costs at least one node, so a level that is not empty is not deeper than the tree is
large. -/
theorem totalSize_level_add_le (root : Node) (depth : Nat) (h : root.level depth ≠ []) :
    totalSize (root.level depth) + depth ≤ root.size := by
  induction depth with
  | zero => simp [level, totalSize]
  | succ depth ih =>
    have habove : root.level depth ≠ [] := by
      intro hnil
      simp [level, hnil] at h
    have hlen : 0 < (root.level depth).length := List.length_pos_iff.mpr habove
    have hsplit := totalSize_children (root.level depth)
    have hbound := ih habove
    rw [level]
    omega

theorem level_eq_nil {root : Node} {depth : Nat} (h : root.size ≤ depth) :
    root.level depth = [] := by
  by_contra hne
  have hbound := totalSize_level_add_le root depth hne
  have hlen : 0 < (root.level depth).length := List.length_pos_iff.mpr hne
  have hsplit := totalSize_children (root.level depth)
  omega

theorem contains_of_mem_level {root n : Node} {depth : Nat} (h : n ∈ root.level depth) :
    root.Contains n := by
  induction depth generalizing n with
  | zero =>
    rw [level, List.mem_singleton] at h
    exact h ▸ .root
  | succ depth ih =>
    obtain ⟨parent, hp, hn⟩ := List.mem_flatMap.mp h
    exact .child (ih hp) hn

theorem Contains.exists_level {root n : Node} (h : root.Contains n) :
    ∃ depth, n ∈ root.level depth := by
  induction h with
  | root => exact ⟨0, List.mem_singleton_self root⟩
  | child _ hn ih =>
    obtain ⟨depth, hp⟩ := ih
    exact ⟨depth + 1, List.mem_flatMap.mpr ⟨_, hp, hn⟩⟩

theorem mem_byLevel {root n : Node} : n ∈ root.byLevel ↔ root.Contains n := by
  rw [byLevel, List.mem_flatMap]
  constructor
  · intro h
    obtain ⟨depth, -, hn⟩ := h
    exact contains_of_mem_level hn
  · intro h
    obtain ⟨depth, hn⟩ := h.exists_level
    refine ⟨depth, List.mem_range.mpr ?_, hn⟩
    by_contra hdeep
    rw [level_eq_nil (Nat.le_of_not_lt hdeep)] at hn
    exact List.not_mem_nil hn

section Visiting

variable {σ : Type} (visit : σ → Node → σ × Bool)

/-- Visits the nodes of a list from left to right, and tells whether the visitor goes on behind the
last of them. -/
def visitAll (s : σ) : List Node → σ × Bool
  | [] => (s, true)
  | n :: ns => if (visit s n).2 then visitAll (visit s n).1 ns else ((visit s n).1, false)

theorem visitAll_append (s : σ) (ms ns : List Node) :
    visitAll visit s (ms ++ ns) =
      if (visitAll visit s ms).2 then visitAll visit (visitAll visit s ms).1 ns
      else visitAll visit s ms := by
  induction ms generalizing s with
  | nil => rfl
  | cons m ms ih =>
    rw [List.cons_append, visitAll, visitAll]
    split
    · exact ih _
    · rfl

/-- The queue after the nodes at its front have been visited: their children stand at its end. -/
theorem walkFrom_append (s : σ) (ms queue : List Node) :
    walkFrom visit s (ms ++ queue) =
      if (visitAll visit s ms).2 then
        walkFrom visit (visitAll visit s ms).1 (queue ++ ms.flatMap (·.children))
      else (visitAll visit s ms).1 := by
  induction ms generalizing s queue with
  | nil => simp [visitAll]
  | cons m ms ih =>
    rw [List.cons_append, walkFrom_cons, visitAll]
    split
    · rw [List.append_assoc, ih, List.flatMap_cons, List.append_assoc]
    · rfl

/-- The levels from `depth` on, `count` of them, are visited one after the other. -/
theorem walkFrom_level (root : Node) (s : σ) (depth count : Nat) :
    walkFrom visit s (root.level depth) =
      if (visitAll visit s ((List.range' depth count).flatMap root.level)).2 then
        walkFrom visit (visitAll visit s ((List.range' depth count).flatMap root.level)).1
          (root.level (depth + count))
      else (visitAll visit s ((List.range' depth count).flatMap root.level)).1 := by
  induction count generalizing s depth with
  | zero => simp [visitAll]
  | succ count ih =>
    have hvisit := walkFrom_append visit s (root.level depth) []
    rw [List.append_nil, List.nil_append] at hvisit
    rw [hvisit, List.range'_succ, List.flatMap_cons, visitAll_append]
    split
    · -- the children of a level are the next level by definition
      change walkFrom visit _ (root.level (depth + 1)) = _
      rw [ih, Nat.add_assoc depth 1 count, Nat.add_comm 1 count]
    · rfl

/-- A search visits the nodes in the order of their levels. -/
theorem walk_eq_visitAll (root : Node) (s : σ) :
    root.walk visit s = (visitAll visit s root.byLevel).1 := by
  have hend : root.level (0 + root.size) = [] := level_eq_nil (Nat.le_of_eq (Nat.zero_add _).symm)
  have hwalk := walkFrom_level visit root s 0 root.size
  rw [hend, walkFrom_nil, ite_self, ← List.range_eq_range'] at hwalk
  exact hwalk

end Visiting

theorem find?_eq (root : Node) (p : Node → Bool) : root.find? p = root.byLevel.find? p := by
  rw [find?, walk_eq_visitAll]
  induction root.byLevel with
  | nil => rfl
  | cons n ns ih => cases h : p n <;> simp [visitAll, h, ih]

theorem any_eq (root : Node) (p : Node → Bool) : root.any p = root.byLevel.any p := by
  rw [any, walk_eq_visitAll]
  induction root.byLevel with
  | nil => rfl
  | cons n ns ih => cases h : p n <;> simp [visitAll, h, ih]

theorem visitAll_collect (p : Node → Bool) (found ns : List Node) :
    visitAll (fun found n => (if p n then n :: found else found, true)) found ns =
      ((ns.filter p).reverse ++ found, true) := by
  induction ns generalizing found with
  | nil => rfl
  | cons n ns ih => cases h : p n <;> simp [visitAll, h, ih]

theorem findAll_eq (root : Node) (p : Node → Bool) : root.findAll p = root.byLevel.filter p := by
  rw [findAll, walk_eq_visitAll, visitAll_collect]
  simp

theorem any_eq_true {root : Node} {p : Node → Bool} :
    root.any p = true ↔ ∃ n, root.Contains n ∧ p n = true := by
  rw [any_eq, List.any_eq_true]
  simp only [mem_byLevel]

end ScriptVet.Ast.Node
