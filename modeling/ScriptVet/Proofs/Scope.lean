import Mathlib.Logic.Equiv.Defs
import ScriptVet.Proofs.Text.Map
import ScriptVet.Scope

namespace ScriptVet.Scope

open Ast (Node)

/-- The scope has a binding that stands for the table node `n`. -/
def BindsTable (s : Scope) (n : Node) : Prop :=
  n.kind = .table ∧ ∃ key, (key, Source.node (some n)) ∈ s.sources.entries

/-- The scope around `s` has a binding of `name` that stands for a common table expression. -/
def UnderCte (scopes : List Scope) (s : Scope) (name : Text) : Prop :=
  ∃ i parent j body, s.parent = some i ∧ scopes[i]? = some parent ∧
    (name, Source.scope (some j)) ∈ parent.sources.entries ∧ scopes[j]? = some body ∧
    body.role = .cte

theorem Source.table?_eq_some {source : Source} {n : Node} :
    source.table? = some n ↔ n.kind = .table ∧ source = .node (some n) := by
  rcases source with (_ | m) | index
  · simp [table?]
  · simp only [table?, Option.ite_none_right_eq_some, Option.some.injEq, Source.node.injEq]
    constructor
    · intro h
      obtain ⟨hk, rfl⟩ := h
      exact ⟨hk, rfl⟩
    · intro h
      obtain ⟨hk, rfl⟩ := h
      exact ⟨hk, rfl⟩
  · simp [table?]

theorem Source.isCte_eq_true {scopes : List Scope} {source : Source} :
    source.isCte scopes = true ↔
      ∃ j body, source = .scope (some j) ∧ scopes[j]? = some body ∧ body.role = .cte := by
  rcases source with node | _ | j
  · simp [isCte]
  · simp [isCte]
  · simp only [isCte, Option.any_eq_true, decide_eq_true_eq, Source.scope.injEq, Option.some.injEq]
    constructor
    · intro h
      obtain ⟨body, hb, hr⟩ := h
      exact ⟨j, body, rfl, hb, hr⟩
    · intro h
      obtain ⟨_, body, rfl, hb, hr⟩ := h
      exact ⟨body, hb, hr⟩

theorem seesCte_eq_true {scopes : List Scope} {s : Scope} {name : Text} :
    s.seesCte scopes name = true ↔ UnderCte scopes s name := by
  rw [seesCte]
  cases hout : s.parent.bind (scopes[·]?) with
  | none =>
    have hno : ¬UnderCte scopes s name := by
      intro h
      obtain ⟨i, parent, j, body, hi, hp, -⟩ := h
      simp [hi, hp] at hout
    exact iff_of_false Bool.false_ne_true hno
  | some outer =>
    obtain ⟨i, hi, hp⟩ := Option.bind_eq_some_iff.mp hout
    simp only [Option.any_eq_true, Text.Map.get?_eq_some, Source.isCte_eq_true]
    constructor
    · intro h
      obtain ⟨source, hs, j, body, rfl, hb, hr⟩ := h
      exact ⟨i, outer, j, body, hi, hp, hs, hb, hr⟩
    · intro h
      obtain ⟨i', parent, j, body, hi', hp', hs, hb, hr⟩ := h
      have hii : i' = i := by simpa [hi] using hi'.symm
      subst hii
      have hpp : parent = outer := by simpa [hp] using hp'.symm
      subst hpp
      exact ⟨_, hs, j, body, rfl, hb, hr⟩

/-- The same binding, when the scope at place `i` has moved to place `σ i`. -/
def Source.moved (σ : Nat → Nat) : Source → Source
  | .node n => .node n
  | .scope index => .scope (index.map σ)

/-- `s'` is `s` with its references moved along `σ`; its bindings may be listed in any order. -/
structure Moved (σ : Nat → Nat) (s s' : Scope) : Prop where
  role : s'.role = s.role
  parent : s'.parent = s.parent.map σ
  sources : s'.sources.entries.Perm (s.sources.entries.map fun e => (e.1, e.2.moved σ))

/-- The same scopes in another order: what stood at place `i` stands at place `σ i` now. -/
def Reordered (σ : Equiv.Perm Nat) (scopes scopes' : List Scope) : Prop :=
  ∀ i, Option.Rel (Moved σ) scopes[i]? scopes'[σ i]?

theorem Source.moved_symm (σ : Equiv.Perm Nat) (source : Source) :
    (source.moved σ).moved σ.symm = source := by
  rcases source with node | _ | i
  · rfl
  · rfl
  · simp [moved]

theorem Moved.symm {σ : Equiv.Perm Nat} {s s' : Scope} (h : Moved σ s s') : Moved σ.symm s' s where
  role := h.role.symm
  parent := by simp [h.parent, Function.comp_def]
  sources := by
    have hback := (h.sources.map fun e => (e.1, e.2.moved σ.symm)).symm
    simpa only [List.map_map, Function.comp_def, Source.moved_symm, List.map_id'] using hback

theorem Reordered.symm {σ : Equiv.Perm Nat} {scopes scopes' : List Scope}
    (h : Reordered σ scopes scopes') : Reordered σ.symm scopes' scopes := by
  intro i
  have hi := h (σ.symm i)
  rw [σ.apply_symm_apply] at hi
  generalize scopes[σ.symm i]? = old at hi ⊢
  generalize scopes'[i]? = new at hi ⊢
  cases hi with
  | some hm => exact .some hm.symm
  | none => exact .none

end ScriptVet.Scope
