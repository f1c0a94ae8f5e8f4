import ScriptVet.Grammar.Fixture
import ScriptVet.Run

namespace ScriptVet

/-- The questions of a run to the grammar, in order. -/
def Run.calls {α : Type} (r : Run α) : List Grammar.Call :=
  r.events.filterMap fun
    | .call c => some c
    | .note _ _ => none

theorem Run.ask_ok {α : Type} (c : Grammar.Call) (a : α) :
    Run.ask c (.ok a) = ⟨[.call c], .done a⟩ := rfl

theorem Run.ask_error {α : Type} (c : Grammar.Call) (what : Text) :
    (Run.ask c (.error what) : Run α) = ⟨[.call c], .broken what⟩ := rfl

/-- The statement of a text that holds exactly one, void units not counted. -/
def Parse.single? : Parse → Option Ast.Node
  | .refused _ => none
  | .units us =>
    match us.filterMap id with
    | [unit] => some unit
    | _ => none

theorem Parse.single?_eq_some {p : Parse} {unit : Ast.Node} :
    p.single? = some unit ↔ ∃ us, p = .units us ∧ us.filterMap id = [unit] := by
  cases p with
  | refused reason => simp [single?]
  | units us =>
    rw [single?]
    constructor
    · intro h
      split at h
      · rename_i one hone
        cases h
        exact ⟨us, rfl, hone⟩
      · cases h
    · intro h
      obtain ⟨other, hus, hone⟩ := h
      cases hus
      rw [hone]

/-- No question makes the grammar break down. -/
structure Grammar.Steady (g : Grammar) : Prop where
  parse : ∀ t dialect, ∃ p, g.parse t dialect = .ok p
  generate : ∀ n dialect style, ∃ t, g.generate n dialect style = .ok t
  resolveScopes : ∀ root, ∃ scopes, g.resolveScopes root = .ok scopes

/-- Breakdowns have to be asked for. -/
theorem Fixture.steady {f : Fixture} (hparse : f.parseFault = none)
    (hgenerate : f.generateFault = none) (hscopes : f.scopesFault = none) : f.toGrammar.Steady where
  parse _ _ := by simp [toGrammar, answer, hparse]
  generate _ _ _ := by simp [toGrammar, answer, hgenerate]
  resolveScopes _ := by simp [toGrammar, answer, hscopes]

end ScriptVet
