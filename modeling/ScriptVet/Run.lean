import ScriptVet.Grammar
import ScriptVet.Level

/-!
Computations that consult a grammar and leave diagnostics. A run is recorded by its events in order
and by how it ends: with a value, by a breakdown of the grammar or of another part that it relies on,
or unfinished, when statements are nested deeper than the grammar allows.
-/

namespace ScriptVet

inductive Event where
  | note (level : Level) (text : Text)
  | call (call : Grammar.Call)

inductive Outcome (α : Type) where
  | done (value : α)
  | broken (what : Text)
  | unfinished
  deriving DecidableEq

def Outcome.map {α β : Type} (f : α → β) : Outcome α → Outcome β
  | done a => done (f a)
  | broken what => broken what
  | unfinished => unfinished

structure Run (α : Type) where
  events : List Event
  outcome : Outcome α

namespace Run

variable {α β : Type}

protected def pure (a : α) : Run α := ⟨[], .done a⟩

/-- A run that does not end with a value ends here, too. -/
protected def bind (r : Run α) (f : α → Run β) : Run β :=
  match r.outcome with
  | .done a => ⟨r.events ++ (f a).events, (f a).outcome⟩
  | .broken what => ⟨r.events, .broken what⟩
  | .unfinished => ⟨r.events, .unfinished⟩

protected def map (f : α → β) (r : Run α) : Run β := ⟨r.events, r.outcome.map f⟩

instance : Monad Run where
  pure := Run.pure
  bind := Run.bind
  map := Run.map

instance : Inhabited (Run α) := ⟨⟨[], .unfinished⟩⟩

def note (level : Level) (text : Text) : Run Unit := ⟨[.note level text], .done ()⟩

def unfinished : Run α := ⟨[], .unfinished⟩

/-- Records a question to the grammar and takes over its answer. -/
def ask (call : Grammar.Call) : Except Text α → Run α
  | .ok a => ⟨[.call call], .done a⟩
  | .error what => ⟨[.call call], .broken what⟩

theorem pure_eq (a : α) : (pure a : Run α) = ⟨[], .done a⟩ := rfl

theorem map_eq (f : α → β) (r : Run α) : f <$> r = ⟨r.events, r.outcome.map f⟩ := rfl

theorem bind_done {r : Run α} {a : α} (h : r.outcome = .done a) (f : α → Run β) :
    r >>= f = ⟨r.events ++ (f a).events, (f a).outcome⟩ := by
  change Run.bind r f = _
  rw [Run.bind, h]

theorem bind_broken {r : Run α} {what : Text} (h : r.outcome = .broken what) (f : α → Run β) :
    r >>= f = ⟨r.events, .broken what⟩ := by
  change Run.bind r f = _
  rw [Run.bind, h]

theorem bind_unfinished {r : Run α} (h : r.outcome = .unfinished) (f : α → Run β) :
    r >>= f = ⟨r.events, .unfinished⟩ := by
  change Run.bind r f = _
  rw [Run.bind, h]

theorem id_map_eq (r : Run α) : id <$> r = r := by
  obtain ⟨events, outcome⟩ := r
  cases outcome <;> rfl

theorem bind_pure_comp_eq (f : α → β) (r : Run α) : (r >>= fun a => pure (f a)) = f <$> r := by
  obtain ⟨events, outcome⟩ := r
  cases outcome with
  | done a => rw [bind_done rfl]; simp [pure_eq, map_eq, Outcome.map]
  | broken what => rw [bind_broken rfl]; rfl
  | unfinished => rw [bind_unfinished rfl]; rfl

theorem bind_bind {γ : Type} (r : Run α) (f : α → Run β) (g : β → Run γ) :
    r >>= f >>= g = r >>= fun a => f a >>= g := by
  obtain ⟨events, outcome⟩ := r
  change Run.bind (Run.bind _ f) g = Run.bind _ fun a => Run.bind (f a) g
  cases outcome with
  | broken what => rfl
  | unfinished => rfl
  | done a =>
    simp only [Run.bind]
    cases (f a).outcome <;> simp

instance : LawfulMonad Run :=
  LawfulMonad.mk' Run id_map_eq (fun _ _ => by rw [bind_done rfl]; rfl) bind_bind
    (fun _ _ => rfl) (fun _ _ => rfl) (fun _ _ => rfl) bind_pure_comp_eq

/-- Goes on with `handle` after a breakdown. -/
def recover (r : Run α) (handle : Text → Run α) : Run α :=
  match r.outcome with
  | .broken what => ⟨r.events ++ (handle what).events, (handle what).outcome⟩
  | _ => r

end Run

namespace Grammar

def parsed (g : Grammar) (text : Text) (dialect : Option Dialect) : Run Parse :=
  .ask (.parse text dialect) (g.parse text dialect)

def generated (g : Grammar) (n : Ast.Node) (dialect : Option Dialect) (style : Style) : Run Text :=
  .ask (.generate n dialect style) (g.generate n dialect style)

def scopes (g : Grammar) (root : Ast.Node) : Run (List Scope) :=
  .ask (.resolveScopes root) (g.resolveScopes root)

end Grammar

end ScriptVet
