import ScriptVet.Text

namespace ScriptVet

inductive Level where
  | debug | info | warn | error
  deriving DecidableEq, Repr

namespace Level

def tag : Level → Text
  | debug => .ascii "debug"
  | info => .ascii "info"
  | warn => .ascii "warn"
  | error => .ascii "error"

def rank : Level → Nat
  | debug => 0
  | info => 1
  | warn => 2
  | error => 3

/-- A threshold keeps the levels from itself up. -/
def keeps (threshold level : Level) : Bool := threshold.rank ≤ level.rank

/-- The level with a name, whatever the case of its letters; `warning` is another name of `warn`. -/
def ofName? (name : Text) : Option Level :=
  if name.lower = .ascii "debug" then some debug
  else if name.lower = .ascii "info" then some info
  else if name.lower = .ascii "warn" ∨ name.lower = .ascii "warning" then some warn
  else if name.lower = .ascii "error" then some error
  else none

end Level

end ScriptVet
