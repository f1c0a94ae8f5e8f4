namespace ScriptVet

/-- The totals count modulo 2 ^ 64. -/
structure Stats where
  scripts : UInt64
  statements : UInt64
  mutatingScripts : UInt64
  rejectedScripts : UInt64
  deriving DecidableEq, Repr

namespace Stats

def empty : Stats := ⟨0, 0, 0, 0⟩

/-- Counts a script that was analysed. -/
def accept (s : Stats) (statements : UInt64) (mutating : Bool) : Stats :=
  { s with
    scripts := s.scripts + 1
    statements := s.statements + statements
    mutatingScripts := if mutating then s.mutatingScripts + 1 else s.mutatingScripts }

/-- Counts a script that was not analysed. -/
def reject (s : Stats) : Stats := { s with rejectedScripts := s.rejectedScripts + 1 }

/-- The share of the analysed scripts that change something, and zero as long as there are none. -/
def mutationRate (s : Stats) : Float :=
  if s.scripts = 0 then 0 else s.mutatingScripts.toFloat / s.scripts.toFloat

end Stats

end ScriptVet
