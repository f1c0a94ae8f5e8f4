import ScriptVet.Text.Map

namespace ScriptVet

/-- A setting has the text of its value, or is just switched on. -/
inductive Setting where
  | text (value : Text)
  | enabled
  deriving DecidableEq

abbrev Settings := Text.Map Setting

end ScriptVet
