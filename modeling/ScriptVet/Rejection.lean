import ScriptVet.Text

namespace ScriptVet

/-- The two kinds of statements. -/
inductive Language where
  | kql | sql
  deriving DecidableEq, Repr

inductive Cause where
  /-- The grammar refuses the text. -/
  | unparseable (reason : Text)
  /-- One statement was expected. -/
  | notSingle (language : Language) (count : Nat)
  /-- KQL is spoken by one engine only. -/
  | foreignEngine (engine : Text)
  /-- The text has more bytes than the limit allows. -/
  | tooLarge (size limit : Nat)
  /-- There is no grammar to read SQL with. -/
  | noGrammar
  /-- The grammar broke down. -/
  | grammarFailure (what : Text)
  deriving DecidableEq

namespace Cause

def code : Cause → Text
  | unparseable _ => .ascii "unparseable_query"
  | notSingle _ _ => .ascii "not_single_statement"
  | foreignEngine _ => .ascii "invalid_engine"
  | tooLarge _ _ => .ascii "input_too_large"
  | noGrammar => .ascii "internal_error"
  | grammarFailure _ => .ascii "internal_error"

def message : Cause → Text
  | unparseable reason => .ascii "Unable to split query: " ++ reason
  | notSingle .kql count =>
    .ascii "KQL statement should have exactly one statement, got " ++ .decimal count
  | notSingle .sql count =>
    .ascii "SQLStatement should have exactly one statement, got " ++ .decimal count
  | foreignEngine engine => .ascii "Invalid engine: " ++ engine
  | tooLarge size limit =>
    .ascii "Script size " ++ .decimal size ++ .ascii " exceeds max_script_bytes " ++ .decimal limit
  | noGrammar => .ascii "No SQL engine configured for grammar-backed statements"
  | grammarFailure what => .ascii "Engine failure: " ++ what

end Cause

structure Rejection where
  cause : Cause
  context : Text
  deriving DecidableEq

end ScriptVet
