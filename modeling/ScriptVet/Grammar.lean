import ScriptVet.Dialect
import ScriptVet.Scope

namespace ScriptVet

/-- How a node is written back as text. -/
structure Style where
  pretty : Bool
  comments : Bool
  deriving DecidableEq, Repr

/-- What becomes of a text: a list of units, where a void unit stands for an empty statement, or a
refusal with its reason. -/
inductive Parse where
  | units (units : List (Option Ast.Node))
  | refused (reason : Text)

/-- The answers are determined by the question alone. A grammar that breaks down leaves a message in the
place of an answer. -/
structure Grammar where
  parse : Text → Option Dialect → Except Text Parse
  generate : Ast.Node → Option Dialect → Style → Except Text Text
  resolveScopes : Ast.Node → Except Text (List Scope)
  /-- How many statements inside one another a caller may ask for before it gives up. -/
  nesting : Nat

/-- A question to a grammar. -/
inductive Grammar.Call where
  | parse (text : Text) (dialect : Option Dialect)
  | generate (node : Ast.Node) (dialect : Option Dialect) (style : Style)
  | resolveScopes (root : Ast.Node)

end ScriptVet
