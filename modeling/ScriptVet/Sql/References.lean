import ScriptVet.Ast.Search
import ScriptVet.Run
import ScriptVet.TableSet

namespace ScriptVet.Sql

open Ast (Node)

def tableOf (n : Node) : Table := .ofParts n.name (some n.database) (some n.catalog)

def tablesOf (ns : List Node) : TableSet := .ofList (ns.map tableOf)

/-- Every table of a tree. -/
def tablesBelow (root : Node) : TableSet := tablesOf (root.findAll (·.kind = .table))

def operandPhrase (command operand : Text) : Text :=
  command ++ .ascii " command literal '" ++ operand ++ .ascii "'"

def unreadOperand (command operand reason : Text) : Text :=
  .ascii "table_extractor: cannot resolve tables from " ++ operandPhrase command operand ++
    .ascii ": " ++ reason

def splitOperand (command operand : Text) (count : Nat) : Text :=
  .ascii "table_extractor: " ++ operandPhrase command operand ++ .ascii " parsed into " ++
    .decimal count ++ .ascii " statements, no tables resolved"

/-- The query that stands for the operand of a command. -/
def operandQuery (operand : Text) : Text := .ascii "SELECT " ++ operand

/-- A command whose operand is not one query refers to no tables. -/
def commandTables (g : Grammar) (dialect : Option Dialect) (command : Node) : Run TableSet :=
  match command.find? (·.kind = .literal) with
  | none => pure ∅
  | some operand => do
    match ← g.parsed (operandQuery operand.name) dialect with
    | .refused reason =>
      Run.note .warn (unreadOperand command.name operand.name reason)
      return ∅
    | .units units =>
      match units.filterMap id with
      | [unit] => return tablesBelow unit
      | others =>
        Run.note .warn (splitOperand command.name operand.name others.length)
        return ∅

/-- The table nodes that the scopes bind, each with the scope that binds it. -/
def boundTables (scopes : List Scope) : List (Scope × Node) :=
  scopes.flatMap fun s => s.sources.entries.filterMap fun e => e.2.table?.map (s, ·)

def aliasSkipped (name : Text) : Text :=
  .ascii "table_extractor: '" ++ name ++ .ascii "' is a CTE alias, skipped"

/-- The bound tables without those whose name is that of a common table expression. -/
def scopeTables (g : Grammar) (root : Node) : Run TableSet := do
  let scopes ← g.scopes root
  let (aliases, stored) := (boundTables scopes).partition fun b => b.1.seesCte scopes b.2.name
  aliases.forM fun b => Run.note .debug (aliasSkipped b.2.name)
  return tablesOf (stored.map (·.2))

def references (g : Grammar) (dialect : Option Dialect) (root : Node) : Run TableSet :=
  match root.kind with
  | .describe => pure (tablesBelow root)
  | .command => commandTables g dialect root
  | _ => scopeTables g root

end ScriptVet.Sql
