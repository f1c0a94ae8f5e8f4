import ScriptVet.Grammar

namespace ScriptVet

open Ast (Node Kind)

/-- The known texts with their parses, the breakdowns to play, and scopes that stand in for the
resolved ones. -/
structure Fixture where
  parses : List (Text × Parse)
  parseFault : Option Text
  generateFault : Option Text
  scopesFault : Option Text
  fixedScopes : Option (List Scope)

namespace Fixture

/-- Texts are known up to the white space around them, and of two entries for one text the later
one counts. -/
def lookup (f : Fixture) (text : Text) : Parse :=
  match f.parses.findRev? (fun p => p.1.trim = text.trim) with
  | some p => p.2
  | none => .refused (.ascii "Invalid expression / Unexpected token: " ++ text.trim)

/-- A literal is a number if it consists of digits alone; any other literal is quoted. -/
def literalText (name : Text) : Text :=
  if name ≠ [] ∧ name.all Text.isDigit then name
  else Text.byte '\'' :: name ++ [Text.byte '\'']

def comma : Text := .ascii ", "

/-- The parts with commas between them; parts that are empty leave no comma at the beginning. -/
def listed (parts : List Text) : Text := Text.joined comma (parts.dropWhile (· = []))

/-- The tables after `FROM` and everything else but nested clauses after `SELECT`. -/
def selectText (pretty : Bool) (parts : List (Kind × Text)) : Text :=
  let tables := listed ((parts.filter (·.1 = .table)).map (·.2))
  let others := listed ((parts.filter fun p =>
    p.1 ∉ [Kind.table, .withClause, .join, .subquery]).map (·.2))
  .ascii "SELECT" ++ (if pretty then .ascii "\n  " else .ascii " ") ++ others ++
    if tables = [] then []
    else (if pretty then .ascii "\n" else .ascii " ") ++ .ascii "FROM " ++ tables

mutual

def render (pretty : Bool) : Node → Text
  | ⟨kind, name, database, catalog, _, children⟩ =>
    let parts := renderAll pretty children
    match kind with
    | .literal => literalText name
    | .star => .ascii "*"
    | .table => Text.joined (.ascii ".") ([catalog, database].filter (· ≠ []) ++ [name])
    | .eq =>
      match parts with
      | a :: b :: _ => a ++ .ascii " = " ++ b
      | _ => []
    | .setItem => parts.headD []
    | .set => .ascii "SET " ++ Text.joined comma parts
    | .command =>
      match children.find? (·.kind = .literal) with
      | some rest => name ++ .ascii " " ++ rest.name
      | none => name
    | .select => selectText pretty ((children.map (·.kind)).zip parts)
    | _ => name

def renderAll (pretty : Bool) : List Node → List Text
  | [] => []
  | n :: ns => render pretty n :: renderAll pretty ns

end

def commentText (comment : Text) : Text := .ascii "/* " ++ comment ++ .ascii " */ "

/-- The comments of the node itself come first, those below it are left out. -/
def generate (n : Node) (style : Style) : Text :=
  (if style.comments then n.comments.flatMap commentText else []) ++
    render style.pretty n

/-- A scope under construction: its bindings, and the scopes nested in it. -/
structure Frame where
  sources : Text.Map Scope.Source
  nested : List Scope

/-- A table does not replace a nested scope of the same name. -/
def Frame.bindTable (f : Frame) (n : Node) : Frame :=
  match f.sources.get? n.name with
  | some (.scope _) => f
  | _ => { f with sources := f.sources.insert n.name (.node (some n)) }

def Frame.bindScope (f : Frame) (name : Text) (index : Nat) : Frame :=
  { f with sources := f.sources.insert name (.scope (some index)) }

def Frame.nest (f : Frame) (scopes : List Scope) : Frame :=
  { f with nested := f.nested ++ scopes }

mutual

/-- The scope of a query, which gets the number `self`, followed by the scopes nested in it. -/
def scopesFrom (self : Nat) (parent : Option Nat) (role : Scope.Role) (n : Node) : List Scope :=
  let named := bindFirstWith self ⟨∅, []⟩ n.children
  let frame := if n.kind = .union then addBranches self named n.children
    else bindSources self named n.children
  ⟨role, parent, frame.sources⟩ :: frame.nested
  termination_by 2 * n.size
  decreasing_by all_goals (rw [n.size_eq]; omega)

/-- Only the first `WITH` clause counts. -/
def bindFirstWith (self : Nat) (f : Frame) : List Node → Frame
  | [] => f
  | n :: rest =>
    if n.kind = .withClause then bindCtes self f n.children else bindFirstWith self f rest
  termination_by ns => 2 * Node.totalSize ns + 1
  decreasing_by all_goals (rw [Node.totalSize, n.size_eq]; omega)

/-- Binds the name of every table expression that has a body. -/
def bindCtes (self : Nat) (f : Frame) : List Node → Frame
  | [] => f
  | n :: rest =>
    match h : n.children with
    | [] => bindCtes self f rest
    | body :: others =>
      let index := self + 1 + f.nested.length
      if n.kind = .cte then
        let nested := f.nest (scopesFrom index (some self) .cte body)
        bindCtes self (nested.bindScope n.name index) rest
      else bindCtes self f rest
  termination_by ns => 2 * Node.totalSize ns + 1
  decreasing_by all_goals (rw [Node.totalSize, n.size_eq, h]; simp only [Node.totalSize]; omega)

/-- The branches of a union are scopes of their own that nothing is bound to. -/
def addBranches (self : Nat) (f : Frame) : List Node → Frame
  | [] => f
  | n :: rest =>
    let index := self + 1 + f.nested.length
    if n.kind = .select ∨ n.kind = .union then
      addBranches self (f.nest (scopesFrom index (some self) .union n)) rest
    else addBranches self f rest
  termination_by ns => 2 * Node.totalSize ns + 1
  decreasing_by all_goals (rw [Node.totalSize, n.size_eq]; omega)

/-- The sources of a join belong to the scope around it. -/
def bindSources (self : Nat) (f : Frame) : List Node → Frame
  | [] => f
  | n :: rest =>
    let index := self + 1 + f.nested.length
    match n.kind with
    | .table => bindSources self (f.bindTable n) rest
    | .join => bindSources self (bindSources self f n.children) rest
    | .subquery =>
      match _h : n.children with
      | [] => bindSources self f rest
      | body :: _ =>
        let nested := f.nest (scopesFrom index (some self) .derivedTable body)
        bindSources self (if n.name = [] then nested else nested.bindScope n.name index) rest
    | .select | .union =>
      bindSources self (f.nest (scopesFrom index (some self) .subquery n)) rest
    | _ => bindSources self f rest
  termination_by ns => 2 * Node.totalSize ns + 1
  decreasing_by
    all_goals first
      | (rw [Node.totalSize, n.size_eq, _h]; simp only [Node.totalSize]; omega)
      | (rw [Node.totalSize, n.size_eq]; omega)

end

def resolveScopes (root : Node) : List Scope := scopesFrom 0 none .root root

/-- Plays `fault`, or answers. The message of a breakdown ends before its first zero byte. -/
def answer {α : Type} (fault : Option Text) (value : α) : Except Text α :=
  match fault with
  | some what => .error what.untilNul
  | none => .ok value

/-- Statements that lead to one another without end have to pass some known text twice. -/
def toGrammar (f : Fixture) : Grammar where
  parse text _ := answer f.parseFault (f.lookup text)
  generate n _ style := answer f.generateFault (generate n style)
  resolveScopes root := answer f.scopesFault (f.fixedScopes.getD (resolveScopes root))
  nesting := f.parses.length + 1

end Fixture

end ScriptVet
