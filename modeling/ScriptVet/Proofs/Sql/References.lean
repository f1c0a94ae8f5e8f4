import ScriptVet.Grammar.Fixture
import ScriptVet.Proofs.Ast.Search
import ScriptVet.Proofs.Run
import ScriptVet.Proofs.Scope
import ScriptVet.Proofs.TableSet
import ScriptVet.Sql.References

namespace ScriptVet.Sql

open Ast (Node)

theorem names_tablesOf {ns : List Node} {c : Text} :
    (tablesOf ns).Names c ↔ ∃ n ∈ ns, (tableOf n).canonical = c := by
  rw [tablesOf, TableSet.names_ofList]
  simp only [List.mem_map, exists_exists_and_eq_and]

theorem mem_boundTables {scopes : List Scope} {b : Scope × Node} :
    b ∈ boundTables scopes ↔ b.1 ∈ scopes ∧ b.1.BindsTable b.2 := by
  simp only [boundTables, List.mem_flatMap, List.mem_filterMap, Option.map_eq_some_iff,
    Scope.Source.table?_eq_some]
  constructor
  · intro h
    obtain ⟨s, hs, ⟨key, source⟩, hkey, n, ⟨hk, rfl⟩, rfl⟩ := h
    exact ⟨hs, hk, key, hkey⟩
  · intro h
    obtain ⟨hs, hk, key, hkey⟩ := h
    exact ⟨b.1, hs, _, hkey, b.2, ⟨hk, rfl⟩, rfl⟩

/-- Some scope binds a table node with the canonical name `c` whose own name does not stand for a
common table expression around that scope. -/
def Stored (scopes : List Scope) (c : Text) : Prop :=
  ∃ s ∈ scopes, ∃ n, s.BindsTable n ∧ (tableOf n).canonical = c ∧ ¬Scope.UnderCte scopes s n.name

def storedTables (scopes : List Scope) : TableSet :=
  tablesOf (((boundTables scopes).partition fun b => b.1.seesCte scopes b.2.name).2.map (·.2))

theorem names_storedTables {scopes : List Scope} {c : Text} :
    (storedTables scopes).Names c ↔ Stored scopes c := by
  rw [storedTables, names_tablesOf, List.partition_eq_filter_filter]
  simp only [List.mem_map, List.mem_filter, mem_boundTables, Function.comp_apply,
    Bool.not_eq_true', ← Bool.not_eq_true, Scope.seesCte_eq_true]
  constructor
  · intro h
    obtain ⟨_, ⟨⟨s, n⟩, ⟨⟨hs, hn⟩, hfree⟩, rfl⟩, hc⟩ := h
    exact ⟨s, hs, n, hn, hc, hfree⟩
  · intro h
    obtain ⟨s, hs, n, hn, hc, hfree⟩ := h
    exact ⟨n, ⟨(s, n), ⟨⟨hs, hn⟩, hfree⟩, rfl⟩, hc⟩

theorem forM_note_outcome {α : Type} (level : Level) (text : α → Text) (as : List α) :
    (as.forM fun a => Run.note level (text a)).outcome = .done () := by
  induction as with
  | nil => rfl
  | cons a as ih =>
    rw [List.forM, Run.bind_done rfl]
    exact ih

theorem scopeTables_outcome {g : Grammar} {root : Node} {scopes : List Scope}
    (hg : g.resolveScopes root = .ok scopes) :
    (scopeTables g root).outcome = .done (storedTables scopes) := by
  rw [scopeTables, Grammar.scopes, hg, Run.ask_ok, Run.bind_done rfl]
  dsimp only
  rw [Run.bind_done (forM_note_outcome _ _ _)]
  rfl

theorem references_describe (g : Grammar) (dialect : Option Dialect) {root : Node}
    (kind : root.kind = .describe) : references g dialect root = pure (tablesBelow root) := by
  rw [references, kind]

theorem references_command (g : Grammar) (dialect : Option Dialect) {root : Node}
    (kind : root.kind = .command) : references g dialect root = commandTables g dialect root := by
  rw [references, kind]

theorem references_scoped (g : Grammar) (dialect : Option Dialect) {root : Node}
    (hd : root.kind ≠ .describe) (hc : root.kind ≠ .command) :
    references g dialect root = scopeTables g root := by
  rw [references]
  split
  · exact absurd ‹_› hd
  · exact absurd ‹_› hc
  · rfl

def tableNode (database name : Text) : Node := ⟨.table, name, database, [], [], []⟩

def selecting (children : List Node) : Node := ⟨.select, [], [], [], [], children⟩

/-- A query that names an expression `foo` over the table `t`, and reads `n` in a derived table. -/
def belowFoo (n : Node) : Node :=
  selecting
    [⟨.withClause, [], [], [], [],
      [⟨.cte, .ascii "foo", [], [], [], [selecting [tableNode [] (.ascii "t")]]⟩]⟩,
    ⟨.subquery, .ascii "x", [], [], [], [selecting [n]]⟩]

def derivedScope (n : Node) : Scope :=
  ⟨.derivedTable, some 0, .ofList [(n.name, .node (some n))]⟩

def belowFooScopes (n : Node) : List Scope :=
  [⟨.root, none, .ofList [(.ascii "foo", .scope (some 1)), (.ascii "x", .scope (some 2))]⟩,
    ⟨.cte, some 0, .ofList [(.ascii "t", .node (some (tableNode [] (.ascii "t"))))]⟩,
    derivedScope n]

/-- Knows how to read the operand of `SHOW COLUMNS FROM t`. -/
def showGrammar : Grammar :=
  { parses := [(.ascii "SELECT COLUMNS FROM t", .units [some (selecting [tableNode [] (.ascii "t")])])]
    parseFault := none
    generateFault := none
    scopesFault := none
    fixedScopes := none : Fixture }.toGrammar

theorem showGrammar_belowFoo (database name : Text) :
    showGrammar.resolveScopes (belowFoo (tableNode database name)) =
      .ok (belowFooScopes (tableNode database name)) := by
  change Except.ok (Fixture.resolveScopes (belowFoo (tableNode database name))) = _
  simp only [Fixture.resolveScopes, Fixture.scopesFrom, Fixture.bindFirstWith, Fixture.bindCtes,
    Fixture.bindSources, belowFoo, selecting, tableNode, reduceCtorEq, if_false, if_true]
  rfl

theorem bindsTable_derivedScope (database name : Text) :
    (derivedScope (tableNode database name)).BindsTable (tableNode database name) :=
  ⟨rfl, name, List.mem_singleton_self _⟩

/-- A reference that gives a schema or a catalog. -/
def Qualified (n : Node) : Prop := n.database ≠ [] ∨ n.catalog ≠ []

/-- A qualified table is reported unless every binding of a table with its canonical name stands
below a common table expression that has the bare name. -/
theorem qualified_references_iff (g : Grammar) (dialect : Option Dialect) (root : Node)
    (scopes : List Scope) (noDescription : root.kind ≠ .describe) (noCommand : root.kind ≠ .command)
    (answer : g.resolveScopes root = .ok scopes) :
    ∃ set, (references g dialect root).outcome = .done set ∧
      ∀ s ∈ scopes, ∀ n, s.BindsTable n → Qualified n →
        (set.Names (tableOf n).canonical ↔
          ∃ s' ∈ scopes, ∃ n', s'.BindsTable n' ∧ (tableOf n').canonical = (tableOf n).canonical ∧
            ¬Scope.UnderCte scopes s' n'.name) := by
  rw [references_scoped g dialect noDescription noCommand]
  exact ⟨storedTables scopes, scopeTables_outcome answer, fun _ _ _ _ _ => names_storedTables⟩

theorem qualified_references_prod_bar :
    (belowFoo (tableNode (.ascii "prod") (.ascii "bar"))).kind = .select ∧
      Qualified (tableNode (.ascii "prod") (.ascii "bar")) ∧
      ∃ set, (references showGrammar none
          (belowFoo (tableNode (.ascii "prod") (.ascii "bar")))).outcome = .done set ∧
        set.Names (tableOf (tableNode (.ascii "prod") (.ascii "bar"))).canonical := by
  have hq : Qualified (tableNode (.ascii "prod") (.ascii "bar")) := .inl (by decide)
  have hbound := bindsTable_derivedScope (.ascii "prod") (.ascii "bar")
  have hmem : derivedScope (tableNode (.ascii "prod") (.ascii "bar")) ∈
      belowFooScopes (tableNode (.ascii "prod") (.ascii "bar")) := by simp [belowFooScopes]
  have hfree : ¬Scope.UnderCte (belowFooScopes (tableNode (.ascii "prod") (.ascii "bar")))
      (derivedScope (tableNode (.ascii "prod") (.ascii "bar"))) (.ascii "bar") := by
    rw [← Scope.seesCte_eq_true]
    decide
  obtain ⟨set, hset, hnames⟩ := qualified_references_iff showGrammar none
    (belowFoo (tableNode (.ascii "prod") (.ascii "bar"))) _ (by decide) (by decide)
    (showGrammar_belowFoo _ _)
  refine ⟨rfl, hq, set, hset, ?_⟩
  exact (hnames _ hmem _ hbound hq).mpr ⟨_, hmem, _, hbound, rfl, hfree⟩

/-- The schema of `prod.foo` does not save it from being taken for the expression `foo`. -/
theorem qualified_reference_hidden :
    (belowFoo (tableNode (.ascii "prod") (.ascii "foo"))).kind = .select ∧
      showGrammar.resolveScopes (belowFoo (tableNode (.ascii "prod") (.ascii "foo"))) =
        .ok (belowFooScopes (tableNode (.ascii "prod") (.ascii "foo"))) ∧
      (∃ s ∈ belowFooScopes (tableNode (.ascii "prod") (.ascii "foo")),
        s.BindsTable (tableNode (.ascii "prod") (.ascii "foo"))) ∧
      Qualified (tableNode (.ascii "prod") (.ascii "foo")) ∧
      ∃ set, (references showGrammar none
          (belowFoo (tableNode (.ascii "prod") (.ascii "foo")))).outcome = .done set ∧
        ¬set.Names (tableOf (tableNode (.ascii "prod") (.ascii "foo"))).canonical := by
  have hscopes := showGrammar_belowFoo (.ascii "prod") (.ascii "foo")
  have hset : (references showGrammar none
      (belowFoo (tableNode (.ascii "prod") (.ascii "foo")))).outcome =
        .done (storedTables (belowFooScopes (tableNode (.ascii "prod") (.ascii "foo")))) := by
    rw [references_scoped showGrammar none (by decide) (by decide)]
    exact scopeTables_outcome hscopes
  refine ⟨rfl, hscopes, ⟨_, by simp [belowFooScopes], bindsTable_derivedScope _ _⟩,
    .inl (by decide), _, hset, by decide⟩

end ScriptVet.Sql
