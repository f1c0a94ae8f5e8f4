import ScriptVet.Proofs.Analyzer.Outcome
import ScriptVet.Proofs.TableSet
import Mathlib.Data.List.Forall2

namespace ScriptVet

open Ast (Node)

namespace TableSet

/-- The references of several lists in one set, list after list. -/
def gather (orders : List (List Table)) : TableSet := orders.foldl insertAll ∅

theorem find?_gather (orders : List (List Table)) (c : Text) :
    (gather orders).find? c = orders.findSome? fun ts => ts.find? (·.canonical = c) := by
  have hfrom (s : TableSet) : (orders.foldl insertAll s).find? c =
      (s.find? c).or (orders.findSome? fun ts => ts.find? (·.canonical = c)) := by
    induction orders generalizing s with
    | nil => simp
    | cons ts orders ih =>
      rw [List.foldl_cons, ih, find?_insertAll, Option.or_assoc, List.findSome?_cons]
      cases ts.find? (·.canonical = c) <;> rfl
  exact hfrom ∅

end TableSet

namespace Script

/-- The lists that may be made of the tables of some statements: the set of each statement is gone
through in any order, all references are gathered in one set, and this is listed in any order that has
no name before a smaller one. -/
def Tabulates (statements : List Statement) (ts : List Table) : Prop :=
  ∃ orders : List (List Table),
    List.Forall₂ (fun (st : Statement) order => order.Perm st.tables.toList) statements orders ∧
    ts.Perm (TableSet.gather orders).toList ∧
    ts.Pairwise fun t u => t.canonical ≤ u.canonical

theorem tables_eq_gather (s : Script) :
    s.tables = TableSet.gather (s.statements.map (·.tables.toList)) := by
  rw [TableSet.gather, List.foldl_map]
  rfl

theorem find?_tables (s : Script) (c : Text) :
    s.tables.find? c = s.statements.findSome? fun st => st.tables.find? c := by
  rw [tables_eq_gather, TableSet.find?_gather, List.findSome?_map]
  rfl

/-- Whatever the orders are, the gathered references are those of the first statements. -/
theorem find?_gather_of_perm {statements : List Statement} {orders : List (List Table)}
    (h : List.Forall₂ (fun (st : Statement) order => order.Perm st.tables.toList) statements orders)
    (c : Text) :
    (TableSet.gather orders).find? c = statements.findSome? fun st => st.tables.find? c := by
  rw [TableSet.find?_gather]
  induction h with
  | nil => rfl
  | cons horder _ ih =>
    rw [List.findSome?_cons, List.findSome?_cons, TableSet.find?_of_perm horder, ih]

theorem tabulates_iff {s : Script} {ts : List Table} :
    Tabulates s.statements ts ↔ ts = s.tables.sorted := by
  constructor
  · intro h
    obtain ⟨orders, horders, hperm, hle⟩ := h
    have hsame : (TableSet.gather orders).toList.Perm s.tables.toList := by
      apply TableSet.perm_of_find?_eq
      intro c
      rw [find?_gather_of_perm horders, find?_tables]
    exact TableSet.eq_sorted (hperm.trans hsame) hle
  · rintro rfl
    refine ⟨s.statements.map (·.tables.toList), ?_, ?_, s.tables.sorted_pairwise_le⟩
    · rw [List.forall₂_map_right_iff]
      exact List.forall₂_same.mpr fun st _ => .refl _
    · rw [← tables_eq_gather]
      exact s.tables.sorted_perm

theorem names_tables {s : Script} {c : Text} :
    s.tables.Names c ↔ ∃ st ∈ s.statements, st.tables.Names c := by
  simp only [TableSet.names_iff_find?, find?_tables, ← Option.isSome_iff_exists,
    List.findSome?_isSome_iff]

/-- A table comes from the first statement that refers to it. -/
theorem exists_first_of_mem_tables {s : Script} {t : Table} (ht : t ∈ s.tables.toList) :
    ∃ earlier st later, s.statements = earlier ++ st :: later ∧ t ∈ st.tables.toList ∧
      ∀ st' ∈ earlier, ¬st'.tables.Names t.canonical := by
  have hfind : s.tables.find? t.canonical = some t := TableSet.find?_eq_some.mpr ⟨ht, rfl⟩
  rw [find?_tables] at hfind
  obtain ⟨earlier, st, later, hsplit, hst, hnone⟩ := List.findSome?_eq_some_iff.mp hfind
  refine ⟨earlier, st, later, hsplit, (TableSet.find?_eq_some.mp hst).1, ?_⟩
  intro st' hst'
  exact TableSet.find?_eq_none.mp (hnone st' hst')

end Script

namespace Analyzer

/-- A report is about a script that has been read, and has its tables. -/
theorem exists_script_of_answers {a : Analyzer} {j : Journal} {clock : Reading} {r : Request}
    {report : Report} (h : a.Answers j clock r (.ok report)) :
    ∃ script : Script, (Script.read a.grammar r.sql r.engine).outcome = .done (.ok script) ∧
      report.tables = script.tables.sorted := by
  have hsize : ¬a.Oversized r := by
    intro hsize
    have hv := answers_iff.mp h
    rw [verdict_oversized hsize] at hv
    cases hv
  rcases (verdict_eq_done_iff hsize).mp (answers_iff.mp h) with hr | ⟨what, -, herror⟩
  · rw [Script.report_eq] at hr
    obtain ⟨answer, hread, hassessed⟩ := Run.bind_eq_done.mp hr
    cases answer with
    | error e => cases hassessed
    | ok script =>
      obtain ⟨report', heq, -, -, htables⟩ := Script.assess_ok hassessed
      cases heq
      exact ⟨script, hread, htables⟩
  · cases herror

/-- The tables of a report: ascending names, so none comes twice; exactly the names that the statements
of the script have, and each with the reference of the first statement that has it. No order of going
through the sets and no way of sorting gives another list, and no order of the statements other names. -/
theorem report_tables {a : Analyzer} {j : Journal} {clock : Reading} {r : Request} {report : Report}
    (h : a.Answers j clock r (.ok report)) :
    ∃ script : Script, (Script.read a.grammar r.sql r.engine).outcome = .done (.ok script) ∧
      (report.tables.Pairwise fun t u => t.canonical < u.canonical) ∧
      (∀ c, c ∈ report.tables.map (·.canonical) ↔ ∃ st ∈ script.statements, st.tables.Names c) ∧
      (∀ t ∈ report.tables, ∃ earlier st later, script.statements = earlier ++ st :: later ∧
        t ∈ st.tables.toList ∧ ∀ st' ∈ earlier, ¬st'.tables.Names t.canonical) ∧
      (∀ ts, Script.Tabulates script.statements ts ↔ ts = report.tables) ∧
      ∀ statements, statements.Perm script.statements → ∃ ts,
        (∀ ts', Script.Tabulates statements ts' ↔ ts' = ts) ∧
        ts.map (·.canonical) = report.tables.map (·.canonical) := by
  obtain ⟨script, hread, htables⟩ := exists_script_of_answers h
  rw [htables]
  refine ⟨script, hread, script.tables.sorted_pairwise_lt, ?_, ?_, ?_, ?_⟩
  · intro c
    rw [TableSet.mem_map_canonical_sorted, Script.names_tables]
  · intro t ht
    exact Script.exists_first_of_mem_tables (script.tables.sorted_perm.mem_iff.mp ht)
  · intro ts
    exact Script.tabulates_iff
  · intro statements hperm
    let other : Script := ⟨script.engine, statements⟩
    refine ⟨other.tables.sorted, fun ts => Script.tabulates_iff (s := other), ?_⟩
    apply TableSet.map_canonical_sorted_eq
    intro c
    simp only [Script.names_tables, other, hperm.mem_iff]

/-- Reads every text as the given statements, and binds the tables that stand right below the root. -/
def flatGrammar (roots : List Node) : Grammar where
  parse _ _ := .ok (.units (roots.map some))
  generate _ _ _ := .ok []
  resolveScopes root :=
    .ok [⟨.root, none, .ofList (root.children.map fun n => (n.name, .node (some n)))⟩]
  nesting := 0

/-- The first statement has `c` in the catalog `a`, and the second one `c` in the schema `a`. -/
def twoReferences : List Node :=
  [⟨.select, [], [], [], [], [⟨.table, .ascii "b", [], [], [], []⟩,
      ⟨.table, .ascii "c", [], .ascii "a", [], []⟩]⟩,
    ⟨.select, [], [], [], [], [⟨.table, .ascii "c", .ascii "a", [], [], []⟩]⟩]

/-- Both references have the name `a.c`, so the second one is left out. -/
theorem report_tables_two_references :
    ∃ report, (limited 0 (some (flatGrammar twoReferences))).Answers .empty ⟨0, 0⟩
        ⟨[], .ascii "mysql", .ascii "q"⟩ (.ok report) ∧
      report.tables = [.ofParts (.ascii "c") none (some (.ascii "a")),
        .ofParts (.ascii "b") none none] := by
  have hsize : ¬(limited 0 (some (flatGrammar twoReferences))).Oversized
      ⟨[], .ascii "mysql", .ascii "q"⟩ := fun h => absurd h.1 (Nat.lt_irrefl 0)
  have hsound (c : Grammar.Call) : (flatGrammar twoReferences).fault? c = none := by cases c <;> rfl
  obtain ⟨report, hr⟩ := exists_report (a := limited 0 (some (flatGrammar twoReferences))) rfl
    (r := ⟨[], .ascii "mysql", .ascii "q"⟩) (by decide)
    (fun reason hrefused => by cases Except.ok.inj hrefused) (fun c _ => hsound c)
    ((flatGrammar twoReferences).settles_of_ne_postgres (by decide))
  have hanswer : (limited 0 (some (flatGrammar twoReferences))).Answers .empty ⟨0, 0⟩
      ⟨[], .ascii "mysql", .ascii "q"⟩ (.ok report) := answers_iff.mpr (verdict_of_report hsize hr)
  obtain ⟨script, hread, -, -, -, honly, -⟩ := report_tables hanswer
  have hscript : (Script.read (some (flatGrammar twoReferences)) (.ascii "q") (.ascii "mysql")).outcome =
      .done (.ok ⟨.ascii "mysql", twoReferences.map fun root =>
        .sql ⟨flatGrammar twoReferences, .ascii "mysql", root, Sql.tablesOf root.children⟩⟩) := by
    rfl
  obtain rfl := Except.ok.inj (Outcome.done.inj (hscript.symm.trans hread))
  have htabulates : Script.Tabulates (twoReferences.map fun root =>
      .sql ⟨flatGrammar twoReferences, .ascii "mysql", root, Sql.tablesOf root.children⟩)
      [.ofParts (.ascii "c") none (some (.ascii "a")), .ofParts (.ascii "b") none none] := by
    refine ⟨[[.ofParts (.ascii "c") none (some (.ascii "a")), .ofParts (.ascii "b") none none],
      [.ofParts (.ascii "c") (some (.ascii "a")) none]], ?_, by decide, by decide⟩
    exact .cons (by decide) (.cons (by decide) .nil)
  exact ⟨report, hanswer, ((honly _).mp htabulates).symm⟩

end Analyzer

end ScriptVet
