import ScriptVet.Proofs.Analyzer.Outcome

namespace ScriptVet

open Ast (Node Kind)

/-- The text that a question wants parsed, and the dialect that it names. -/
def Grammar.Call.parsed? : Grammar.Call → Option (Text × Option Dialect)
  | .parse t dialect => some (t, dialect)
  | _ => none

/-- The texts that a run wants parsed, in order. -/
def Run.parses {α : Type} (r : Run α) : List (Text × Option Dialect) :=
  r.calls.filterMap Grammar.Call.parsed?

namespace Ast.Node

/-- A node of the kind stands somewhere in the tree. -/
def Holds (root : Node) (kind : Kind) : Prop := ∃ n, root.Contains n ∧ n.kind = kind

theorem any_kind_iff {root : Node} {kind : Kind} :
    root.any (·.kind = kind) = true ↔ root.Holds kind := by
  simp [any_eq_true, Holds]

instance (root : Node) (kind : Kind) : Decidable (root.Holds kind) :=
  decidable_of_iff _ any_kind_iff

end Ast.Node

namespace Sql

variable {g : Grammar} {dialect : Option Dialect} {root : Node}

/-- The first literal of a command, in order of levels. -/
def operand? (root : Node) : Option Node :=
  if root.kind = .command then root.byLevel.find? (·.kind = .literal) else none

theorem isSome_operand? : (operand? root).isSome ↔ root.kind = .command ∧ root.Holds .literal := by
  rw [operand?]
  split
  · rename_i hk
    simp [hk, ← Node.any_kind_iff, Node.any_eq, List.find?_isSome]
  · rename_i hk
    simp [hk]

theorem parses_eq_nil {α : Type} {r : Run α} : r.parses = [] ↔ ∀ c ∈ r.calls, c.parsed? = none := by
  rw [Run.parses, List.filterMap_eq_nil_iff]

theorem law_parseless : Run.Law fun r => ∀ c ∈ r.calls, c.parsed? = none := Run.law_calls _

/-- What the search for the tables of a statement wants parsed: the operand of a command. -/
def operandParses (dialect : Option Dialect) (root : Node) : Option (Text × Option Dialect) :=
  (operand? root).map fun operand => (.ascii "SELECT " ++ operand.name, dialect)

theorem parses_commandTables (h : root.kind = .command) :
    (commandTables g dialect root).parses = (operandParses dialect root).toList := by
  rw [commandTables, operandParses, operand?, if_pos h, Node.find?_eq]
  cases root.byLevel.find? (·.kind = .literal) with
  | none => rfl
  | some operand =>
    dsimp only
    rw [Grammar.parsed]
    cases g.parse (operandQuery operand.name) dialect with
    | error what => rfl
    | ok p =>
      rw [Run.ask_ok, Run.parses, Run.calls_bind_done rfl]
      cases p with
      | refused reason => rfl
      | units us =>
        rcases hus : us.filterMap id with _ | ⟨unit, _ | ⟨other, others⟩⟩ <;>
          simp only [hus] <;> rfl

theorem parses_references :
    (references g dialect root).parses = (operandParses dialect root).toList := by
  by_cases hc : root.kind = .command
  · rw [references_command g dialect hc, parses_commandTables hc]
  · have hnone : operandParses dialect root = none := by simp [operandParses, operand?, hc]
    rw [hnone, Option.toList_none, parses_eq_nil]
    by_cases hd : root.kind = .describe
    · rw [references_describe g dialect hd]
      exact law_parseless.pure _
    · rw [references_scoped g dialect hd hc]
      exact law_parseless.scopeTables (fun _ => Run.forall_calls_ask _ rfl) root

theorem isSome_operandParses :
    (operandParses dialect root).isSome = decide (root.kind = .command ∧ root.Holds .literal) := by
  rw [operandParses, Option.isSome_map, Bool.eq_iff_iff, isSome_operand?, decide_eq_true_iff]

namespace Statement

variable {engine t : Text}

theorem parses_ofRoot :
    (ofRoot g engine root).parses = (operandParses (Dialect.ofEngine? engine) root).toList := by
  rw [ofRoot, bind_pure_comp, Run.parses, Run.calls_map]
  exact parses_references

/-- A text is parsed before anything else happens to it. -/
theorem calls_prefix_split :
    [.parse t (Dialect.ofEngine? engine)] <+: (split (some g) t engine).calls := by
  have hparsed : (g.parsed t (Dialect.ofEngine? engine)).calls <+: (roots g t engine).calls :=
    Run.calls_prefix_bind _ _
  have hroots : (roots g t engine).calls <+: (split (some g) t engine).calls :=
    Run.calls_prefix_bind _ _
  rw [Grammar.parsed, Run.calls_ask] at hparsed
  exact hparsed.trans hroots

theorem parses_split {us : List (Option Node)} {ss : List Statement}
    (hp : g.parse t (Dialect.ofEngine? engine) = .ok (.units us))
    (hss : ((us.filterMap id).mapM (ofRoot g engine)).outcome = .done ss) :
    (split (some g) t engine).parses =
      (t, Dialect.ofEngine? engine) ::
        (us.filterMap id).filterMap (operandParses (Dialect.ofEngine? engine)) := by
  have hparsed : (g.parsed t (Dialect.ofEngine? engine)).outcome = .done (.units us) := by
    rw [Grammar.parsed, hp, Run.ask_ok]
  rw [split_units hp, Run.parses, Run.calls_bind_done hparsed, Run.calls_map, Run.calls_mapM hss,
    Grammar.parsed, Run.calls_ask, List.singleton_append, List.filterMap_cons,
    List.filterMap_flatMap]
  have htotal := List.filterMap_eq_flatMap_toList (operandParses (Dialect.ofEngine? engine))
    (us.filterMap id)
  rw [htotal]
  exact congrArg (_ :: ·) (List.flatMap_congr fun root _ => parses_ofRoot)

end Statement

end Sql

namespace Analyzer

variable {a : Analyzer} {r : Request} {g : Grammar}

theorem exists_calls_report (hg : a.grammar = some g) (he : r.engine ≠ Kql.engine) :
    ∃ rest, (a.report r).calls = .parse r.sql (Dialect.ofEngine? r.engine) :: rest := by
  have hread : (Script.read a.grammar r.sql r.engine).calls <+: (a.report r).calls :=
    Run.calls_prefix_bind _ _
  rw [hg, Script.read_sql he, Run.calls_map] at hread
  obtain ⟨rest, hrest⟩ := Sql.Statement.calls_prefix_split.trans hread
  exact ⟨rest, hrest.symm⟩

theorem calls_report_in (hg : a.grammar = some g) (he : r.engine ≠ Kql.engine) :
    ∀ c ∈ (a.report r).calls, c.In (Dialect.ofEngine? r.engine) :=
  have law := Run.law_calls fun c => c.In (Dialect.ofEngine? r.engine)
  law.report_sql hg he (fun _ => Run.forall_calls_ask _ rfl) (fun _ _ => Run.forall_calls_ask _ rfl)
    (fun _ => Run.forall_calls_ask _ trivial)
    fun _ root _ _ => law.mutates (fun _ _ => Run.forall_calls_ask _ rfl)
      (fun _ _ hc => absurd hc List.not_mem_nil) g.nesting root

/-- Outside of Postgres the assessment of a script parses nothing more. -/
theorem parses_report (hg : a.grammar = some g) (he : r.engine ≠ Kql.engine)
    (hd : Dialect.ofEngine? r.engine ≠ some .postgres) {report : Report}
    (hr : (a.report r).outcome = .done (.ok report)) :
    ∃ us, g.parse r.sql (Dialect.ofEngine? r.engine) = .ok (.units us) ∧
      report.statementCount = (us.filterMap id).length ∧
      (a.report r).parses = (r.sql, Dialect.ofEngine? r.engine) ::
        (us.filterMap id).filterMap (Sql.operandParses (Dialect.ofEngine? r.engine)) := by
  rw [Script.report_eq, hg] at hr ⊢
  obtain ⟨answer, hread, hassessed⟩ := Run.bind_eq_done.mp hr
  rcases Script.read_eq_done he hread with ⟨reason, -, rfl⟩ | ⟨us, ss, hp, hss, rfl⟩
  · cases Outcome.done.inj hassessed
  · obtain ⟨report', hreport, -, hcount, -⟩ := Script.assess_ok hassessed
    obtain rfl := Except.ok.inj hreport
    have hlen : ss.length = (us.filterMap id).length := by
      rw [← (Sql.Statement.mapM_ofRoot hss).1, List.length_map]
    have hsplit : (Script.read (some g) r.sql r.engine).parses =
        (r.sql, Dialect.ofEngine? r.engine) ::
          (us.filterMap id).filterMap (Sql.operandParses (Dialect.ofEngine? r.engine)) := by
      rw [Script.read_sql he, Run.parses, Run.calls_map]
      exact Sql.Statement.parses_split hp hss
    have hassess : ∀ c ∈ (Script.assess ⟨r.engine, ss.map .sql⟩ r.engine).calls, c.parsed? = none :=
      Sql.law_parseless.assess_sql hss (fun _ _ => Run.forall_calls_ask _ rfl)
        fun root _ => Sql.law_parseless.mutates (fun h => absurd h hd) (fun h => absurd h hd) _ root
    refine ⟨us, hp, ?_, ?_⟩
    · rw [hcount, List.length_map, hlen]
    · rw [Run.parses, Run.calls_bind_done hread, List.filterMap_append, ← Run.parses, hsplit,
        Script.assessed, List.filterMap_eq_nil_iff.mpr hassess, List.append_nil]

/-- What a request asks. KQL and texts over the limit ask nothing. Any other text is parsed first, and
all that is asked about it is asked in one dialect. Outside of Postgres an accepted request has parsed,
besides its text, the operands of its commands in their order, and nothing else. -/
theorem grammar_questions (a : Analyzer) (j : Journal) (clock : Reading) (r : Request) :
    (r.engine = .ascii "kustokql" ∨ a.Oversized r → (a.analyze j clock r).calls = []) ∧
    ∀ g, a.grammar = some g → r.engine ≠ .ascii "kustokql" → ¬a.Oversized r →
      (∃ rest, (a.analyze j clock r).calls = .parse r.sql (Dialect.ofEngine? r.engine) :: rest) ∧
      (∀ c ∈ (a.analyze j clock r).calls, c.In (Dialect.ofEngine? r.engine)) ∧
      (Dialect.ofEngine? r.engine ≠ some .postgres → ∀ report, a.Answers j clock r (.ok report) →
        ∃ us, g.parse r.sql (Dialect.ofEngine? r.engine) = .ok (.units us) ∧
          report.statementCount = (us.filterMap id).length ∧
          (a.analyze j clock r).parses = (r.sql, Dialect.ofEngine? r.engine) ::
            (us.filterMap id).filterMap (fun root => (Sql.operand? root).map fun operand =>
              (.ascii "SELECT " ++ operand.name, Dialect.ofEngine? r.engine)) ∧
          (a.analyze j clock r).parses.length = 1 + (us.filterMap id).countP fun root =>
            root.kind = .command ∧ root.Holds .literal) := by
  constructor
  · intro h
    rw [calls_analyze]
    by_cases hsize : a.Oversized r
    · rw [verdict_oversized hsize]
      rfl
    · rw [calls_verdict hsize]
      exact calls_report_kql a (h.resolve_right hsize)
  · intro g hg he hsize
    have hcalls : (a.analyze j clock r).calls = (a.report r).calls := by
      rw [calls_analyze, calls_verdict hsize]
    have hparses : (a.analyze j clock r).parses = (a.report r).parses := by
      rw [Run.parses, hcalls, Run.parses]
    rw [hcalls, hparses]
    refine ⟨exists_calls_report hg he, calls_report_in hg he, ?_⟩
    intro hd report hanswer
    have hr : (a.report r).outcome = .done (.ok report) := by
      rcases (verdict_eq_done_iff hsize).mp (answers_iff.mp hanswer) with hr | ⟨what, -, herror⟩
      · exact hr
      · cases herror
    obtain ⟨us, hp, hcount, hreport⟩ := parses_report hg he hd hr
    refine ⟨us, hp, hcount, hreport, ?_⟩
    rw [hreport, List.length_cons, List.length_filterMap_eq_countP, Nat.add_comm]
    simp only [Sql.isSome_operandParses]

/-- Knows the command `SHOW COLUMNS FROM t` and the query that stands for its operand. -/
def columnsGrammar : Grammar :=
  { parses :=
      [(.ascii "SHOW COLUMNS FROM t",
          .units [none, some ⟨.command, .ascii "SHOW", [], [], [],
            [⟨.literal, .ascii "COLUMNS FROM t", [], [], [], []⟩]⟩]),
        (.ascii "SELECT COLUMNS FROM t", .units [some Sql.bareSelect])]
    parseFault := none
    generateFault := none
    scopesFault := none
    fixedScopes := none : Fixture }.toGrammar

theorem columnsGrammar_steady : columnsGrammar.Steady := Fixture.steady rfl rfl rfl

theorem grammar_questions_show_columns :
    (∃ report, (limited 0 (some columnsGrammar)).Answers .empty ⟨0, 0⟩
      ⟨[], .ascii "mysql", .ascii "SHOW COLUMNS FROM t"⟩ (.ok report)) ∧
    ((limited 0 (some columnsGrammar)).analyze .empty ⟨0, 0⟩
      ⟨[], .ascii "mysql", .ascii "SHOW COLUMNS FROM t"⟩).parses =
        [(.ascii "SHOW COLUMNS FROM t", some .mysql), (.ascii "SELECT COLUMNS FROM t", some .mysql)] ∧
    ((limited 0 (some columnsGrammar)).analyze .empty ⟨0, 0⟩
      ⟨[], .ascii "kustokql", .ascii "SHOW COLUMNS FROM t"⟩).calls = [] := by
  have hsize : ¬(limited 0 (some columnsGrammar)).Oversized
      ⟨[], .ascii "mysql", .ascii "SHOW COLUMNS FROM t"⟩ := fun h => absurd h.1 (Nat.lt_irrefl 0)
  have hmysql : Dialect.ofEngine? (.ascii "mysql") = some .mysql := by decide
  have hsettles : columnsGrammar.Settles ⟨[], .ascii "mysql", .ascii "SHOW COLUMNS FROM t"⟩ :=
    columnsGrammar.settles_of_ne_postgres (by decide)
  obtain ⟨report, hr⟩ := exists_report (a := limited 0 (some columnsGrammar)) rfl
    (r := ⟨[], .ascii "mysql", .ascii "SHOW COLUMNS FROM t"⟩) (by decide)
    (fun reason hrefused => by cases Except.ok.inj hrefused)
    (fun c _ => columnsGrammar_steady.fault?_eq_none c) hsettles
  have hanswer : (limited 0 (some columnsGrammar)).Answers .empty ⟨0, 0⟩
      ⟨[], .ascii "mysql", .ascii "SHOW COLUMNS FROM t"⟩ (.ok report) :=
    answers_iff.mpr (verdict_of_report hsize hr)
  obtain ⟨-, hsql⟩ := grammar_questions (limited 0 (some columnsGrammar)) .empty ⟨0, 0⟩
    ⟨[], .ascii "mysql", .ascii "SHOW COLUMNS FROM t"⟩
  obtain ⟨-, -, haccepted⟩ := hsql columnsGrammar rfl (by decide) hsize
  obtain ⟨us, hp, -, hparses, -⟩ := haccepted (by decide) report hanswer
  obtain ⟨hkql, -⟩ := grammar_questions (limited 0 (some columnsGrammar)) .empty ⟨0, 0⟩
    ⟨[], .ascii "kustokql", .ascii "SHOW COLUMNS FROM t"⟩
  refine ⟨⟨report, hanswer⟩, ?_, hkql (.inl rfl)⟩
  obtain rfl := Parse.units.inj (Except.ok.inj hp)
  rw [hparses, hmysql]
  rfl

end Analyzer

end ScriptVet
