import ScriptVet.Analyzer
import ScriptVet.Proofs.Kql.Script
import ScriptVet.Proofs.Sql.Statement

namespace ScriptVet

open Ast (Node)

namespace Script

variable {g : Grammar} {t engine : Text}

/-- What is found out about a script that has been read. -/
def assess (s : Script) (engine : Text) : Run (Except Rejection Report) := do
  let mutating ← s.mutating
  let settings ← s.settings
  let formatted ← s.format true
  return .ok ⟨engine, s.statements.length, s.tables.sorted, mutating, settings, formatted⟩

/-- What is found out about a text, where `answer` says how it was read. -/
def assessed (answer : Except Rejection Script) (engine : Text) : Run (Except Rejection Report) :=
  match answer with
  | .error e => pure (.error e)
  | .ok script => script.assess engine

theorem report_eq (a : Analyzer) (r : Request) :
    a.report r = read a.grammar r.sql r.engine >>= fun answer => assessed answer r.engine := rfl

theorem assess_ok {s : Script} {answer : Except Rejection Report}
    (h : (s.assess engine).outcome = .done answer) :
    ∃ report, answer = .ok report ∧ report.engine = engine ∧
      report.statementCount = s.statements.length ∧ report.tables = s.tables.sorted := by
  obtain ⟨mutating, -, h⟩ := Run.bind_eq_done.mp h
  obtain ⟨settings, -, h⟩ := Run.bind_eq_done.mp h
  obtain ⟨formatted, -, h⟩ := Run.bind_eq_done.mp h
  exact ⟨_, (Outcome.done.inj h).symm, rfl, rfl, rfl⟩

/-- Only the reading of a script can reject it. -/
theorem assessed_eq_error {answer : Except Rejection Script} {e : Rejection}
    (h : (assessed answer engine).outcome = .done (.error e)) : answer = .error e := by
  cases answer with
  | error e' =>
    obtain rfl : e' = e := Except.error.inj (Outcome.done.inj h)
    rfl
  | ok s =>
    obtain ⟨report, hreport, -⟩ := assess_ok h
    cases hreport

theorem read_sql (h : engine ≠ Kql.engine) (g : Option Grammar) (t : Text) :
    read g t engine =
      (fun answer => answer.map fun ss => ⟨engine, ss.map .sql⟩) <$> Sql.Statement.split g t engine := by
  rw [read, if_neg h, bind_pure_comp]

theorem read_none (h : engine ≠ Kql.engine) (t : Text) :
    read none t engine = pure (.error ⟨.noGrammar, t.excerpt⟩) := by
  rw [read_sql h]
  rfl

theorem read_refused (h : engine ≠ Kql.engine) {reason : Text}
    (hp : g.parse t (Dialect.ofEngine? engine) = .ok (.refused reason)) :
    (read (some g) t engine).outcome = .done (.error ⟨.unparseable reason, t.excerpt⟩) := by
  rw [read_sql h, Run.map_eq, Sql.Statement.split_refused hp]
  rfl

/-- The statements of a script stand for the units of its text that are not void. -/
theorem read_eq_done (h : engine ≠ Kql.engine) {answer : Except Rejection Script}
    (hread : (read (some g) t engine).outcome = .done answer) :
    (∃ reason, g.parse t (Dialect.ofEngine? engine) = .ok (.refused reason) ∧
      answer = .error ⟨.unparseable reason, t.excerpt⟩) ∨
    ∃ us ss, g.parse t (Dialect.ofEngine? engine) = .ok (.units us) ∧
      ((us.filterMap id).mapM (Sql.Statement.ofRoot g engine)).outcome = .done ss ∧
      answer = .ok ⟨engine, ss.map .sql⟩ := by
  rw [read_sql h] at hread
  obtain ⟨split, hsplit, hanswer⟩ := Run.map_eq_done.mp hread
  cases hp : g.parse t (Dialect.ofEngine? engine) with
  | error what =>
    rw [Sql.Statement.split_broken hp] at hsplit
    cases hsplit
  | ok p =>
    cases p with
    | refused reason =>
      rw [Sql.Statement.split_refused hp] at hsplit
      cases hsplit
      exact .inl ⟨reason, rfl, hanswer.symm⟩
    | units us =>
      rw [Sql.Statement.split_units hp] at hsplit
      obtain ⟨p, -, hsplit⟩ := Run.bind_eq_done.mp hsplit
      obtain ⟨ss, hss, rfl⟩ := Run.map_eq_done.mp hsplit
      exact .inr ⟨us, ss, rfl, hss, hanswer.symm⟩

end Script

namespace Run.Law

variable {P : {α : Type} → Run α → Prop} {g : Grammar} {engine : Text}

theorem assess (law : Law P) {s : Script}
    (h : ∀ st ∈ s.statements, P st.mutating ∧ P st.settings ∧ P (st.format true)) :
    P (s.assess engine) := by
  have hmutating : P s.mutating := law.anyM fun st hst => (h st hst).1
  have hsettings : P s.settings := by
    refine law.foldlM (fun _ st hst => ?_) ∅
    exact law.bind (h st hst).2.1 fun _ _ => law.pure _
  have hformat : P (s.format true) :=
    law.bind (law.mapM fun st hst => (h st hst).2.2) fun _ _ => law.pure _
  exact law.bind hmutating fun _ _ => law.bind hsettings fun _ _ =>
    law.bind hformat fun _ _ => law.pure _

theorem readAll (law : Law P) (engine : Text) (ts : List Text) :
    P (Kql.Statement.readAll engine ts) := by
  have hread (t : Text) : P (Kql.Statement.read t engine) := by
    rw [Kql.Statement.read]
    split
    · exact law.pure _
    · split
      · exact law.bind (law.note _ _) fun _ _ => law.pure _
      · exact law.pure _
  induction ts with
  | nil => exact law.pure _
  | cons t ts ih =>
    refine law.bind (hread t) fun answer _ => ?_
    cases answer with
    | error e => exact law.pure _
    | ok s => exact law.map ih _

/-- A KQL request needs no answers, so it has every property that sequencing keeps. -/
theorem report_kql (law : Law P) (a : Analyzer) {r : Request} (h : r.engine = Kql.engine) :
    P (a.report r) := by
  have hread : P (Script.read a.grammar r.sql r.engine) := by
    rw [Script.read, if_pos h]
    exact law.bind (law.readAll _ _) fun _ _ => law.pure _
  refine law.bind hread fun answer hanswer => ?_
  rw [h, Script.read_kql] at hanswer
  obtain rfl := Outcome.done.inj hanswer
  refine law.assess fun st hst => ?_
  obtain ⟨x, -, rfl⟩ := List.mem_map.mp hst
  exact ⟨law.pure _, law.pure _, law.pure _⟩

/-- The statements of a SQL script keep the grammar and the engine that they were read with. -/
theorem assess_sql (law : Law P) {roots : List Node} {ss : List Sql.Statement}
    (hss : (roots.mapM (Sql.Statement.ofRoot g engine)).outcome = .done ss)
    (generated : ∀ n style, P (g.generated n (Dialect.ofEngine? engine) style))
    (verdict : ∀ root ∈ roots, P (Sql.mutates g (Dialect.ofEngine? engine) g.nesting root)) :
    P (Script.assess ⟨engine, ss.map .sql⟩ engine) := by
  obtain ⟨hroots, hall⟩ := Sql.Statement.mapM_ofRoot hss
  refine law.assess fun st hst => ?_
  obtain ⟨s, hs, rfl⟩ := List.mem_map.mp hst
  obtain ⟨hgrammar, hengine⟩ := hall s hs
  have hroot : s.root ∈ roots := hroots ▸ List.mem_map_of_mem hs
  have hdialect : s.dialect = Dialect.ofEngine? engine := by rw [Sql.Statement.dialect, hengine]
  have hgenerated (n : Node) (style : Style) : P (s.grammar.generated n s.dialect style) := by
    rw [hgrammar, hdialect]
    exact generated n style
  have hverdict : P (Sql.mutates s.grammar s.dialect s.grammar.nesting s.root) := by
    rw [hgrammar, hdialect]
    exact verdict s.root hroot
  exact ⟨hverdict, law.sqlSettings s hgenerated, hgenerated s.root _⟩

/-- A SQL request has every property that sequencing keeps and that its questions and the verdicts on
its statements have. -/
theorem report_sql (law : Law P) {a : Analyzer} {r : Request} (hg : a.grammar = some g)
    (he : r.engine ≠ Kql.engine) (parsed : ∀ t, P (g.parsed t (Dialect.ofEngine? r.engine)))
    (generated : ∀ n style, P (g.generated n (Dialect.ofEngine? r.engine) style))
    (scopes : ∀ root, P (g.scopes root))
    (verdict : ∀ us root, g.parse r.sql (Dialect.ofEngine? r.engine) = .ok (.units us) →
      root ∈ us.filterMap id → P (Sql.mutates g (Dialect.ofEngine? r.engine) g.nesting root)) :
    P (a.report r) := by
  have hread : P (Script.read (some g) r.sql r.engine) := by
    rw [Script.read_sql he]
    exact law.map (law.sqlSplit parsed scopes r.sql) _
  rw [Script.report_eq, hg]
  refine law.bind hread fun answer hanswer => ?_
  rcases Script.read_eq_done he hanswer with ⟨reason, -, rfl⟩ | ⟨us, ss, hus, hss, rfl⟩
  · exact law.pure _
  · exact law.assess_sql hss generated fun root hroot => verdict us root hus hroot

end Run.Law

end ScriptVet
