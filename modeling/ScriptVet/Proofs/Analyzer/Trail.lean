import ScriptVet.Proofs.Analyzer.Session
import ScriptVet.Proofs.Audit
import Mathlib.Data.List.Forall2

namespace ScriptVet

namespace Task

/-- What a log has of an answered task: a report gives one line where the threshold is not above
`info`, a rejection one line where it is not above `warn`, and the line is read back as what was
asked and answered. -/
structure Recorded (t : Task) (answer : Except Rejection Report) (lines : List Audit.Entry) :
    Prop where
  unlogged : t.analyzer.log = none → lines = []
  accepted : ∀ log report, t.analyzer.log = some log → answer = .ok report →
    if log.threshold = .debug ∨ log.threshold = .info then
      ∃ line, lines = [line] ∧ line.level = .info ∧
        Audit.Json.read? line.text = some
          [(.ascii "event", .text (.ascii "analysis")),
           (.ascii "request_id", .text t.request.id),
           (.ascii "engine", .text t.request.engine),
           (.ascii "dialect", .text (Dialect.name (Dialect.ofEngine? t.request.engine))),
           (.ascii "statement_count", .number report.statementCount),
           (.ascii "tables", .texts (report.tables.map (·.canonical))),
           (.ascii "mutating", .flag report.mutating),
           (.ascii "timestamp", .text t.clock.now.render),
           (.ascii "duration_us", .number t.clock.microseconds)]
    else lines = []
  rejected : ∀ log e, t.analyzer.log = some log → answer = .error e →
    if log.threshold = .error then lines = []
    else
      ∃ line, lines = [line] ∧ line.level = .warn ∧
        Audit.Json.read? line.text = some
          [(.ascii "event", .text (.ascii "analysis_rejected")),
           (.ascii "request_id", .text t.request.id),
           (.ascii "engine", .text t.request.engine),
           (.ascii "error_code", .text e.cause.code),
           (.ascii "reason", .text e.cause.message),
           (.ascii "sql_prefix", .text
             (t.request.sql.take (min t.analyzer.limits.logSqlPrefix.toNat t.request.sql.length))),
           (.ascii "timestamp", .text t.clock.now.render)]

theorem entries_of_log {t : Task} {log : Audit.Log} (h : t.analyzer.log = some log) :
    t.entries = log.kept (t.analyzer.entry t.clock t.request t.answer) := by
  rw [entries, h]
  exact List.append_nil _

theorem recorded (t : Task) : t.Recorded t.answer t.entries where
  unlogged := by
    intro hlog
    rw [entries, hlog]
    rfl
  accepted := by
    intro log report hlog hanswer
    rw [entries_of_log hlog, hanswer, Analyzer.entry, Audit.Log.kept_accepted]
    split
    · exact ⟨_, rfl, rfl, Audit.Entry.read?_text _⟩
    · rfl
  rejected := by
    intro log e hlog hanswer
    rw [entries_of_log hlog, hanswer, Analyzer.entry, Audit.Log.kept_refused]
    split
    · rfl
    · refine ⟨_, rfl, rfl, ?_⟩
      rw [← List.take_eq_take_min]
      exact Audit.Entry.read?_text _

end Task

section Unlogged

/-- The same analyser without a log. -/
def Analyzer.unlogged (a : Analyzer) : Analyzer := { a with log := none }

/-- The same step without a log. -/
def Step.unlogged : Step → Step
  | .single t => .single { t with analyzer := t.analyzer.unlogged }
  | .batch a clock requests schedule => .batch a.unlogged clock requests schedule

theorem Analyzer.verdict_unlogged (a : Analyzer) (r : Request) :
    a.unlogged.verdict r = a.verdict r := rfl

theorem Analyzer.result_unlogged (a : Analyzer) (r : Request) : a.unlogged.result r = a.result r := by
  rw [result, answer, verdict_unlogged]
  rfl

namespace Step

theorem ends_unlogged (step : Step) : step.unlogged.Ends ↔ step.Ends := by
  cases step <;> exact Iff.rfl

theorem results_unlogged (step : Step) : step.unlogged.results = step.results := by
  cases step with
  | single t => exact congrArg (fun r => [r]) (t.analyzer.result_unlogged t.request)
  | batch a clock requests schedule => exact List.map_congr_left fun r _ => a.result_unlogged r

variable {steps steps' : List Step}

/-- Steps that differ in their logs only have the same results. -/
theorem flatMap_results_of_unlogged (h : steps'.map unlogged = steps.map unlogged) :
    steps'.flatMap results = steps.flatMap results := by
  have hresults (steps : List Step) :
      (steps.map unlogged).flatMap results = steps.flatMap results := by
    rw [List.flatMap_map]
    exact List.flatMap_congr fun step _ => step.results_unlogged
  rw [← hresults steps', h, hresults]

theorem ends_of_unlogged (h : steps'.map unlogged = steps.map unlogged)
    (ends : ∀ step ∈ steps, step.Ends) : ∀ step ∈ steps', step.Ends := by
  intro step' hstep'
  have hmem : step'.unlogged ∈ steps.map unlogged := h ▸ List.mem_map_of_mem hstep'
  obtain ⟨step, hstep, heq⟩ := List.mem_map.mp hmem
  rw [← ends_unlogged, ← heq, ends_unlogged]
  exact ends step hstep

end Step

end Unlogged

/-- The trail of a session. Each task has the answer that its request gets alone, the answers are the
results of the session, and what the session adds to the trail is what each task recorded of its own
answer, in the order in which the tasks were done. With other logs, or none, and on any other journal,
the results are the same. -/
theorem session_trail (j : Journal) (steps : List Step) (ends : ∀ step ∈ steps, step.Ends) :
    ∃ after results, ∃ answered : List (Result × List Audit.Entry),
      (session j steps).outcome = .done (after, results) ∧
      results.map (·.requestId) = (steps.flatMap Step.requests).map (·.id) ∧
      (answered.map (·.1)).Perm results ∧
      after.trail = j.trail ++ answered.flatMap (·.2) ∧
      List.Forall₂ (fun (t : Task) (done : Result × List Audit.Entry) =>
        done.1.requestId = t.request.id ∧
        (∀ before, ∃ alone, (t.run before).outcome = .done (alone, done.1)) ∧
        t.Recorded done.1.report done.2) (steps.flatMap Step.tasks) answered ∧
      ∀ steps', steps'.map Step.unlogged = steps.map Step.unlogged → ∀ j', ∃ after',
        (session j' steps').outcome = .done (after', results) := by
  let tasks := steps.flatMap Step.tasks
  refine ⟨_, _, tasks.map fun t => (t.result, t.entries), session_of_ends ends j, ?ids, ?results,
    ?trail, ?recorded, ?logs⟩
  case ids =>
    rw [List.map_flatMap, List.map_flatMap]
    exact List.flatMap_congr fun step _ => step.map_requestId_results
  case results =>
    rw [List.map_map, List.map_flatMap]
    exact List.Perm.flatMap_left steps fun step _ => step.map_result_tasks_perm
  case trail =>
    rw [Journal.trail_after, List.flatMap_map]
  case recorded =>
    rw [List.forall₂_map_right_iff]
    apply List.forall₂_same.mpr
    intro t ht
    obtain ⟨step, hstep, hmem⟩ := List.mem_flatMap.mp ht
    have htask : t.Ends := step.ends_of_mem_tasks (ends step hstep) hmem
    exact ⟨rfl, fun before => ⟨_, t.run_of_ends htask before⟩, t.recorded⟩
  case logs =>
    intro steps' hlogs j'
    rw [← Step.flatMap_results_of_unlogged hlogs]
    exact ⟨_, session_of_ends (Step.ends_of_unlogged hlogs ends) j'⟩

/-- A SQL request without a grammar: one line about the rejection, and the same result without a
log. -/
theorem session_trail_rejected :
    let t : Task := ⟨Analyzer.logging, ⟨0, 0⟩, ⟨.ascii "s", .ascii "mysql", .ascii "SELECT 1"⟩⟩
    ∃ after silent line results,
      (session .empty [.single t]).outcome = .done (after, results) ∧
      results = [⟨.ascii "s", .error ⟨.noGrammar, .ascii "SELECT 1"⟩⟩] ∧
      after.trail = [line] ∧ line.level = .warn ∧
      Audit.Json.read? line.text = some
        [(.ascii "event", .text (.ascii "analysis_rejected")),
         (.ascii "request_id", .text (.ascii "s")),
         (.ascii "engine", .text (.ascii "mysql")),
         (.ascii "error_code", .text (.ascii "internal_error")),
         (.ascii "reason",
           .text (.ascii "No SQL engine configured for grammar-backed statements")),
         (.ascii "sql_prefix", .text (.ascii "SELECT 1")),
         (.ascii "timestamp", .text (.ascii "1970-01-01T00:00:00.000Z"))] ∧
      (session .empty [Step.unlogged (.single t)]).outcome = .done (silent, results) := by
  intro t
  have ends : ∀ step ∈ [Step.single t], step.Ends := by
    intro step hstep
    obtain rfl := List.mem_singleton.mp hstep
    apply Analyzer.ends_of_settles
    intro g hg
    cases hg
  have hanswer : (Analyzer.logging.report t.request).outcome =
      .done (.error ⟨.noGrammar, .ascii "SELECT 1"⟩) := Analyzer.report_none rfl (by decide)
  have hverdict := Analyzer.verdict_of_report (fun hsize => absurd hsize.2 (by decide)) hanswer
  have hanalyze : t.analyzer.Answers .empty t.clock t.request _ := Analyzer.answers_iff.mpr hverdict
  obtain ⟨after, results, answered, hdone, -, hresults, htrail, hrecorded, hlogs⟩ :=
    session_trail .empty [.single t] ends
  obtain ⟨done, rest, hdoneTask, hrest, rfl⟩ := List.forall₂_cons_left_iff.mp hrecorded
  obtain rfl := List.forall₂_nil_left_iff.mp hrest
  obtain ⟨-, hrun, hlines⟩ := hdoneTask
  obtain ⟨alone, halone⟩ := hrun .empty
  obtain ⟨result, lines⟩ := done
  obtain rfl := (Prod.mk.inj (Outcome.done.inj (halone.symm.trans hanalyze))).2
  obtain ⟨line, rfl, hlevel, hread⟩ := hlines.rejected _ _ rfl rfl
  obtain ⟨silent, hsilent⟩ := hlogs [Step.unlogged (.single t)] rfl .empty
  have htime : Audit.Timestamp.render 0 = .ascii "1970-01-01T00:00:00.000Z" := by decide +kernel
  rw [← htime]
  exact ⟨after, silent, line, results, hdone, (List.singleton_perm.mp hresults).symm, htrail,
    hlevel, hread, hsilent⟩

end ScriptVet
