import ScriptVet.Audit
import ScriptVet.Config
import ScriptVet.Script
import ScriptVet.Stats

namespace ScriptVet

structure Request where
  id : Text
  engine : Text
  sql : Text
  deriving DecidableEq

/-- What is found out about a script, with its tables in order of their canonical names. -/
structure Report where
  engine : Text
  statementCount : Nat
  tables : List Table
  mutating : Bool
  settings : Settings
  formatted : Text

structure Result where
  requestId : Text
  report : Except Rejection Report

/-- What a clock shows when a request is done: the time, and how long it took. -/
structure Reading where
  now : Audit.Timestamp
  microseconds : Int

/-- What an analyser leaves behind besides its results. -/
structure Journal where
  stats : Stats
  trail : List Audit.Entry

def Journal.empty : Journal := ⟨.empty, []⟩

structure Analyzer where
  limits : Limits
  grammar : Option Grammar
  log : Option Audit.Log

namespace Analyzer

/-- There is always a worker. -/
def create (limits : Limits) (grammar : Option Grammar) (log : Option Audit.Log) : Run Analyzer :=
  if limits.workerThreads = 0 then do
    Run.note .warn (.ascii "batch_analyzer: worker_threads is 0, using 1")
    return ⟨{ limits with workerThreads := 1 }, grammar, log⟩
  else pure ⟨limits, grammar, log⟩

/-- The report on a script of any size. -/
def report (a : Analyzer) (r : Request) : Run (Except Rejection Report) := do
  match ← Script.read a.grammar r.sql r.engine with
  | .error e => return .error e
  | .ok script =>
    let mutating ← script.mutating
    let settings ← script.settings
    let formatted ← script.format true
    return .ok ⟨r.engine, script.statements.length, script.tables.sorted, mutating, settings,
      formatted⟩

/-- The script has more bytes than the limit, if there is one. -/
def exceeds (a : Analyzer) (r : Request) : Bool :=
  0 < a.limits.maxScriptBytes && a.limits.maxScriptBytes.toNat < r.sql.length

def broken (r : Request) (what : Text) : Text :=
  .ascii "batch_analyzer: request '" ++ r.id ++ .ascii "' failed with exception: " ++ what

/-- The answer to a request: a breakdown of the grammar rejects the request that caused it. -/
def verdict (a : Analyzer) (r : Request) : Run (Except Rejection Report) :=
  if a.exceeds r then
    pure (.error ⟨.tooLarge r.sql.length a.limits.maxScriptBytes.toNat, []⟩)
  else
    (a.report r).recover fun what => do
      Run.note .error (broken r what)
      return .error ⟨.grammarFailure what, []⟩

/-- The entry of the audit trail for an answered request. -/
def entry (a : Analyzer) (clock : Reading) (r : Request) : Except Rejection Report → Audit.Entry
  | .ok report => .accepted
      { requestId := r.id
        engine := r.engine
        dialect := Dialect.name (Dialect.ofEngine? r.engine)
        statementCount := report.statementCount
        tables := report.tables.map (·.canonical)
        mutating := report.mutating
        timestamp := clock.now
        microseconds := clock.microseconds }
  | .error e => .refused
      { requestId := r.id
        engine := r.engine
        code := e.cause.code
        reason := e.cause.message
        sqlStart := r.sql.take a.limits.logSqlPrefix.toNat
        timestamp := clock.now }

def count (s : Stats) : Except Rejection Report → Stats
  | .ok report => s.accept report.statementCount.toUInt64 report.mutating
  | .error _ => s.reject

/-- Counts and records an answered request. -/
def enter (a : Analyzer) (j : Journal) (clock : Reading) (r : Request)
    (answer : Except Rejection Report) : Journal where
  stats := count j.stats answer
  trail := j.trail ++ a.log.toList.flatMap (·.kept (a.entry clock r answer))

def analyze (a : Analyzer) (j : Journal) (clock : Reading) (r : Request) :
    Run (Journal × Result) := do
  let answer ← a.verdict r
  return (a.enter j clock r answer, ⟨r.id, answer⟩)

end Analyzer

end ScriptVet
