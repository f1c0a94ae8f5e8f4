import ScriptVet.Audit.Json
import ScriptVet.Audit.Timestamp
import ScriptVet.FileSystem
import ScriptVet.Level

namespace ScriptVet.Audit

/-- What is recorded of a request that was analysed. -/
structure Acceptance where
  requestId : Text
  engine : Text
  dialect : Text
  statementCount : Nat
  tables : List Text
  mutating : Bool
  timestamp : Timestamp
  microseconds : Int

/-- What is recorded of a request that was rejected. -/
structure Refusal where
  requestId : Text
  engine : Text
  code : Text
  reason : Text
  sqlStart : Text
  timestamp : Timestamp

def Acceptance.members (e : Acceptance) : Json.Object :=
  [(.ascii "event", .text (.ascii "analysis")),
   (.ascii "request_id", .text e.requestId),
   (.ascii "engine", .text e.engine),
   (.ascii "dialect", .text e.dialect),
   (.ascii "statement_count", .number e.statementCount),
   (.ascii "tables", .texts e.tables),
   (.ascii "mutating", .flag e.mutating),
   (.ascii "timestamp", .text e.timestamp.render),
   (.ascii "duration_us", .number e.microseconds)]

def Refusal.members (e : Refusal) : Json.Object :=
  [(.ascii "event", .text (.ascii "analysis_rejected")),
   (.ascii "request_id", .text e.requestId),
   (.ascii "engine", .text e.engine),
   (.ascii "error_code", .text e.code),
   (.ascii "reason", .text e.reason),
   (.ascii "sql_prefix", .text e.sqlStart),
   (.ascii "timestamp", .text e.timestamp.render)]

/-- One event of the audit trail. -/
inductive Entry where
  | accepted (e : Acceptance)
  | refused (e : Refusal)

namespace Entry

def level : Entry → Level
  | accepted _ => .info
  | refused _ => .warn

def members : Entry → Json.Object
  | accepted e => e.members
  | refused e => e.members

def text (e : Entry) : Text := Json.render e.members

/-- The event without its times. -/
def timeless : Entry → Entry
  | accepted e => accepted { e with timestamp := 0, microseconds := 0 }
  | refused e => refused { e with timestamp := 0 }

end Entry

/-- A log that keeps what has at least the level of its threshold. -/
structure Log where
  threshold : Level
  path : Text

namespace Log

/-- A log goes to a file whose directory is there or can be made. -/
def create? (files : FileSystem) (threshold : Level) (path : Text) : Option Log :=
  if files.admits path then some ⟨threshold, path⟩ else none

/-- What the log keeps of an entry. -/
def kept (log : Log) (e : Entry) : List Entry := if log.threshold.keeps e.level then [e] else []

end Log

end ScriptVet.Audit
