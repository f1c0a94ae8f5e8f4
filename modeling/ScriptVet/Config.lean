import ScriptVet.FileSystem
import ScriptVet.Run

namespace ScriptVet

/-- A parsed configuration document. -/
inductive Document where
  | null
  | scalar (t : Text)
  | sequence
  | map (entries : List (Text × Document))
  /-- A map that breaks every search that gets beyond these entries. -/
  | torn (entries : List (Text × Document)) (what : Text)

/-- The keys of a configuration. -/
inductive Config.Key where
  | logLevel | logPath | workerThreads | maxScriptBytes | logSqlPrefix
  deriving DecidableEq, Repr

namespace Config.Key

/-- The section in which a key is looked up. -/
def sectionName : Key → Text
  | logLevel => .ascii "global"
  | logPath => .ascii "global"
  | workerThreads => .ascii "analyzer"
  | maxScriptBytes => .ascii "analyzer"
  | logSqlPrefix => .ascii "analyzer"

def name : Key → Text
  | logLevel => .ascii "log_level"
  | logPath => .ascii "log_path"
  | workerThreads => .ascii "worker_threads"
  | maxScriptBytes => .ascii "max_script_bytes"
  | logSqlPrefix => .ascii "log_sql_prefix"

end Config.Key

namespace Document

def isMap : Document → Bool
  | map _ => true
  | torn _ _ => true
  | _ => false

/-- The value of the first entry with a name; what is no map has no entries. -/
def field? (name : Text) : Document → Except Text (Option Document)
  | map entries => .ok ((entries.find? (·.1 = name)).map (·.2))
  | torn entries what =>
    match entries.find? (·.1 = name) with
    | some entry => .ok (some entry.2)
    | none => .error what
  | _ => .ok none

/-- The node at a key. There is none where the section is missing. -/
def node? (d : Document) (key : Config.Key) : Except Text (Option Document) := do
  match ← d.field? key.sectionName with
  | some entries => entries.field? key.name
  | none => return none

def scalar? : Document → Option Text
  | scalar t => some t
  | _ => none

/-- Why a document could not be read. Lines and columns count from 0, in 32 bits. -/
inductive Fault where
  | syntaxError (line column : Int32) (what : Text)
  | badFile (what : Text)
  | other (what : Text)

end Document

/-- How scalars are converted to numbers of 32 and of 64 bits, none of them negative. -/
structure Numerals where
  word? : Text → Option UInt32
  size? : Text → Option UInt64

/-- Only decimal digits make a number, where it is in range. -/
def Numerals.plain : Numerals where
  word? t := ((Text.natural? t).filter (· < UInt32.size)).map (·.toUInt32)
  size? t := ((Text.natural? t).filter (· < UInt64.size)).map (·.toUInt64)

/-- The bounds of the analyser. No bound on the size of a script is written as zero. -/
structure Limits where
  workerThreads : UInt32
  maxScriptBytes : UInt64
  logSqlPrefix : UInt64
  deriving DecidableEq, Repr

def Limits.default : Limits := ⟨4, 1048576, 80⟩

structure Config where
  level : Level
  logPath : Text
  limits : Limits
  deriving DecidableEq

namespace Config

def default : Config := ⟨.info, .ascii "/tmp/querygate.log", .default⟩

/-- How the value at a key is written. -/
def text (c : Config) : Key → Text
  | .logLevel => c.level.tag
  | .logPath => c.logPath
  | .workerThreads => .decimal c.limits.workerThreads.toNat
  | .maxScriptBytes => .decimal c.limits.maxScriptBytes.toNat
  | .logSqlPrefix => .decimal c.limits.logSqlPrefix.toNat

/-- A document that holds the configuration. -/
def toDocument (c : Config) : Document :=
  let entry (key : Key) : Text × Document := (key.name, .scalar (c.text key))
  .map [(.ascii "global", .map [entry .logLevel, entry .logPath]),
    (.ascii "analyzer", .map [entry .workerThreads, entry .maxScriptBytes, entry .logSqlPrefix])]

/-- Why there is no configuration. -/
inductive Problem where
  | unresolved (path : Text) (fault : FileSystem.Fault)
  | unopened (path what : Text)
  | syntaxError (path : Option Text) (line column : Int32) (what : Text)
  | unreadable (path : Option Text) (what : Text)
  | notMap (source : Text)
  | unsearchable (source what : Text)
  | noWorkers (source : Text)

/-- The problem with a document, from a file if there is a path. What its reader says about it ends
before the first zero byte. -/
def Problem.ofFault (path : Option Text) : Document.Fault → Problem
  | .syntaxError line column what => .syntaxError path line column what.untilNul
  | .other what => .unreadable path what.untilNul
  | .badFile what =>
    match path with
    | some path => .unopened path what.untilNul
    | none => .unreadable none what.untilNul

def quoted (t : Text) : Text := Text.byte '\'' :: t ++ [Text.byte '\'']

def inFile : Option Text → Text
  | none => []
  | some path => .ascii " in " ++ quoted path

def Problem.message : Problem → Text
  | unresolved path fault =>
    .ascii "config_loader: cannot resolve config path " ++ quoted path ++ .ascii ": " ++
      fault.message
  | unopened path what =>
    .ascii "config_loader: cannot open file " ++ quoted path ++ .ascii ": " ++ what
  | syntaxError path line column what =>
    .ascii "config_loader: YAML parse error" ++ inFile path ++ .ascii " at line " ++
      .signedDecimal (line + 1).toInt ++ .ascii ", col " ++ .signedDecimal (column + 1).toInt ++
      .ascii ": " ++ what
  | unreadable path what => .ascii "config_loader: YAML error" ++ inFile path ++ .ascii ": " ++ what
  | notMap source =>
    .ascii "config_loader: " ++ quoted source ++ .ascii " is not a valid YAML map (top-level)"
  | unsearchable source what =>
    .ascii "config_loader: error parsing " ++ quoted source ++ .ascii ": " ++ what
  | noWorkers source =>
    .ascii "config_loader: analyzer.worker_threads must be >= 1 in " ++ quoted source

def fail {α : Type} (p : Problem) : Run (Except Problem α) := do
  Run.note .error p.message
  return .error p

def unknownLevel (name : Text) : Text :=
  .ascii "config_loader: unknown log_level " ++ quoted name ++ .ascii ", defaulting to 'info'"

/-- The level with a name; an unknown name is noted and stands for `info`. -/
def readLevel (name : Text) : Run Level :=
  match Level.ofName? name with
  | some level => pure level
  | none => do
    Run.note .warn (unknownLevel name)
    return .info

/-- The node at a key of the document, where the document can be searched for it. -/
def lookUp (d : Document) (key : Key) : Run (Option Document) :=
  match d.node? key with
  | .ok node => pure node
  | .error what => ⟨[], .broken what⟩

/-- The text at a key, or another text if there is no scalar. -/
def readText (d : Document) (key : Key) (fallback : Text) : Run Text := do
  let node ← lookUp d key
  return (node.bind Document.scalar?).getD fallback

def notNumber (key : Key) (fallback : Nat) : Text :=
  .ascii "config_loader: " ++ quoted key.name ++
    .ascii " is not a non-negative integer, using default " ++ .decimal fallback

/-- The number that a scalar stands for; a scalar that is no number is noted. -/
def asNumber {α : Type} (convert? : Text → Option α) (value : α → Nat) (key : Key) (fallback : α)
    (t : Text) : Run α :=
  match convert? t with
  | some n => pure n
  | none => do
    Run.note .warn (notNumber key (value fallback))
    return fallback

/-- The number at a key, or another one if there is no scalar. -/
def readNumber {α : Type} (convert? : Text → Option α) (value : α → Nat) (d : Document) (key : Key)
    (fallback : α) : Run α := do
  match (← lookUp d key).bind Document.scalar? with
  | none => return fallback
  | some t => asNumber convert? value key fallback t

def readLimits (numerals : Numerals) (d : Document) : Run Limits := do
  let fallback := Limits.default
  let workers ← readNumber numerals.word? UInt32.toNat d .workerThreads fallback.workerThreads
  let bytes ← readNumber numerals.size? UInt64.toNat d .maxScriptBytes fallback.maxScriptBytes
  let shown ← readNumber numerals.size? UInt64.toNat d .logSqlPrefix fallback.logSqlPrefix
  return ⟨workers, bytes, shown⟩

def loaded (c : Config) : Text :=
  .ascii "config_loader: config loaded: worker_threads=" ++ .decimal c.limits.workerThreads.toNat ++
    .ascii ", max_script_bytes=" ++ .decimal c.limits.maxScriptBytes.toNat ++
    .ascii ", log_level=" ++ c.level.tag

/-- What the sections of a document say, before it is checked. -/
structure Draft where
  levelName : Text
  logPath : Text
  limits : Limits

def readDraft (numerals : Numerals) (d : Document) : Run Draft := do
  let levelName ← readText d .logLevel default.level.tag
  let logPath ← readText d .logPath default.logPath
  let limits ← readLimits numerals d
  return ⟨levelName, logPath, limits⟩

def ofDraft (source : Text) (draft : Draft) : Run (Except Problem Config) :=
  if draft.limits.workerThreads = 0 then fail (.noWorkers source)
  else do
    let level ← readLevel draft.levelName
    let config : Config := ⟨level, draft.logPath, draft.limits⟩
    Run.note .info (loaded config)
    return .ok config

/-- The configuration in a document that comes from `source`. Only the search can break down, and
what is said about it ends before the first zero byte. -/
def ofDocument (numerals : Numerals) (source : Text) (d : Document) : Run (Except Problem Config) :=
  if d.isMap then
    (readDraft numerals d >>= ofDraft source).recover fun what =>
      fail (.unsearchable source what.untilNul)
  else fail (.notMap source)

/-- The configuration in a text. -/
def ofText (d : Except Document.Fault Document) (numerals : Numerals := .plain) :
    Run (Except Problem Config) :=
  match d with
  | .ok d => ofDocument numerals (.ascii "<string>") d
  | .error fault => fail (.ofFault none fault)

/-- The configuration in the file that a path leads to. -/
def ofFile (files : FileSystem) (path : Text) (d : Except Document.Fault Document)
    (numerals : Numerals := .plain) : Run (Except Problem Config) :=
  match files.resolve path with
  | .error fault => fail (.unresolved path fault)
  | .ok path => do
    Run.note .info (.ascii "config_loader: loading config from " ++ quoted path)
    match d with
    | .ok d => ofDocument numerals path d
    | .error fault => fail (.ofFault (some path) fault)

end Config

end ScriptVet
