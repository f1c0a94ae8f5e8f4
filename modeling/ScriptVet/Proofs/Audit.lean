import ScriptVet.Audit
import ScriptVet.Proofs.Audit.Json
import ScriptVet.Proofs.Text.Padded

namespace ScriptVet.Audit

namespace Timestamp

/-- A digit, or a mark between two numbers of a written time. -/
def IsPart (c : UInt8) : Prop := Text.isDigit c = true ∨ c ∈ Text.ascii "-T:.Z"

theorem isPart_numeral (width n : Nat) : ∀ c ∈ numeral width n, IsPart c :=
  fun _ hc => .inl (Text.isDigit_of_mem_padded hc)

/-- Before the epoch, milliseconds have a sign. -/
theorem isPart_signed (width : Nat) (n : Int) :
    ∀ c ∈ Text.zeroPadded width (.signedDecimal n), IsPart c := by
  refine List.forall_mem_append.mpr ⟨?_, ?_⟩
  · intro c hc
    rw [List.eq_of_mem_replicate hc]
    exact .inl rfl
  · have hdecimal : ∀ c ∈ Text.decimal n.natAbs, IsPart c :=
      fun _ hc => .inl (Text.isDigit_of_mem_decimal hc)
    rw [Text.signedDecimal]
    split
    · exact List.forall_mem_cons.mpr ⟨.inr List.mem_cons_self, hdecimal⟩
    · exact hdecimal

theorem isPart_render (t : Timestamp) : ∀ c ∈ t.render, IsPart c := by
  have hmark {c : UInt8} (hc : c ∈ Text.ascii "-T:.Z") : ∀ d ∈ [c], IsPart d :=
    List.forall_mem_singleton.mpr (.inr hc)
  have hdash : ∀ d ∈ Text.ascii "-", IsPart d := hmark (by decide)
  have hcolon : ∀ d ∈ Text.ascii ":", IsPart d := hmark (by decide)
  have hdate (days : Nat) : ∀ c ∈ dateText days, IsPart c := by
    simp only [dateText, List.forall_mem_append]
    exact ⟨⟨⟨⟨isPart_numeral 4 _, hdash⟩, isPart_numeral 2 _⟩, hdash⟩, isPart_numeral 2 _⟩
  have htime (second : Nat) : ∀ c ∈ timeText second, IsPart c := by
    simp only [timeText, List.forall_mem_append]
    exact ⟨⟨⟨⟨isPart_numeral 2 _, hcolon⟩, isPart_numeral 2 _⟩, hcolon⟩, isPart_numeral 2 _⟩
  simp only [render, List.forall_mem_append]
  exact ⟨⟨⟨⟨⟨hdate _, hmark (by decide)⟩, htime _⟩, hmark (by decide)⟩, isPart_signed 3 _⟩,
    hmark (by decide)⟩

theorem IsPart.escapeByte {c : UInt8} (hc : IsPart c) : Json.escapeByte c = [c] := by
  rcases hc with hdigit | hmark
  · exact Json.escapeByte_of_isDigit hdigit
  · have h : Json.Verbatim (Text.ascii "-T:.Z") := by decide
    exact h c hmark

/-- A time has no byte that would be escaped, at whatever point in time. -/
theorem string_render (t : Timestamp) :
    Json.string t.render = Json.quote :: t.render ++ [Json.quote] :=
  Json.Verbatim.string_eq fun c hc => (isPart_render t c hc).escapeByte

end Timestamp

namespace Acceptance

/-- Two sets of members are the same only if the entries differ in nothing but in what the written
time leaves out. -/
theorem members_inj {e e' : Acceptance} :
    e.members = e'.members ↔
      { e with timestamp := e'.timestamp } = e' ∧ e.timestamp.render = e'.timestamp.render := by
  cases e
  cases e'
  grind [members]

end Acceptance

namespace Refusal

theorem members_inj {e e' : Refusal} :
    e.members = e'.members ↔
      { e with timestamp := e'.timestamp } = e' ∧ e.timestamp.render = e'.timestamp.render := by
  cases e
  cases e'
  grind [members]

end Refusal

namespace Entry

theorem members_ne_nil (e : Entry) : e.members ≠ [] := by
  cases e with
  | accepted e => exact List.cons_ne_nil _ _
  | refused e => exact List.cons_ne_nil _ _

theorem read?_text (e : Entry) : Json.read? e.text = some e.members :=
  Json.read?_render e.members_ne_nil

theorem text_inj {e e' : Entry} : e.text = e'.text ↔ e.members = e'.members := by
  constructor
  · intro h
    have hread := congrArg Json.read? h
    rw [read?_text, read?_text] at hread
    exact Option.some.inj hread
  · intro h
    rw [text, text, h]

/-- The name of the event tells the two kinds apart. -/
theorem members_accepted_ne_refused (e : Acceptance) (e' : Refusal) :
    (accepted e).members ≠ (refused e').members := by
  intro h
  have haccepted : (accepted e).members.head? = some (.ascii "event", .text (.ascii "analysis")) :=
    rfl
  have hrefused : (refused e').members.head? =
      some (.ascii "event", .text (.ascii "analysis_rejected")) := rfl
  rw [h, hrefused] at haccepted
  exact absurd haccepted (by decide)

/-- For all bytes in all texts: an entry gives one line, the reader takes the whole line as an object
of exactly these members in this order, and lines are equal only where all that is recorded is equal,
the time up to what is written of it. -/
theorem text_decodes :
    (∀ e : Entry, ∀ c ∈ e.text, 32 ≤ c) ∧
    (∀ e : Acceptance, Json.read? (accepted e).text = some
      [(.ascii "event", .text (.ascii "analysis")),
       (.ascii "request_id", .text e.requestId),
       (.ascii "engine", .text e.engine),
       (.ascii "dialect", .text e.dialect),
       (.ascii "statement_count", .number e.statementCount),
       (.ascii "tables", .texts e.tables),
       (.ascii "mutating", .flag e.mutating),
       (.ascii "timestamp", .text e.timestamp.render),
       (.ascii "duration_us", .number e.microseconds)]) ∧
    (∀ e : Refusal, Json.read? (refused e).text = some
      [(.ascii "event", .text (.ascii "analysis_rejected")),
       (.ascii "request_id", .text e.requestId),
       (.ascii "engine", .text e.engine),
       (.ascii "error_code", .text e.code),
       (.ascii "reason", .text e.reason),
       (.ascii "sql_prefix", .text e.sqlStart),
       (.ascii "timestamp", .text e.timestamp.render)]) ∧
    (∀ e e' : Acceptance, (accepted e).text = (accepted e').text ↔
      { e with timestamp := e'.timestamp } = e' ∧ e.timestamp.render = e'.timestamp.render) ∧
    (∀ e e' : Refusal, (refused e).text = (refused e').text ↔
      { e with timestamp := e'.timestamp } = e' ∧ e.timestamp.render = e'.timestamp.render) ∧
    (∀ (e : Acceptance) (e' : Refusal), (accepted e).text ≠ (refused e').text) := by
  refine ⟨?oneLine, ?readAccepted, ?readRefused, ?accepted, ?refused, ?kinds⟩
  case oneLine => exact fun e => Json.oneLine_render e.members
  case readAccepted => exact fun e => read?_text (accepted e)
  case readRefused => exact fun e => read?_text (refused e)
  case accepted => exact fun e e' => text_inj.trans Acceptance.members_inj
  case refused => exact fun e e' => text_inj.trans Refusal.members_inj
  case kinds =>
    intro e e' h
    exact members_accepted_ne_refused e e' (text_inj.mp h)

/-- A table whose name looks like the end of the list and a further line, and one that ends with a
backslash: the line has no line break, and both names are read back. -/
theorem text_decodes_forged_table :
    let e : Acceptance :=
      ⟨.ascii "r1", .ascii "ansi", .ascii "ANSI", 1,
        [.ascii "a\"],\"mutating\":false\x7d\n\x7b\"x\":[\"", .ascii "b\\"], true, 0, 7⟩
    Json.quote ∈ (accepted e).text ∧ 32 ≤ Json.quote ∧
    Json.read? (accepted e).text = some
      [(.ascii "event", .text (.ascii "analysis")),
       (.ascii "request_id", .text (.ascii "r1")),
       (.ascii "engine", .text (.ascii "ansi")),
       (.ascii "dialect", .text (.ascii "ANSI")),
       (.ascii "statement_count", .number 1),
       (.ascii "tables", .texts
         [.ascii "a\"],\"mutating\":false\x7d\n\x7b\"x\":[\"", .ascii "b\\"]),
       (.ascii "mutating", .flag true),
       (.ascii "timestamp", .text (.ascii "1970-01-01T00:00:00.000Z")),
       (.ascii "duration_us", .number 7)] := by
  intro e
  have hmem : Json.quote ∈ (accepted e).text := List.mem_cons_of_mem _ List.mem_cons_self
  have htime : Timestamp.render 0 = .ascii "1970-01-01T00:00:00.000Z" := by decide +kernel
  rw [← htime]
  exact ⟨hmem, text_decodes.1 _ _ hmem, text_decodes.2.1 e⟩

end Entry

namespace Log

/-- The scale of the sinks, on which there is a level below `debug`. -/
def severity : Level → Nat
  | .debug => 1
  | .info => 2
  | .warn => 3
  | .error => 4

/-- What gets past both filters: an entry below the threshold is not even written, and the sinks drop
what is below the threshold on their own scale. -/
def passed (log : Log) (e : Entry) : List Entry :=
  if e.level.rank < log.threshold.rank then []
  else if severity log.threshold ≤ severity e.level then [e]
  else []

theorem severity_le_iff (a b : Level) : severity a ≤ severity b ↔ a.rank ≤ b.rank := by
  cases a <;> cases b <;> decide

/-- The two filters agree, so they keep what one of them keeps. -/
theorem kept_eq_passed (log : Log) (e : Entry) : log.kept e = log.passed e := by
  rw [kept, passed, Level.keeps]
  by_cases h : log.threshold.rank ≤ e.level.rank
  · rw [if_pos (decide_eq_true h), if_neg (Nat.not_lt.mpr h), if_pos ((severity_le_iff _ _).mpr h)]
  · rw [if_neg (mt of_decide_eq_true h), if_pos (Nat.lt_of_not_le h)]

theorem kept_accepted (log : Log) (e : Acceptance) :
    log.kept (.accepted e) =
      if log.threshold = .debug ∨ log.threshold = .info then [.accepted e] else [] := by
  rw [kept_eq_passed, passed]
  cases log.threshold <;> rfl

theorem kept_refused (log : Log) (e : Refusal) :
    log.kept (.refused e) = if log.threshold = .error then [] else [.refused e] := by
  rw [kept_eq_passed, passed]
  cases log.threshold <;> rfl

end Log

end ScriptVet.Audit
