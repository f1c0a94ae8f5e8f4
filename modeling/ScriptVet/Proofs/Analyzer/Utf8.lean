import ScriptVet.Proofs.Analyzer.Outcome
import ScriptVet.Proofs.Audit.Utf8
import ScriptVet.Proofs.Text.Percent

namespace ScriptVet

open Text.Utf8 (Ascii isValid isTail)

/-- Whatever bytes a table name has, its canonical form is ASCII. -/
theorem Table.isValid_canonical (t : Table) : isValid t.canonical = true := by
  have hdot : Ascii [Text.byte '.'] := by decide
  rw [canonical, canonicalName, Text.Utf8.isValid_joined hdot (by decide), List.all_map,
    List.all_eq_true]
  intro part _
  exact Ascii.isValid fun _ => Text.Percent.lt_of_mem_encode

theorem Dialect.isValid_name (d : Option Dialect) : isValid (name d) = true := by
  rcases d with _ | d
  · exact Ascii.isValid (by decide)
  · cases d <;> exact Ascii.isValid (by decide)

namespace Cause

/-- All texts that come with the cause are well-formed. -/
def isUtf8 : Cause → Bool
  | unparseable reason => isValid reason
  | notSingle _ _ => true
  | foreignEngine engine => isValid engine
  | tooLarge _ _ => true
  | noGrammar => true
  | grammarFailure what => isValid what

theorem isValid_code (c : Cause) : isValid c.code = true := by
  cases c
  all_goals
    rw [code]
    exact Ascii.isValid (by decide)

/-- A message adds ASCII characters only. -/
theorem isValid_message (c : Cause) : isValid c.message = c.isUtf8 := by
  have hascii {a : Text} (ha : Ascii a) (t : Text) : isValid (a ++ t) = isValid t :=
    ha.isValid_append t
  cases c with
  | unparseable reason => exact hascii (by decide) reason
  | notSingle language count =>
    cases language
    all_goals exact (hascii (by decide) _).trans (Text.ascii_decimal count).isValid
  | foreignEngine engine => exact hascii (by decide) engine
  | tooLarge size limit =>
    rw [message, List.append_assoc, List.append_assoc, hascii (by decide),
      hascii (Text.ascii_decimal size), hascii (by decide)]
    exact (Text.ascii_decimal limit).isValid
  | noGrammar => exact Ascii.isValid (by decide)
  | grammarFailure what => exact hascii (by decide) what

end Cause

namespace Analyzer

variable {a : Analyzer} {r : Request}

/-- What the grammar refuses the request with, or breaks down with on a question that the request
puts to it, is well-formed. -/
structure HearsUtf8 (a : Analyzer) (r : Request) : Prop where
  refusal : ∀ g, a.grammar = some g → ∀ reason,
    g.parse r.sql (Dialect.ofEngine? r.engine) = .ok (.refused reason) → isValid reason = true
  fault : ∀ g, a.grammar = some g → ∀ c ∈ (a.verdict r).calls, ∀ what,
    g.fault? c = some what → isValid what = true

/-- What a rejection cites comes from the grammar. -/
theorem isUtf8_cause (hears : a.HearsUtf8 r) {e : Rejection}
    (h : (a.verdict r).outcome = .done (.error e)) : e.cause.isUtf8 = true := by
  by_cases hsize : a.Oversized r
  · rw [verdict_oversized hsize] at h
    obtain rfl := Except.error.inj (Outcome.done.inj h)
    rfl
  rcases (verdict_eq_done_iff hsize).mp h with hr | ⟨what, hr, he⟩
  · rcases report_eq_error hr with ⟨-, rfl⟩ | ⟨g, reason, hg, hp, rfl⟩
    · rfl
    · exact hears.refusal g hg reason hp
  · obtain rfl := Except.error.inj he
    have hengine : r.engine ≠ Kql.engine := by
      intro hengine
      obtain ⟨report, hreport⟩ := report_kql a hengine
      cases hr.symm.trans hreport
    cases hg : a.grammar with
    | none => cases hr.symm.trans (report_none hg hengine)
    | some g =>
      obtain ⟨c, hc, hfault⟩ := ((report_faithful hg hengine).broken_iff what).mp hr
      rw [← calls_verdict hsize] at hc
      exact hears.fault g hg c hc what hfault

/-- The submitted text leaves nothing in the line about an accepted request that is not ASCII, so the line
is well-formed just if the request's id and its engine are. -/
theorem acceptance_line_utf8 {log : Audit.Log} (hlog : a.log = some log)
    (hkeeps : log.threshold.keeps .info = true) {j after : Journal} {clock : Reading}
    {report : Report} (h : (a.analyze j clock r).outcome = .done (after, ⟨r.id, .ok report⟩)) :
    ∃ line, after.trail = j.trail ++ [line] ∧
      line.members.head? = some (.ascii "event", .text (.ascii "analysis")) ∧
      isValid line.text = (isValid r.id && isValid r.engine) := by
  obtain ⟨-, rfl⟩ := analyze_eq_done.mp h
  have hkept : log.kept (a.entry clock r (.ok report)) = [a.entry clock r (.ok report)] :=
    if_pos hkeeps
  have htables : (report.tables.map (·.canonical)).all isValid = true := by
    rw [List.all_map, List.all_eq_true]
    exact fun t _ => t.isValid_canonical
  refine ⟨a.entry clock r (.ok report), ?_, rfl, ?_⟩
  · rw [enter, hlog, Option.toList_some, List.flatMap_singleton, hkept]
  · rw [entry, Audit.Entry.isValid_text_accepted, Dialect.isValid_name, htables, Bool.and_true,
      Bool.and_true]

/-- Where everything in a rejected request is well-formed, and everything the grammar says, the line
about it is well-formed just if the beginning of its text ends with a whole character, so if the first
byte that is left out continues none. -/
theorem rejection_line_utf8 {log : Audit.Log} (hlog : a.log = some log)
    (hkeeps : log.threshold.keeps .warn = true) (hid : isValid r.id = true)
    (hengine : isValid r.engine = true) (hsql : isValid r.sql = true)
    (hears : a.HearsUtf8 r) {j after : Journal} {clock : Reading} {e : Rejection}
    (h : (a.analyze j clock r).outcome = .done (after, ⟨r.id, .error e⟩)) :
    ∃ line, after.trail = j.trail ++ [line] ∧
      line.members.head? = some (.ascii "event", .text (.ascii "analysis_rejected")) ∧
      (isValid line.text = true ↔
        ∀ c, r.sql[a.limits.logSqlPrefix.toNat]? = some c → isTail c = false) := by
  obtain ⟨hverdict, rfl⟩ := analyze_eq_done.mp h
  have hcause : e.cause.isUtf8 = true := isUtf8_cause hears hverdict
  have hkept : log.kept (a.entry clock r (.error e)) = [a.entry clock r (.error e)] := if_pos hkeeps
  refine ⟨a.entry clock r (.error e), ?_, rfl, ?_⟩
  · rw [enter, hlog, Option.toList_some, List.flatMap_singleton, hkept]
  · rw [entry, Audit.Entry.isValid_text_refused, hid, hengine, e.cause.isValid_code,
      e.cause.isValid_message, hcause]
    exact Text.Utf8.isValid_take_iff hsql _

/-- An analyser that shows `n` bytes of a rejected text in its log. -/
def showing (n : UInt64) (g : Option Grammar) : Analyzer :=
  ⟨{ Limits.default with logSqlPrefix := n }, g, some ⟨.info, .ascii "audit.log"⟩⟩

/-- Two characters of two bytes, refused with a reason that cites both. Two bytes are one of them. -/
theorem rejection_line_utf8_whole_character :
    let a := showing 2 (some Sql.explainingGrammar)
    let r : Request := ⟨.ascii "r1", .ascii "mysql", [195, 169, 195, 169]⟩
    ∃ after e line, (a.analyze .empty ⟨0, 0⟩ r).outcome = .done (after, ⟨r.id, .error e⟩) ∧
      after.trail = [line] ∧ isValid line.text = true := by
  intro a r
  have hsql : isValid r.sql = true := by decide +kernel
  let reason : Text :=
    Text.ascii "Invalid expression / Unexpected token: " ++ [195, 169, 195, 169]
  have hsize : ¬a.Oversized r := fun hsize => absurd hsize.2 (by decide)
  have hparse : Sql.explainingGrammar.parse r.sql (Dialect.ofEngine? r.engine) =
      .ok (.refused reason) := rfl
  have hverdict := verdict_of_report hsize (report_refused rfl (by decide) hparse)
  have hanalyze : a.Answers .empty ⟨0, 0⟩ r _ := answers_iff.mpr hverdict
  have hears : a.HearsUtf8 r := by
    constructor
    · intro g hg reason' hp
      obtain rfl := Option.some.inj hg
      obtain rfl := Parse.refused.inj (Except.ok.inj (hparse.symm.trans hp))
      exact (Ascii.isValid_append (by decide) _).trans hsql
    · intro g hg c _ what hfault
      obtain rfl := Option.some.inj hg
      cases c <;> cases hfault
  obtain ⟨line, htrail, -, hvalid⟩ := rejection_line_utf8 rfl (by decide)
    (Ascii.isValid (by decide)) (Ascii.isValid (by decide)) hsql hears hanalyze
  have hnext (c : UInt8) (hc : r.sql[a.limits.logSqlPrefix.toNat]? = some c) : isTail c = false := by
    obtain rfl : 195 = c := Option.some.inj hc
    decide
  exact ⟨_, _, line, hanalyze, htrail, hvalid.mpr hnext⟩

/-- One character of two bytes, of which the line shows the first alone. -/
theorem rejection_line_broken :
    let a := showing 1 none
    let r : Request := ⟨.ascii "r1", .ascii "mysql", [195, 169]⟩
    isValid r.id = true ∧ isValid r.engine = true ∧ isValid r.sql = true ∧ a.grammar = none ∧
    (∃ log, a.log = some log ∧ log.threshold.keeps .warn = true) ∧
    ∃ after e line, (a.analyze .empty ⟨0, 0⟩ r).outcome = .done (after, ⟨r.id, .error e⟩) ∧
      after.trail = [line] ∧ isValid line.text = false := by
  intro a r
  have hsize : ¬a.Oversized r := fun hsize => absurd hsize.2 (by decide)
  have hverdict := verdict_of_report hsize (report_none rfl (by decide))
  have hanalyze : a.Answers .empty ⟨0, 0⟩ r _ := answers_iff.mpr hverdict
  refine ⟨Ascii.isValid (by decide), Ascii.isValid (by decide), by decide +kernel, rfl,
    ⟨_, rfl, rfl⟩, _, _, _, hanalyze, rfl, ?_⟩
  have hcut : isValid (r.sql.take a.limits.logSqlPrefix.toNat) = false := by decide +kernel
  rw [entry, Audit.Entry.isValid_text_refused, hcut, Bool.and_false]

end Analyzer

end ScriptVet
