import ScriptVet.Proofs.Script

namespace ScriptVet

/-- None of the statements of the submitted text explains others without end. -/
def Grammar.Settles (g : Grammar) (r : Request) : Prop :=
  ∀ us root, g.parse r.sql (Dialect.ofEngine? r.engine) = .ok (.units us) → root ∈ us.filterMap id →
    (Sql.mutates g (Dialect.ofEngine? r.engine) g.nesting root).outcome ≠ .unfinished

/-- Only Postgres has texts inside texts. -/
theorem Grammar.settles_of_ne_postgres (g : Grammar) {r : Request}
    (h : Dialect.ofEngine? r.engine ≠ some .postgres) : g.Settles r := by
  intro us root _ _
  exact Run.law_ends.mutates (fun hd => absurd hd h) (fun hd => absurd hd h) g.nesting root

/-- It is enough that each statement changes something, or is the first one of a chain within the nesting
of the grammar that goes on to no harmless statement: its last one explains nothing, or a change, or a
text that is not one statement, or one on which the grammar breaks down. -/
theorem Grammar.settles_of_chains {g : Grammar} {r : Request}
    (h : ∀ us root, g.parse r.sql (Dialect.ofEngine? r.engine) = .ok (.units us) →
      root ∈ us.filterMap id →
      (∃ n, root.Contains n ∧ Sql.Changes n) ∨
        ∃ chain last, Sql.HarmlessChain g root last chain ∧ chain.length ≤ g.nesting ∧
          ∀ inner, Sql.Leads g last inner → ¬Sql.Harmless inner) :
    g.Settles r := by
  by_cases hd : Dialect.ofEngine? r.engine = some .postgres
  · intro us root hp hroot
    rcases h us root hp hroot with hc | ⟨chain, last, hchain, hlen, hstop⟩
    · rw [Sql.mutates_changing _ hc]
      nofun
    · rw [hd]
      exact hchain.ends hlen hstop
  · exact g.settles_of_ne_postgres hd

namespace Analyzer

variable {a : Analyzer} {r : Request}

/-- There is a limit, and the submitted text has more bytes. -/
def Oversized (a : Analyzer) (r : Request) : Prop :=
  0 < a.limits.maxScriptBytes.toNat ∧ a.limits.maxScriptBytes.toNat < r.sql.length

theorem exceeds_iff : a.exceeds r = true ↔ a.Oversized r := by
  simp [exceeds, Oversized, UInt64.lt_iff_toNat_lt]

theorem exceeds_eq_false : a.exceeds r = false ↔ ¬a.Oversized r := by
  rw [← exceeds_iff, Bool.not_eq_true]

theorem verdict_oversized (h : a.Oversized r) :
    a.verdict r = pure (.error ⟨.tooLarge r.sql.length a.limits.maxScriptBytes.toNat, []⟩) := by
  rw [verdict, if_pos (exceeds_iff.mpr h)]

theorem verdict_eq (h : ¬a.Oversized r) :
    a.verdict r = (a.report r).recover fun what =>
      ⟨[.note .error (broken r what)], .done (.error ⟨.grammarFailure what, []⟩)⟩ := by
  rw [verdict, exceeds_eq_false.mpr h, if_neg Bool.false_ne_true]
  rfl

theorem verdict_done (h : ¬a.Oversized r) {answer : Except Rejection Report}
    (hr : (a.report r).outcome = .done answer) : a.verdict r = a.report r := by
  rw [verdict_eq h, Run.recover_done hr]

theorem verdict_of_report (h : ¬a.Oversized r) {answer : Except Rejection Report}
    (hr : (a.report r).outcome = .done answer) : (a.verdict r).outcome = .done answer := by
  rw [verdict_done h hr, hr]

theorem verdict_broken (h : ¬a.Oversized r) {what : Text}
    (hr : (a.report r).outcome = .broken what) :
    (a.verdict r).outcome = .done (.error ⟨.grammarFailure what, []⟩) := by
  rw [verdict_eq h, Run.recover_broken hr]

theorem verdict_unfinished (h : ¬a.Oversized r) (hr : (a.report r).outcome = .unfinished) :
    a.verdict r = a.report r := by
  rw [verdict_eq h, Run.recover_unfinished hr]

/-- The message about a breakdown is no question. -/
theorem calls_verdict (h : ¬a.Oversized r) : (a.verdict r).calls = (a.report r).calls := by
  cases hr : (a.report r).outcome with
  | done answer => rw [verdict_done h hr]
  | unfinished => rw [verdict_unfinished h hr]
  | broken what =>
    rw [verdict_eq h, Run.recover_broken hr, Run.calls, List.filterMap_append]
    exact List.append_nil _

theorem verdict_ne_broken (a : Analyzer) (r : Request) (what : Text) :
    (a.verdict r).outcome ≠ .broken what := by
  by_cases h : a.Oversized r
  · simp [verdict_oversized h, Run.pure_eq]
  · cases hr : (a.report r).outcome with
    | done answer => simp [verdict_done h hr, hr]
    | unfinished => simp [verdict_unfinished h hr, hr]
    | broken what => simp [verdict_broken h hr]

theorem verdict_eq_done_iff (h : ¬a.Oversized r) {answer : Except Rejection Report} :
    (a.verdict r).outcome = .done answer ↔
      (a.report r).outcome = .done answer ∨
        ∃ what, (a.report r).outcome = .broken what ∧ answer = .error ⟨.grammarFailure what, []⟩ := by
  cases hr : (a.report r).outcome with
  | done answer' => simp [verdict_done h hr, hr]
  | unfinished => simp [verdict_unfinished h hr, hr]
  | broken what => simp [verdict_broken h hr, eq_comm]

/-- A text that is read is rejected for two reasons only. -/
theorem report_eq_error {e : Rejection} (h : (a.report r).outcome = .done (.error e)) :
    (a.grammar = none ∧ e = ⟨.noGrammar, r.sql.excerpt⟩) ∨
      ∃ g reason, a.grammar = some g ∧
        g.parse r.sql (Dialect.ofEngine? r.engine) = .ok (.refused reason) ∧
        e = ⟨.unparseable reason, r.sql.excerpt⟩ := by
  rw [Script.report_eq] at h
  obtain ⟨answer, hread, hassessed⟩ := Run.bind_eq_done.mp h
  obtain rfl := Script.assessed_eq_error hassessed
  by_cases he : r.engine = Kql.engine
  · rw [he, Script.read_kql] at hread
    cases hread
  · cases hg : a.grammar with
    | none =>
      rw [hg, Script.read_none he] at hread
      exact .inl ⟨rfl, (Except.error.inj (Outcome.done.inj hread)).symm⟩
    | some g =>
      rw [hg] at hread
      rcases Script.read_eq_done he hread with ⟨reason, hp, hanswer⟩ | ⟨us, ss, -, -, hanswer⟩
      · exact .inr ⟨g, reason, rfl, hp, Except.error.inj hanswer⟩
      · cases hanswer

theorem verdict_eq_error {e : Rejection} (h : (a.verdict r).outcome = .done (.error e)) :
    (a.Oversized r ∧ e.cause = .tooLarge r.sql.length a.limits.maxScriptBytes.toNat) ∨
      (¬a.Oversized r ∧ (e.cause = .noGrammar ∨ (∃ reason, e.cause = .unparseable reason) ∨
        ∃ what, e.cause = .grammarFailure what)) := by
  by_cases hsize : a.Oversized r
  · rw [verdict_oversized hsize] at h
    obtain rfl := Except.error.inj (Outcome.done.inj h)
    exact .inl ⟨hsize, rfl⟩
  · refine .inr ⟨hsize, ?_⟩
    rcases (verdict_eq_done_iff hsize).mp h with hr | ⟨what, -, he⟩
    · rcases report_eq_error hr with ⟨-, rfl⟩ | ⟨g, reason, -, -, rfl⟩
      · exact .inl rfl
      · exact .inr (.inl ⟨reason, rfl⟩)
    · obtain rfl := Except.error.inj he
      exact .inr (.inr ⟨what, rfl⟩)

theorem report_kql (a : Analyzer) (h : r.engine = Kql.engine) :
    ∃ report, (a.report r).outcome = .done (.ok report) := by
  obtain ⟨answer, hanswer⟩ := Run.law_done.report_kql a h
  cases answer with
  | ok report => exact ⟨report, hanswer⟩
  | error e =>
    rw [Script.report_eq] at hanswer
    obtain ⟨script, hread, hassessed⟩ := Run.bind_eq_done.mp hanswer
    rw [h, Script.read_kql] at hread
    obtain rfl := Outcome.done.inj hread
    cases Script.assessed_eq_error hassessed

theorem calls_report_kql (a : Analyzer) (h : r.engine = Kql.engine) : (a.report r).calls = [] :=
  List.eq_nil_iff_forall_not_mem.mpr ((Run.law_calls fun _ => False).report_kql a h)

section Grammar

variable {g : Grammar} (hg : a.grammar = some g) (he : r.engine ≠ Kql.engine)
include hg he

theorem report_faithful : (a.report r).Faithful g :=
  have law := Run.law_faithful g
  law.report_sql hg he (fun _ => Run.faithful_ask rfl) (fun _ _ => Run.faithful_ask rfl)
    (fun _ => Run.faithful_ask rfl)
    fun _ root _ _ => law.mutates (fun _ _ => Run.faithful_ask rfl) (fun _ => rfl) g.nesting root

theorem report_ends (settled : g.Settles r) : (a.report r).outcome ≠ .unfinished :=
  Run.law_ends.report_sql hg he (fun _ => Run.ask_ends _ _) (fun _ _ => Run.ask_ends _ _)
    (fun _ => Run.ask_ends _ _) settled

theorem report_refused {reason : Text}
    (hp : g.parse r.sql (Dialect.ofEngine? r.engine) = .ok (.refused reason)) :
    (a.report r).outcome = .done (.error ⟨.unparseable reason, r.sql.excerpt⟩) := by
  rw [Script.report_eq, hg, Run.bind_done (Script.read_refused he hp)]
  rfl

/-- A text that the grammar takes, and whose questions it answers, is accepted. -/
theorem exists_report
    (haccepted : ∀ reason, g.parse r.sql (Dialect.ofEngine? r.engine) ≠ .ok (.refused reason))
    (hsound : ∀ c ∈ (a.report r).calls, g.fault? c = none) (settled : g.Settles r) :
    ∃ report, (a.report r).outcome = .done (.ok report) := by
  cases hr : (a.report r).outcome with
  | unfinished => exact absurd hr (report_ends hg he settled)
  | broken what =>
    obtain ⟨c, hc, hfault⟩ := ((report_faithful hg he).broken_iff what).mp hr
    simp [hsound c hc] at hfault
  | done answer =>
    cases answer with
    | ok report => exact ⟨report, rfl⟩
    | error e =>
      rcases report_eq_error hr with ⟨hnone, -⟩ | ⟨g', reason, hg', hp, -⟩
      · simp [hg] at hnone
      · obtain rfl : g = g' := Option.some.inj (hg.symm.trans hg')
        exact absurd hp (haccepted reason)

end Grammar

/-- The first question that breaks the grammar down ends the request, whichever it is. -/
theorem verdict_of_fault {g : Grammar} (hg : a.grammar = some g) {c : Grammar.Call}
    (hc : c ∈ (a.verdict r).calls) {what : Text} (hfault : g.fault? c = some what) :
    (a.verdict r).outcome = .done (.error ⟨.grammarFailure what, []⟩) := by
  have hsize : ¬a.Oversized r := by
    intro hsize
    rw [verdict_oversized hsize] at hc
    exact List.not_mem_nil hc
  rw [calls_verdict hsize] at hc
  have he : r.engine ≠ Kql.engine := by
    intro he
    rw [calls_report_kql a he] at hc
    exact List.not_mem_nil hc
  have hbroken : (a.report r).outcome = .broken what :=
    ((report_faithful hg he).broken_iff what).mpr ⟨c, hc, hfault⟩
  exact verdict_broken hsize hbroken

theorem report_none (hg : a.grammar = none) (he : r.engine ≠ Kql.engine) :
    (a.report r).outcome = .done (.error ⟨.noGrammar, r.sql.excerpt⟩) := by
  rw [Script.report_eq, hg, Script.read_none he]
  rfl

section Answers

variable (a : Analyzer) (j : Journal) (clock : Reading) (r : Request)

/-- The request is given this answer, which is also entered into the journal. -/
def Answers (answer : Except Rejection Report) : Prop :=
  (a.analyze j clock r).outcome = .done (a.enter j clock r answer, ⟨r.id, answer⟩)

/-- The request is rejected, and this is what the rejection shows. -/
def Rejects (code message context : Text) : Prop :=
  ∃ e, a.Answers j clock r (.error e) ∧ e.cause.code = code ∧ e.cause.message = message ∧
    e.context = context

variable {a j clock r}

theorem analyze_eq :
    a.analyze j clock r =
      (fun answer => (a.enter j clock r answer, ⟨r.id, answer⟩)) <$> a.verdict r := by
  rw [analyze, bind_pure_comp]

theorem calls_analyze : (a.analyze j clock r).calls = (a.verdict r).calls := by
  rw [analyze_eq, Run.calls_map]

theorem analyze_eq_done {after : Journal} {answer : Except Rejection Report} :
    (a.analyze j clock r).outcome = .done (after, ⟨r.id, answer⟩) ↔
      (a.verdict r).outcome = .done answer ∧ after = a.enter j clock r answer := by
  rw [analyze_eq, Run.map_eq_done]
  constructor
  · intro h
    obtain ⟨answer', hanswer, heq⟩ := h
    obtain ⟨rfl, hresult⟩ := Prod.mk.inj heq
    obtain rfl : answer' = answer := congrArg Result.report hresult
    exact ⟨hanswer, rfl⟩
  · rintro ⟨hanswer, rfl⟩
    exact ⟨answer, hanswer, rfl⟩

theorem answers_iff {answer : Except Rejection Report} :
    a.Answers j clock r answer ↔ (a.verdict r).outcome = .done answer :=
  analyze_eq_done.trans (and_iff_left rfl)

/-- No breakdown gets past a request. -/
theorem analyze_ne_broken (what : Text) : (a.analyze j clock r).outcome ≠ .broken what := by
  rw [analyze_eq, Run.map_eq]
  cases hv : (a.verdict r).outcome with
  | done answer => simp [Outcome.map]
  | broken what' => exact absurd hv (verdict_ne_broken a r what')
  | unfinished => simp [Outcome.map]

theorem code_of_answers {e : Rejection} (h : a.Answers j clock r (.error e)) :
    (e.cause.code = .ascii "input_too_large" ∧ a.Oversized r) ∨
      (¬a.Oversized r ∧ (e.cause.code = .ascii "internal_error" ∨
        e.cause.code = .ascii "unparseable_query")) := by
  rcases verdict_eq_error (answers_iff.mp h) with
    ⟨hsize, hcause⟩ | ⟨hsize, hcause | ⟨reason, hcause⟩ | ⟨what, hcause⟩⟩
  all_goals rw [hcause]
  · exact .inl ⟨rfl, hsize⟩
  · exact .inr ⟨hsize, .inl rfl⟩
  · exact .inr ⟨hsize, .inr rfl⟩
  · exact .inr ⟨hsize, .inl rfl⟩

theorem rejects_of_verdict {e : Rejection} (h : (a.verdict r).outcome = .done (.error e)) :
    a.Rejects j clock r e.cause.code e.cause.message e.context :=
  ⟨e, answers_iff.mpr h, rfl, rfl, rfl⟩

end Answers

/-- How a request ends. Over the limit it is rejected unread; otherwise a KQL request is accepted, and
a SQL request is rejected where there is no grammar, where the grammar refuses the text, and where the
grammar breaks down on any question, and else accepted. -/
theorem analyze_outcomes (a : Analyzer) (j : Journal) (clock : Reading) (r : Request) :
    (∀ what, (a.analyze j clock r).outcome ≠ .broken what) ∧
    (∀ e, a.Answers j clock r (.error e) →
      e.cause.code ≠ .ascii "not_single_statement" ∧ e.cause.code ≠ .ascii "invalid_engine") ∧
    ((∃ e, a.Answers j clock r (.error e) ∧ e.cause.code = .ascii "input_too_large") ↔
      a.Oversized r) ∧
    (a.Oversized r →
      a.Rejects j clock r (.ascii "input_too_large")
        (.ascii "Script size " ++ .decimal r.sql.length ++ .ascii " exceeds max_script_bytes " ++
          .decimal a.limits.maxScriptBytes.toNat) [] ∧
      (a.analyze j clock r).calls = []) ∧
    (¬a.Oversized r → r.engine = .ascii "kustokql" → ∃ report, a.Answers j clock r (.ok report)) ∧
    (¬a.Oversized r → r.engine ≠ .ascii "kustokql" → a.grammar = none →
      a.Rejects j clock r (.ascii "internal_error")
        (.ascii "No SQL engine configured for grammar-backed statements") (r.sql.take 80)) ∧
    (¬a.Oversized r → r.engine ≠ .ascii "kustokql" → ∀ g, a.grammar = some g →
      (∀ reason, g.parse r.sql (Dialect.ofEngine? r.engine) = .ok (.refused reason) →
        a.Rejects j clock r (.ascii "unparseable_query")
          (.ascii "Unable to split query: " ++ reason) (r.sql.take 80)) ∧
      (∀ c ∈ (a.analyze j clock r).calls, ∀ what, g.fault? c = some what →
        a.Rejects j clock r (.ascii "internal_error") (.ascii "Engine failure: " ++ what) []) ∧
      ((∀ reason, g.parse r.sql (Dialect.ofEngine? r.engine) ≠ .ok (.refused reason)) →
        (∀ c ∈ (a.analyze j clock r).calls, g.fault? c = none) → g.Settles r →
        ∃ report, a.Answers j clock r (.ok report))) := by
  refine ⟨?_, ?_, ?_, ?_, ?_, ?_, ?_⟩
  · exact analyze_ne_broken
  · intro e he
    rcases code_of_answers he with ⟨hcode, -⟩ | ⟨-, hcode | hcode⟩
    all_goals
      rw [hcode]
      exact ⟨by decide, by decide⟩
  · constructor
    · intro h
      obtain ⟨e, he, hlarge⟩ := h
      rcases code_of_answers he with ⟨-, hsize⟩ | ⟨-, hcode | hcode⟩
      · exact hsize
      all_goals
        rw [hcode] at hlarge
        exact absurd hlarge (by decide)
    · intro hsize
      exact ⟨_, answers_iff.mpr (congrArg Run.outcome (verdict_oversized hsize)), rfl⟩
  · intro hsize
    have hv := verdict_oversized hsize
    refine ⟨rejects_of_verdict (by rw [hv]; rfl), ?_⟩
    rw [calls_analyze, hv]
    rfl
  · intro hsize he
    obtain ⟨report, hr⟩ := report_kql a he
    exact ⟨report, answers_iff.mpr (verdict_of_report hsize hr)⟩
  · intro hsize he hg
    have hr := report_none hg he
    exact rejects_of_verdict (verdict_of_report hsize hr)
  · intro hsize he g hg
    refine ⟨?_, ?_, ?_⟩
    · intro reason hp
      have hr := report_refused hg he hp
      exact rejects_of_verdict (verdict_of_report hsize hr)
    · intro c hc what hfault
      rw [calls_analyze] at hc
      exact rejects_of_verdict (verdict_of_fault hg hc hfault)
    · intro haccepted hsound settled
      rw [calls_analyze, calls_verdict hsize] at hsound
      obtain ⟨report, hr⟩ := exists_report hg he haccepted hsound settled
      exact ⟨report, answers_iff.mpr (verdict_of_report hsize hr)⟩

/-- Knows one query, and breaks down when it is asked for its scopes. -/
def scopelessGrammar : Grammar :=
  { parses := [(.ascii "SELECT 1", .units [some Sql.bareSelect])]
    parseFault := none
    generateFault := none
    scopesFault := some (.ascii "no scopes")
    fixedScopes := none : Fixture }.toGrammar

/-- An analyser that takes texts of at most `limit` bytes, or of any size if that is 0. -/
def limited (limit : UInt64) (g : Option Grammar) : Analyzer :=
  ⟨{ Limits.default with maxScriptBytes := limit }, g, none⟩

theorem settles_explained :
    Sql.explainingGrammar.Settles ⟨[], .ascii "postgresql", .ascii "EXPLAIN ANALYZE SELECT 1"⟩ := by
  apply Grammar.settles_of_chains
  intro us root hp hroot
  obtain rfl : [none, some (Sql.explaining (.ascii "analyze SELECT 1"))] = us :=
    Parse.units.inj (Except.ok.inj hp)
  obtain rfl : root = Sql.explaining (.ascii "analyze SELECT 1") := by simpa using hroot
  have hleads : Sql.Leads Sql.explainingGrammar (Sql.explaining (.ascii "analyze SELECT 1"))
      Sql.bareSelect := ⟨.ascii "SELECT 1", _, Sql.explained?_eq_some.mp (by decide), rfl, rfl⟩
  have hchain := (Sql.HarmlessChain.single Sql.harmless_bareSelect).cons (Sql.harmless_explaining _)
    hleads
  refine .inr ⟨_, _, hchain, by decide, ?_⟩
  intro inner hinner
  obtain ⟨target, us, he, -⟩ := hinner
  exact absurd he (Sql.explained?_eq_none.mp rfl target)

/-- One request for each way to end. -/
theorem analyze_outcomes_each :
    (limited 3 none).Rejects .empty ⟨0, 0⟩ ⟨[], .ascii "mysql", .ascii "SELECT 1"⟩
      (.ascii "input_too_large") (.ascii "Script size 8 exceeds max_script_bytes 3") [] ∧
    (∃ report, (limited 3 none).Answers .empty ⟨0, 0⟩ ⟨[], .ascii "kustokql", .ascii "a;b"⟩
      (.ok report)) ∧
    (limited 8 none).Rejects .empty ⟨0, 0⟩ ⟨[], .ascii "mysql", .ascii "SELECT 1"⟩
      (.ascii "internal_error") (.ascii "No SQL engine configured for grammar-backed statements")
      (.ascii "SELECT 1") ∧
    (limited 0 (some scopelessGrammar)).Rejects .empty ⟨0, 0⟩ ⟨[], .ascii "mysql", .ascii "SELEC"⟩
      (.ascii "unparseable_query")
      (.ascii "Unable to split query: Invalid expression / Unexpected token: SELEC")
      (.ascii "SELEC") ∧
    (limited 0 (some scopelessGrammar)).Rejects .empty ⟨0, 0⟩
      ⟨[], .ascii "mysql", .ascii "SELECT 1"⟩ (.ascii "internal_error")
      (.ascii "Engine failure: no scopes") [] ∧
    (∃ report, (limited 0 (some Sql.explainingGrammar)).Answers .empty ⟨0, 0⟩
      ⟨[], .ascii "postgresql", .ascii "EXPLAIN ANALYZE SELECT 1"⟩ (.ok report)) := by
  have hfits (g : Option Grammar) (r : Request) : ¬(limited 0 g).Oversized r := by
    intro h
    exact absurd h.1 (Nat.lt_irrefl 0)
  refine ⟨?_, ?_, ?_, ?_, ?_, ?_⟩
  · obtain ⟨-, -, -, hlarge, -⟩ := analyze_outcomes (limited 3 none) .empty ⟨0, 0⟩
      ⟨[], .ascii "mysql", .ascii "SELECT 1"⟩
    obtain ⟨hrejects, -⟩ := hlarge ⟨by decide, by decide⟩
    exact hrejects
  · obtain ⟨-, -, -, -, hkql, -⟩ := analyze_outcomes (limited 3 none) .empty ⟨0, 0⟩
      ⟨[], .ascii "kustokql", .ascii "a;b"⟩
    apply hkql _ rfl
    intro hsize
    exact absurd hsize.2 (by decide)
  · obtain ⟨-, -, -, -, -, hnone, -⟩ := analyze_outcomes (limited 8 none) .empty ⟨0, 0⟩
      ⟨[], .ascii "mysql", .ascii "SELECT 1"⟩
    apply hnone _ (by decide) rfl
    intro hsize
    exact absurd hsize.2 (by decide)
  · obtain ⟨-, -, -, -, -, -, hsql⟩ := analyze_outcomes (limited 0 (some scopelessGrammar)) .empty
      ⟨0, 0⟩ ⟨[], .ascii "mysql", .ascii "SELEC"⟩
    obtain ⟨hrefused, -⟩ := hsql (hfits _ _) (by decide) scopelessGrammar rfl
    exact hrefused _ rfl
  · obtain ⟨-, -, -, -, -, -, hsql⟩ := analyze_outcomes (limited 0 (some scopelessGrammar)) .empty
      ⟨0, 0⟩ ⟨[], .ascii "mysql", .ascii "SELECT 1"⟩
    obtain ⟨-, hbroken, -⟩ := hsql (hfits _ _) (by decide) scopelessGrammar rfl
    -- The text is parsed before its scopes are asked for.
    have hcalls : .resolveScopes Sql.bareSelect ∈
        ((limited 0 (some scopelessGrammar)).analyze .empty ⟨0, 0⟩
          ⟨[], .ascii "mysql", .ascii "SELECT 1"⟩).calls := List.mem_cons_of_mem _ List.mem_cons_self
    exact hbroken _ hcalls _ rfl
  · obtain ⟨-, -, -, -, -, -, hsql⟩ := analyze_outcomes (limited 0 (some Sql.explainingGrammar)) .empty
      ⟨0, 0⟩ ⟨[], .ascii "postgresql", .ascii "EXPLAIN ANALYZE SELECT 1"⟩
    obtain ⟨-, -, haccepted⟩ := hsql (hfits _ _) (by decide) Sql.explainingGrammar rfl
    have hsound (c : Grammar.Call) : Sql.explainingGrammar.fault? c = none := by cases c <;> rfl
    refine haccepted ?_ ?_ settles_explained
    · intro reason hrefused
      cases Except.ok.inj hrefused
    · intro c _
      exact hsound c

end Analyzer

end ScriptVet
