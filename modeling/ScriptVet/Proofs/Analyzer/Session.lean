import ScriptVet.Proofs.Analyzer.Batch
import ScriptVet.Proofs.Analyzer.Questions
import Mathlib.Algebra.GroupWithZero.Nat

namespace ScriptVet

namespace Result

def accepted (r : Result) : Bool := r.report.isOk

/-- A rejection is about no statement. -/
def statementCount (r : Result) : Nat :=
  match r.report with
  | .ok report => report.statementCount
  | .error _ => 0

def mutating (r : Result) : Bool :=
  match r.report with
  | .ok report => report.mutating
  | .error _ => false

section Fields

variable (id : Text) (report : Report) (e : Rejection)

@[simp]
theorem accepted_ok : accepted ⟨id, .ok report⟩ = true := rfl

@[simp]
theorem accepted_error : accepted ⟨id, .error e⟩ = false := rfl

@[simp]
theorem statementCount_ok : statementCount ⟨id, .ok report⟩ = report.statementCount := rfl

@[simp]
theorem statementCount_error : statementCount ⟨id, .error e⟩ = 0 := rfl

@[simp]
theorem mutating_ok : mutating ⟨id, .ok report⟩ = report.mutating := rfl

@[simp]
theorem mutating_error : mutating ⟨id, .error e⟩ = false := rfl

end Fields

theorem accepted_of_mutating {r : Result} (h : r.mutating = true) : r.accepted = true := by
  obtain ⟨id, answer⟩ := r
  cases answer with
  | ok report => rfl
  | error e => cases h

end Result

namespace Stats

/-- Modulo 2 ^ 64, the counters tell how many results are reports and how many are rejections, how
many statements the reports are about, and how many reports are about a change. -/
structure Accounts (s : Stats) (results : List Result) : Prop where
  scripts : s.scripts = .ofNat (results.countP fun r => r.accepted)
  statements : s.statements = .ofNat (results.map Result.statementCount).sum
  mutatingScripts : s.mutatingScripts = .ofNat (results.countP fun r => r.mutating)
  rejectedScripts : s.rejectedScripts = .ofNat (results.countP fun r => !r.accepted)

namespace Accounts

variable {s : Stats} {results : List Result}

theorem empty : Stats.empty.Accounts [] := ⟨rfl, rfl, rfl, rfl⟩

/-- One more answer. -/
theorem count (h : s.Accounts results) (r : Result) :
    (Analyzer.count s r.report).Accounts (results ++ [r]) := by
  obtain ⟨id, answer⟩ := r
  cases answer with
  | error e =>
    constructor
    · simp [Analyzer.count, reject, h.scripts]
    · simp [Analyzer.count, reject, h.statements]
    · simp [Analyzer.count, reject, h.mutatingScripts]
    · simp [Analyzer.count, reject, h.rejectedScripts]
  | ok report =>
    constructor
    · simp [Analyzer.count, accept, h.scripts]
    · simp [Analyzer.count, accept, h.statements]
    · cases hm : report.mutating <;> simp [Analyzer.count, accept, h.mutatingScripts, hm]
    · simp [Analyzer.count, accept, h.rejectedScripts]

theorem foldl_count (h : s.Accounts results) (rs : List Result) :
    ((rs.map Result.report).foldl Analyzer.count s).Accounts (results ++ rs) := by
  induction rs generalizing s results with
  | nil => simpa using h
  | cons r rs ih =>
    have hrest := ih (h.count r)
    rwa [List.append_assoc, List.singleton_append] at hrest

theorem perm (h : s.Accounts results) {others : List Result} (hperm : results.Perm others) :
    s.Accounts others where
  scripts := by rw [h.scripts, hperm.countP_eq]
  statements := by rw [h.statements, (hperm.map Result.statementCount).sum_nat]
  mutatingScripts := by rw [h.mutatingScripts, hperm.countP_eq]
  rejectedScripts := by rw [h.rejectedScripts, hperm.countP_eq]

theorem scripts_add_rejectedScripts (h : s.Accounts results) :
    s.scripts + s.rejectedScripts = .ofNat results.length := by
  rw [h.scripts, h.rejectedScripts, ← UInt64.ofNat_add,
    List.length_eq_countP_add_countP fun r => r.accepted]
  simp

theorem mutatingScripts_le (h : s.Accounts results) (hlt : results.length < 2 ^ 64) :
    s.mutatingScripts ≤ s.scripts := by
  have hle : results.countP (fun r => r.mutating) ≤ results.countP fun r => r.accepted :=
    List.countP_mono_left fun r _ => Result.accepted_of_mutating
  have hscripts : results.countP (fun r => r.accepted) ≤ results.length := List.countP_le_length
  rw [h.mutatingScripts, h.scripts, UInt64.le_iff_toNat_le,
    UInt64.toNat_ofNat_of_lt' (Nat.lt_of_le_of_lt (hle.trans hscripts) hlt),
    UInt64.toNat_ofNat_of_lt' (Nat.lt_of_le_of_lt hscripts hlt)]
  exact hle

end Accounts

end Stats

theorem Journal.accounts_after (trail : List Audit.Entry) (ts : List Task) :
    (Journal.after ⟨.empty, trail⟩ ts).stats.Accounts (ts.map Task.result) := by
  have hanswers : ts.map Task.answer = (ts.map Task.result).map Result.report := by
    rw [List.map_map]
    rfl
  rw [stats_after, hanswers]
  exact Stats.Accounts.empty.foldl_count (ts.map Task.result)

namespace Step

/-- All requests of the step are answered in the end. -/
def Ends : Step → Prop
  | single t => t.Ends
  | batch a _ requests _ => ∀ r ∈ requests, a.Ends r

def results : Step → List Result
  | single t => [t.result]
  | batch a _ requests _ => requests.map a.result

variable {step : Step}

theorem run_of_ends (h : step.Ends) (j : Journal) :
    (step.run j).outcome = .done (j.after step.tasks, step.results) := by
  cases step with
  | single t => exact Run.bind_eq_done.mpr ⟨_, t.run_of_ends h j, rfl⟩
  | batch a clock requests schedule => exact Analyzer.batchBy_of_ends h clock j schedule

/-- Where all requests of a step are answered, all its tasks end. -/
theorem ends_of_mem_tasks (h : step.Ends) {t : Task} (ht : t ∈ step.tasks) : t.Ends := by
  cases step with
  | single u =>
    obtain rfl := List.mem_singleton.mp ht
    exact h
  | batch a clock requests schedule =>
    obtain ⟨i, -, hi⟩ := List.mem_filterMap.mp ht
    obtain ⟨r, hr, rfl⟩ := Option.map_eq_some_iff.mp hi
    exact h r (List.mem_of_getElem? hr)

/-- The results are those of the tasks, up to the order. -/
theorem map_result_tasks_perm (step : Step) : (step.tasks.map Task.result).Perm step.results := by
  cases step with
  | single t => exact .refl _
  | batch a clock requests schedule => exact Analyzer.map_tasks_perm (fun _ _ => rfl) schedule

theorem map_requestId_results (step : Step) :
    step.results.map (·.requestId) = step.requests.map (·.id) := by
  cases step with
  | single t => rfl
  | batch a clock batched schedule => simp [results, requests, Analyzer.result, Function.comp_def]

theorem advance_of_ends (h : step.Ends) (j : Journal) (seen : List Result) :
    (advance (j, seen) step).outcome = .done (j.after step.tasks, seen ++ step.results) :=
  Run.bind_eq_done.mpr ⟨_, run_of_ends h j, rfl⟩

theorem foldlM_advance {steps : List Step} (ends : ∀ step ∈ steps, step.Ends) (j : Journal)
    (seen : List Result) :
    (steps.foldlM advance (j, seen)).outcome =
      .done (j.after (steps.flatMap tasks), seen ++ steps.flatMap results) := by
  induction steps generalizing j seen with
  | nil => simp [Journal.after, Run.pure_eq]
  | cons step steps ih =>
    have hstep := advance_of_ends (ends step List.mem_cons_self) j seen
    have hrest := ih (fun s hs => ends s (List.mem_cons_of_mem step hs)) (j.after step.tasks)
      (seen ++ step.results)
    rw [List.foldlM_cons, List.flatMap_cons, List.flatMap_cons, Journal.after_append,
      ← List.append_assoc]
    exact Run.bind_eq_done.mpr ⟨_, hstep, hrest⟩

end Step

theorem session_of_ends {steps : List Step} (ends : ∀ step ∈ steps, step.Ends) (j : Journal) :
    (session j steps).outcome =
      .done (j.after (steps.flatMap Step.tasks), steps.flatMap Step.results) :=
  Step.foldlM_advance ends j []

/-- Tasks that are done one by one. -/
theorem session_singles {ts : List Task} (ends : ∀ t ∈ ts, t.Ends) (j : Journal) :
    (session j (ts.map .single)).outcome = .done (j.after ts, ts.map Task.result) := by
  have hsteps : ∀ step ∈ ts.map Step.single, step.Ends := by
    intro step hstep
    obtain ⟨t, ht, rfl⟩ := List.mem_map.mp hstep
    exact ends t ht
  have htasks : (ts.map Step.single).flatMap Step.tasks = ts := by
    simp [List.flatMap_map, Step.tasks]
  have hresults : (ts.map Step.single).flatMap Step.results = ts.map Task.result := by
    simp [List.flatMap_map, Step.results, ← List.map_eq_flatMap]
  rw [session_of_ends hsteps, htasks, hresults]

/-- A request that breaks down the grammar is counted as a rejection, whatever it had before. -/
theorem Task.run_of_breakdown {t : Task} {j : Journal} {g : Grammar} {c : Grammar.Call} {what : Text}
    (hg : t.analyzer.grammar = some g) (hc : c ∈ (t.run j).calls) (hfault : g.fault? c = some what) :
    ∃ after e,
      (t.run j).outcome = .done (after, ⟨t.request.id, .error e⟩) ∧
      after.stats = { j.stats with rejectedScripts := j.stats.rejectedScripts + 1 } := by
  rw [run, Analyzer.calls_analyze] at hc
  have hverdict := Analyzer.verdict_of_fault hg hc hfault
  exact ⟨_, _, Analyzer.answers_iff.mpr hverdict, rfl⟩

/-- Every request of a session is counted once. The counters agree with the results at the end, and so
do they between any two requests, where no more changes than reports are counted unless a counter may
have wrapped. A request that breaks down the grammar at any question counts as a rejection only. -/
theorem session_stats (trail : List Audit.Entry) (steps : List Step)
    (ends : ∀ step ∈ steps, step.Ends) :
    (∃ j results,
      (session ⟨.empty, trail⟩ steps).outcome = .done (j, results) ∧
      results.map (·.requestId) = (steps.flatMap Step.requests).map (·.id) ∧
      j.stats.Accounts results ∧
      j.stats.scripts + j.stats.rejectedScripts = .ofNat (steps.flatMap Step.requests).length ∧
      ∀ k, ∃ snapshot earlier,
        (session ⟨.empty, trail⟩ (((steps.flatMap Step.tasks).take k).map .single)).outcome =
          .done (snapshot, earlier) ∧
        earlier.map (·.requestId) = ((steps.flatMap Step.tasks).take k).map (·.request.id) ∧
        snapshot.stats.Accounts earlier ∧
        (k < 2 ^ 64 → snapshot.stats.mutatingScripts ≤ snapshot.stats.scripts) ∧
        ((steps.flatMap Step.requests).length ≤ k → snapshot = j)) ∧
    ∀ (t : Task) (j : Journal) g c what, t.analyzer.grammar = some g → c ∈ (t.run j).calls →
      g.fault? c = some what →
      ∃ after e,
        (t.run j).outcome = .done (after, ⟨t.request.id, .error e⟩) ∧
        after.stats = { j.stats with rejectedScripts := j.stats.rejectedScripts + 1 } := by
  have hids : (steps.flatMap Step.results).map (·.requestId) =
      (steps.flatMap Step.requests).map (·.id) := by
    rw [List.map_flatMap, List.map_flatMap]
    exact List.flatMap_congr fun step _ => step.map_requestId_results
  have hlen : (steps.flatMap Step.results).length = (steps.flatMap Step.requests).length := by
    simpa using congrArg List.length hids
  have hperm : ((steps.flatMap Step.tasks).map Task.result).Perm (steps.flatMap Step.results) := by
    rw [List.map_flatMap]
    exact List.Perm.flatMap_left steps fun step _ => step.map_result_tasks_perm
  have haccounts := (Journal.accounts_after trail (steps.flatMap Step.tasks)).perm hperm
  refine ⟨⟨_, _, session_of_ends ends _, hids, haccounts, ?_, ?_⟩, ?_⟩
  · rw [← hlen]
    exact haccounts.scripts_add_rejectedScripts
  · intro k
    have htasks : ∀ t ∈ (steps.flatMap Step.tasks).take k, t.Ends := by
      intro t ht
      obtain ⟨step, hstep, hmem⟩ := List.mem_flatMap.mp (List.mem_of_mem_take ht)
      exact step.ends_of_mem_tasks (ends step hstep) hmem
    have hsnapshot := Journal.accounts_after trail ((steps.flatMap Step.tasks).take k)
    refine ⟨_, _, session_singles htasks _, by rw [List.map_map]; rfl, hsnapshot, ?_, ?_⟩
    · intro hk
      apply hsnapshot.mutatingScripts_le
      rw [List.length_map]
      exact Nat.lt_of_le_of_lt (List.length_take_le k _) hk
    · intro hk
      have hall : (steps.flatMap Step.tasks).length ≤ k := by
        rw [← List.length_map Task.result, hperm.length_eq, hlen]
        exact hk
      rw [List.take_of_length_le hall]
  · intro t j g c what hg hc hfault
    exact Task.run_of_breakdown hg hc hfault

/-- A request alone, then a batch whose second request is answered first; and a request whose query is
parsed before the grammar breaks down. -/
theorem session_stats_three :
    (∃ j results,
      (session .empty [.single ⟨Analyzer.logging, ⟨0, 0⟩, ⟨.ascii "a", .ascii "kustokql", []⟩⟩,
        .batch Analyzer.logging (fun _ => ⟨0, 0⟩) Analyzer.twoRequests ⟨[1, 0], by decide⟩]).outcome =
          .done (j, results) ∧
      results.map (·.requestId) = [.ascii "a", .ascii "k", .ascii "s"] ∧
      j.stats.scripts + j.stats.rejectedScripts = 3 ∧
      j.stats.mutatingScripts ≤ j.stats.scripts) ∧
    ∃ after e,
      ((Analyzer.limited 0 (some Analyzer.scopelessGrammar)).analyze ⟨⟨7, 9, 2, 1⟩, []⟩ ⟨0, 0⟩
        ⟨.ascii "q", .ascii "mysql", .ascii "SELECT 1"⟩).outcome =
          .done (after, ⟨.ascii "q", .error e⟩) ∧
      after.stats = ⟨7, 9, 2, 2⟩ := by
  have hlogging (r : Request) : Analyzer.logging.Ends r := by
    apply Analyzer.ends_of_settles
    intro g hg
    cases hg
  obtain ⟨⟨j, results, hdone, hids, -, hsum, hsnapshot⟩, hbreakdown⟩ := session_stats []
    [.single ⟨Analyzer.logging, ⟨0, 0⟩, ⟨.ascii "a", .ascii "kustokql", []⟩⟩,
      .batch Analyzer.logging (fun _ => ⟨0, 0⟩) Analyzer.twoRequests ⟨[1, 0], by decide⟩]
    (by
      intro step hstep
      rcases List.mem_pair.mp hstep with rfl | rfl
      · exact hlogging _
      · exact fun r _ => hlogging r)
  constructor
  · refine ⟨j, results, hdone, hids, hsum, ?_⟩
    obtain ⟨snapshot, earlier, -, -, -, hle, heq⟩ := hsnapshot 3
    rw [← heq (Nat.le_refl 3)]
    exact hle (by decide)
  · exact hbreakdown ⟨Analyzer.limited 0 (some Analyzer.scopelessGrammar), ⟨0, 0⟩,
      ⟨.ascii "q", .ascii "mysql", .ascii "SELECT 1"⟩⟩ ⟨⟨7, 9, 2, 1⟩, []⟩ _
      (.resolveScopes Sql.bareSelect) _ rfl (List.mem_cons_of_mem _ List.mem_cons_self) rfl

end ScriptVet
