import ScriptVet.Analyzer.Session
import ScriptVet.Proofs.Analyzer.Outcome
import Mathlib.Data.List.Perm.Basic

namespace ScriptVet

namespace Analyzer

variable {a : Analyzer} {r : Request}

/-- The request is answered in the end. -/
def Ends (a : Analyzer) (r : Request) : Prop := (a.verdict r).outcome ≠ .unfinished

/-- The answer to a request that ends. -/
def answer (a : Analyzer) (r : Request) : Except Rejection Report :=
  match (a.verdict r).outcome with
  | .done answer => answer
  | _ => .error ⟨.noGrammar, []⟩

def result (a : Analyzer) (r : Request) : Result := ⟨r.id, a.answer r⟩

/-- What the log keeps of an answered request, without the times. -/
def events (a : Analyzer) (r : Request) : List Audit.Entry :=
  a.log.toList.flatMap (·.kept (a.entry ⟨0, 0⟩ r (a.answer r)))

theorem verdict_of_ends (h : a.Ends r) : (a.verdict r).outcome = .done (a.answer r) := by
  rw [Analyzer.answer]
  cases hv : (a.verdict r).outcome with
  | done answer => rfl
  | broken what => exact absurd hv (verdict_ne_broken a r what)
  | unfinished => exact absurd hv h

/-- Only statements that explain others without end keep a request from its answer. -/
theorem ends_of_settles (h : ∀ g, a.grammar = some g → g.Settles r) : a.Ends r := by
  by_cases hsize : a.Oversized r
  · simp [Ends, verdict_oversized hsize, Run.pure_eq]
  · have hreport : (a.report r).outcome ≠ .unfinished := by
      by_cases he : r.engine = Kql.engine
      · obtain ⟨report, hr⟩ := report_kql a he
        simp [hr]
      · cases hg : a.grammar with
        | none => simp [report_none hg he]
        | some g => exact report_ends hg he (h g hg)
    cases hr : (a.report r).outcome with
    | done answer => simp [Ends, verdict_done hsize hr, hr]
    | broken what => simp [Ends, verdict_broken hsize hr]
    | unfinished => exact absurd hr hreport

theorem analyze_of_ends (h : a.Ends r) (j : Journal) (clock : Reading) :
    (a.analyze j clock r).outcome = .done (a.enter j clock r (a.answer r), a.result r) :=
  answers_iff.mpr (verdict_of_ends h)

/-- Two answers may be counted in either order. -/
theorem count_comm (s : Stats) (x y : Except Rejection Report) :
    count (count s x) y = count (count s y) x := by
  cases x with
  | error e => cases y <;> rfl
  | ok report =>
    cases y with
    | error e => rfl
    | ok other =>
      simp only [count, Stats.accept, Stats.mk.injEq, true_and, and_true]
      refine ⟨?_, ?_⟩
      · rw [UInt64.add_assoc, UInt64.add_comm report.statementCount.toUInt64, ← UInt64.add_assoc]
      · cases report.mutating <;> cases other.mutating <;> rfl

theorem timeless_entry (clock : Reading) (answer : Except Rejection Report) :
    (a.entry clock r answer).timeless = a.entry ⟨0, 0⟩ r answer := by
  cases answer <;> rfl

theorem level_entry (clock : Reading) (answer : Except Rejection Report) :
    (a.entry clock r answer).level = (a.entry ⟨0, 0⟩ r answer).level := by
  cases answer <;> rfl

end Analyzer

namespace Task

variable {t : Task}

def Ends (t : Task) : Prop := t.analyzer.Ends t.request

def answer (t : Task) : Except Rejection Report := t.analyzer.answer t.request

def result (t : Task) : Result := t.analyzer.result t.request

def enter (t : Task) (j : Journal) : Journal := t.analyzer.enter j t.clock t.request t.answer

/-- What the log keeps of a task. -/
def entries (t : Task) : List Audit.Entry :=
  t.analyzer.log.toList.flatMap (·.kept (t.analyzer.entry t.clock t.request t.answer))

theorem run_of_ends (h : t.Ends) (j : Journal) : (t.run j).outcome = .done (t.enter j, t.result) :=
  Analyzer.analyze_of_ends h j t.clock

/-- The times do not decide whether an entry is kept. -/
theorem map_timeless_entries : t.entries.map Audit.Entry.timeless = t.analyzer.events t.request := by
  rw [entries, Analyzer.events, List.map_flatMap]
  refine List.flatMap_congr fun log _ => ?_
  have hlevel := Analyzer.level_entry (a := t.analyzer) (r := t.request) t.clock t.answer
  have htimeless := Analyzer.timeless_entry (a := t.analyzer) (r := t.request) t.clock t.answer
  rw [answer] at hlevel htimeless
  rw [answer, Audit.Log.kept, Audit.Log.kept, hlevel]
  split
  · rw [List.map_singleton, htimeless]
  · rfl

end Task

namespace Journal

/-- The journal when the tasks are done, one after another. -/
def after (j : Journal) (ts : List Task) : Journal := ts.foldl (fun j t => t.enter j) j

theorem after_cons (j : Journal) (t : Task) (ts : List Task) :
    j.after (t :: ts) = (t.enter j).after ts := rfl

theorem after_append (j : Journal) (ts us : List Task) : j.after (ts ++ us) = (j.after ts).after us :=
  List.foldl_append

theorem stats_after (j : Journal) (ts : List Task) :
    (j.after ts).stats = (ts.map Task.answer).foldl Analyzer.count j.stats := by
  induction ts generalizing j with
  | nil => rfl
  | cons t ts ih =>
    rw [after_cons, ih]
    rfl

theorem trail_after (j : Journal) (ts : List Task) :
    (j.after ts).trail = j.trail ++ ts.flatMap Task.entries := by
  induction ts generalizing j with
  | nil => simp [after]
  | cons t ts ih =>
    have hone : (t.enter j).trail = j.trail ++ t.entries := rfl
    rw [after_cons, ih, hone, List.append_assoc, List.flatMap_cons]

end Journal

theorem Schedule.mem_order {n : Nat} (schedule : Schedule n) {i : Nat} :
    i ∈ schedule.order ↔ i < n := by
  rw [schedule.complete.mem_iff, List.mem_range]

namespace Analyzer

variable {a : Analyzer} {requests : List Request} {clock : Nat → Reading}

theorem filterMap_range_getElem? {α β : Type} (g : α → β) (xs : List α) :
    (List.range xs.length).filterMap (fun i => xs[i]?.map g) = xs.map g := by
  induction xs with
  | nil => rfl
  | cons x xs ih => simp [List.range_succ_eq_map, List.filterMap_map, ih]

/-- Every request of the batch has one task. -/
theorem map_tasks_perm {β : Type} {f : Task → β} {g : Request → β}
    (h : ∀ clock r, f ⟨a, clock, r⟩ = g r) (schedule : Schedule requests.length) :
    ((a.tasks clock requests schedule.order).map f).Perm (requests.map g) := by
  have hmap : (a.tasks clock requests schedule.order).map f =
      schedule.order.filterMap fun i => requests[i]?.map g := by
    simp [tasks, List.map_filterMap, Option.map_map, Function.comp_def, h]
  rw [hmap, ← filterMap_range_getElem?]
  exact schedule.complete.filterMap _

section Ends

variable (ends : ∀ r ∈ requests, a.Ends r) (clock : Nat → Reading) (j : Journal)
include ends

theorem runTask_of_ends (slots : List Result) {i : Nat} {r : Request} (hi : requests[i]? = some r) :
    (a.runTask clock requests (j, slots) i).outcome =
      .done (Task.enter ⟨a, clock i, r⟩ j, slots.set i (a.result r)) := by
  have hdone := analyze_of_ends (ends r (List.mem_of_getElem? hi)) j (clock i)
  simp only [runTask, hi]
  exact Run.bind_eq_done.mpr ⟨_, hdone, rfl⟩

/-- When some tasks are done, their slots hold the results of their requests, and the other slots are
as before. -/
theorem foldlM_runTask {order : List Nat} (horder : ∀ i ∈ order, i < requests.length)
    {slots : List Result} (hlen : slots.length = requests.length) :
    ∃ filled,
      (order.foldlM (a.runTask clock requests) (j, slots)).outcome =
        .done (j.after (a.tasks clock requests order), filled) ∧
      ∀ i, filled[i]? = if i ∈ order then requests[i]?.map a.result else slots[i]? := by
  induction order generalizing j slots with
  | nil => exact ⟨slots, rfl, fun i => by simp⟩
  | cons k order ih =>
    have hlt : k < requests.length := horder k List.mem_cons_self
    have hk : requests[k]? = some requests[k] := List.getElem?_eq_getElem hlt
    have htask := runTask_of_ends ends clock j slots hk
    have hset : (slots.set k (a.result requests[k])).length = requests.length := by
      rw [List.length_set, hlen]
    obtain ⟨filled, hrun, hfilled⟩ := ih (Task.enter ⟨a, clock k, requests[k]⟩ j)
      (fun i hi => horder i (List.mem_cons_of_mem k hi)) hset
    refine ⟨filled, ?_, ?_⟩
    · rw [List.foldlM_cons, tasks, List.filterMap_cons, hk]
      exact Run.bind_eq_done.mpr ⟨_, htask, hrun⟩
    · intro i
      rw [hfilled i, List.getElem?_set]
      by_cases hi : i ∈ order
      · rw [if_pos hi, if_pos (List.mem_cons_of_mem k hi)]
      · by_cases hki : k = i
        · subst hki
          simp [hi, hlen, hlt]
        · simp [hi, hki, Ne.symm hki]

theorem batchBy_of_ends (schedule : Schedule requests.length) :
    (a.batchBy clock requests schedule j).outcome =
      .done (j.after (a.tasks clock requests schedule.order), requests.map a.result) := by
  have hblank : (requests.map fun _ => Result.blank).length = requests.length := List.length_map _
  obtain ⟨filled, hrun, hfilled⟩ := foldlM_runTask ends clock j
    (fun i hi => schedule.mem_order.mp hi) hblank
  have hresults : filled = requests.map a.result := by
    apply List.ext_getElem?
    intro i
    rw [hfilled i]
    by_cases hi : i < requests.length
    · rw [if_pos (schedule.mem_order.mpr hi), List.getElem?_map]
    · rw [if_neg fun h => hi (schedule.mem_order.mp h)]
      simp [Nat.le_of_not_lt hi]
  rw [batchBy]
  split
  · rename_i hnil
    have horder : schedule.order = [] := by
      apply List.eq_nil_iff_forall_not_mem.mpr
      intro i hi
      have hlt := schedule.mem_order.mp hi
      simp [hnil] at hlt
    rw [horder, hnil]
    rfl
  · rw [← hresults]
    exact Run.bind_eq_done.mpr ⟨_, hrun, rfl⟩

end Ends

/-- The order of the tasks does not show in the counters. -/
theorem stats_after_tasks (schedule : Schedule requests.length) (j : Journal) :
    (j.after (a.tasks clock requests schedule.order)).stats =
      (requests.map a.answer).foldl count j.stats := by
  have hperm : ((a.tasks clock requests schedule.order).map Task.answer).Perm
      (requests.map a.answer) := map_tasks_perm (fun _ _ => rfl) schedule
  rw [Journal.stats_after]
  exact hperm.foldl_eq' (fun x _ y _ s => count_comm s x y) j.stats

/-- Up to its order, the batch adds the same to every trail. -/
theorem trail_after_tasks (schedule : Schedule requests.length) (j : Journal) :
    ((j.after (a.tasks clock requests schedule.order)).trail.map Audit.Entry.timeless).Perm
      (j.trail.map Audit.Entry.timeless ++ requests.flatMap a.events) := by
  have hperm : ((a.tasks clock requests schedule.order).map
      fun t => t.entries.map Audit.Entry.timeless).Perm (requests.map a.events) :=
    map_tasks_perm (fun _ _ => Task.map_timeless_entries) schedule
  rw [Journal.trail_after, List.map_append, List.map_flatMap, List.flatMap_def, List.flatMap_def]
  exact hperm.flatten.append_left _

/-- The results of a batch are those of its requests, each submitted alone, and stand in their order;
they do not depend on the order of the tasks, nor on what was counted and recorded before. Neither do
the counters afterwards, and the recorded events but for their order and times. -/
theorem batch_order_independent (a : Analyzer) (j : Journal) (requests : List Request)
    (ends : ∀ r ∈ requests, a.Ends r) :
    ∃ results stats events,
      results.length = requests.length ∧
      (∀ (i : Nat) r, requests[i]? = some r → ∀ log clock, ∃ fresh result,
        (analyze ⟨a.limits, a.grammar, log⟩ .empty clock r).outcome = .done (fresh, result) ∧
        results[i]? = some result) ∧
      ∀ clock, a.analyzeBatch clock requests j = a.batchBy clock requests (.inTurn _) j ∧
        ∀ schedule, ∃ after,
          (a.batchBy clock requests schedule j).outcome = .done (after, results) ∧
          after.stats = stats ∧
          (after.trail.map Audit.Entry.timeless).Perm events := by
  refine ⟨requests.map a.result, (requests.map a.answer).foldl count j.stats,
    j.trail.map Audit.Entry.timeless ++ requests.flatMap a.events, List.length_map _, ?_, ?_⟩
  · intro i r hi log clock
    have hr : Ends ⟨a.limits, a.grammar, log⟩ r := ends r (List.mem_of_getElem? hi)
    refine ⟨_, _, analyze_of_ends hr .empty clock, ?_⟩
    rw [List.getElem?_map, hi]
    rfl
  · intro clock
    refine ⟨analyzeBatch_eq a clock requests j, ?_⟩
    intro schedule
    exact ⟨_, batchBy_of_ends ends clock j schedule, stats_after_tasks schedule j,
      trail_after_tasks schedule j⟩

/-- A KQL request, which is accepted, and a SQL request, for which there is no grammar. -/
def twoRequests : List Request :=
  [⟨.ascii "k", .ascii "kustokql", .ascii "a;b"⟩, ⟨.ascii "s", .ascii "mysql", .ascii "SELECT 1"⟩]

def logging : Analyzer := ⟨.default, none, some ⟨.info, .ascii "audit.log"⟩⟩

/-- The second request may be answered before the first. -/
theorem batch_order_independent_reversed :
    ∃ turned natural results,
      (logging.batchBy (fun _ => ⟨0, 0⟩) twoRequests ⟨[1, 0], by decide⟩ .empty).outcome =
        .done (turned, results) ∧
      (logging.analyzeBatch (fun _ => ⟨0, 0⟩) twoRequests .empty).outcome =
        .done (natural, results) ∧
      turned.stats = natural.stats ∧
      (turned.trail.map Audit.Entry.timeless).Perm (natural.trail.map Audit.Entry.timeless) ∧
      results[1]? = some ⟨.ascii "s", .error ⟨.noGrammar, .ascii "SELECT 1"⟩⟩ := by
  have ends : ∀ r ∈ twoRequests, logging.Ends r := by
    intro r _
    apply ends_of_settles
    intro g hg
    cases hg
  obtain ⟨results, stats, events, -, hlone, hbatch⟩ :=
    batch_order_independent logging .empty twoRequests ends
  obtain ⟨hnatural, hall⟩ := hbatch fun _ => ⟨0, 0⟩
  obtain ⟨turned, hturned, hstats, hevents⟩ := hall ⟨[1, 0], by decide⟩
  obtain ⟨natural, hinTurn, hstats', hevents'⟩ := hall (.inTurn twoRequests.length)
  refine ⟨turned, natural, results, hturned, ?_, hstats.trans hstats'.symm,
    hevents.trans hevents'.symm, ?_⟩
  · rw [hnatural, hinTurn]
  · obtain ⟨fresh, result, hone, hresult⟩ := hlone 1 _ rfl none ⟨0, 0⟩
    have hanswer : (logging.report ⟨.ascii "s", .ascii "mysql", .ascii "SELECT 1"⟩).outcome =
        .done (.error ⟨.noGrammar, .ascii "SELECT 1"⟩) := report_none rfl (by decide)
    have hverdict := verdict_of_report (fun hsize => absurd hsize.2 (by decide)) hanswer
    have hanalyze : Answers ⟨.default, none, none⟩ .empty ⟨0, 0⟩ _ _ := answers_iff.mpr hverdict
    rw [hresult, (Prod.mk.inj (Outcome.done.inj (hone.symm.trans hanalyze))).2]

end Analyzer

end ScriptVet
