import ScriptVet.Analyzer.Batch

namespace ScriptVet

/-- A request, the analyser that it goes to, and what the clock shows when it is done. -/
structure Task where
  analyzer : Analyzer
  clock : Reading
  request : Request

def Task.run (t : Task) (j : Journal) : Run (Journal × Result) :=
  t.analyzer.analyze j t.clock t.request

/-- An order in which the `n` tasks of a batch are taken up. -/
structure Schedule (n : Nat) where
  order : List Nat
  complete : order.Perm (List.range n)

def Schedule.inTurn (n : Nat) : Schedule n := ⟨List.range n, .refl _⟩

namespace Analyzer

/-- A batch with the tasks in the order of the schedule. -/
def batchBy (a : Analyzer) (clock : Nat → Reading) (requests : List Request)
    (schedule : Schedule requests.length) (j : Journal) : Run (Journal × List Result) :=
  if requests = [] then pure (j, [])
  else do
    let done ← a.runTasks clock requests schedule.order j
    Run.note .debug (batchDone requests.length a.limits.workerThreads.toNat)
    return done

theorem analyzeBatch_eq (a : Analyzer) (clock : Nat → Reading) (requests : List Request)
    (j : Journal) :
    a.analyzeBatch clock requests j = a.batchBy clock requests (.inTurn requests.length) j := rfl

/-- The tasks of a batch that stand at the given places. -/
def tasks (a : Analyzer) (clock : Nat → Reading) (requests : List Request) (order : List Nat) :
    List Task :=
  order.filterMap fun i => requests[i]?.map fun r => ⟨a, clock i, r⟩

end Analyzer

/-- What is called: an analyser with one request, or an analyser with a batch. The grammar may be
another one at every step. -/
inductive Step where
  | single (t : Task)
  | batch (a : Analyzer) (clock : Nat → Reading) (requests : List Request)
      (schedule : Schedule requests.length)

namespace Step

def run (j : Journal) : Step → Run (Journal × List Result)
  | single t => do
    let (journal, result) ← t.run j
    return (journal, [result])
  | batch a clock requests schedule => a.batchBy clock requests schedule j

def requests : Step → List Request
  | single t => [t.request]
  | batch _ _ requests _ => requests

/-- The tasks of a step in the order in which they are done. -/
def tasks : Step → List Task
  | single t => [t]
  | batch a clock requests schedule => a.tasks clock requests schedule.order

/-- Goes on with the step, after the results that there are. -/
def advance (state : Journal × List Result) (step : Step) : Run (Journal × List Result) := do
  let (journal, results) ← step.run state.1
  return (journal, state.2 ++ results)

end Step

/-- The results of all steps, one step after another. -/
def session (j : Journal) (steps : List Step) : Run (Journal × List Result) :=
  steps.foldlM Step.advance (j, [])

end ScriptVet
