import ScriptVet.Analyzer

namespace ScriptVet

/-- What stands in a slot before its task has run. -/
def Result.blank : Result := ⟨[], .ok ⟨[], 0, [], false, ∅, []⟩⟩

namespace Analyzer

/-- Runs the task of slot `i`, at the time that its clock shows. -/
def runTask (a : Analyzer) (clock : Nat → Reading) (requests : List Request)
    (state : Journal × List Result) (i : Nat) : Run (Journal × List Result) :=
  match requests[i]? with
  | none => pure state
  | some r => do
    let (journal, result) ← a.analyze state.1 (clock i) r
    return (journal, state.2.set i result)

/-- Runs the tasks of the given slots in the given order. -/
def runTasks (a : Analyzer) (clock : Nat → Reading) (requests : List Request) (order : List Nat)
    (j : Journal) : Run (Journal × List Result) :=
  order.foldlM (a.runTask clock requests) (j, requests.map fun _ => .blank)

def batchDone (requests workers : Nat) : Text :=
  .ascii "batch_analyzer: analyzed " ++ .decimal requests ++ .ascii " requests with " ++
    .decimal workers ++ .ascii " workers"

/-- The results of a batch, in the order of its requests. -/
def analyzeBatch (a : Analyzer) (clock : Nat → Reading) (requests : List Request) (j : Journal) :
    Run (Journal × List Result) :=
  if requests = [] then pure (j, [])
  else do
    let done ← a.runTasks clock requests (List.range requests.length) j
    Run.note .debug (batchDone requests.length a.limits.workerThreads.toNat)
    return done

end Analyzer

end ScriptVet
