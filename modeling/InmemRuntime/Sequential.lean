import InmemRuntime.JointStatus
import InmemRuntime.ThreadRecords

namespace InmemRuntime.Sequential
open OrderedDict ThreadTtl RuntimeStore Serving ThreadOps RunOps JointStatus

variable {J : Type}

-- What a cancellation is told on its way: the handler's filters, which runs
-- have subscribers, which of the gathered deletions go through, and the time.
structure CancelAnswers (J : Type) where
  filters : Filters J
  queues : Option String → String → Bool
  deleted : Option String → String → Bool
  now : Int

-- A run without an id is never deleted: `Runs.delete` draws one and misses it.
def CancelAnswers.removes (answers : CancelAnswers J) (runId : Option String) (threadId : String) : Bool :=
  runId.isSome && answers.deleted runId threadId

-- Calls that run from their start to their end with nothing in between. An
-- operation that a handler or an external failure ends early changes nothing.
inductive Operation (J : Type) where
  | put (call : PutCall J) (filters : Filters J) (now : Int)
  | putRun (call : PutRunCall J) (filters : Filters J) (wake : Wake J)
  | next (limit : Nat) (now : Int)
  | setStatus (call : StatusCall J) (now : Int)
  | joint (call : JointCall J) (now : Int) (deleted : Bool)
  | cancel (call : CancelCall) (answers : CancelAnswers J)
  | deleteRun (runId threadId : String)

-- The whole loop of `Runs.next`; each claimed run is taken by its consumer.
def claimRuns (s : Store J) : List Nat → Store J
  | [] => s
  | ref :: rest =>
    match scanPending s [ref] with
    | .claimed ref _ => claimRuns (claimRun s ref) rest
    | _ => claimRuns s rest

-- Whether the loop of `Runs.cancel` interrupts a run rather than deletes it.
def interrupts (call : CancelCall) (queues : Option String → String → Bool) (run : Run) : Bool :=
  run.status.active && (queues run.runId run.threadId || call.action != .rollback)

-- The runs that are deleted rather than interrupted.
def deletes (call : CancelCall) (queues : Option String → String → Bool) (run : Run) : Bool :=
  run.status.active && !interrupts call queues run

-- The loop of `Runs.cancel`, with the deletions that it gathers.
def cancelRuns (call : CancelCall) (answers : CancelAnswers J) (s : Store J) :
    List Nat → Store J × List (Option String × String)
  | [] => (s,[])
  | ref :: rest =>
    if interrupts call answers.queues (s.run ref) then cancelRuns call answers (interruptRun s answers.now ref) rest
    else
      let later := cancelRuns call answers s rest
      if deletes call answers.queues (s.run ref) then (later.1,((s.run ref).runId,(s.run ref).threadId) :: later.2) else later

def removeRuns (deleted : Option String → String → Bool) (s : Store J) : List (Option String × String) → Store J
  | [] => s
  | (runId,threadId) :: rest =>
    removeRuns deleted (if deleted runId threadId then removeRun s runId threadId else s) rest

def cancel (s : Store J) (call : CancelCall) (answers : CancelAnswers J) : Store J :=
  match validateCancel call with
  | some _ => s
  | none =>
    let looped := cancelRuns call answers s (candidateRuns s call answers.filters)
    removeRuns answers.removes looped.1 looped.2

variable (text : String → J)

-- `Runs.put` with its assistant; a thread that it creates is logged first.
def putRunWhole (s : Store J) (call : PutRunCall J) (filters : Filters J) (w : Wake J) : Store J :=
  match s.assistants.find? fun assistant => assistant.assistantId == call.assistantId with
  | none => s
  | some assistant =>
    match putRun text w (.start s) call assistant filters with
    | (s,.suspended task) => (stepPutRun text w s task).1.store
    | (s,_) => s.store

-- `deleted`: whether the rollback's `Runs.delete` saw the run.
def setJointStatus (s : Store J) (call : JointCall J) (now : Int) (deleted : Bool) : Store J :=
  match s.findThread call.threadId with
  | none => s
  | some thread =>
    match s.findRun (some call.runId) call.threadId with
    | none => s
    | some run =>
      match call.runEnd with
      | .status status => finishStatus text s now call thread run status
      | .rollback =>
        finishRollback text (if deleted then removeRun s (some call.runId) call.threadId else s) now call thread

def perform : Operation J → Store J → Store J
  | .put call filters now,s => (putThread (.start s) now call filters).1.store
  | .putRun call filters wake,s => putRunWhole text s call filters wake
  | .next limit now,s => claimRuns s ((pendingRuns s now).take limit)
  | .setStatus call now,s =>
    match ThreadOps.setStatus s now call with
    | .ok s => s
    | .error _ => s
  | .joint call now deleted,s => setJointStatus text s call now deleted
  | .cancel call answers,s => cancel s call answers
  | .deleteRun runId threadId,s => removeRun s (some runId) threadId

-- The operations of a history with the store that each of them met.
inductive History (start : Store J) : List (Store J × Operation J) → Store J → Prop where
  | nil : History start [] start
  | step (prior : History start taken s) (op : Operation J) : History start (taken ++ [(s,op)]) (perform text op s)

end InmemRuntime.Sequential
