import InmemRuntime.ThreadOps
import Mathlib.Data.List.Sort

namespace InmemRuntime.RunOps
open OrderedDict ThreadTtl RuntimeStore Serving

variable {J : Type}

section putting

inductive IfNotExists where
  | create
  | reject
deriving DecidableEq,Repr

structure PutRunCall (J : Type) where
  assistantId : String
  threadId : Option String
  runId : Option String
  status : RunStatus
  metadata : Metadata J
  configMetadata : Metadata J
  preventInsertIfInflight : Bool
  ifNotExists : IfNotExists
  afterSeconds : Int

inductive PutRunTask (J : Type) where
  | called (call : PutRunCall J)
  | authorizing (call : PutRunCall J) (assistant : Assistant J)
  | authorizingAssistant (call : PutRunCall J) (assistant : Assistant J) (filters : Filters J)
  | waiting (call : PutRunCall J) (assistant : Assistant J) (filters : Filters J)
  | logging (call : PutRunCall J) (assistant : Assistant J) (threadId : String) (createdAt : Int)

variable (text : String → J)

def owner (assistant : Assistant J) : List (String × J) :=
  [("graph_id",text assistant.graphId),("assistant_id",text assistant.assistantId)]

def newThread (call : PutRunCall J) (assistant : Assistant J) (threadId : String) (createdAt : Int) : Thread J :=
  let metadata := ((Dict.empty.update (owner text assistant)).update call.configMetadata.entries).update call.metadata.entries
  ⟨threadId,.busy,metadata,createdAt,createdAt,none,none,none,none⟩

-- An idle thread is marked busy in place and takes over the assistant.
def markBusy (now : Int) (assistant : Assistant J) (thread : Thread J) : Thread J :=
  if thread.status = .busy then thread
  else {thread with status := .busy, metadata := thread.metadata.update (owner text assistant), updatedAt := now}

theorem markBusy_threadId (now : Int) (assistant : Assistant J) (thread : Thread J) :
    (markBusy text now assistant thread).threadId = thread.threadId := by
  unfold markBusy
  split <;> rfl

def inflight (s : Store J) (threadId : String) : List Nat :=
  s.boundRuns.filter fun ref => (s.run ref).threadId == threadId && (s.run ref).status.active

-- From the inflight check to the end: the new run, and the inflight ones.
def insertRun (s : Store J) (now : Int) (call : PutRunCall J) (threadId : String) : Store J × List Nat :=
  let running := inflight s threadId
  if call.preventInsertIfInflight && !running.isEmpty then (s,running)
  else
    let run : Run := ⟨call.runId,threadId,call.assistantId,call.status,now + call.afterSeconds * 1000000,now⟩
    (s.appendRun run,s.runs.next :: running)

-- The section after the maintenance wait, up to the next await or the end.
def putRun (w : Wake J) (s : Server J) (call : PutRunCall J) (assistant : Assistant J) (filters : Filters J) :
    Server J × Outcome (PutRunTask J) (List Nat) :=
  match call.threadId with
  | none => (s,.suspended (.logging call assistant w.newId w.now))
  | some threadId =>
    match s.store.findThread threadId with
    | some ref =>
      if !passes filters (s.store.thread ref).metadata then (s,.returned [])
      else
        let result := insertRun (s.store.updateThread ref (markBusy text w.now assistant)) w.now call threadId
        (s.withStore result.1,.returned result.2)
    | none =>
      match call.ifNotExists with
      | .create => (s,.suspended (.logging call assistant threadId w.now))
      | .reject => (s,.returned [])

def gatedPutRun (w : Wake J) (s : Server J) (call : PutRunCall J) (assistant : Assistant J) (filters : Filters J) :
    Server J × Outcome (PutRunTask J) (List Nat) :=
  match call.threadId with
  | none => putRun text w s call assistant filters
  | some threadId => gated s threadId (.waiting call assistant filters) (putRun text w s call assistant filters)

-- `Runs.put`. Creating a thread logs that first, and the log line may suspend.
def stepPutRun (w : Wake J) (s : Server J) : PutRunTask J → Server J × Outcome (PutRunTask J) (List Nat)
  | .called call =>
    match s.store.assistants.find? fun assistant => assistant.assistantId == call.assistantId with
    | none => (s,.returned [])
    | some assistant => (s,.suspended (.authorizing call assistant))
  | .authorizing call assistant => authorized w s fun filters =>
      if assistant.system then gatedPutRun text w s call assistant filters
      else (s,.suspended (.authorizingAssistant call assistant filters))
  | .authorizingAssistant call assistant filters => authorized w s fun assistantFilters =>
      if !passes assistantFilters assistant.metadata then (s,.returned [])
      else gatedPutRun text w s call assistant filters
  | .waiting call assistant filters => gatedPutRun text w s call assistant filters
  | .logging call assistant threadId createdAt =>
      let result := insertRun (s.store.appendThread (newThread text call assistant threadId createdAt)) w.now call threadId
      (s.withStore result.1,.returned result.2)

end putting

section claiming

inductive NextTask where
  | called (limit : Nat)
  | sleeping (limit : Nat) (now : Int)
  | locking (limit : Nat) (now : Int)
  | warning (rest : List Nat)
  | yielded (rest : List Nat)

-- Due pending runs, the oldest first; equal ones stay in store order.
def pendingRuns (s : Store J) (now : Int) : List Nat :=
  (s.boundRuns.filter fun ref => (s.run ref).status == .pending && decide ((s.run ref).createdAt < now)).insertionSort
    fun a b => (s.run a).createdAt ≤ (s.run b).createdAt

def runningOn (s : Store J) (threadId : String) : Bool :=
  s.boundRuns.any fun ref => (s.run ref).threadId == threadId && (s.run ref).status == .running

inductive Scan where
  | finished
  | missing (rest : List Nat)
  | claimed (ref : Nat) (rest : List Nat)

-- The loop over the selected runs, as far as the next run that is not skipped.
def scanPending (s : Store J) : List Nat → Scan
  | [] => .finished
  | ref :: rest =>
    if (s.run ref).status ≠ .pending then scanPending s rest
    else match s.findThread (s.run ref).threadId with
      | none => .missing rest
      | some _ => if runningOn s (s.run ref).threadId then scanPending s rest else .claimed ref rest

def claimRun (s : Store J) (ref : Nat) : Store J :=
  let runId := (s.run ref).runId
  {(s.updateRun ref fun run => {run with status := .running}) with
    attempts := fun key => if key = runId then s.attempts key + 1 else s.attempts key}

@[simp] theorem run_claimRun_self (s : Store J) (ref : Nat) :
    (claimRun s ref).run ref = {s.run ref with status := .running} := ObjectHeap.Heap.read_write_self _ _ _

theorem run_claimRun_other {s : Store J} {ref other : Nat} (apart : other ≠ ref) :
    (claimRun s ref).run other = s.run other := ObjectHeap.Heap.read_write_other apart

-- What the generator does next; a claimed run is handed out with its attempt.
def continueNext (s : Server J) (rest : List Nat) : Server J × Outcome NextTask Unit × Option (Nat × Nat) :=
  match scanPending s.store rest with
  | .finished => ({s with runLock := false},.returned (),none)
  | .missing rest => (s,.suspended (.warning rest),none)
  | .claimed ref rest =>
    let store := claimRun s.store ref
    (s.withStore store,.suspended (.yielded rest),some (ref,store.attempts (store.run ref).runId))

def lockNext (s : Server J) (limit : Nat) (now : Int) : Server J × Outcome NextTask Unit × Option (Nat × Nat) :=
  if s.runLock then (s,.suspended (.locking limit now),none)
  else continueNext {s with runLock := true} ((pendingRuns s.store now).take limit)

-- `Runs.next`. Its clock is read before it sleeps. A consumer that closes the
-- generator at a yield leaves the lock.
def stepNext (w : Wake J) (s : Server J) : NextTask → Server J × Outcome NextTask Unit × Option (Nat × Nat)
  | .called limit => (s,.suspended (.sleeping limit w.now),none)
  | .sleeping limit now | .locking limit now => lockNext s limit now
  | .warning rest => continueNext s rest
  | .yielded rest =>
    match w.failure with
    | some fault => ({s with runLock := false},.raised fault,none)
    | none => continueNext s rest

end claiming

section deleting

inductive DeleteRunTask where
  | called (runId : Option String) (threadId : String)
  | authorizing (runId : Option String) (threadId : String)
  | checkpoints (runId : Option String) (threadId : String)
  | streams (runId : Option String) (threadId : String)

def removeRun (s : Store J) (runId : Option String) (threadId : String) : Store J :=
  {s with boundRuns := s.boundRuns.filter fun ref => !s.isRun runId threadId ref}

-- `filters` are checked only when there are any; without the thread they fail.
def visible (s : Store J) (threadId : String) (filters : Filters J) : Bool :=
  match filters with
  | none => true
  | some check =>
    match s.findThread threadId with
    | none => false
    | some ref => check (s.thread ref).metadata

-- `Runs.delete`: `none` is the empty generator. An id that is missing is drawn.
def stepDeleteRun (w : Wake J) (s : Server J) :
    DeleteRunTask → Server J × Outcome DeleteRunTask (Option (Option String))
  | .called runId threadId => (s,.suspended (.authorizing (some (runId.getD w.newId)) threadId))
  | .authorizing runId threadId => authorized w s fun filters =>
      if !visible s.store threadId filters then (s,.returned none)
      else match s.store.findRun runId threadId with
        | none => (s,.raised (notFound "Run not found"))
        | some _ => (s,.suspended (.checkpoints runId threadId))
  | .checkpoints runId threadId => external w s (s,.suspended (.streams runId threadId))
  | .streams runId threadId => external w s (s.withStore (removeRun s.store runId threadId),.returned (some runId))

def DeleteRunTask.key : DeleteRunTask → Option String × String
  | .called runId threadId | .authorizing runId threadId | .checkpoints runId threadId | .streams runId threadId => (runId,threadId)

-- A deletion of a run that has an id goes on with it.
theorem stepDeleteRun_key {w : Wake J} {s : Server J} {task again : DeleteRunTask} (named : task.key.1.isSome) (suspends : (stepDeleteRun w s task).2 = .suspended again) :
    again.key = task.key := by
  cases task with
  | called runId threadId =>
    obtain rfl := Outcome.suspended.inj suspends
    obtain ⟨id,rfl⟩ := Option.isSome_iff_exists.mp named
    rfl
  | authorizing runId threadId =>
    simp only [stepDeleteRun,authorized] at suspends
    split at suspends
    · cases suspends
    · split at suspends
      · cases suspends
      · split at suspends
        · cases suspends
        · obtain rfl := Outcome.suspended.inj suspends
          rfl
  | checkpoints runId threadId =>
    simp only [stepDeleteRun,external] at suspends
    split at suspends
    · cases suspends
    · obtain rfl := Outcome.suspended.inj suspends
      rfl
  | streams runId threadId =>
    simp only [stepDeleteRun,external] at suspends
    split at suspends <;> cases suspends

end deleting

section cancelling

inductive Action where
  | interrupt
  | rollback
deriving DecidableEq,Repr

inductive StatusFilter where
  | pending
  | running
  | all
deriving DecidableEq,Repr

structure CancelCall where
  runIds : Option (List String)
  action : Action
  threadId : Option String
  status : Option StatusFilter
  assistantId : Option String
deriving DecidableEq,Repr

-- `deletes` are the coroutines of `Runs.delete` gathered so far.
inductive CancelTask where
  | called (call : CancelCall)
  | authorizing (call : CancelCall)
  | looping (call : CancelCall) (rest : List Nat) (deletes : List (Option String × String)) (cancelable : Bool)

def validateCancel (call : CancelCall) : Option Fault :=
  match call.assistantId,call.status with
  | some _,_ =>
    if call.threadId.isSome ∨ call.runIds.isSome ∨ call.status.isSome then
      some (unprocessable "Cannot specify 'thread_id', 'run_ids', or 'status' when using 'assistant_id'")
    else none
  | none,some _ =>
    if call.threadId.isSome ∨ call.runIds.isSome then
      some (unprocessable "Cannot specify 'thread_id' or 'run_ids' when using 'status'")
    else none
  | none,none =>
    if call.threadId.isNone ∨ call.runIds.isNone then
      some (unprocessable "Must provide either a status, an assistant_id, or both 'thread_id' and 'run_ids'")
    else none

def StatusFilter.admits : StatusFilter → RunStatus → Bool
  | .pending,.pending => true
  | .running,.running => true
  | .all,status => status.active
  | _,_ => false

def isRunMatch (call : CancelCall) (run : Run) : Bool :=
  match call.assistantId,call.status with
  | some assistantId,_ => run.assistantId == assistantId && run.status.active
  | none,some filter => filter.admits run.status
  | none,none =>
    (some run.threadId == call.threadId) && (call.runIds.getD []).any fun runId => some runId == run.runId

def candidateRuns (s : Store J) (call : CancelCall) (filters : Filters J) : List Nat :=
  let runs := s.boundRuns.filter fun ref => isRunMatch call (s.run ref)
  match filters with
  | none => runs
  | some _ =>
    match call.threadId with
    | some threadId => if visible s threadId filters then runs else []
    | none => runs.filter fun ref => visible s (s.run ref).threadId filters

-- One run with subscribers, or any run under `interrupt`. The thread of a
-- pending run is set to idle without looking at its other runs.
def interruptRun (s : Store J) (now : Int) (ref : Nat) : Store J :=
  let marked :=
    if (s.run ref).status = .pending then
      match s.findThread (s.run ref).threadId with
      | some thread => s.updateThread thread fun thread => {thread with status := .idle, updatedAt := now}
      | none => s
    else s
  marked.updateRun ref fun run => {run with status := .interrupted, updatedAt := now}

theorem run_interruptRun_self (s : Store J) (now : Int) (ref : Nat) :
    (interruptRun s now ref).run ref = {s.run ref with status := .interrupted, updatedAt := now} := by
  unfold interruptRun
  dsimp only
  rw [Store.run_updateRun_self]
  split
  · split <;> rfl
  · rfl

theorem run_interruptRun_other {s : Store J} {now : Int} {ref other : Nat} (apart : other ≠ ref) :
    (interruptRun s now ref).run other = s.run other := by
  unfold interruptRun
  dsimp only
  rw [Store.run_updateRun_other apart]
  split
  · split <;> rfl
  · rfl

theorem boundRuns_interruptRun (s : Store J) (now : Int) (ref : Nat) : (interruptRun s now ref).boundRuns = s.boundRuns := by
  unfold interruptRun
  dsimp only
  split
  · split <;> rfl
  · rfl

def noRuns : Fault := notFound "No runs found to cancel."

def noCancelable : Fault := notFound ("No matching runs to cancel. Please verify the thread ID and run IDs are " ++
  "correct, and the runs haven't been deleted or completed.")

-- The loop up to its next log line. The gathered deletes start when it is over.
def cancelLoop (w : Wake J) (s : Server J) (call : CancelCall) :
    List Nat → List (Option String × String) → Bool → Server J × Outcome CancelTask (List (Option String × String))
  | [],deletes,cancelable =>
    if cancelable then (s,.returned deletes)
    else if call.assistantId.isSome then (s,.returned []) else (s,.raised noCancelable)
  | ref :: rest,deletes,cancelable =>
    let run := s.store.run ref
    if run.status.active then
      if w.queues run.runId run.threadId || call.action ≠ .rollback then
        cancelLoop w (s.withStore (interruptRun s.store w.now ref)) call rest deletes true
      else (s,.suspended (.looping call rest (deletes ++ [(run.runId,run.threadId)]) true))
    else (s,.suspended (.looping call rest deletes cancelable))

-- `Runs.cancel`; what it returns are the deletes to be awaited together.
def stepCancel (w : Wake J) (s : Server J) :
    CancelTask → Server J × Outcome CancelTask (List (Option String × String))
  | .called call =>
    match validateCancel call with
    | some fault => (s,.raised fault)
    | none => (s,.suspended (.authorizing call))
  | .authorizing call => authorized w s fun filters =>
      match candidateRuns s.store call filters with
      | [] => if call.assistantId.isSome then (s,.returned []) else (s,.raised noRuns)
      | ref :: rest => cancelLoop w s call (ref :: rest) [] false
  | .looping call rest deletes cancelable => cancelLoop w s call rest deletes cancelable

end cancelling

end InmemRuntime.RunOps
