import InmemRuntime.Server

namespace InmemRuntime.ThreadOps
open OrderedDict ThreadTtl RuntimeStore Serving

variable {J : Type}

section putting

inductive OnConflict where
  | raise
  | doNothing
deriving DecidableEq,Repr

structure PutCall (J : Type) where
  threadId : String
  metadata : Metadata J
  ifExists : OnConflict
  ttl : Option TtlConfig

inductive PutTask (J : Type) where
  | called (call : PutCall J)
  | authorizing (call : PutCall J)
  | waiting (call : PutCall J) (filters : Filters J)

def alreadyExists (threadId : String) : Fault := conflict ("Thread with ID " ++ threadId ++ " already exists")

def threadNotFound (threadId : String) : Fault := notFound ("Thread with ID " ++ threadId ++ " not found")

-- `if ttl is not None: _set_thread_ttl_override(...)`, after the list changed.
def overrideTtl {τ : Type} (s : Server J) (now : Int) (threadId : String) (ttl : Option TtlConfig) (value : List Nat) :
    Server J × Outcome τ (List Nat) :=
  match ttl with
  | none => (s,.returned value)
  | some ttl =>
    match setThreadTtlOverride now s.store.ttls threadId ttl with
    | .error fault => (s,.raised fault)
    | .ok ttls => (s.withStore {s.store with ttls},.returned value)

def createThread (s : Server J) (now : Int) (call : PutCall J) : Server J × Outcome (PutTask J) (List Nat) :=
  let thread : Thread J := ⟨call.threadId,.idle,call.metadata,now,now,some now,none,none,none⟩
  overrideTtl (s.withStore (s.store.appendThread thread)) now call.threadId call.ttl [s.store.threads.next]

def putThread (s : Server J) (now : Int) (call : PutCall J) (filters : Filters J) :
    Server J × Outcome (PutTask J) (List Nat) :=
  match s.store.findThread call.threadId with
  | none => createThread s now call
  | some ref =>
    if !passes filters (s.store.thread ref).metadata then (s,.raised (alreadyExists call.threadId))
    else match call.ifExists with
      | .raise => (s,.raised (alreadyExists call.threadId))
      | .doNothing => (s,.returned [ref])

-- `Threads.put`. The yielded records are given by reference.
def stepPut (w : Wake J) (s : Server J) : PutTask J → Server J × Outcome (PutTask J) (List Nat)
  | .called call => (s,.suspended (.authorizing call))
  | .authorizing call => authorized w s fun filters =>
      gated s call.threadId (.waiting call filters) (putThread s w.now call filters)
  | .waiting call filters => gated s call.threadId (.waiting call filters) (putThread s w.now call filters)

end putting

section patching

structure PatchCall (J : Type) where
  threadId : String
  metadata : Metadata J
  ttl : Option TtlConfig

-- `list` is the list object that `thread_list` was bound to when the call began.
inductive PatchTask (J : Type) where
  | called (call : PatchCall J)
  | authorizing (call : PatchCall J) (list : Nat)
  | waiting (call : PatchCall J) (list : Nat) (filters : Filters J)

-- `thread_list[thread_idx] = thread`, at the first index that fits.
def replaceFirst (fits : Nat → Bool) (new : Nat) : List Nat → List Nat
  | [] => []
  | ref :: rest => if fits ref then new :: rest else ref :: replaceFirst fits new rest

def patched (thread : Thread J) (metadata : Metadata J) (now : Int) : Thread J :=
  {thread with
    stateUpdatedAt := some (thread.stateUpdatedAt.getD thread.updatedAt)
    metadata := thread.metadata.update metadata.entries
    updatedAt := now}

def capturedThread (s : Store J) (list : Nat) (threadId : String) : Option Nat :=
  (s.threadLists.read list).find? (s.isThread threadId)

-- The record is a deep copy that takes the place of the old one.
def replaceThread (s : Store J) (list : Nat) (threadId : String) (thread : Thread J) : Store J :=
  (s.allocThread thread).writeList list
    (replaceFirst (s.isThread threadId) s.threads.next (s.threadLists.read list))

def patchThread (s : Server J) (now : Int) (call : PatchCall J) (list : Nat) (filters : Filters J) :
    Server J × Outcome (PatchTask J) (List Nat) :=
  match capturedThread s.store list call.threadId with
  | none => (s,.returned [])
  | some ref =>
    if !passes filters (s.store.thread ref).metadata then (s,.returned [])
    else
      let thread := patched (s.store.thread ref) call.metadata now
      overrideTtl (s.withStore (replaceThread s.store list call.threadId thread)) now call.threadId call.ttl
        [s.store.threads.next]

-- `Threads.patch`.
def stepPatch (w : Wake J) (s : Server J) : PatchTask J → Server J × Outcome (PatchTask J) (List Nat)
  | .called call =>
    match s.store.findThread call.threadId with
    | none => (s,.returned [])
    | some _ => (s,.suspended (.authorizing call s.store.boundThreads))
  | .authorizing call list => authorized w s fun filters =>
      gated s call.threadId (.waiting call list filters) (patchThread s w.now call list filters)
  | .waiting call list filters =>
      gated s call.threadId (.waiting call list filters) (patchThread s w.now call list filters)

end patching

section deleting

-- `matching` is the record that was found when the call began, by identity.
inductive DeleteTask where
  | called (threadId : String)
  | authorizing (threadId : String) (matching : Option Nat)
  | checkpoints (threadId : String) (matching : Nat)
  | streams (threadId : String) (matching : Nat)

def DeleteTask.threadId : DeleteTask → String
  | .called threadId | .authorizing threadId _ | .checkpoints threadId _ | .streams threadId _ => threadId

-- Runs, crons and the TTL go by thread id, the record by identity.
def removeThread (s : Store J) (threadId : String) (matching : Nat) : Store J :=
  {(s.rebindThreads (s.liveThreads.filter fun ref => ref != matching)) with
    boundRuns := s.boundRuns.filter fun ref => (s.run ref).threadId != threadId
    crons := s.crons.filter fun cron => cron.threadId != threadId
    ttls := s.ttls.erase threadId}

-- `Threads.delete`; `checkpoints` and `streams` await the external cleanup.
def stepDelete (w : Wake J) (s : Server J) : DeleteTask → Server J × Outcome DeleteTask String
  | .called threadId => (s,.suspended (.authorizing threadId (s.store.findThread threadId)))
  | .authorizing threadId matching => authorized w s fun filters =>
      match matching with
      | none => (s,.raised (threadNotFound threadId))
      | some ref =>
        if !passes filters (s.store.thread ref).metadata then (s,.raised (threadNotFound threadId))
        else (s,.suspended (.checkpoints threadId ref))
  | .checkpoints threadId matching => external w s (s,.suspended (.streams threadId matching))
  | .streams threadId matching =>
      external w s (s.withStore (removeThread s.store threadId matching),.returned threadId)

end deleting

section status

-- What `set_status` and `set_joint_status` read of a checkpoint payload.
structure CheckpointPayload (J : Type) where
  hasNext : Bool
  values : J
  interrupts : J

def hasNext (checkpoint : Option (CheckpointPayload J)) : Bool :=
  match checkpoint with
  | some checkpoint => checkpoint.hasNext
  | none => false

-- `thread.update(update)` with the fields that both functions write.
def statusUpdate (now : Int) (status : ThreadStatus) (checkpoint : Option (CheckpointPayload J)) (error : Option J)
    (thread : Thread J) : Thread J :=
  {thread with
    updatedAt := now
    stateUpdatedAt := some now
    status
    interrupts := checkpoint.map CheckpointPayload.interrupts
    error
    values := match checkpoint with
      | some checkpoint => some checkpoint.values
      | none => thread.values}

structure StatusCall (J : Type) where
  threadId : String
  checkpoint : Option (CheckpointPayload J)
  exception : Option J

-- `Threads.set_status` awaits nothing that suspends.
def setStatus (s : Store J) (now : Int) (call : StatusCall J) : Except Fault (Store J) :=
  match s.findThread call.threadId with
  | none => .error (notFound ("Thread " ++ call.threadId ++ " not found."))
  | some ref =>
    let base : ThreadStatus :=
      if call.exception.isSome then .error else if hasNext call.checkpoint then .interrupted else .idle
    let status := if s.activeOn call.threadId then .busy else base
    .ok (s.updateThread ref (statusUpdate now status call.checkpoint call.exception))

end status

end InmemRuntime.ThreadOps
