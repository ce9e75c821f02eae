import InmemRuntime.ThreadOps
import Mathlib.Data.List.Sort

namespace InmemRuntime.TtlSweep
open OrderedDict ThreadTtl RuntimeStore Serving ThreadOps

variable {J : Type}

-- `limit` is the argument, else the configured `sweep_limit`.
structure SweepCall where
  limit : Option Int

-- A sweep is suspended before it looks, or inside the deletion or pruning of
-- one thread, whose marker it holds.
inductive SweepTask where
  | called (call : SweepCall)
  | deleting (rest : List String) (inner : DeleteTask)
  | checkpointer (threadId : String) (rest : List String) (state : TtlState) (updatedAt : Int)
  | pruning (threadId : String) (rest : List String) (state : TtlState) (updatedAt : Int)

variable (globalTtl : Option TtlConfig)

-- The policy under which an expired thread is due, with its sidecar entry.
def due (s : Store J) (now : Int) (thread : Thread J) : Option (TtlPolicy × TtlState) :=
  match effectiveThreadTtl now globalTtl s.ttls thread.threadId with
  | .error _ => none
  | .ok (none,_) => none
  | .ok (some policy,state) =>
    let swept : Bool := match state.lastSweptUpdatedAt with
      | some last => policy.strategy == .keepLatest && decide (thread.updatedAt ≤ last)
      | none => false
    if swept then none
    else if thread.updatedAt + timedelta policy.ttlMinutes ≤ now then some (policy,state) else none

-- `(expires_at, thread_id)` of the threads that look expired, sorted.
def expired (s : Store J) (now : Int) : List (Int × String) :=
  let found := s.liveThreads.filterMap fun ref =>
    let thread := s.thread ref
    if s.activeOn thread.threadId then none
    else (due globalTtl s now thread).map fun hit => (thread.updatedAt + timedelta hit.1.ttlMinutes,thread.threadId)
  found.insertionSort fun a b => a.1 < b.1 ∨ (a.1 = b.1 ∧ a.2 ≤ b.2)

def selectedThreads (s : Store J) (now : Int) (limit : Option Int) : List String :=
  let found := (expired globalTtl s now).map Prod.snd
  match limit with
  | none => found
  | some limit => found.take limit.toNat

def claim (s : Server J) (threadId : String) : Server J := {s with maintenance := threadId :: s.maintenance}

def release (s : Server J) (threadId : String) : Server J :=
  {s with maintenance := s.maintenance.filter fun held => held != threadId}

-- Everything that made the thread eligible is looked at again under the marker.
def revalidate (s : Store J) (now : Int) (threadId : String) : Option (TtlPolicy × TtlState × Int) :=
  match s.findThread threadId with
  | none => none
  | some ref =>
    if s.activeOn threadId then none
    else (due globalTtl s now (s.thread ref)).map fun hit => (hit.1,hit.2,(s.thread ref).updatedAt)

-- The loop over the batches, up to the next await. A thread that another sweep
-- has claimed, or that is not due any more, is passed over.
def sweepLoop (w : Wake J) (s : Server J) : List String → Server J × Outcome SweepTask Unit
  | [] => (s,.returned ())
  | threadId :: rest =>
    if s.maintenance.contains threadId then sweepLoop w s rest
    else match revalidate globalTtl s.store (w.clock rest.length) threadId with
      | none => sweepLoop w s rest
      | some (policy,state,updatedAt) =>
        match policy.strategy with
        | .delete => (claim s threadId,.suspended (.deleting rest (.called threadId)))
        | .keepLatest => (claim s threadId,.suspended (.checkpointer threadId rest state updatedAt))

-- The same inactive state is not pruned again.
def markSwept (s : Store J) (threadId : String) (state : TtlState) (updatedAt : Int) : Store J :=
  {s with ttls := s.ttls.insert threadId {state with lastSweptUpdatedAt := some updatedAt}}

-- `Threads.sweep_ttl`. Every way out of a thread's turn passes the release.
def stepSweep (w : Wake J) (s : Server J) : SweepTask → Server J × Outcome SweepTask Unit
  | .called call =>
    match call.limit with
    | some limit =>
      if limit ≤ 0 then (s,.returned ())
      else sweepLoop globalTtl w s (selectedThreads globalTtl s.store w.now (some limit))
    | none => sweepLoop globalTtl w s (selectedThreads globalTtl s.store w.now none)
  | .deleting rest inner =>
    match stepDelete w s inner with
    | (s,.suspended inner) => (s,.suspended (.deleting rest inner))
    | (s,.returned _) => sweepLoop globalTtl w (release s inner.threadId) rest
    | (s,.raised (.http exception)) =>
      if exception.statusCode = 404 then sweepLoop globalTtl w (release s inner.threadId) rest
      else (release s inner.threadId,.raised (.http exception))
    | (s,.raised .external) => (release s inner.threadId,.raised .external)
  | .checkpointer threadId rest state updatedAt =>
    match w.failure with
    | some fault => (release s threadId,.raised fault)
    | none => (s,.suspended (.pruning threadId rest state updatedAt))
  | .pruning threadId rest state updatedAt =>
    match w.failure with
    | some fault => (release s threadId,.raised fault)
    | none => sweepLoop globalTtl w (release (s.withStore (markSwept s.store threadId state updatedAt)) threadId) rest

end InmemRuntime.TtlSweep
