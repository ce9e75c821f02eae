import InmemRuntime.RunOps

namespace InmemRuntime.JointStatus
open OrderedDict ThreadTtl RuntimeStore Serving ThreadOps RunOps

variable {J : Type}

-- A run ends with a status of its own or by rollback, which deletes it.
inductive RunEnd where
  | status (status : RunStatus)
  | rollback
deriving DecidableEq,Repr

-- `user` marks a `UserInterrupt` or a `UserRollback`.
structure RaisedError (J : Type) where
  user : Bool
  value : J

structure JointCall (J : Type) where
  threadId : String
  runId : String
  runEnd : RunEnd
  graphId : String
  checkpoint : Option (CheckpointPayload J)
  exception : Option (RaisedError J)

inductive JointTask (J : Type) where
  | called (call : JointCall J)
  | rollingBack (call : JointCall J) (thread : Nat) (now : Int) (inner : DeleteRunTask)

def baseStatus (call : JointCall J) : ThreadStatus :=
  if (match call.exception with
    | some exception => !exception.user
    | none => false) then .error
  else if hasNext call.checkpoint then .interrupted else .idle

variable (text : String → J)

-- `thread["metadata"]["graph_id"] = ...` and `thread.update(...)` on the record
-- that was found at the start.
def finishThread (s : Store J) (now : Int) (call : JointCall J) (thread : Nat) (status : ThreadStatus) : Store J :=
  s.updateThread thread fun thread => statusUpdate now status call.checkpoint (call.exception.map RaisedError.value)
    {thread with metadata := thread.metadata.insert "graph_id" (text call.graphId)}

def finishStatus (s : Store J) (now : Int) (call : JointCall J) (thread run : Nat) (status : RunStatus) : Store J :=
  let s := s.updateRun run fun run => {run with status, updatedAt := now}
  finishThread text s now call thread (if status.active || s.activeOn call.threadId then .busy else baseStatus call)

def finishRollback (s : Store J) (now : Int) (call : JointCall J) (thread : Nat) : Store J :=
  finishThread text s now call thread (if s.activeOn call.threadId then .busy else baseStatus call)

-- `Threads.set_joint_status`: only a rollback awaits something.
def stepJoint (w : Wake J) (s : Server J) : JointTask J → Server J × Outcome (JointTask J) Unit
  | .called call =>
    match s.store.findThread call.threadId with
    | none => (s,.raised (notFound ("Thread " ++ call.threadId ++ " not found")))
    | some thread =>
      match s.store.findRun (some call.runId) call.threadId with
      | none => (s,.raised (notFound ("Run " ++ call.runId ++ " not found")))
      | some run =>
        match call.runEnd with
        | .status status => (s.withStore (finishStatus text s.store w.now call thread run status),.returned ())
        | .rollback =>
          (s,.suspended (.rollingBack call thread w.now (.called (some call.runId) call.threadId)))
  | .rollingBack call thread now inner =>
    match stepDeleteRun w s inner with
    | (s,.suspended inner) => (s,.suspended (.rollingBack call thread now inner))
    | (s,.raised fault) => (s,.raised fault)
    | (s,.returned _) => (s.withStore (finishRollback text s.store now call thread),.returned ())

end InmemRuntime.JointStatus
