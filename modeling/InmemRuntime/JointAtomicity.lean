import InmemRuntime.Mutations
import InmemRuntime.RecordIds

namespace InmemRuntime.JointAtomicity
open OrderedDict ThreadTtl RuntimeStore Serving ThreadOps RunOps ThreadRecords
open JointStatus (RunEnd)
open Mutations (consult)
open Tasks (Coroutine)
open StoreWrites
open RecordIds (anything)

variable {J : Type}

-- A checkpoint payload as it is read: `checkpoint["next"]`, the interrupts of
-- its tasks and `checkpoint["values"]`, any of which may raise.
structure Payload (J : Type) where
  next : Except Fault Bool
  interrupts : Except Fault J
  values : Except Fault J

-- `user` marks a `UserInterrupt` or a `UserRollback`; `error` is what
-- `json_loads(json_dumpb(exception))` gives.
structure Thrown (J : Type) where
  user : Bool
  error : Except Fault J

structure Request (J : Type) where
  threadId : String
  runId : String
  runEnd : RunEnd
  graphId : String
  checkpoint : Option (Payload J)
  exception : Option (Thrown J)

-- What is computed before anything is changed.
structure Evaluated (J : Type) where
  base : ThreadStatus
  interrupts : Option J

def optionally {α β : Type} (part : α → Except Fault β) : Option α → Except Fault (Option β)
  | none => .ok none
  | some a => (part a).map some

def baseStatus (request : Request J) (hasNext : Bool) : ThreadStatus :=
  if request.exception.any fun exception => !exception.user then .error
  else if hasNext then .interrupted else .idle

def evaluate (request : Request J) : Except Fault (Evaluated J) := do
  let next ← optionally Payload.next request.checkpoint
  let interrupts ← optionally Payload.interrupts request.checkpoint
  return ⟨baseStatus request (next.getD false),interrupts⟩

def Request.error (request : Request J) : Except Fault (Option J) := optionally Thrown.error request.exception

def Request.values (request : Request J) : Except Fault (Option J) := optionally Payload.values request.checkpoint

inductive Completion (J : Type) where
  | called (request : Request J)
  | rollingBack (request : Request J) (evaluated : Evaluated J) (thread : Nat) (now : Int) (inner : DeleteRunTask)

variable (text : String → J) (globalTtl : Option TtlConfig)

def namesGraph (request : Request J) (thread : Thread J) : Thread J :=
  {thread with metadata := thread.metadata.insert "graph_id" (text request.graphId)}

def updated (now : Int) (status : ThreadStatus) (interrupts error values : Option J) (thread : Thread J) : Thread J :=
  {thread with updatedAt := now, stateUpdatedAt := some now, status, interrupts, error, values := values <|> thread.values}

-- `thread["metadata"]["graph_id"] = ...` comes before the exception and the
-- values are evaluated, and `thread.update(update)` after.
def writeThread (s : Store J) (now : Int) (request : Request J) (evaluated : Evaluated J) (thread : Nat) (status : ThreadStatus) :
    Store J × Except Fault Unit :=
  let s := s.updateThread thread (namesGraph text request)
  match request.error with
  | .error fault => (s,.error fault)
  | .ok error =>
    match request.values with
    | .error fault => (s,.error fault)
    | .ok values => (s.updateThread thread (updated now status evaluated.interrupts error values),.ok ())

def RunEnd.active : RunEnd → Bool
  | .status status => status.active
  | .rollback => false

-- From the change of the run on.
def finish (s : Server J) (now : Int) (request : Request J) (evaluated : Evaluated J) (thread : Nat) :
    Server J × Outcome (Completion J) Unit :=
  let status := if RunEnd.active request.runEnd || s.store.activeOn request.threadId then .busy else evaluated.base
  let written := writeThread text s.store now request evaluated thread status
  (s.withStore written.1,match written.2 with
    | .ok () => .returned ()
    | .error fault => .raised fault)

-- `Runs.delete` without a context falls back on that of the request, whose
-- filters it checks on the thread.
def consulted (w : Wake J) (s : Server J) : DeleteRunTask → Server J
  | .authorizing _ threadId =>
    match w.auth with
    | .ok (some check) => s.withStore (consult (some check) s.store threadId)
    | _ => s
  | _ => s

-- `Threads.set_joint_status` with all that it evaluates.
def stepCompletion (w : Wake J) (s : Server J) : Completion J → Server J × Outcome (Completion J) Unit
  | .called request =>
    match s.store.findThread request.threadId with
    | none => (s,.raised (notFound ("Thread " ++ request.threadId ++ " not found")))
    | some thread =>
      match s.store.findRun (some request.runId) request.threadId with
      | none => (s,.raised (notFound ("Run " ++ request.runId ++ " not found")))
      | some run =>
        match evaluate request with
        | .error fault => (s,.raised fault)
        | .ok evaluated =>
          match request.runEnd with
          | .status status =>
            finish text (s.withStore (s.store.updateRun run fun run => {run with status, updatedAt := w.now})) w.now request evaluated thread
          | .rollback =>
            (s,.suspended (.rollingBack request evaluated thread w.now (.called (some request.runId) request.threadId)))
  | .rollingBack request evaluated thread now inner =>
    match stepDeleteRun w (consulted w s inner) inner with
    | (s,.suspended inner) => (s,.suspended (.rollingBack request evaluated thread now inner))
    | (s,.raised fault) => (s,.raised fault)
    | (s,.returned _) => finish text s now request evaluated thread

-- Whatever else changes the store: no code gives a record another id.
structure Change (J : Type) where
  apply : Store J → Store J
  grows : ∀ s, Extends s (apply s)

inductive Task (J : Type) where
  | joint (task : Completion J)
  | beside (task : Coroutine J)
  | other (change : Change J)

def resume (w : Wake J) (s : Server J) : Task J → Server J × List (Task J)
  | .joint task =>
    let result := stepCompletion text w s task
    (result.1,match result.2 with
      | .suspended task => [.joint task]
      | _ => [])
  | .beside task =>
    let result := Tasks.resume text globalTtl w s task
    (result.1,result.2.map .beside)
  | .other change => (s.withStore (change.apply s.store),[])

abbrev Pool (J : Type) := TaskPool.Pool (Server J) (Task J)

abbrev Event (J : Type) := TaskPool.Event (Task J) (Wake J)

abbrev Runs : Pool J → List (Pool J × Event J) → Pool J → Prop := TaskPool.Runs (resume text globalTtl)

-- The thread's record and the run carry what was computed, or the run is gone.
structure Settled (s : Store J) (request : Request J) (evaluated : Evaluated J) (error values : Option J) : Prop where
  thread : ∃ ref ∈ s.liveThreads, (s.thread ref).threadId = request.threadId ∧
    (s.thread ref).status = (if RunEnd.active request.runEnd || s.activeOn request.threadId then .busy else evaluated.base) ∧
    (s.thread ref).interrupts = evaluated.interrupts ∧ (s.thread ref).error = error ∧
    (∀ value, values = some value → (s.thread ref).values = some value) ∧
    (s.thread ref).metadata.get? "graph_id" = some (text request.graphId)
  run : match request.runEnd with
    | .status status => ∃ ref ∈ s.boundRuns, s.isRun (some request.runId) request.threadId ref ∧ (s.run ref).status = status
    | .rollback => s.findRun (some request.runId) request.threadId = none

def Done (s : Store J) (request : Request J) : Prop :=
  ∃ evaluated error values, evaluate request = .ok evaluated ∧ request.error = .ok error ∧ request.values = .ok values ∧
    Settled text s request evaluated error values

def Completion.request : Completion J → Request J
  | .called request | .rollingBack request _ _ _ _ => request

-- A step that does not return changes nothing, so a call that raises has not.
def Atomic (w : Wake J) (s : Server J) (task : Completion J) : Prop :=
  match (stepCompletion text w s task).2 with
  | .returned _ => Done text (stepCompletion text w s task).1.store task.request
  | _ => (stepCompletion text w s task).1.store = s.store

def OnJoint (property : Wake J → Server J → Completion J → Prop) : Pool J × Event J → Prop :=
  TaskPool.Meets (fun _ => True) fun w s task => ∀ completion, task = .joint completion → property w s completion

-- The exception and the values can be evaluated.
def Evaluates (request : Request J) : Prop := (∃ error, request.error = .ok error) ∧ ∃ values, request.values = .ok values

def Finds (s : Store J) (request : Request J) : Prop :=
  (s.findThread request.threadId).isSome ∧ (s.findRun (some request.runId) request.threadId).isSome ∧
    ∃ evaluated, evaluate request = .ok evaluated

-- The filters let the thread through, and its record lacks nothing.
def Admits (s : Store J) (check : Metadata J → Bool) (threadId : String) : Prop :=
  ∃ ref, s.findThread threadId = some ref ∧ check (s.thread ref).metadata ∧ (s.thread ref).stateUpdatedAt.isSome

-- What is evaluated late does not fail where it is reached, and the record that
-- was found first is still stored when the run is gone.
def Safe (w : Wake J) (s : Server J) : Completion J → Prop
  | .called request => request.runEnd ≠ .rollback → Finds s.store request → Evaluates request
  | .rollingBack _ _ _ _ (.authorizing _ threadId) => ∀ check, w.auth = .ok (some check) → Admits s.store check threadId
  | .rollingBack request _ thread _ (.streams _ _) => w.failure = none → thread ∈ s.store.liveThreads ∧ Evaluates request
  | _ => True

-- What a suspended rollback has captured.
def Tracks (s : Store J) : Completion J → Prop
  | .called _ => True
  | .rollingBack request evaluated thread _ inner => evaluate request = .ok evaluated ∧ request.runEnd = .rollback ∧
      inner.key = (some request.runId,request.threadId) ∧ thread < s.threads.next ∧ (s.thread thread).threadId = request.threadId

section step
variable {text} {w : Wake J} {s : Server J} {request : Request J} {evaluated : Evaluated J} {thread : Nat} {now : Int}
  {inner : DeleteRunTask}

-- Once the run has its status or is gone, and the record is there.
theorem finish_atomic (evaluates : Evaluates request) (known : evaluate request = .ok evaluated) (live : thread ∈ s.store.liveThreads)
    (named : (s.store.thread thread).threadId = request.threadId)
    (run : match request.runEnd with
      | .status status => ∃ ref ∈ s.store.boundRuns, s.store.isRun (some request.runId) request.threadId ref ∧ (s.store.run ref).status = status
      | .rollback => s.store.findRun (some request.runId) request.threadId = none) :
    (finish text s now request evaluated thread).2 = .returned () ∧ Done text (finish text s now request evaluated thread).1.store request := by
  obtain ⟨⟨error,noError⟩,⟨values,noValues⟩⟩ := evaluates
  unfold finish writeThread
  simp only [noError,noValues]
  refine ⟨trivial,evaluated,error,values,known,noError,noValues,⟨thread,live,?_⟩,run⟩
  simp only [Server.store_withStore,Store.thread_updateThread_self]
  refine ⟨named,rfl,rfl,rfl,?_,Dict.get?_insert_self _ _ _⟩
  rintro value rfl
  rfl

-- A step that changes nothing and does not return.
def Rests (s : Server J) (result : Server J × Outcome (Completion J) Unit) : Prop :=
  result.1.store = s.store ∧ result.2 ≠ .returned ()

theorem rests_suspended (task : Completion J) : Rests s (s,.suspended task) := ⟨rfl,by simp⟩

theorem rests_raised (fault : Fault) : Rests s (s,.raised fault) := ⟨rfl,by simp⟩

theorem rests_atomic {task : Completion J} (rests : Rests s (stepCompletion text w s task)) : Atomic text w s task := by
  unfold Atomic
  split
  · rename_i returned
    exact absurd returned rests.2
  · exact rests.1

theorem returned_atomic {task : Completion J} (returned : (stepCompletion text w s task).2 = .returned ())
    (done : Done text (stepCompletion text w s task).1.store task.request) : Atomic text w s task := by
  unfold Atomic
  rw [returned]
  exact done

theorem called_cases : Rests s (stepCompletion text w s (.called request)) ∨ ∃ thread run evaluated status,
    s.store.findThread request.threadId = some thread ∧ s.store.findRun (some request.runId) request.threadId = some run ∧
    evaluate request = .ok evaluated ∧ request.runEnd = .status status ∧ stepCompletion text w s (.called request) =
      finish text (s.withStore (s.store.updateRun run fun run => {run with status, updatedAt := w.now})) w.now request evaluated thread := by
  simp only [stepCompletion]
  split
  · exact .inl (rests_raised _)
  · rename_i thread found
    split
    · exact .inl (rests_raised _)
    · rename_i run stored
      split
      · exact .inl (rests_raised _)
      · rename_i evaluated known
        split
        · rename_i status ends
          exact .inr ⟨thread,run,evaluated,status,found,stored,known,ends,rfl⟩
        · exact .inl (rests_suspended _)

theorem called_atomic (safe : Safe w s (.called request)) : Atomic text w s (.called request) := by
  have shape : Rests s (stepCompletion text w s (.called request)) ∨ _ := called_cases
  rcases shape with rests | ⟨thread,run,evaluated,status,found,stored,known,ends,stepped⟩
  · exact rests_atomic rests
  · have evaluates : Evaluates request := safe (by simp [ends]) ⟨by simp [found],by simp [stored],evaluated,known⟩
    obtain ⟨live,named⟩ := Store.findThread_some found
    obtain ⟨returned,done⟩ : (finish text (s.withStore (s.store.updateRun run fun run => {run with status, updatedAt := w.now}))
        w.now request evaluated thread).2 = .returned () ∧ _ := finish_atomic evaluates known live named (by
        rw [ends]
        refine ⟨run,List.mem_of_find?_eq_some stored,?_,by simp⟩
        simpa [Store.isRun] using List.find?_some stored)
    rw [← stepped] at returned done
    exact returned_atomic returned done

-- What the record lacks is filled in, which is nothing here.
theorem consulted_same (safe : Safe w s (.rollingBack request evaluated thread now inner)) : consulted w s inner = s := by
  unfold consulted
  split
  · split
    · rename_i check answered
      obtain ⟨ref,found,_,present⟩ := safe check answered
      rw [Mutations.consult_complete fun other here _ => by cases found.symm.trans here; exact present]
      rfl
    · rfl
  · rfl

theorem removeRun_gone (s : Store J) (runId : Option String) (threadId : String) : (removeRun s runId threadId).findRun runId threadId = none := by
  refine List.find?_eq_none.mpr fun ref member => ?_
  have kept := (List.mem_filter.mp member).2
  change ¬ s.isRun runId threadId ref = true
  simpa using kept

theorem rolling_cases (tracks : Tracks s.store (.rollingBack request evaluated thread now inner))
    (safe : Safe w s (.rollingBack request evaluated thread now inner)) :
    Rests s (stepCompletion text w s (.rollingBack request evaluated thread now inner)) ∨
      thread ∈ s.store.liveThreads ∧ Evaluates request ∧ stepCompletion text w s (.rollingBack request evaluated thread now inner) =
        finish text (s.withStore (removeRun s.store (some request.runId) request.threadId)) now request evaluated thread := by
  obtain ⟨_,_,same,_⟩ := tracks
  simp only [stepCompletion]
  rw [consulted_same safe]
  cases inner with
  | called runId threadId => exact .inl (rests_suspended _)
  | authorizing runId threadId =>
    left
    simp only [stepDeleteRun,authorized]
    cases auth : w.auth with
    | error fault => exact rests_raised fault
    | ok filters =>
      have seen : visible s.store threadId filters = true := by
        cases filters with
        | none => rfl
        | some check =>
          obtain ⟨ref,found,passes_,_⟩ := safe check auth
          simpa [visible,found] using passes_
      simp only [seen]
      cases s.store.findRun runId threadId with
      | none => exact rests_raised _
      | some ref => exact rests_suspended _
  | checkpoints runId threadId =>
    left
    simp only [stepDeleteRun,external]
    cases w.failure with
    | none => exact rests_suspended _
    | some fault => exact rests_raised fault
  | streams runId threadId =>
    obtain ⟨rfl,rfl⟩ := Prod.mk.inj same
    simp only [stepDeleteRun,external]
    cases failure : w.failure with
    | some fault => exact .inl (rests_raised fault)
    | none => exact .inr ⟨(safe failure).1,(safe failure).2,rfl⟩

theorem rolling_atomic (tracks : Tracks s.store (.rollingBack request evaluated thread now inner))
    (safe : Safe w s (.rollingBack request evaluated thread now inner)) : Atomic text w s (.rollingBack request evaluated thread now inner) := by
  have shape : Rests s (stepCompletion text w s (.rollingBack request evaluated thread now inner)) ∨ _ := rolling_cases tracks safe
  rcases shape with rests | ⟨live,evaluates,stepped⟩
  · exact rests_atomic rests
  · obtain ⟨known,ends,_,_,named⟩ := tracks
    obtain ⟨returned,done⟩ : (finish text (s.withStore (removeRun s.store (some request.runId) request.threadId))
        now request evaluated thread).2 = .returned () ∧ _ := finish_atomic evaluates known live named (by
        rw [ends]
        exact removeRun_gone _ _ _)
    rw [← stepped] at returned done
    exact returned_atomic returned done

theorem step_atomic {task : Completion J} (tracks : Tracks s.store task) (safe : Safe w s task) : Atomic text w s task := by
  cases task with
  | called request => exact called_atomic safe
  | rollingBack request evaluated thread now inner => exact rolling_atomic tracks safe

theorem updateThread_extends (s : Store J) (ref : Nat) {f : Thread J → Thread J} (same : ∀ t, (f t).threadId = t.threadId) :
    Extends s (s.updateThread ref f) := by
  have write : Write anything s (s.updateThread ref f) := .thread same
  exact write_extends write

theorem finish_extends (s : Server J) (now : Int) (request : Request J) (evaluated : Evaluated J) (thread : Nat) :
    Extends s.store (finish text s now request evaluated thread).1.store := by
  have first : Extends s.store (s.store.updateThread thread (namesGraph text request)) := updateThread_extends _ _ fun _ => rfl
  unfold finish writeThread
  dsimp only [Server.store_withStore]
  split
  · exact first
  · split
    · exact first
    · exact first.trans (updateThread_extends _ _ fun _ => rfl)

theorem consulted_extends (inner : DeleteRunTask) : Extends s.store (consulted w s inner).store := by
  unfold consulted consult Mutations.getWithFilters
  split
  · split
    · dsimp only [Server.store_withStore]
      split
      · exact .refl _
      · split
        · exact .refl _
        · exact updateThread_extends _ _ fun _ => rfl
    · exact .refl _
  · exact .refl _

theorem step_extends (task : Completion J) : Extends s.store (stepCompletion text w s task).1.store := by
  cases task with
  | called request =>
    have shape : Rests s (stepCompletion text w s (.called request)) ∨ _ := called_cases
    rcases shape with rests | ⟨thread,run,evaluated,status,_,_,_,_,stepped⟩
    · rw [rests.1]
      exact .refl _
    · rw [stepped]
      refine Extends.trans ?_ (finish_extends _ _ _ _ _)
      exact extends_same rfl rfl
  | rollingBack request evaluated thread now inner =>
    have inside : Extends s.store (stepDeleteRun w (consulted w s inner) inner).1.store := by
      have steps : Steps anything (consulted w s inner) (stepDeleteRun w (consulted w s inner) inner).1 :=
        deleteRun_steps w _ inner fun _ _ _ _ _ _ => trivial
      exact (consulted_extends inner).trans (writes_extend steps.writes)
    simp only [stepCompletion]
    split <;> rename_i stepped <;> rw [stepped] at inside
    · exact inside
    · exact inside
    · exact inside.trans (finish_extends _ _ _ _ _)

theorem tracks_extends {s s' : Store J} (extends_ : Extends s s') {task : Completion J} (tracks : Tracks s task) : Tracks s' task := by
  cases task with
  | called request => trivial
  | rollingBack request evaluated thread now inner =>
    obtain ⟨known,ends,same,used,named⟩ := tracks
    exact ⟨known,ends,same,lt_of_lt_of_le used extends_.used,(extends_.sameId thread used).trans named⟩

theorem finish_ends (s : Server J) (now : Int) (request : Request J) (evaluated : Evaluated J) (thread : Nat) (again : Completion J) :
    (finish text s now request evaluated thread).2 ≠ .suspended again := by
  unfold finish
  dsimp only
  split <;> exact nofun

theorem step_tracks (used : LiveUsed s.store) {task again : Completion J} (tracks : Tracks s.store task)
    (suspends : (stepCompletion text w s task).2 = .suspended again) : Tracks (stepCompletion text w s task).1.store again := by
  refine tracks_extends (step_extends task) ?_
  cases task with
  | called request =>
    simp only [stepCompletion] at suspends
    split at suspends
    · cases suspends
    · rename_i thread found
      split at suspends
      · cases suspends
      · split at suspends
        · cases suspends
        · rename_i evaluated known
          split at suspends
          · exact absurd suspends (finish_ends _ _ _ _ _ _)
          · rename_i ends
            obtain rfl := Outcome.suspended.inj suspends
            obtain ⟨live,named⟩ := Store.findThread_some found
            exact ⟨known,ends,rfl,used thread live,named⟩
  | rollingBack request evaluated thread now inner =>
    obtain ⟨known,ends,same,bound,named⟩ := tracks
    simp only [stepCompletion] at suspends
    split at suspends
    · rename_i later stepped
      obtain rfl := Outcome.suspended.inj suspends
      have kept := stepDeleteRun_key (by rw [same]; rfl) (congrArg Prod.snd stepped)
      exact ⟨known,ends,kept.trans same,bound,named⟩
    · cases suspends
    · exact absurd suspends (finish_ends _ _ _ _ _ _)

end step

section agreement
variable {text}

-- A call of which all parts can be evaluated.
def Request.ofCall (call : JointStatus.JointCall J) : Request J :=
  ⟨call.threadId,call.runId,call.runEnd,call.graphId,call.checkpoint.map fun checkpoint =>
    ⟨.ok checkpoint.hasNext,.ok checkpoint.interrupts,.ok checkpoint.values⟩,call.exception.map fun exception =>
    ⟨exception.user,.ok exception.value⟩⟩

theorem evaluate_ofCall (call : JointStatus.JointCall J) :
    evaluate (.ofCall call) = .ok ⟨JointStatus.baseStatus call,call.checkpoint.map CheckpointPayload.interrupts⟩ := by
  obtain ⟨threadId,runId,runEnd,graphId,checkpoint,exception⟩ := call
  cases checkpoint <;> cases exception <;> rfl

theorem finish_ofCall (s : Server J) (now : Int) (call : JointStatus.JointCall J) (thread : Nat) :
    finish text s now (.ofCall call) ⟨JointStatus.baseStatus call,call.checkpoint.map CheckpointPayload.interrupts⟩ thread =
      (s.withStore (JointStatus.finishThread text s.store now call thread (if RunEnd.active call.runEnd || s.store.activeOn call.threadId
        then .busy else JointStatus.baseStatus call)),.returned ()) := by
  obtain ⟨threadId,runId,runEnd,graphId,checkpoint,exception⟩ := call
  have twice : ∀ (f g : Thread J → Thread J), (s.store.updateThread thread f).updateThread thread g = s.store.updateThread thread (g ∘ f) := by
    intro f g
    simp [Store.updateThread,ObjectHeap.Heap.write,Store.thread]
  cases checkpoint <;> cases exception <;> exact congrArg (fun store => (s.withStore store,Outcome.returned ())) (twice _ _)

-- Both models of the function do the same with such a call.
theorem called_ofCall (w : Wake J) (s : Server J) (call : JointStatus.JointCall J) :
    (stepCompletion text w s (.called (.ofCall call))).1 = (JointStatus.stepJoint text w s (.called call)).1 := by
  have threadId : (Request.ofCall call).threadId = call.threadId := rfl
  have runId : (Request.ofCall call).runId = call.runId := rfl
  have runEnd : (Request.ofCall call).runEnd = call.runEnd := rfl
  simp only [stepCompletion,JointStatus.stepJoint,evaluate_ofCall,threadId,runId,runEnd]
  cases s.store.findThread call.threadId with
  | none => rfl
  | some thread =>
    cases s.store.findRun (some call.runId) call.threadId with
    | none => rfl
    | some run =>
      cases ends : call.runEnd with
      | rollback => rfl
      | status status =>
        dsimp only
        rw [finish_ofCall,ends]
        rfl

end agreement

-- Each call begins at its first line.
def Begins : Pool J × Event J → Prop :=
  TaskPool.Meets (fun task => ∀ completion, task = .joint completion → ∃ request, completion = .called request) fun _ _ _ => True

section run
variable {text globalTtl} {start p : Pool J} {taken : List (Pool J × Event J)}

-- Every record in use has its id for good, and every rollback knows its thread.
structure Tracked (p : Pool J) : Prop where
  used : LiveUsed p.shared.store
  each : ∀ completion, .joint completion ∈ p.tasks → Tracks p.shared.store completion

theorem resume_extends (w : Wake J) (s : Server J) (task : Task J) : Extends s.store (resume text globalTtl w s task).1.store := by
  cases task with
  | joint task => exact step_extends task
  | beside task => exact ThreadRecords.resume_extends w s task
  | other change => exact change.grows s.store

theorem tracked_step {event : Event J} {next : Pool J} (tracked : Tracked p) (fresh : Begins (p,event))
    (step : TaskPool.advance (resume text globalTtl) p event = some next) : Tracked next := by
  cases event with
  | call task =>
    cases Option.some.inj step
    refine ⟨tracked.used,fun completion member => ?_⟩
    rcases List.mem_append.mp member with old | new
    · exact tracked.each completion old
    · obtain ⟨request,rfl⟩ := fresh completion (List.mem_singleton.mp new).symm
      trivial
  | resume index w =>
    obtain ⟨before,task,after,split_,_,rfl⟩ := TaskPool.resume_parts step
    have grows : Extends p.shared.store (resume text globalTtl w p.shared task).1.store := resume_extends w p.shared task
    have others : ∀ completion, .joint completion ∈ before ++ after → Tracks (resume text globalTtl w p.shared task).1.store completion := by
      intro completion member
      refine tracks_extends grows (tracked.each completion ?_)
      rw [split_]
      rcases List.mem_append.mp member with old | later
      · exact List.mem_append_left _ old
      · exact List.mem_append_right _ (List.mem_cons_of_mem _ later)
    refine ⟨grows.live tracked.used,fun completion member => ?_⟩
    rcases List.mem_append.mp member with first | later
    · rcases List.mem_append.mp first with old | new
      · exact others completion (List.mem_append_left _ old)
      · cases task with
        | joint task =>
          have mine : Tracks p.shared.store task := tracked.each task (by simp [split_])
          cases outcome : (stepCompletion text w p.shared task).2 with
          | suspended again =>
            simp only [resume,outcome,List.mem_singleton,Task.joint.injEq] at new
            rw [new]
            exact step_tracks tracked.used mine outcome
          | returned value => simp [resume,outcome] at new
          | raised fault => simp [resume,outcome] at new
        | beside task => simp [resume] at new
        | other change => simp [resume] at new
    · exact others completion (List.mem_append_right _ later)

-- Beside any other operations, `Threads.set_joint_status` is atomic as long as
-- its rollbacks find their record again and its late evaluations succeed.
theorem joint_status_atomic (runs : Runs text globalTtl start taken p) (used : LiveUsed start.shared.store)
    (idle : start.tasks = []) (begins : ∀ step ∈ taken, Begins step) (safe : ∀ step ∈ taken, OnJoint Safe step) :
    ∀ step ∈ taken, OnJoint (Atomic text) step := by
  have tracked : ∀ step ∈ taken, Tracked step.1 :=
    (TaskPool.runs_invariant runs ⟨used,by simp [idle]⟩ (fun _ _ _ tracked fresh step => tracked_step tracked fresh step) begins).2
  rintro ⟨pool,event⟩ member
  cases event with
  | call task => trivial
  | resume index w =>
    rintro task found completion rfl
    exact step_atomic ((tracked _ member).each completion (List.mem_of_getElem? found)) (safe _ member _ found completion rfl)

end run

def toyServer : Server String :=
  .start (((Store.empty).appendThread ⟨"T",.busy,.empty,0,0,some 0,none,none,none⟩).appendRun ⟨some "r","T","a",.running,0,0⟩)

def rollback : Request String := ⟨"T","r",.rollback,"g",some ⟨.ok false,.ok "i",.ok "v"⟩,none⟩

def waking : Wake String := .quiet 1

def alone : List (Event String) := .call (.joint (.called rollback)) :: List.replicate 5 (.resume 0 waking)

theorem toy_used : LiveUsed toyServer.store := by
  intro ref member
  obtain rfl := List.mem_singleton.mp (member : ref ∈ [0])
  decide

theorem joint_status_atomic_toy : ∃ taken p, Runs id none ⟨toyServer,[]⟩ taken p ∧ p.tasks = [] ∧ p.shared.store.boundRuns = [] ∧
    ∀ step ∈ taken, OnJoint (Atomic id) step := by
  have runs := TaskPool.perform_runs .nil (rfl : TaskPool.perform (resume id none) ⟨toyServer,[]⟩ alone = some _)
  refine ⟨_,_,runs,rfl,rfl,joint_status_atomic runs toy_used rfl ?_ ?_⟩
  · refine List.forall_mem_cons.mpr ⟨fun _ same => ⟨_,(Task.joint.inj same).symm⟩,?_⟩
    iterate 5 refine List.forall_mem_cons.mpr ⟨fun _ _ => trivial,?_⟩
    exact fun _ none_ => (List.not_mem_nil none_).elim
  · refine List.forall_mem_cons.mpr ⟨trivial,List.forall_mem_cons.mpr ⟨?_,List.forall_mem_cons.mpr ⟨?_,List.forall_mem_cons.mpr
      ⟨?_,List.forall_mem_cons.mpr ⟨?_,List.forall_mem_cons.mpr ⟨?_,by simp⟩⟩⟩⟩⟩⟩
    all_goals
      intro task here completion same
      cases here
      cases same
    · exact fun other => (other rfl).elim
    · trivial
    · exact fun check answered => nomatch answered
    · trivial
    · exact fun _ => ⟨by decide,⟨_,rfl⟩,⟨_,rfl⟩⟩

-- A patch replaces the record by its copy while the rollback awaits the
-- cleanup of the run, and the record that was found first gets the status.
def acrossPatch : List (Event String) :=
  alone.take 4 ++ [.call (.beside (.patch (.called ⟨"T",.empty,none⟩))),.resume 1 waking,.resume 1 waking,.resume 0 waking]

def unprintable : Request String := ⟨"T","r",.status .error,"g",none,some ⟨false,.error .external⟩⟩

theorem half_updates : (∃ taken p next, Runs id none ⟨toyServer,[]⟩ taken p ∧ TaskPool.advance (resume id none) p (.resume 0 waking) = some next ∧
      next.tasks = [] ∧ ¬ OnJoint (Atomic id) (p,.resume 0 waking) ∧
      next.shared.store.liveThreads.map (fun ref => (next.shared.store.thread ref).status) = [.busy] ∧ next.shared.store.boundRuns = []) ∧
    ∃ taken p next, Runs id none ⟨toyServer,[]⟩ taken p ∧ TaskPool.advance (resume id none) p (.resume 0 waking) = some next ∧
      next.tasks = [] ∧ ¬ OnJoint (Atomic id) (p,.resume 0 waking) ∧
      next.shared.store.boundRuns.map (fun ref => (next.shared.store.run ref).status) = [.error] ∧
      next.shared.store.liveThreads.map (fun ref => (next.shared.store.thread ref).status) = [.busy] := by
  constructor
  · refine ⟨_,_,_,TaskPool.perform_runs .nil (rfl : TaskPool.perform _ _ acrossPatch = some _),rfl,rfl,fun atomic => ?_,rfl,rfl⟩
    obtain ⟨_,_,_,_,_,_,settled⟩ := atomic _ rfl _ rfl
    obtain ⟨ref,live,_,_,_,_,_,graph⟩ := settled.thread
    obtain rfl := List.mem_singleton.mp (live : ref ∈ [1])
    cases graph
  · refine ⟨_,_,_,TaskPool.perform_runs .nil (rfl : TaskPool.perform _ _ [.call (.joint (.called unprintable))] = some _),rfl,rfl,
      fun atomic => ?_,rfl,rfl⟩
    have same := atomic _ rfl _ rfl
    have status := congrArg (fun s : Store String => (s.run 0).status) same
    cases status

end InmemRuntime.JointAtomicity
