import InmemRuntime.JointStatus
import InmemRuntime.TtlSweep
import InmemRuntime.TaskPool

namespace InmemRuntime.Tasks
open OrderedDict ThreadTtl RuntimeStore Serving ThreadOps RunOps JointStatus TtlSweep

variable {J : Type}

-- Every coroutine of the process at one of its suspension points. A `worker`
-- is between the yield of its run by `Runs.next` and its leaving `Runs.enter`.
inductive Coroutine (J : Type) where
  | put (task : PutTask J)
  | patch (task : PatchTask J)
  | delete (task : DeleteTask)
  | setStatus (call : StatusCall J)
  | joint (task : JointTask J)
  | sweep (task : SweepTask)
  | putRun (task : PutRunTask J)
  | next (task : NextTask)
  | worker (run : Nat) (threadId : String)
  | deleteRun (task : DeleteRunTask)
  | cancel (task : CancelTask)

variable (text : String → J) (globalTtl : Option TtlConfig)

def goOn {τ ρ : Type} (wrap : τ → Coroutine J) (result : Server J × Outcome τ ρ) : Server J × List (Coroutine J) :=
  match result.2 with
  | .suspended task => (result.1,[wrap task])
  | .returned _ => (result.1,[])
  | .raised _ => (result.1,[])

def goOnNext (result : Server J × Outcome NextTask Unit × Option (Nat × Nat)) : Server J × List (Coroutine J) :=
  let (s,tasks) := goOn .next (result.1,result.2.1)
  match result.2.2 with
  | none => (s,tasks)
  | some (ref,_) => (s,.worker ref (s.store.run ref).threadId :: tasks)

def goOnCancel (result : Server J × Outcome CancelTask (List (Option String × String))) : Server J × List (Coroutine J) :=
  match result.2 with
  | .suspended task => (result.1,[.cancel task])
  | .returned deletes => (result.1,deletes.map fun key => .deleteRun (.called key.1 key.2))
  | .raised _ => (result.1,[])

def resume (w : Wake J) (s : Server J) : Coroutine J → Server J × List (Coroutine J)
  | .put task => goOn .put (stepPut w s task)
  | .patch task => goOn .patch (stepPatch w s task)
  | .delete task => goOn .delete (stepDelete w s task)
  | .setStatus call =>
    match setStatus s.store w.now call with
    | .ok store => (s.withStore store,[])
    | .error _ => (s,[])
  | .joint task => goOn .joint (stepJoint text w s task)
  | .sweep task => goOn .sweep (stepSweep globalTtl w s task)
  | .putRun task => goOn .putRun (stepPutRun text w s task)
  | .next task => goOnNext (stepNext w s task)
  | .worker _ _ => (s,[])
  | .deleteRun task => goOn .deleteRun (stepDeleteRun w s task)
  | .cancel task => goOnCancel (stepCancel w s task)

-- Calls begin at their first line; workers come from `Runs.next` only.
def Coroutine.fresh : Coroutine J → Bool
  | .put (.called _) | .patch (.called _) | .delete (.called _) | .setStatus _ | .joint (.called _) => true
  | .sweep (.called _) | .putRun (.called _) | .next (.called _) | .deleteRun (.called _ _) | .cancel (.called _) => true
  | _ => false

inductive Kind where
  | put
  | patch
  | delete
  | setStatus
  | joint
  | sweep
  | putRun
  | next
  | worker
  | deleteRun
  | cancel
deriving DecidableEq,Repr

def Coroutine.kind : Coroutine J → Kind
  | .put _ => .put
  | .patch _ => .patch
  | .delete _ => .delete
  | .setStatus _ => .setStatus
  | .joint _ => .joint
  | .sweep _ => .sweep
  | .putRun _ => .putRun
  | .next _ => .next
  | .worker _ _ => .worker
  | .deleteRun _ => .deleteRun
  | .cancel _ => .cancel

abbrev Pool (J : Type) := TaskPool.Pool (Server J) (Coroutine J)

abbrev Event (J : Type) := TaskPool.Event (Coroutine J) (Wake J)

abbrev Runs (text : String → J) (globalTtl : Option TtlConfig) : Pool J → List (Pool J × Event J) → Pool J → Prop :=
  TaskPool.Runs (resume text globalTtl)

-- Every call of the run is one of these.
def Called (callable : Coroutine J → Prop) : Pool J × Event J → Prop :=
  TaskPool.Meets callable fun _ _ _ => True

variable {text : String → J} {globalTtl : Option TtlConfig}

theorem goOn_store {τ ρ : Type} (wrap : τ → Coroutine J) (result : Server J × Outcome τ ρ) :
    (goOn wrap result).1 = result.1 := by
  unfold goOn
  split <;> rfl

theorem mem_goOn {τ ρ : Type} {wrap : τ → Coroutine J} {result : Server J × Outcome τ ρ} {u : Coroutine J} :
    u ∈ (goOn wrap result).2 ↔ ∃ task, result.2 = .suspended task ∧ u = wrap task := by
  unfold goOn
  split <;> rename_i ends <;> simp [ends]

-- `Runs.next` starts workers and `Runs.cancel` deletions; else a coroutine goes
-- on as what it is.
theorem resume_kind {w : Wake J} {s : Server J} {task u : Coroutine J} (spawned : u ∈ (resume text globalTtl w s task).2) :
    u.kind = task.kind ∨ task.kind = .next ∧ u.kind = .worker ∨ task.kind = .cancel ∧ u.kind = .deleteRun := by
  cases task with
  | put task | patch task | delete task | joint task | sweep task | putRun task | deleteRun task =>
    obtain ⟨_,_,rfl⟩ := mem_goOn.mp spawned
    exact .inl rfl
  | setStatus call =>
    dsimp only [resume] at spawned
    split at spawned <;> cases spawned
  | next task =>
    dsimp only [resume,goOnNext] at spawned
    split at spawned
    · obtain ⟨_,_,rfl⟩ := mem_goOn.mp spawned
      exact .inl rfl
    · rcases List.mem_cons.mp spawned with rfl | later
      · exact .inr (.inl ⟨rfl,rfl⟩)
      · obtain ⟨_,_,rfl⟩ := mem_goOn.mp later
        exact .inl rfl
  | worker run threadId => cases spawned
  | cancel task =>
    dsimp only [resume] at spawned
    unfold goOnCancel at spawned
    split at spawned
    · rw [List.mem_singleton.mp spawned]
      exact .inl rfl
    · obtain ⟨_,_,rfl⟩ := List.mem_map.mp spawned
      exact .inr (.inr ⟨rfl,rfl⟩)
    · cases spawned

end InmemRuntime.Tasks
