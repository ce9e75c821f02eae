import InmemRuntime.ThreadRecords

namespace InmemRuntime.RunExclusion
open OrderedDict ObjectHeap ThreadTtl RuntimeStore Serving ThreadOps RunOps JointStatus TtlSweep StoreWrites Tasks

variable {J : Type}

-- No two workers are inside `Runs.enter` for runs of one thread.
def Exclusive (p : Pool J) : Prop :=
  p.tasks.Pairwise fun task other => ∀ ref threadId ref' threadId', task = .worker ref threadId →
    other = .worker ref' threadId' → threadId ≠ threadId'

-- The runs that `Runs.next` has selected and not yet looked at.
def selected (s : Store J) : NextTask → List Nat
  | .called _ => []
  | .sleeping limit now | .locking limit now => (pendingRuns s now).take limit
  | .warning rest | .yielded rest => rest

-- The loop of `Runs.cancel` comes to the run before it is suspended again, and
-- writes to it: a rollback of a run without subscribers writes nothing.
def Interrupts (w : Wake J) (call : CancelCall) : Store J → List Nat → Nat → Prop
  | _,[],_ => False
  | s,other :: rest,ref => (s.run other).status.active = true ∧
      (w.queues (s.run other).runId (s.run other).threadId || call.action ≠ .rollback) = true ∧
      (other = ref ∨ Interrupts w call (interruptRun s w.now other) rest ref)

-- The step gives the run another status than running.
def Overwrites (w : Wake J) (s : Server J) : Coroutine J → Nat → Prop
  | .cancel (.authorizing call),ref => ∃ filters, w.auth = .ok filters ∧
      Interrupts w call s.store (candidateRuns s.store call filters) ref
  | .cancel (.looping call rest _ _),ref => Interrupts w call s.store rest ref
  | .joint (.called call),ref => (s.store.findThread call.threadId).isSome = true ∧
      s.store.findRun (some call.runId) call.threadId = some ref ∧ ∃ status, call.runEnd = .status status ∧ status ≠ .running
  | _,_ => False

-- The external cleanup that the step has awaited does not raise, and the step
-- goes on to drop the run.
def Removes (w : Wake J) (task : Coroutine J) (run : Run) : Prop := w.failure = none ∧ Drops task run

def Disturbs (w : Wake J) (s : Server J) (task : Coroutine J) (ref : Nat) : Prop :=
  Overwrites w s task ref ∨ Removes w task (s.store.run ref)

-- A run is left alone while its worker is inside `Runs.enter`, and a selected
-- pending run is not deleted before `Runs.next` comes to it.
def Beside (w : Wake J) (s : Server J) (task : Coroutine J) : Coroutine J → Prop
  | .worker ref _ => ¬ Disturbs w s task ref
  | _ => True

def SelectionStored (_ : Wake J) (s : Server J) : Coroutine J → Prop
  | .next task => ∀ ref ∈ selected s.store task, (s.store.run ref).status = .pending → ref ∈ s.store.boundRuns
  | _ => True

def Undisturbed : Pool J × Event J → Prop :=
  TaskPool.Respects (fun task => task.fresh = true) SelectionStored Beside

def RunsUsed (s : Server J) : Prop := ∀ ref ∈ s.store.boundRuns, ref < s.store.runs.next

def Executing (s : Store J) (ref : Nat) (threadId : String) : Prop :=
  ref ∈ s.boundRuns ∧ (s.run ref).status = .running ∧ (s.run ref).threadId = threadId

def Working (s : Server J) : Coroutine J → Prop
  | .worker ref threadId => Executing s.store ref threadId
  | _ => True

def Apart (task other : Coroutine J) : Prop :=
  ∀ ref threadId ref' threadId', task = .worker ref threadId → other = .worker ref' threadId' → threadId ≠ threadId'

theorem write_used {permit : Permit} {a b : Store J} (write : Write permit a b)
    (used : ∀ ref ∈ a.boundRuns, ref < a.runs.next) : ∀ ref ∈ b.boundRuns, ref < b.runs.next := by
  cases write with
  | removed ok | removedRun ok => exact fun ref member => used ref (List.mem_filter.mp member).1
  | newRun ok =>
    intro ref member
    rcases List.mem_append.mp member with old | new
    · exact Nat.lt_succ_of_lt (used ref old)
    · rw [List.mem_singleton.mp new]
      exact Nat.lt_succ_self _
  | _ => exact used

theorem writes_used {permit : Permit} {a b : Store J} (writes : Writes permit a b)
    (used : ∀ ref ∈ a.boundRuns, ref < a.runs.next) : ∀ ref ∈ b.boundRuns, ref < b.runs.next := by
  induction writes with
  | refl => exact used
  | tail _ write ih => exact write_used write ih

theorem runningOn_of_executing {s : Store J} {ref : Nat} {threadId : String} (executing : Executing s ref threadId) :
    runningOn s threadId = true := by
  obtain ⟨member,running,same⟩ := executing
  exact List.any_eq_true.mpr ⟨ref,member,by simp [running,same]⟩

-- What `Runs.next` hands out: a selected pending run of a thread without a
-- running one.
structure Hands (s : Server J) (chosen : List Nat) (s' : Server J) (ref : Nat) : Prop where
  selected : ref ∈ chosen
  pending : (s.store.run ref).status = .pending
  clear : runningOn s.store (s.store.run ref).threadId = false
  claimed : s'.store = claimRun s.store ref

theorem continueNext_hands {s : Server J} {rest : List Nat} {ref attempt : Nat}
    (hands : (continueNext s rest).2.2 = some (ref,attempt)) : Hands s rest (continueNext s rest).1 ref := by
  unfold continueNext at hands ⊢
  split at hands
  · cases hands
  · cases hands
  · rename_i first later found
    cases hands
    obtain ⟨pending,clear,skipped,split⟩ := scan_claimed found
    exact ⟨by simp [split],pending,clear,rfl⟩

theorem lockNext_hands {s : Server J} {limit : Nat} {now : Int} {ref attempt : Nat}
    (hands : (lockNext s limit now).2.2 = some (ref,attempt)) :
    Hands s ((pendingRuns s.store now).take limit) (lockNext s limit now).1 ref := by
  unfold lockNext at hands ⊢
  split at hands
  · cases hands
  · rename_i free
    rw [if_neg free]
    obtain ⟨chosen,pending,clear,claimed⟩ := continueNext_hands hands
    exact ⟨chosen,pending,clear,claimed⟩

theorem stepNext_hands {w : Wake J} {s : Server J} {task : NextTask} {ref attempt : Nat}
    (hands : (stepNext w s task).2.2 = some (ref,attempt)) : Hands s (selected s.store task) (stepNext w s task).1 ref := by
  cases task with
  | called limit => cases hands
  | sleeping limit now => exact lockNext_hands hands
  | locking limit now => exact lockNext_hands hands
  | warning rest => exact continueNext_hands hands
  | yielded rest =>
    dsimp only [stepNext] at hands ⊢
    split at hands
    · cases hands
    · exact continueNext_hands hands

variable {text : String → J} {globalTtl : Option TtlConfig}

theorem resume_worker {w : Wake J} {s : Server J} {task : Coroutine J} {ref : Nat} {threadId : String}
    (spawned : .worker ref threadId ∈ (resume text globalTtl w s task).2) : ∃ next, task = .next next ∧
      Hands s (selected s.store next) (resume text globalTtl w s task).1 ref ∧ threadId = (s.store.run ref).threadId := by
  have kind := resume_kind spawned
  cases task with
  | next next =>
    refine ⟨next,rfl,?_⟩
    dsimp only [resume,goOnNext] at spawned ⊢
    split at spawned
    · obtain ⟨_,_,same⟩ := mem_goOn.mp spawned
      cases same
    · rename_i claimed attempt handed
      rcases List.mem_cons.mp spawned with same | later
      · cases same
        have hands := stepNext_hands handed
        rw [goOn_store]
        refine ⟨hands,?_⟩
        dsimp only
        rw [hands.claimed,run_claimRun_self]
      · obtain ⟨_,_,same⟩ := mem_goOn.mp later
        cases same
  | worker ref threadId => cases spawned
  | _ => simp [Coroutine.kind] at kind

section disturbing
variable {w : Wake J} {s : Server J} {ref : Nat} {threadId : String}

theorem executing_interrupt {store : Store J} {now : Int} {other : Nat} (apart : ref ≠ other)
    (executing : Executing store ref threadId) : Executing (interruptRun store now other) ref threadId := by
  unfold Executing
  rw [boundRuns_interruptRun,run_interruptRun_other apart]
  exact executing

theorem cancelLoop_spares {call : CancelCall} {rest : List Nat} {deletes : List (Option String × String)} {cancelable : Bool}
    (executing : Executing s.store ref threadId) (spared : ¬ Interrupts w call s.store rest ref) :
    Executing (cancelLoop w s call rest deletes cancelable).1.store ref threadId := by
  induction rest generalizing s cancelable with
  | nil =>
    dsimp only [cancelLoop]
    split
    · exact executing
    · split <;> exact executing
  | cons other rest ih =>
    dsimp only [cancelLoop]
    split
    · rename_i active
      split
      · rename_i writes
        have apart : ref ≠ other := fun same => spared ⟨active,writes,.inl same.symm⟩
        exact ih (executing_interrupt apart executing) fun later => spared ⟨active,writes,.inr later⟩
      · exact executing
    · exact executing

theorem cancelLoop_interrupted {call : CancelCall} {rest : List Nat} {deletes : List (Option String × String)} {cancelable : Bool}
    (interrupted : (s.store.run ref).status = .interrupted) :
    ((cancelLoop w s call rest deletes cancelable).1.store.run ref).status = .interrupted := by
  induction rest generalizing s cancelable with
  | nil =>
    dsimp only [cancelLoop]
    split
    · exact interrupted
    · split <;> exact interrupted
  | cons other rest ih =>
    dsimp only [cancelLoop]
    split
    · split
      · apply ih
        show ((interruptRun s.store w.now other).run ref).status = .interrupted
        by_cases same : ref = other
        · rw [same,run_interruptRun_self]
        · rw [run_interruptRun_other same]
          exact interrupted
      · exact interrupted
    · exact interrupted

theorem cancelLoop_interrupts {call : CancelCall} {rest : List Nat} {deletes : List (Option String × String)} {cancelable : Bool}
    (interrupts : Interrupts w call s.store rest ref) :
    ((cancelLoop w s call rest deletes cancelable).1.store.run ref).status = .interrupted := by
  induction rest generalizing s cancelable with
  | nil => exact interrupts.elim
  | cons other rest ih =>
    obtain ⟨active,writes,here⟩ := interrupts
    dsimp only [cancelLoop]
    rw [if_pos active,if_pos writes]
    rcases here with rfl | later
    · apply cancelLoop_interrupted
      show ((interruptRun s.store w.now other).run other).status = .interrupted
      rw [run_interruptRun_self]
    · exact ih later

-- A step that neither cancels nor ends a run by a status of its own keeps what
-- it does not drop.
theorem executing_plain {task : Coroutine J} (used : RunsUsed s) (executing : Executing s.store ref threadId)
    (sets : ∀ run status, Sets w s task ref run status → status = .running) (clear : ¬ Drops task (s.store.run ref)) :
    Executing (resume text globalTtl w s task).1.store ref threadId := by
  obtain ⟨member,running,same⟩ := executing
  have kept : ∀ run : Run, ∀ status now, Drops task {run with status, updatedAt := now} → Drops task run := by
    intro run status now drops
    unfold Drops at drops ⊢
    split at drops <;> exact drops
  obtain ⟨stored,holds⟩ := writes_hold
    (q := fun run => run.status = .running ∧ run.threadId = threadId ∧ ¬ Drops task run) (resume_writes w s task)
    (fun _ _ => used ref member)
    (fun run status now may holds => ⟨sets run status may,holds.2.1,fun drops => holds.2.2 (kept run status now drops)⟩)
    (fun run holds => holds.2.2) member ⟨running,same,clear⟩
  exact ⟨stored,holds.1,holds.2.1⟩

-- A sweep changes the store as the deletion does that it awaits.
theorem sweep_store {rest : List String} {inner : DeleteTask} :
    (stepSweep globalTtl w s (.deleting rest inner)).1.store = (stepDelete w s inner).1.store := by
  dsimp only [stepSweep]
  split <;> rename_i stepped <;> rw [stepped]
  · rw [sweepLoop_store]
    rfl
  · split
    · rw [sweepLoop_store]
      rfl
    · rfl
  · rfl

-- A deletion whose cleanup raises leaves the store as it is.
theorem failed_store {task : Coroutine J} {run : Run} {fault : Fault} (failed : w.failure = some fault) (drops : Drops task run) :
    (resume text globalTtl w s task).1.store = s.store := by
  unfold Drops at drops
  split at drops
  · simp [resume,goOn_store,stepDelete,external,failed]
  · simp [resume,goOn_store,sweep_store,stepDelete,external,failed]
  · simp [resume,goOn_store,stepDeleteRun,external,failed]
  · simp [resume,goOn_store,stepJoint,stepDeleteRun,external,failed]
  · exact drops.elim

-- One that comes through takes the run out of the store.
theorem removed_run {task : Coroutine J} (unfailed : w.failure = none) (drops : Drops task (s.store.run ref)) :
    ref ∉ (resume text globalTtl w s task).1.store.boundRuns := by
  unfold Drops at drops
  split at drops
  · simp [resume,goOn_store,stepDelete,external,unfailed,Server.withStore,removeThread,drops]
  · simp [resume,goOn_store,sweep_store,stepDelete,external,unfailed,Server.withStore,removeThread,drops]
  · simp [resume,goOn_store,stepDeleteRun,external,unfailed,Server.withStore,removeRun,Store.isRun,drops]
  · simp [resume,goOn_store,stepJoint,stepDeleteRun,external,unfailed,Server.withStore,removeRun,Store.isRun,finishRollback,
      finishThread,drops]
  · exact drops.elim

theorem executing_kept {task : Coroutine J} (used : RunsUsed s) (executing : Executing s.store ref threadId)
    (undisturbed : ¬ Disturbs w s task ref) : Executing (resume text globalTtl w s task).1.store ref threadId := by
  obtain ⟨spared,stays⟩ := not_or.mp undisturbed
  by_cases drops : Drops task (s.store.run ref)
  · cases failed : w.failure with
    | none => exact absurd ⟨failed,drops⟩ stays
    | some fault =>
      rw [failed_store failed drops]
      exact executing
  cases task with
  | cancel task =>
    have left : ∀ result : Server J × Outcome CancelTask (List (Option String × String)),
        Executing result.1.store ref threadId → Executing (goOnCancel (J:=J) result).1.store ref threadId := by
      intro result kept
      unfold goOnCancel
      split <;> exact kept
    apply left
    cases task with
    | called call =>
      dsimp only [stepCancel]
      split <;> exact executing
    | authorizing call =>
      dsimp only [stepCancel]
      unfold authorized
      split
      · exact executing
      · rename_i filters answered
        dsimp only
        have here : ¬ Interrupts w call s.store (candidateRuns s.store call filters) ref :=
          fun interrupts => spared ⟨filters,answered,interrupts⟩
        split
        · split <;> exact executing
        · rename_i candidates
          rw [candidates] at here
          exact cancelLoop_spares executing here
    | looping call rest deletes cancelable => exact cancelLoop_spares executing spared
  | joint task =>
    cases task with
    | called call =>
      cases found : s.store.findThread call.threadId with
      | none =>
        have same : (resume text globalTtl w s (.joint (.called call))).1 = s := by
          simp [resume,goOn,stepJoint,found]
        rw [same]
        exact executing
      | some thread =>
        refine executing_plain used executing (fun run status sets => ?_) drops
        by_contra other
        exact spared ⟨by simp [found],sets.1,status,sets.2,other⟩
    | rollingBack call thread now inner => exact executing_plain used executing (fun _ _ sets => sets.elim) drops
  | next task => exact executing_plain used executing (fun _ _ sets => sets.2) drops
  | _ => exact executing_plain used executing (fun _ _ sets => sets.elim) drops

theorem disturbed {task : Coroutine J} (disturbs : Disturbs w s task ref) :
    ¬ Executing (resume text globalTtl w s task).1.store ref threadId := by
  intro executing
  obtain ⟨stored,running,_⟩ := executing
  rcases disturbs with overwrites | ⟨unfailed,drops⟩
  · unfold Overwrites at overwrites
    split at overwrites
    · rename_i call _
      obtain ⟨filters,answered,interrupts⟩ := overwrites
      have interrupted : ((stepCancel w s (.authorizing call)).1.store.run ref).status = .interrupted := by
        simp only [stepCancel,authorized,answered]
        split
        · rename_i empty
          rw [empty] at interrupts
          exact interrupts.elim
        · rename_i candidates
          rw [candidates] at interrupts
          exact cancelLoop_interrupts interrupts
      have same : (resume text globalTtl w s (.cancel (.authorizing call))).1 = (stepCancel w s (.authorizing call)).1 := by
        dsimp only [resume]
        unfold goOnCancel
        split <;> rfl
      rw [same,interrupted] at running
      cases running
    · rename_i call rest deletes cancelable _
      have same : (resume text globalTtl w s (.cancel (.looping call rest deletes cancelable))).1 =
          (cancelLoop w s call rest deletes cancelable).1 := by
        dsimp only [resume]
        unfold goOnCancel
        split <;> rfl
      rw [same,cancelLoop_interrupts overwrites] at running
      cases running
    · rename_i call _
      obtain ⟨there,found,status,ends,other⟩ := overwrites
      obtain ⟨thread,here⟩ := Option.isSome_iff_exists.mp there
      simp [resume,goOn,stepJoint,here,found,ends,Server.withStore,finishStatus,finishThread] at running
      exact other running
    · exact overwrites.elim
  · exact removed_run unfailed drops stored

-- The condition is the exact effect: a run goes on executing unless the step
-- disturbs it.
theorem kept_iff {task : Coroutine J} (used : RunsUsed s) (executing : Executing s.store ref threadId) :
    Executing (resume text globalTtl w s task).1.store ref threadId ↔ ¬ Disturbs w s task ref :=
  ⟨fun kept disturbs => disturbed disturbs kept,executing_kept used executing⟩

end disturbing

theorem apart_other {task other : Coroutine J} (idle : other.kind ≠ .worker) : Apart task other := by
  rintro ref threadId ref' threadId' _ rfl
  exact absurd rfl idle

theorem apart_others {tasks : List (Coroutine J)} (idle : ∀ task ∈ tasks, task.kind ≠ .worker) : tasks.Pairwise Apart := by
  induction tasks with
  | nil => exact .nil
  | cons task rest ih =>
    refine List.pairwise_cons.mpr ⟨fun other member => apart_other (idle other (List.mem_cons_of_mem _ member)),ih ?_⟩
    exact fun other member => idle other (List.mem_cons_of_mem _ member)

theorem outline : TaskPool.Outline (resume text globalTtl) (fun task : Coroutine J => task.fresh = true) SelectionStored
    Beside RunsUsed Working Apart where
  symm task other apart ref threadId ref' threadId' first second :=
    Ne.symm (apart ref' threadId' ref threadId second first)
  call s task used fresh := by
    cases task with
    | worker ref threadId => cases fresh
    | _ => exact ⟨trivial,fun other ref threadId ref' threadId' same => by cases same⟩
  shared w s task stored used working := writes_used (resume_writes w s task) used
  own w s task stored used working u spawned := by
    cases u with
    | worker ref threadId =>
      obtain ⟨next,rfl,hands,rfl⟩ := resume_worker spawned
      have here : ref ∈ s.store.boundRuns := stored ref hands.selected hands.pending
      show Executing _ ref _
      unfold Executing
      rw [hands.claimed,run_claimRun_self]
      exact ⟨here,rfl,rfl⟩
    | _ => trivial
  spawned w s task stored used working := by
    by_cases claims : task.kind = .next
    · cases task with
      | next next =>
        dsimp only [resume,goOnNext]
        have rest : ∀ u ∈ (goOn .next ((stepNext w s next).1,(stepNext w s next).2.1)).2, Coroutine.kind u ≠ .worker := by
          intro u member
          obtain ⟨_,_,rfl⟩ := mem_goOn.mp member
          simp [Coroutine.kind]
        split
        · exact apart_others rest
        · exact List.pairwise_cons.mpr ⟨fun u member => apart_other (rest u member),apart_others rest⟩
      | _ => cases claims
    · refine apart_others fun u spawned isWorker => ?_
      rcases resume_kind spawned with same | ⟨next,_⟩ | ⟨_,deletes⟩
      · cases task with
        | worker ref threadId => cases spawned
        | _ => rw [isWorker] at same; cases same
      · exact claims next
      · rw [isWorker] at deletes
        cases deletes
  other w s task other stored beside used working there apart := by
    cases other with
    | worker ref threadId => exact (kept_iff used there).mpr beside
    | _ => trivial
  spread w s task other stored used working there apart u spawned := by
    rintro ref threadId ref' threadId' rfl rfl rfl
    obtain ⟨next,rfl,hands,same⟩ := resume_worker spawned
    have busy := runningOn_of_executing there
    rw [same,hands.clear] at busy
    cases busy

theorem runs_exclusive {start p : Pool J} {taken : List (Pool J × Event J)} (runs : Runs text globalTtl start taken p)
    (used : RunsUsed start.shared) (begins : start.tasks = []) (undisturbed : ∀ step ∈ taken, Undisturbed step) :
    Exclusive p ∧ ∀ step ∈ taken, Exclusive step.1 := by
  have initial : TaskPool.Holds RunsUsed Working Apart start := ⟨used,by simp [begins],by simp [begins]⟩
  obtain ⟨last,each⟩ := TaskPool.runs_outline outline runs initial undisturbed
  exact ⟨last.pairs,fun step member => (each step member).pairs⟩

def pendingRun (runId : String) : Run := ⟨some runId,"T","a",.pending,0,0⟩

def toyServer : Server String :=
  .start (((ThreadRecords.ofThreads ["T"]).appendRun (pendingRun "r1")).appendRun (pendingRun "r2"))

def claimFirst : List (Event String) :=
  [.call (.next (.called 1)),.resume 0 (.quiet 1),.resume 0 (.quiet 1),.resume 1 (.quiet 1)]

theorem next_undisturbing (w : Wake J) (s : Server J) (task : NextTask) (ref : Nat) :
    ¬ Disturbs w s (.next task) ref := by
  intro disturbs
  rcases disturbs with overwrites | ⟨_,drops⟩
  · exact overwrites
  · exact drops

theorem pendingRuns_stored {s : Store J} {now : Int} {ref : Nat} (member : ref ∈ pendingRuns s now) : ref ∈ s.boundRuns := by
  unfold pendingRuns at member
  rw [List.mem_insertionSort] at member
  exact (List.mem_filter.mp member).1

theorem runs_exclusive_claim : ∃ taken p, Runs id none ⟨toyServer,[]⟩ taken p ∧ .worker 0 "T" ∈ p.tasks ∧ Exclusive p := by
  have runs := TaskPool.perform_runs .nil (rfl : TaskPool.perform (resume id none) ⟨toyServer,[]⟩ claimFirst = some _)
  have used : RunsUsed toyServer := (by decide : ∀ ref ∈ toyServer.store.boundRuns, ref < toyServer.store.runs.next)
  refine ⟨_,_,runs,.head _,(runs_exclusive runs used rfl ?_).1⟩
  refine List.forall_mem_cons.mpr ⟨rfl,List.forall_mem_cons.mpr ⟨?_,List.forall_mem_cons.mpr ⟨?_,
    List.forall_mem_cons.mpr ⟨?_,by simp⟩⟩⟩⟩
  all_goals
    intro task here
    cases here
  · exact ⟨fun _ member => (List.not_mem_nil member).elim,List.forall_mem_cons.mpr ⟨trivial,by simp⟩⟩
  · exact ⟨fun ref member _ => pendingRuns_stored (List.mem_of_mem_take member),List.forall_mem_cons.mpr ⟨trivial,by simp⟩⟩
  · exact ⟨fun _ member => (List.not_mem_nil member).elim,List.forall_mem_cons.mpr ⟨next_undisturbing _ _ _ _,
      List.forall_mem_cons.mpr ⟨trivial,by simp⟩⟩⟩

-- The first run is interrupted while its worker goes on.
def cancelAndClaim : List (Event String) :=
  claimFirst ++ [.call (.cancel (.called ⟨some ["r1"],.interrupt,some "T",none,none⟩)),.resume 1 (.quiet 1),
    .resume 1 (.quiet 1),.call (.next (.called 1)),.resume 1 (.quiet 1),.resume 1 (.quiet 1)]

theorem two_runs_execute : ∃ taken p, Runs id none ⟨toyServer,[]⟩ taken p ∧
    .worker 0 "T" ∈ p.tasks ∧ .worker 1 "T" ∈ p.tasks ∧ ¬ Exclusive p := by
  refine ⟨_,_,TaskPool.perform_runs .nil (rfl : TaskPool.perform _ _ cancelAndClaim = some _),?_,?_,?_⟩
  · exact .head _
  · exact .tail _ (.head _)
  · intro exclusive
    exact (List.pairwise_cons.mp exclusive).1 (.worker 1 "T") (.head _) 0 "T" 1 "T" rfl rfl rfl

end InmemRuntime.RunExclusion
