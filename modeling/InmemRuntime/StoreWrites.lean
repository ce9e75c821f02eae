import InmemRuntime.Tasks
import Mathlib.Logic.Relation

namespace InmemRuntime.StoreWrites
open OrderedDict ThreadTtl RuntimeStore Serving ThreadOps RunOps JointStatus TtlSweep Tasks

variable {J : Type}

-- Which runs may be appended, given another status or dropped. A stored run is
-- named by its reference and its record.
structure Permit where
  adds : Run → Prop
  sets : Nat → Run → RunStatus → Prop
  drops : Nat → Run → Prop

-- The changes of `conn.store`, one by one.
inductive Write (permit : Permit) (s : Store J) : Store J → Prop where
  | thread {ref : Nat} {f : Thread J → Thread J} (same : ∀ t, (f t).threadId = t.threadId) :
      Write permit s (s.updateThread ref f)
  | newThread {thread : Thread J} : Write permit s (s.appendThread thread)
  | replaced {list : Nat} {threadId : String} {thread : Thread J} : Write permit s (replaceThread s list threadId thread)
  | removed {threadId : String} {matching : Nat}
      (ok : ∀ ref ∈ s.boundRuns, (s.run ref).threadId = threadId → permit.drops ref (s.run ref)) :
      Write permit s (removeThread s threadId matching)
  | newRun {run : Run} (ok : permit.adds run) : Write permit s (s.appendRun run)
  | run {ref : Nat} {status : RunStatus} {now : Int} (ok : permit.sets ref (s.run ref) status) :
      Write permit s (s.updateRun ref fun run => {run with status, updatedAt := now})
  | claimed {ref : Nat} (ok : permit.sets ref (s.run ref) .running) : Write permit s (claimRun s ref)
  | removedRun {runId : Option String} {threadId : String}
      (ok : ∀ ref ∈ s.boundRuns, s.isRun runId threadId ref → permit.drops ref (s.run ref)) :
      Write permit s (removeRun s runId threadId)
  | sidecar {ttls : Dict String TtlState} : Write permit s {s with ttls}

abbrev Writes (permit : Permit) : Store J → Store J → Prop := Relation.ReflTransGen (Write permit)

-- What a step of each coroutine may do to the runs, read off the state before.
def Adds (s : Server J) : Coroutine J → Run → Prop
  | .putRun (.logging _ _ threadId _),run => run.threadId = threadId
  | .putRun _,run => s.maintenance.contains run.threadId = false
  | _,_ => False

def Cancels (w : Wake J) (s : Server J) : CancelTask → Nat → Prop
  | .called _,_ => False
  | .authorizing call,ref => ∃ filters, w.auth = .ok filters ∧ ref ∈ candidateRuns s.store call filters
  | .looping _ rest _ _,ref => ref ∈ rest

def Sets (w : Wake J) (s : Server J) : Coroutine J → Nat → Run → RunStatus → Prop
  | .next _,_,run,status => run.status = .pending ∧ status = .running
  | .cancel task,ref,run,status => Cancels w s task ref ∧ run.status.active = true ∧ status = .interrupted
  | .joint (.called call),ref,_,status =>
    s.store.findRun (some call.runId) call.threadId = some ref ∧ call.runEnd = .status status
  | _,_,_,_ => False

def Drops : Coroutine J → Run → Prop
  | .delete (.streams threadId _),run | .sweep (.deleting _ (.streams threadId _)),run => run.threadId = threadId
  | .deleteRun (.streams runId threadId),run | .joint (.rollingBack _ _ _ (.streams runId threadId)),run =>
    run.runId = runId ∧ run.threadId = threadId
  | _,_ => False

def permitOf (w : Wake J) (s : Server J) (task : Coroutine J) : Permit :=
  ⟨Adds s task,Sets w s task,fun _ run => Drops task run⟩

variable {permit : Permit} {w : Wake J} {s : Server J} {τ ρ : Type}

theorem one {a b : Store J} (write : Write permit a b) : Writes permit a b := .single write

-- A step of a coroutine that leaves the maintenance markers alone.
structure Steps (permit : Permit) (s s' : Server J) : Prop where
  writes : Writes permit s.store s'.store
  maintenance : s'.maintenance = s.maintenance

theorem Steps.refl {s : Server J} : Steps permit s s := ⟨.refl,rfl⟩

theorem Steps.trans {a b c : Server J} (first : Steps permit a b) (second : Steps permit b c) : Steps permit a c :=
  ⟨first.writes.trans second.writes,second.maintenance.trans first.maintenance⟩

theorem Steps.store {store : Store J} (writes : Writes permit s.store store) : Steps permit s (s.withStore store) :=
  ⟨writes,rfl⟩

theorem external_steps {go : Server J × Outcome τ ρ} (goes : Steps permit s go.1) : Steps permit s (external w s go).1 := by
  unfold external
  split
  · exact .refl
  · exact goes

theorem authorized_steps {go : Filters J → Server J × Outcome τ ρ}
    (goes : ∀ filters, w.auth = .ok filters → Steps permit s (go filters).1) : Steps permit s (authorized w s go).1 := by
  unfold authorized
  split
  · exact .refl
  · exact goes _ ‹_›

theorem gated_steps {threadId : String} {again : τ} {go : Server J × Outcome τ ρ}
    (goes : s.maintenance.contains threadId = false → Steps permit s go.1) :
    Steps permit s (gated s threadId again go).1 := by
  unfold gated
  split
  · exact .refl
  · exact goes (Bool.eq_false_iff.mpr ‹_›)

theorem overrideTtl_steps {store : Store J} {now : Int} {threadId : String} {ttl : Option TtlConfig} {value : List Nat}
    {result : Server J × Outcome τ (List Nat)} (prior : Write permit s.store store)
    (overrides : result = overrideTtl (s.withStore store) now threadId ttl value) : Steps permit s result.1 := by
  subst overrides
  unfold overrideTtl
  split
  · exact .store (one prior)
  · split
    · exact .store (one prior)
    · exact .store ((one prior).trans (one .sidecar))

theorem put_steps (w : Wake J) (s : Server J) (task : PutTask J) :
    Steps permit s (stepPut w s task).1 := by
  have puts : ∀ now call filters, Steps permit s (putThread s now call filters).1 := by
    intro now call filters
    unfold putThread
    split
    · exact overrideTtl_steps .newThread rfl
    · split
      · exact .refl
      · split <;> exact .refl
  cases task with
  | called call => exact .refl
  | authorizing call => exact authorized_steps fun _ _ => gated_steps fun _ => puts _ _ _
  | waiting call filters => exact gated_steps fun _ => puts _ _ _

theorem patch_steps (w : Wake J) (s : Server J) (task : PatchTask J) :
    Steps permit s (stepPatch w s task).1 := by
  have patches : ∀ now call list filters, Steps permit s (patchThread s now call list filters).1 := by
    intro now call list filters
    unfold patchThread
    split
    · exact .refl
    · split
      · exact .refl
      · exact overrideTtl_steps .replaced rfl
  cases task with
  | called call =>
    dsimp only [stepPatch]
    split <;> exact .refl
  | authorizing call list => exact authorized_steps fun _ _ => gated_steps fun _ => patches _ _ _ _
  | waiting call list filters => exact gated_steps fun _ => patches _ _ _ _

theorem delete_steps (w : Wake J) (s : Server J) (task : DeleteTask)
    (drops : ∀ threadId matching, task = .streams threadId matching → ∀ ref ∈ s.store.boundRuns,
      (s.store.run ref).threadId = threadId → permit.drops ref (s.store.run ref)) :
    Steps permit s (stepDelete w s task).1 := by
  cases task with
  | called threadId => exact .refl
  | authorizing threadId matching =>
    refine authorized_steps fun filters _ => ?_
    split
    · exact .refl
    · split <;> exact .refl
  | checkpoints threadId matching => exact external_steps .refl
  | streams threadId matching => exact external_steps (.store <| one (.removed (drops _ _ rfl)))

theorem setStatus_writes {s store : Store J} {now : Int} {call : StatusCall J} (set : setStatus s now call = .ok store) :
    Writes permit s store := by
  unfold setStatus at set
  split at set
  · cases set
  · cases set
    exact one (.thread fun _ => rfl)

theorem deleteRun_steps (w : Wake J) (s : Server J) (task : DeleteRunTask)
    (drops : ∀ runId threadId, task = .streams runId threadId → ∀ ref ∈ s.store.boundRuns,
      s.store.isRun runId threadId ref → permit.drops ref (s.store.run ref)) :
    Steps permit s (stepDeleteRun w s task).1 := by
  cases task with
  | called runId threadId => exact .refl
  | authorizing runId threadId =>
    refine authorized_steps fun filters _ => ?_
    split
    · exact .refl
    · split <;> exact .refl
  | checkpoints runId threadId => exact external_steps .refl
  | streams runId threadId => exact external_steps (.store <| one (.removedRun (drops _ _ rfl)))

variable {text : String → J} {globalTtl : Option TtlConfig}

theorem finishThread_writes (s : Store J) (now : Int) (call : JointCall J) (thread : Nat) (status : ThreadStatus) :
    Writes permit s (finishThread text s now call thread status) := one (.thread fun _ => rfl)

theorem joint_steps (w : Wake J) (s : Server J) (task : JointTask J)
    (sets : ∀ call ref status, task = .called call → s.store.findRun (some call.runId) call.threadId = some ref →
      call.runEnd = .status status → permit.sets ref (s.store.run ref) status)
    (drops : ∀ call thread now runId threadId, task = .rollingBack call thread now (.streams runId threadId) →
      ∀ ref ∈ s.store.boundRuns, s.store.isRun runId threadId ref → permit.drops ref (s.store.run ref)) :
    Steps permit s (stepJoint text w s task).1 := by
  cases task with
  | called call =>
    dsimp only [stepJoint]
    split
    · exact .refl
    · split
      · exact .refl
      · rename_i run found
        split
        · rename_i status ends
          exact .store ((one (.run (sets call run status rfl found ends))).trans (finishThread_writes _ _ _ _ _))
        · exact .refl
  | rollingBack call thread now inner =>
    have inside : Steps permit s (stepDeleteRun w s inner).1 := by
      refine deleteRun_steps w s inner ?_
      rintro runId threadId rfl
      exact drops call thread now runId threadId rfl
    dsimp only [stepJoint]
    split <;> rename_i stepped <;> rw [stepped] at inside
    · exact inside
    · exact inside
    · exact ⟨inside.writes.trans (finishThread_writes _ _ _ _ _),inside.maintenance⟩

theorem sweepLoop_store (w : Wake J) (s : Server J) (rest : List String) :
    (sweepLoop globalTtl w s rest).1.store = s.store := by
  induction rest with
  | nil => rfl
  | cons threadId rest ih =>
    unfold sweepLoop
    split
    · exact ih
    · split
      · exact ih
      · split <;> rfl

theorem sweep_writes (w : Wake J) (s : Server J) (task : SweepTask)
    (drops : ∀ rest threadId matching, task = .deleting rest (.streams threadId matching) →
      ∀ ref ∈ s.store.boundRuns, (s.store.run ref).threadId = threadId → permit.drops ref (s.store.run ref)) :
    Writes permit s.store (stepSweep globalTtl w s task).1.store := by
  cases task with
  | called call =>
    dsimp only [stepSweep]
    split
    · split
      · exact .refl
      · rw [sweepLoop_store]
    · rw [sweepLoop_store]
  | deleting rest inner =>
    have inside : Steps permit s (stepDelete w s inner).1 := by
      refine delete_steps w s inner ?_
      rintro threadId matching rfl
      exact drops rest threadId matching rfl
    dsimp only [stepSweep]
    split <;> rename_i stepped <;> rw [stepped] at inside
    · exact inside.writes
    · rw [sweepLoop_store]
      exact inside.writes
    · split
      · rw [sweepLoop_store]
        exact inside.writes
      · exact inside.writes
    · exact inside.writes
  | checkpointer held rest state updatedAt =>
    dsimp only [stepSweep]
    split <;> exact .refl
  | pruning held rest state updatedAt =>
    dsimp only [stepSweep]
    split
    · exact .refl
    · rw [sweepLoop_store]
      exact one .sidecar

theorem insertRun_writes (s : Store J) (now : Int) (call : PutRunCall J) (threadId : String)
    (adds : ∀ run, run.threadId = threadId → permit.adds run) :
    Writes permit s (insertRun s now call threadId).1 := by
  unfold insertRun
  dsimp only
  split
  · exact .refl
  · exact one (.newRun (adds _ rfl))

theorem putRun_steps (w : Wake J) (s : Server J) (task : PutRunTask J)
    (adds : ∀ run, Adds s (.putRun task) run → permit.adds run) :
    Steps permit s (stepPutRun text w s task).1 := by
  have puts : (∀ run : Run, s.maintenance.contains run.threadId = false → permit.adds run) →
      ∀ call assistant filters, (∀ threadId, call.threadId = some threadId → s.maintenance.contains threadId = false) →
      Steps permit s (putRun text w s call assistant filters).1 := by
    intro adds call assistant filters free
    unfold putRun
    split
    · exact .refl
    · rename_i threadId here
      split
      · split
        · exact .refl
        · refine .store ((one (.thread (markBusy_threadId _ _ _))).trans (insertRun_writes _ _ _ _ ?_))
          rintro run rfl
          exact adds run (free _ here)
      · split <;> exact .refl
  have gates : (∀ run : Run, s.maintenance.contains run.threadId = false → permit.adds run) →
      ∀ call assistant filters, Steps permit s (gatedPutRun text w s call assistant filters).1 := by
    intro adds call assistant filters
    unfold gatedPutRun
    split
    · exact puts adds _ _ _ (by simp [*])
    · rename_i threadId here
      refine gated_steps fun free => puts adds _ _ _ ?_
      rintro other same
      cases here.symm.trans same
      exact free
  cases task with
  | called call =>
    dsimp only [stepPutRun]
    split <;> exact .refl
  | authorizing call assistant =>
    refine authorized_steps fun filters _ => ?_
    split
    · exact gates adds _ _ _
    · exact .refl
  | authorizingAssistant call assistant filters =>
    refine authorized_steps fun assistantFilters _ => ?_
    split
    · exact .refl
    · exact gates adds _ _ _
  | waiting call assistant filters => exact gates adds _ _ _
  | logging call assistant threadId createdAt =>
    exact .store ((one .newThread).trans (insertRun_writes _ _ _ _ fun run same => adds run same))

theorem scan_claimed {s : Store J} {selected rest : List Nat} {ref : Nat}
    (claimed : scanPending s selected = .claimed ref rest) : (s.run ref).status = .pending ∧
      runningOn s (s.run ref).threadId = false ∧ ∃ skipped, selected = skipped ++ ref :: rest := by
  induction selected with
  | nil => cases claimed
  | cons first selected ih =>
    have later : scanPending s selected = .claimed ref rest → (s.run ref).status = .pending ∧
        runningOn s (s.run ref).threadId = false ∧ ∃ skipped, first :: selected = skipped ++ ref :: rest := by
      intro claimed
      obtain ⟨pending,clear,skipped,split⟩ := ih claimed
      exact ⟨pending,clear,first :: skipped,by simp [split]⟩
    unfold scanPending at claimed
    split at claimed
    · exact later claimed
    · split at claimed
      · cases claimed
      · split at claimed
        · exact later claimed
        · cases claimed
          exact ⟨Decidable.not_not.mp ‹_›,Bool.eq_false_iff.mpr ‹_›,[],rfl⟩

theorem continueNext_steps (s : Server J) (rest : List Nat)
    (sets : ∀ ref run, run.status = .pending → permit.sets ref run .running) :
    Steps permit s (continueNext s rest).1 := by
  unfold continueNext
  split
  · exact ⟨.refl,rfl⟩
  · exact .refl
  · exact .store (one (.claimed (sets _ _ (scan_claimed ‹_›).1)))

theorem next_steps (w : Wake J) (s : Server J) (task : NextTask)
    (sets : ∀ ref run, run.status = .pending → permit.sets ref run .running) :
    Steps permit s (stepNext w s task).1 := by
  have locks : ∀ limit now, Steps permit s (lockNext s limit now).1 := by
    intro limit now
    unfold lockNext
    split
    · exact .refl
    · have inside := continueNext_steps {s with runLock := true} ((pendingRuns s.store now).take limit) sets
      exact ⟨inside.writes,inside.maintenance⟩
  cases task with
  | called limit => exact .refl
  | sleeping limit now => exact locks _ _
  | locking limit now => exact locks _ _
  | warning rest => exact continueNext_steps _ _ sets
  | yielded rest =>
    dsimp only [stepNext]
    split
    · exact ⟨.refl,rfl⟩
    · exact continueNext_steps _ _ sets

theorem interruptRun_writes {s : Store J} {now : Int} {ref : Nat} (sets : permit.sets ref (s.run ref) .interrupted) :
    Writes permit s (interruptRun s now ref) := by
  unfold interruptRun
  dsimp only
  split
  · split
    · rename_i thread _
      have marked : Write permit s (s.updateThread thread fun thread => {thread with status := .idle, updatedAt := now}) :=
        .thread fun _ => rfl
      exact (one marked).trans (one (.run sets))
    · exact one (.run sets)
  · exact one (.run sets)

theorem cancelLoop_steps (w : Wake J) (s : Server J) (call : CancelCall) (rest : List Nat)
    (deletes : List (Option String × String)) (cancelable : Bool)
    (sets : ∀ ref ∈ rest, ∀ run, run.status.active = true → permit.sets ref run .interrupted) :
    Steps permit s (cancelLoop w s call rest deletes cancelable).1 := by
  induction rest generalizing s cancelable with
  | nil =>
    dsimp only [cancelLoop]
    split
    · exact .refl
    · split <;> exact .refl
  | cons ref rest ih =>
    dsimp only [cancelLoop]
    split
    · rename_i active
      split
      · have first : Steps permit s (s.withStore (interruptRun s.store w.now ref)) :=
          .store (interruptRun_writes (sets ref (by simp) _ active))
        exact first.trans (ih _ true fun ref member => sets ref (List.mem_cons_of_mem _ member))
      · exact .refl
    · exact .refl

theorem cancel_steps (w : Wake J) (s : Server J) (task : CancelTask)
    (sets : ∀ ref run, Cancels w s task ref → run.status.active = true → permit.sets ref run .interrupted) :
    Steps permit s (stepCancel w s task).1 := by
  cases task with
  | called call =>
    dsimp only [stepCancel]
    split <;> exact .refl
  | authorizing call =>
    refine authorized_steps fun filters answered => ?_
    split
    · split <;> exact .refl
    · rename_i ref rest candidates
      refine cancelLoop_steps w s call _ _ _ fun other member run => sets other run ⟨filters,answered,?_⟩
      rw [candidates]
      exact member
  | looping call rest deletes cancelable =>
    exact cancelLoop_steps w s call rest deletes cancelable fun ref member run => sets ref run member

theorem resume_steps (w : Wake J) (s : Server J) (task : Coroutine J) (other : task.kind ≠ .sweep) :
    Steps (permitOf w s task) s (resume text globalTtl w s task).1 := by
  cases task with
  | sweep task => exact absurd rfl other
  | put task =>
    dsimp only [resume]
    rw [goOn_store]
    exact put_steps w s task
  | patch task =>
    dsimp only [resume]
    rw [goOn_store]
    exact patch_steps w s task
  | delete task =>
    dsimp only [resume]
    rw [goOn_store]
    refine delete_steps w s task ?_
    rintro threadId matching rfl ref _ same
    exact same
  | setStatus call =>
    dsimp only [resume]
    split
    · exact .store (setStatus_writes ‹_›)
    · exact .refl
  | joint task =>
    dsimp only [resume]
    rw [goOn_store]
    refine joint_steps w s task ?_ ?_
    · rintro call ref status rfl found ends
      exact ⟨found,ends⟩
    · rintro call thread now runId threadId rfl ref _ same
      simpa [permitOf,Drops,Store.isRun] using same
  | putRun task =>
    dsimp only [resume]
    rw [goOn_store]
    exact putRun_steps w s task fun run added => added
  | next task =>
    have inside : Steps (permitOf w s (.next task)) s (stepNext w s task).1 :=
      next_steps w s task fun ref run pending => ⟨pending,rfl⟩
    dsimp only [resume,goOnNext]
    rw [goOn_store]
    split <;> exact inside
  | worker run threadId => exact .refl
  | deleteRun task =>
    dsimp only [resume]
    rw [goOn_store]
    refine deleteRun_steps w s task ?_
    rintro runId threadId rfl ref _ same
    simpa [permitOf,Drops,Store.isRun] using same
  | cancel task =>
    have inside : Steps (permitOf w s (.cancel task)) s (stepCancel w s task).1 :=
      cancel_steps w s task fun ref run cancels active => ⟨cancels,active,rfl⟩
    dsimp only [resume]
    unfold goOnCancel
    split <;> exact inside

theorem resume_writes (w : Wake J) (s : Server J) (task : Coroutine J) :
    Writes (permitOf w s task) s.store (resume text globalTtl w s task).1.store := by
  cases task with
  | sweep task =>
    dsimp only [resume]
    rw [goOn_store]
    refine sweep_writes w s task ?_
    rintro rest threadId matching rfl ref _ same
    exact same
  | _ => exact (resume_steps w s _ (by simp [Coroutine.kind])).writes

-- What holds of a stored run goes on to hold, and the run stays stored, when
-- no permitted status takes it away and no permitted drop meets it.
theorem write_holds {a b : Store J} {ref : Nat} {q : Run → Prop} (write : Write permit a b)
    (used : ∀ run, permit.adds run → ref < a.runs.next)
    (sets : ∀ run status now, permit.sets ref run status → q run → q {run with status, updatedAt := now})
    (drops : ∀ run, q run → ¬ permit.drops ref run) (member : ref ∈ a.boundRuns) (here : q (a.run ref)) :
    ref ∈ b.boundRuns ∧ q (b.run ref) ∧ a.runs.next ≤ b.runs.next := by
  cases write with
  | thread _ => exact ⟨member,here,le_refl _⟩
  | newThread => exact ⟨member,here,le_refl _⟩
  | replaced => exact ⟨member,here,le_refl _⟩
  | removed ok =>
    refine ⟨List.mem_filter.mpr ⟨member,bne_iff_ne.mpr fun same => ?_⟩,here,le_refl _⟩
    exact drops _ here (ok ref member same)
  | @newRun run ok =>
    have old : (a.appendRun run).run ref = a.run ref := ObjectHeap.Heap.read_alloc_old (used run ok)
    exact ⟨List.mem_append_left _ member,old ▸ here,Nat.le_succ _⟩
  | @run changed status now ok =>
    refine ⟨member,?_,le_refl _⟩
    by_cases same : ref = changed
    · subst same
      rw [Store.run_updateRun_self]
      exact sets _ _ _ ok here
    · rw [Store.run_updateRun_other same]
      exact here
  | @claimed changed ok =>
    refine ⟨member,?_,le_refl _⟩
    by_cases same : ref = changed
    · subst same
      rw [run_claimRun_self]
      exact sets _ _ (a.run ref).updatedAt ok here
    · rw [run_claimRun_other same]
      exact here
  | @removedRun runId threadId ok =>
    refine ⟨List.mem_filter.mpr ⟨member,?_⟩,here,le_refl _⟩
    rw [Bool.not_eq_true',Bool.eq_false_iff]
    exact fun same => drops _ here (ok ref member same)
  | sidecar => exact ⟨member,here,le_refl _⟩

theorem writes_hold {a b : Store J} {ref : Nat} {q : Run → Prop} (writes : Writes permit a b)
    (used : ∀ run, permit.adds run → ref < a.runs.next)
    (sets : ∀ run status now, permit.sets ref run status → q run → q {run with status, updatedAt := now})
    (drops : ∀ run, q run → ¬ permit.drops ref run) (member : ref ∈ a.boundRuns) (here : q (a.run ref)) :
    ref ∈ b.boundRuns ∧ q (b.run ref) := by
  have all : ref ∈ b.boundRuns ∧ q (b.run ref) ∧ a.runs.next ≤ b.runs.next := by
    induction writes with
    | refl => exact ⟨member,here,le_refl _⟩
    | tail _ write ih =>
      obtain ⟨stored,holds,grown⟩ := ih
      obtain ⟨stored,holds,more⟩ :=
        write_holds write (fun run added => lt_of_lt_of_le (used run added) grown) sets drops stored holds
      exact ⟨stored,holds,grown.trans more⟩
  exact ⟨all.1,all.2.1⟩

end InmemRuntime.StoreWrites
