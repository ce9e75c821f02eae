import InmemRuntime.ThreadRecords

namespace InmemRuntime.SweepSafety
open OrderedDict ObjectHeap ThreadTtl RuntimeStore Serving ThreadOps RunOps JointStatus TtlSweep StoreWrites Tasks

variable {J : Type}

-- The marker that a sweep has set and not yet discarded.
def heldBy : SweepTask → List String
  | .called _ => []
  | .deleting _ inner => [inner.threadId]
  | .checkpointer threadId _ _ _ | .pruning threadId _ _ _ => [threadId]

def held : Coroutine J → List String
  | .sweep task => heldBy task
  | _ => []

def Quiet (s : Server J) : Prop := ∀ threadId ∈ s.maintenance, s.store.activeOn threadId = false

-- A completion gives a run a final status. `Runs.put` is for existing threads:
-- were it to create one, that would not be under maintenance.
def Admitted (_ : Wake J) (s : Server J) : Coroutine J → Prop
  | .joint (.called call) => ∀ status, call.runEnd = .status status → status.active = false
  | .putRun (.logging _ _ threadId _) => threadId ∉ s.maintenance
  | _ => True

section activity

-- An active run of the thread after the write was one before.
theorem write_active {permit : Permit} {a b : Store J} {threadId : String} (write : Write permit a b)
    (adds : ∀ run, permit.adds run → run.threadId ≠ threadId)
    (sets : ∀ ref run status, permit.sets ref run status → status.active = true → run.status.active = true)
    {ref : Nat} (member : ref ∈ b.boundRuns) (same : (b.run ref).threadId = threadId)
    (active : (b.run ref).status.active = true) :
    ref ∈ a.boundRuns ∧ (a.run ref).threadId = threadId ∧ (a.run ref).status.active = true := by
  cases write with
  | thread _ => exact ⟨member,same,active⟩
  | newThread => exact ⟨member,same,active⟩
  | replaced => exact ⟨member,same,active⟩
  | removed ok => exact ⟨(List.mem_filter.mp member).1,same,active⟩
  | @newRun run ok =>
    by_cases new : ref = a.runs.next
    · subst new
      simp only [Store.run,Store.appendRun,Heap.read_alloc_new] at same
      exact absurd same (adds run ok)
    · have old : (a.appendRun run).run ref = a.run ref := Function.update_of_ne new _ _
      rw [old] at same active
      exact ⟨by simpa [Store.appendRun,new] using member,same,active⟩
  | @run changed status now ok =>
    by_cases here : ref = changed
    · subst here
      rw [Store.run_updateRun_self] at same active
      exact ⟨member,same,sets _ _ _ ok active⟩
    · rw [Store.run_updateRun_other here] at same active
      exact ⟨member,same,active⟩
  | @claimed changed ok =>
    by_cases here : ref = changed
    · subst here
      rw [run_claimRun_self] at same
      exact ⟨member,same,sets _ _ _ ok rfl⟩
    · rw [run_claimRun_other here] at same active
      exact ⟨member,same,active⟩
  | removedRun ok => exact ⟨(List.mem_filter.mp member).1,same,active⟩
  | sidecar => exact ⟨member,same,active⟩

theorem writes_inactive {permit : Permit} {a b : Store J} {threadId : String} (writes : Writes permit a b)
    (adds : ∀ run, permit.adds run → run.threadId ≠ threadId)
    (sets : ∀ ref run status, permit.sets ref run status → status.active = true → run.status.active = true)
    (inactive : a.activeOn threadId = false) : b.activeOn threadId = false := by
  induction writes with
  | refl => exact inactive
  | tail _ write ih =>
    by_contra found
    obtain ⟨ref,member,same,active⟩ := Store.activeOn_iff.mp (Bool.eq_true_of_not_eq_false found)
    have before := Store.activeOn_iff.mpr ⟨ref,write_active write adds sets member same active⟩
    rw [ih] at before
    cases before

theorem steps_quiet {permit : Permit} {s s' : Server J} (steps : Steps permit s s')
    (adds : ∀ threadId ∈ s.maintenance, ∀ run, permit.adds run → run.threadId ≠ threadId)
    (sets : ∀ ref run status, permit.sets ref run status → status.active = true → run.status.active = true)
    (quiet : Quiet s) : Quiet s' := by
  intro threadId member
  rw [steps.maintenance] at member
  exact writes_inactive steps.writes (adds threadId member) sets (quiet threadId member)

end activity

section sweeping
variable {globalTtl : Option TtlConfig}

theorem release_quiet {s : Server J} {threadId : String} (quiet : Quiet s) : Quiet (release s threadId) :=
  fun other member => quiet other (List.mem_filter.mp member).1

theorem revalidate_inactive {s : Store J} {now : Int} {threadId : String} {found : TtlPolicy × TtlState × Int}
    (valid : revalidate globalTtl s now threadId = some found) : s.activeOn threadId = false := by
  unfold revalidate at valid
  split at valid
  · cases valid
  · split at valid
    · cases valid
    · exact Bool.eq_false_iff.mpr ‹_›

theorem claim_quiet {s : Server J} {threadId : String} (quiet : Quiet s) (inactive : s.store.activeOn threadId = false) :
    Quiet (claim s threadId) := by
  intro other member
  rcases List.mem_cons.mp member with rfl | old
  · exact inactive
  · exact quiet other old

theorem sweepLoop_quiet (w : Wake J) {s : Server J} (quiet : Quiet s) (rest : List String) :
    Quiet (sweepLoop globalTtl w s rest).1 := by
  induction rest with
  | nil => exact quiet
  | cons threadId rest ih =>
    unfold sweepLoop
    split
    · exact ih
    · split
      · exact ih
      · have inactive := revalidate_inactive ‹_›
        split <;> exact claim_quiet quiet inactive

-- The loop claims at most one thread, which no sweep had claimed.
theorem sweepLoop_claims (w : Wake J) (s : Server J) (rest : List String) :
    (sweepLoop globalTtl w s rest = (s,.returned ())) ∨
    ∃ task threadId, sweepLoop globalTtl w s rest = (claim s threadId,.suspended task) ∧ heldBy task = [threadId] ∧
      threadId ∉ s.maintenance := by
  induction rest with
  | nil => exact .inl rfl
  | cons threadId rest ih =>
    unfold sweepLoop
    split
    · exact ih
    · rename_i free
      split
      · exact ih
      · split
        · exact .inr ⟨_,threadId,rfl,rfl,by simpa using free⟩
        · exact .inr ⟨_,threadId,rfl,rfl,by simpa using free⟩

def letGo (s : Server J) (task : SweepTask) : List String :=
  s.maintenance.filter fun threadId => !(heldBy task).contains threadId

-- What a step does with the markers: it keeps the one it holds, or lets it go
-- and ends, or lets it go and claims the next thread.
inductive Turn (s : Server J) (task : SweepTask) : Server J × Outcome SweepTask Unit → Prop where
  | keeps {s' : Server J} {again : SweepTask} (same : heldBy again = heldBy task)
      (markers : s'.maintenance = s.maintenance) : Turn s task (s',.suspended again)
  | ends {s' : Server J} {outcome : Outcome SweepTask Unit} (finished : ∀ again, outcome ≠ .suspended again)
      (markers : s'.maintenance = letGo s task) : Turn s task (s',outcome)
  | claims {s' : Server J} {again : SweepTask} {threadId : String} (claimed : heldBy again = [threadId])
      (free : threadId ∉ letGo s task) (markers : s'.maintenance = threadId :: letGo s task) :
      Turn s task (s',.suspended again)

theorem turn_loop (w : Wake J) {s middle : Server J} {task : SweepTask} (markers : middle.maintenance = letGo s task)
    (rest : List String) : Turn s task (sweepLoop globalTtl w middle rest) := by
  rcases sweepLoop_claims w middle rest with finished | ⟨again,threadId,claimed,holds,free⟩
  · rw [finished]
    exact .ends (by simp) markers
  · rw [claimed]
    rw [markers] at free
    exact .claims holds free (congrArg (threadId :: ·) markers)

theorem letGo_release {s s' : Server J} {task : SweepTask} {threadId : String} (holds : heldBy task = [threadId])
    (same : s'.maintenance = s.maintenance) : (release s' threadId).maintenance = letGo s task := by
  simp only [release,letGo,holds,same]
  refine List.filter_congr fun other _ => ?_
  by_cases equal : other = threadId <;> simp [equal]

-- A deletion drops runs; it adds none and sets no status.
def dropsOnly : Permit := ⟨fun _ => False,fun _ _ _ => False,fun _ _ => True⟩

theorem stepDelete_steps (w : Wake J) (s : Server J) (task : DeleteTask) : Steps dropsOnly s (stepDelete w s task).1 :=
  delete_steps w s task fun _ _ _ _ _ _ => trivial

theorem stepDelete_threadId {w : Wake J} {s : Server J} {task again : DeleteTask}
    (suspends : (stepDelete w s task).2 = .suspended again) : again.threadId = task.threadId := by
  cases task with
  | called threadId =>
    cases suspends
    rfl
  | authorizing threadId matching =>
    dsimp only [stepDelete,authorized] at suspends
    split at suspends
    · cases suspends
    · split at suspends
      · cases suspends
      · split at suspends <;> cases suspends
        rfl
  | checkpoints threadId matching =>
    dsimp only [stepDelete,external] at suspends
    split at suspends <;> cases suspends
    rfl
  | streams threadId matching =>
    dsimp only [stepDelete,external] at suspends
    split at suspends <;> cases suspends

theorem sweep_turn (w : Wake J) (s : Server J) (task : SweepTask) : Turn s task (stepSweep globalTtl w s task) := by
  cases task with
  | called call =>
    have nothing : s.maintenance = letGo s (.called call) := by simp [letGo,heldBy]
    dsimp only [stepSweep]
    split
    · split
      · exact .ends (by simp) nothing
      · exact turn_loop w nothing _
    · exact turn_loop w nothing _
  | deleting rest inner =>
    have markers := (stepDelete_steps w s inner).maintenance
    dsimp only [stepSweep]
    split <;> rename_i stepped <;> rw [stepped] at markers
    · refine .keeps ?_ markers
      exact congrArg (· :: []) (stepDelete_threadId (w := w) (s := s) (by rw [stepped]))
    · exact turn_loop w (letGo_release rfl markers) rest
    · split
      · exact turn_loop w (letGo_release rfl markers) rest
      · exact .ends (by simp) (letGo_release rfl markers)
    · exact .ends (by simp) (letGo_release rfl markers)
  | checkpointer threadId rest state updatedAt =>
    dsimp only [stepSweep]
    split
    · exact .ends (by simp) (letGo_release rfl rfl)
    · exact .keeps rfl rfl
  | pruning threadId rest state updatedAt =>
    dsimp only [stepSweep]
    split
    · exact .ends (by simp) (letGo_release rfl rfl)
    · have markers : (release (s.withStore (markSwept s.store threadId state updatedAt)) threadId).maintenance =
          letGo s (.pruning threadId rest state updatedAt) := letGo_release rfl rfl
      exact turn_loop w markers rest

theorem sweep_quiet (w : Wake J) {s : Server J} (quiet : Quiet s) (task : SweepTask) :
    Quiet (stepSweep globalTtl w s task).1 := by
  cases task with
  | called call =>
    dsimp only [stepSweep]
    split
    · split
      · exact quiet
      · exact sweepLoop_quiet w quiet _
    · exact sweepLoop_quiet w quiet _
  | deleting rest inner =>
    have inside := steps_quiet (stepDelete_steps w s inner) (fun _ _ _ never => never.elim) (fun _ _ _ never => never.elim) quiet
    dsimp only [stepSweep]
    split <;> rename_i stepped <;> rw [stepped] at inside
    · exact inside
    · exact sweepLoop_quiet w (release_quiet inside) rest
    · split
      · exact sweepLoop_quiet w (release_quiet inside) rest
      · exact release_quiet inside
    · exact release_quiet inside
  | checkpointer threadId rest state updatedAt =>
    dsimp only [stepSweep]
    split
    · exact release_quiet quiet
    · exact quiet
  | pruning threadId rest state updatedAt =>
    dsimp only [stepSweep]
    split
    · exact release_quiet quiet
    · have marked : Quiet (s.withStore (markSwept s.store threadId state updatedAt)) := quiet
      exact sweepLoop_quiet w (release_quiet marked) rest

-- What is let go and what is left make up the markers.
theorem letGo_perm {s : Server J} {task : SweepTask} (single : s.maintenance.Nodup) (mine : heldBy task ⊆ s.maintenance) :
    (heldBy task ++ letGo s task).Perm s.maintenance := by
  have own : (heldBy task).Nodup := by cases task <;> simp [heldBy]
  have left : (letGo s task).Nodup := single.filter _
  refine (List.perm_ext_iff_of_nodup ?_ single).mpr ?_
  · refine List.nodup_append.mpr ⟨own,left,?_⟩
    rintro threadId here other there rfl
    simp [letGo,here] at there
  · intro threadId
    simp only [List.mem_append,letGo,List.mem_filter]
    by_cases here : threadId ∈ heldBy task
    · simp [here,mine here]
    · simp [here]

end sweeping

section markers
variable {text : String → J} {globalTtl : Option TtlConfig}

theorem held_other {task : Coroutine J} (other : task.kind ≠ .sweep) : held task = [] := by
  cases task with
  | sweep task => exact absurd rfl other
  | _ => rfl

theorem fresh_free {task : Coroutine J} (fresh : task.fresh = true) : held task = [] := by
  cases task with
  | sweep task =>
    cases task with
    | called call => rfl
    | _ => simp [Coroutine.fresh] at fresh
  | _ => rfl

theorem held_goOn (result : Server J × Outcome SweepTask Unit) : (goOn .sweep result).2.flatMap (held (J := J)) =
    match result.2 with
    | .suspended task => heldBy task
    | _ => [] := by
  unfold goOn
  split <;> rename_i ends <;> simp [ends,held]

theorem accounts : TaskPool.Accounts (resume text globalTtl) Server.maintenance held fun task => task.fresh = true := by
  have others : ∀ w s t, Coroutine.kind t ≠ .sweep → (resume text globalTtl w s t).1.maintenance = s.maintenance ∧
      (resume text globalTtl w s t).2.flatMap held = [] := by
    intro w s t other
    refine ⟨(resume_steps w s t other).maintenance,List.flatMap_eq_nil_iff.mpr fun u spawned => held_other ?_⟩
    rcases resume_kind spawned with same | ⟨_,kind⟩ | ⟨_,kind⟩
    · exact same ▸ other
    · simp [kind]
    · simp [kind]
  refine ⟨fun t => fresh_free,?_,?_⟩
  · intro w s t single
    by_cases sweep : t.kind = .sweep
    · cases t with
      | sweep task =>
        dsimp only [resume]
        rw [goOn_store]
        have left : (letGo s task).Nodup := single.filter _
        have turn : Turn s task (stepSweep globalTtl w s task) := sweep_turn w s task
        generalize stepSweep globalTtl w s task = result at turn ⊢
        cases turn with
        | keeps same markers => exact markers ▸ single
        | ends finished markers => exact markers ▸ left
        | claims claimed free markers => exact markers ▸ left.cons free
      | _ => cases sweep
    · exact (others w s t sweep).1 ▸ single
  · intro w s t single mine
    by_cases sweep : t.kind = .sweep
    · cases t with
      | sweep task =>
        dsimp only [resume]
        rw [goOn_store,held_goOn]
        have parts := letGo_perm single mine
        have turn : Turn s task (stepSweep globalTtl w s task) := sweep_turn w s task
        generalize stepSweep globalTtl w s task = result at turn ⊢
        cases turn with
        | keeps same markers =>
          simp only [held,same,markers]
          exact .refl _
        | @ends s' outcome finished markers =>
          rw [markers]
          cases outcome with
          | suspended again => exact absurd rfl (finished again)
          | returned value => exact parts
          | raised fault => exact parts
        | claims claimed free markers =>
          simp only [held,claimed,markers]
          exact List.perm_middle.trans (parts.cons _)
      | _ => cases sweep
    · rw [(others w s t sweep).1,(others w s t sweep).2,held_other sweep]

theorem resume_quiet {w : Wake J} {s : Server J} {task : Coroutine J} (admitted : Admitted w s task) (quiet : Quiet s) :
    Quiet (resume text globalTtl w s task).1 := by
  by_cases sweep : task.kind = .sweep
  · cases task with
    | sweep task =>
      dsimp only [resume]
      rw [goOn_store]
      exact sweep_quiet w quiet task
    | _ => cases sweep
  · refine steps_quiet (resume_steps w s task sweep) ?_ ?_ quiet
    · intro threadId under run adds same
      cases task with
      | putRun task =>
        cases task with
        | logging call assistant created createdAt =>
          have outside : created ∉ s.maintenance := admitted
          have for_ : run.threadId = created := adds
          exact outside (for_.symm.trans same ▸ under)
        | _ =>
          have outside : s.maintenance.contains run.threadId = false := adds
          rw [same] at outside
          simp [under] at outside
      | _ => exact adds
    · intro ref run status sets active
      cases task with
      | next task =>
        obtain ⟨pending,_⟩ : run.status = .pending ∧ status = .running := sets
        simp [pending,RunStatus.active]
      | cancel task =>
        obtain ⟨_,before,_⟩ : Cancels w s task ref ∧ run.status.active = true ∧ status = .interrupted := sets
        exact before
      | joint task =>
        cases task with
        | called call =>
          have final : ∀ status, call.runEnd = .status status → status.active = false := admitted
          obtain ⟨_,ends⟩ : s.store.findRun (some call.runId) call.threadId = some ref ∧ call.runEnd = .status status := sets
          rw [final status ends] at active
          cases active
        | rollingBack call thread now inner => exact absurd sets id
      | _ => exact absurd sets id

-- A step of a sweep leaves the pending and the running runs where they are.
def Spares (globalTtl : Option TtlConfig) (w : Wake J) (s : Server J) (task : SweepTask) : Prop :=
  ∀ ref ∈ s.store.boundRuns, (s.store.run ref).status.active = true →
    ref ∈ (stepSweep globalTtl w s task).1.store.boundRuns

theorem sweep_spares {w : Wake J} {s : Server J} {task : SweepTask} (quiet : Quiet s) (mine : heldBy task ⊆ s.maintenance) :
    Spares globalTtl w s task := by
  intro ref member active
  have clear : ¬ Drops (.sweep task : Coroutine J) (s.store.run ref) := by
    intro drops
    cases task with
    | deleting rest inner =>
      cases inner with
      | streams threadId matching =>
        have same : (s.store.run ref).threadId = threadId := drops
        have inactive := quiet threadId (mine (by simp [heldBy,DeleteTask.threadId]))
        rw [Store.activeOn_iff.mpr ⟨ref,member,same,active⟩] at inactive
        cases inactive
      | _ => exact drops
    | _ => exact drops
  have writes : Writes (permitOf w s (.sweep task)) s.store (stepSweep globalTtl w s task).1.store :=
    sweep_writes w s task (by rintro rest threadId matching rfl ref _ same; exact same)
  exact (writes_hold (q := fun run => ¬ Drops (.sweep task : Coroutine J) run) writes
    (fun _ adds => absurd adds id) (fun _ _ _ sets => absurd sets id) (fun _ kept => kept) member clear).1

structure Guarded (p : Pool J) : Prop where
  balanced : TaskPool.Balanced Server.maintenance held p
  quiet : Quiet p.shared

theorem advance_guarded {p next : Pool J} {event : Event J} (guarded : Guarded p)
    (meets : TaskPool.Meets (fun task => task.fresh = true) Admitted (p,event))
    (step : TaskPool.advance (resume text globalTtl) p event = some next) : Guarded next := by
  cases event with
  | call task =>
    have called : Called (fun task => task.fresh = true) (p,.call task) := meets
    refine ⟨TaskPool.balanced_step accounts guarded.balanced called step,?_⟩
    cases Option.some.inj step
    exact guarded.quiet
  | resume index wake =>
    have called : Called (fun task : Coroutine J => task.fresh = true) (p,.resume index wake) := fun _ _ => trivial
    refine ⟨TaskPool.balanced_step accounts guarded.balanced called step,?_⟩
    obtain ⟨before,task,after,split,found,rfl⟩ := TaskPool.resume_parts step
    exact resume_quiet (meets task found) guarded.quiet

-- (a) what a sweep holds has no active run, (c) no two sweeps hold the same
-- thread, (d) a marker that is set has a sweep that holds it.
structure Safe (p : Pool J) : Prop where
  idle : ∀ task ∈ p.tasks, ∀ threadId ∈ held task, p.shared.store.activeOn threadId = false
  apart : p.tasks.Pairwise fun task other => ∀ threadId ∈ held task, threadId ∉ held other
  marked : ∀ threadId, threadId ∈ p.shared.maintenance ↔ ∃ task ∈ p.tasks, threadId ∈ held task

theorem guarded_safe {p : Pool J} (guarded : Guarded p) : Safe p := by
  have marked : ∀ threadId, threadId ∈ p.shared.maintenance ↔ ∃ task ∈ p.tasks, threadId ∈ held task :=
    fun threadId => TaskPool.balanced_held guarded.balanced
  refine ⟨?_,TaskPool.balanced_apart guarded.balanced,marked⟩
  intro task member threadId holds
  exact guarded.quiet threadId ((marked threadId).mpr ⟨task,member,holds⟩)

def OnSweep (condition : Wake J → Server J → SweepTask → Prop) : Pool J × Event J → Prop :=
  TaskPool.Meets (fun _ => True) fun w s task => ∀ sweep, task = .sweep sweep → condition w s sweep

theorem sweeps_safe {start p : Pool J} {taken : List (Pool J × Event J)} (runs : Runs text globalTtl start taken p)
    (begins : start.tasks = []) (unmarked : start.shared.maintenance = [])
    (meets : ∀ step ∈ taken, TaskPool.Meets (fun task => task.fresh = true) Admitted step) :
    Safe p ∧ ∀ step ∈ taken, Safe step.1 ∧ OnSweep (Spares globalTtl) step := by
  have initial : Guarded start :=
    ⟨⟨by simp [unmarked],by simp [begins,unmarked]⟩,by simp [Quiet,unmarked]⟩
  obtain ⟨last,each⟩ := TaskPool.runs_invariant runs initial
    (fun _ _ _ guarded meets step => advance_guarded guarded meets step) meets
  refine ⟨guarded_safe last,fun step member => ⟨guarded_safe (each step member),?_⟩⟩
  obtain ⟨pool,event⟩ := step
  cases event with
  | call task => trivial
  | resume index wake =>
    rintro task here sweep rfl
    refine sweep_spares (each _ member).quiet fun threadId holds => ?_
    exact (TaskPool.balanced_held (each _ member).balanced).mpr ⟨_,List.mem_of_getElem? here,holds⟩

def toyServer : Server String := .start {ThreadRecords.ofThreads ["T"] with assistants := [⟨"a","g",true,Dict.empty⟩]}

def putAndSweep : List (Event String) :=
  [.call (.sweep (.called ⟨none⟩)),.call (.putRun (.called ⟨"a",some "T",none,.pending,Dict.empty,Dict.empty,false,.reject,0⟩)),
    .resume 1 (.quiet 0),.resume 1 (.quiet 0),.resume 0 (.quiet 0)]

theorem sweeps_safe_toy : ∃ taken p, Runs id none ⟨toyServer,[]⟩ taken p ∧ Safe p := by
  have runs := TaskPool.perform_runs .nil (rfl : TaskPool.perform (resume id none) ⟨toyServer,[]⟩ putAndSweep = some _)
  refine ⟨_,_,runs,(sweeps_safe runs rfl rfl ?_).1⟩
  refine List.forall_mem_cons.mpr ⟨rfl,List.forall_mem_cons.mpr ⟨rfl,List.forall_mem_cons.mpr ⟨?_,
    List.forall_mem_cons.mpr ⟨?_,List.forall_mem_cons.mpr ⟨?_,by simp⟩⟩⟩⟩⟩
  all_goals
    intro task here
    cases here
    trivial

end markers
end InmemRuntime.SweepSafety
