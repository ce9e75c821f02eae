import InmemRuntime.DeniedMutations

namespace InmemRuntime.DeletionIndependence
open OrderedDict ThreadTtl RuntimeStore Serving ThreadOps RunOps Mutations
open RecordIds (threadIds)
open DeniedMutations (toyPackages toyWorld owned waking answering)

variable {J : Type}

inductive Target where
  | thread (threadId : String)
  | run (runId threadId : String)
deriving DecidableEq

-- What goes with a target.
def Target.covers (target : Target) (run : Run) : Bool :=
  match target with
  | .thread threadId => run.threadId == threadId
  | .run runId threadId => run.threadId == threadId && run.runId == some runId

def runTarget : DeleteRunTask → Option Target
  | .called runId threadId | .authorizing runId threadId | .checkpoints runId threadId | .streams runId threadId =>
    runId.map fun runId => .run runId threadId

def targetOf : Mutation J → Option Target
  | .delete task => some (.thread task.threadId)
  | .deleteRun task => runTarget task
  | _ => none

-- The target of a deletion that returns its id in this step.
def finishes (packages : Packages J) (w : Wake J) (s : World J) : Mutation J → Option Target
  | .delete task =>
    match (stepDeleteWhole packages w s task).2 with
    | .returned threadId => some (.thread threadId)
    | _ => none
  | .deleteRun task =>
    match (stepDeleteRun w (cleanedRun packages w s task).records.server task).2 with
    | .returned (some _) => runTarget task
    | _ => none
  | _ => none

def completes [DecidableEq J] (packages : Packages J) (step : Pool J × Event J) : Option Target :=
  match step.2 with
  | .call _ => none
  | .resume index w => (step.1.tasks[index]?).bind (finishes packages w step.1.shared)

def calls (step : Pool J × Event J) : Option Target :=
  match step.2 with
  | .call task => targetOf task
  | .resume _ _ => none

-- Nothing has changed but the `state_updated_at` that a record lacked.
structure Undisturbed (s s' : Store J) : Prop where
  threads : s'.liveThreads = s.liveThreads
  records : ∀ ref, s'.thread ref = s.thread ref ∨ s'.thread ref = filledIn (s.thread ref)
  runs : s'.boundRuns = s.boundRuns
  objects : ∀ ref, s'.run ref = s.run ref
  crons : s'.crons = s.crons
  ttls : s'.ttls = s.ttls

-- Everything is there in its order but the targets and what goes with them.
structure Remains (s : Store J) (done : List Target) (s' : Store J) : Prop where
  threads : s'.liveThreads = s.liveThreads.filter fun ref => !done.contains (.thread (s.thread ref).threadId)
  records : ∀ ref, s'.thread ref = s.thread ref ∨ s'.thread ref = filledIn (s.thread ref)
  runs : s'.boundRuns = s.boundRuns.filter fun ref => !done.any fun target => target.covers (s.run ref)
  objects : ∀ ref, s'.run ref = s.run ref
  crons : s'.crons = s.crons.filter fun cron => !done.contains (.thread cron.threadId)
  ttls : s'.ttls = s.ttls.filter fun threadId _ => !done.contains (.thread threadId)

def IsRecord (s : Store J) (threadId : String) (ref : Nat) : Prop := ref ∈ s.liveThreads ∧ (s.thread ref).threadId = threadId

-- What a suspended deletion has captured is the record of its thread.
def Captured (s : Store J) : Mutation J → Prop
  | .delete (.called _) => True
  | .delete (.authorizing threadId matching) => ∀ ref, matching = some ref → IsRecord s threadId ref
  | .delete (.checkpoints threadId ref) | .delete (.streams threadId ref) => IsRecord s threadId ref
  | .deleteRun task => (runTarget task).isSome = true
  | _ => False

def Complete (s : Store J) : Prop := ∀ ref ∈ s.liveThreads, (s.thread ref).stateUpdatedAt ≠ none

-- `Threads.delete(...)` or `Runs.delete(...)`.
def Deletion : Mutation J → Prop
  | .delete (.called _) => True
  | .deleteRun (.called runId _) => runId.isSome = true
  | _ => False

-- A deletion that is over has returned its id.
def Returns [DecidableEq J] (packages : Packages J) (w : Wake J) (s : World J) (task : Mutation J) : Prop :=
  (resume packages w s task).2 = [] → (finishes packages w s task).isSome = true

section store
variable {s s' s'' : Store J} {done : List Target}

theorem Undisturbed.refl (s : Store J) : Undisturbed s s := ⟨rfl,fun _ => .inl rfl,rfl,fun _ => rfl,rfl,rfl⟩

theorem filledIn_twice (thread : Thread J) : filledIn (filledIn thread) = filledIn thread := by
  unfold filledIn
  cases thread.stateUpdatedAt <;> rfl

theorem remains_start (s : Store J) : Remains s [] s := by
  refine ⟨?_,fun _ => .inl rfl,?_,fun _ => rfl,?_,?_⟩
  · exact (List.filter_eq_self.mpr fun _ _ => rfl).symm
  · exact (List.filter_eq_self.mpr fun _ _ => rfl).symm
  · exact (List.filter_eq_self.mpr fun _ _ => rfl).symm
  · exact (Dict.filter_self fun _ _ => rfl).symm

theorem remains_congr {called : List Target} (same : ∀ target, target ∈ called ↔ target ∈ done)
    (remains : Remains s done s') : Remains s called s' := by
  have member : ∀ target, called.contains target = done.contains target := fun target => by
    rw [Bool.eq_iff_iff,List.contains_iff_mem,List.contains_iff_mem]
    exact same target
  have any_ : ∀ run, (called.any fun target => target.covers run) = done.any fun target => target.covers run := fun run => by
    rw [Bool.eq_iff_iff,List.any_eq_true,List.any_eq_true]
    simp only [same]
  refine ⟨remains.threads.trans ?_,remains.records,remains.runs.trans ?_,remains.objects,remains.crons.trans ?_,remains.ttls.trans ?_⟩
  · simp only [member]
  · simp only [any_]
  · simp only [member]
  · simp only [member]

theorem filled_threadId (records : ∀ ref, s'.thread ref = s.thread ref ∨ s'.thread ref = filledIn (s.thread ref)) (ref : Nat) :
    (s'.thread ref).threadId = (s.thread ref).threadId := by
  rcases records ref with same | filled
  · rw [same]
  · rw [filled]
    rfl

theorem filled_trans (first : ∀ ref, s'.thread ref = s.thread ref ∨ s'.thread ref = filledIn (s.thread ref))
    (second : ∀ ref, s''.thread ref = s'.thread ref ∨ s''.thread ref = filledIn (s'.thread ref)) (ref : Nat) :
    s''.thread ref = s.thread ref ∨ s''.thread ref = filledIn (s.thread ref) := by
  rcases second ref with same | filled
  · rw [same]
    exact first ref
  · rw [filled]
    rcases first ref with same' | filled'
    · exact .inr (by rw [same'])
    · exact .inr (by rw [filled',filledIn_twice])

theorem remains_undisturbed (remains : Remains s done s') (still : Undisturbed s' s'') : Remains s done s'' :=
  ⟨still.threads.trans remains.threads,filled_trans remains.records still.records,still.runs.trans remains.runs,
    fun ref => (still.objects ref).trans (remains.objects ref),still.crons.trans remains.crons,still.ttls.trans remains.ttls⟩

-- The record that was captured is the only one of its thread.
theorem removal_by_id (distinct : (threadIds s).Nodup) {ref : Nat} (live : ref ∈ s.liveThreads) {other : Nat}
    (there : other ∈ s.liveThreads) : (other != ref) = ((s.thread other).threadId != (s.thread ref).threadId) := by
  by_cases same : other = ref
  · simp [same]
  · have apart : (s.thread other).threadId ≠ (s.thread ref).threadId := fun equal =>
      same (List.inj_on_of_nodup_map distinct there live equal)
    rw [bne_iff_ne.mpr same,bne_iff_ne.mpr apart]

theorem removeThread_remains (distinct : (threadIds s).Nodup) (remains : Remains s done s') {threadId : String} {ref : Nat}
    (record : IsRecord s threadId ref) : Remains s (done ++ [.thread threadId]) (removeThread s' threadId ref) := by
  obtain ⟨live,rfl⟩ := record
  refine ⟨?_,remains.records,?_,remains.objects,?_,Dict.ext ?_⟩
  · refine (Store.liveThreads_rebind _ _).trans ?_
    rw [remains.threads,List.filter_filter]
    refine List.filter_congr fun other there => ?_
    rw [removal_by_id distinct live there]
    simp [bne,beq_eq_decide,Bool.and_comm]
  · change s'.boundRuns.filter _ = _
    rw [remains.runs,List.filter_filter]
    refine List.filter_congr fun other _ => ?_
    rw [remains.objects]
    simp [bne,Bool.and_comm,Target.covers]
  · change s'.crons.filter _ = _
    rw [remains.crons,List.filter_filter]
    refine List.filter_congr fun cron _ => ?_
    simp [bne,beq_eq_decide,Bool.and_comm]
  · change (s'.ttls.erase _).entries = _
    rw [remains.ttls]
    simp only [Dict.erase,Dict.entries_filter,List.filter_filter]
    refine List.filter_congr fun row _ => ?_
    simp [beq_eq_decide,Bool.and_comm]

theorem removeRun_remains (remains : Remains s done s') {runId threadId : String} :
    Remains s (done ++ [.run runId threadId]) (removeRun s' (some runId) threadId) := by
  refine ⟨?_,remains.records,?_,remains.objects,?_,Dict.ext ?_⟩
  · refine remains.threads.trans (List.filter_congr fun other _ => ?_)
    simp
  · change s'.boundRuns.filter _ = _
    rw [remains.runs,List.filter_filter]
    refine List.filter_congr fun other _ => ?_
    unfold Store.isRun
    rw [remains.objects]
    simp [Bool.and_comm,Target.covers]
  · refine remains.crons.trans (List.filter_congr fun cron _ => ?_)
    simp
  · change s'.ttls.entries = _
    rw [remains.ttls]
    refine List.filter_congr fun row _ => ?_
    simp

theorem found_record (remains : Remains s done s') {threadId : String} {ref : Nat} (found : s'.findThread threadId = some ref) :
    IsRecord s threadId ref := by
  obtain ⟨live,named⟩ := Store.findThread_some found
  rw [remains.threads] at live
  exact ⟨(List.mem_filter.mp live).1,(filled_threadId remains.records ref).symm.trans named⟩

-- Filling in is all that asking for a thread does, and nothing for a record
-- that has its `state_updated_at`.
theorem consult_undisturbed (s : Store J) (filters : Filters J) (threadId : String) : Undisturbed s (consult filters s threadId) := by
  unfold consult getWithFilters
  split
  · exact .refl s
  · split
    · exact .refl s
    · rename_i found ref _ _
      refine ⟨rfl,fun other => ?_,rfl,fun _ => rfl,rfl,rfl⟩
      by_cases same : other = ref
      · exact .inr (by rw [same]; exact Store.thread_updateThread_self ..)
      · exact .inl (Store.thread_updateThread_other same)

theorem consult_same (full : Complete s) (filters : Filters J) (threadId : String) : consult filters s threadId = s :=
  consult_complete fun ref found _ => Option.isSome_iff_ne_none.mpr (full ref (Store.findThread_some found).1)

end store

theorem runTarget_key (task : DeleteRunTask) : runTarget task = task.key.1.map fun runId => .run runId task.key.2 := by
  cases task <;> rfl

section step
variable {packages : Packages J} {w : Wake J} {s : Store J} {world : World J} {done : List Target}

theorem deleteWhole_store (task : DeleteTask) : (stepDeleteWhole packages w world task).1.store = (stepDelete w world.records.server task).1.store ∧
    (stepDeleteWhole packages w world task).2 = (stepDelete w world.records.server task).2 := by
  obtain ⟨records,_⟩ := cleaned_records packages w world task
  unfold stepDeleteWhole
  dsimp only
  rw [records]
  exact ⟨rfl,rfl⟩

-- Nothing is changed, and nothing returned that counts as a deletion.
def Idle {τ ρ : Type} (deleted : ρ → Prop) (server : Server J) (result : Server J × Outcome τ ρ) : Prop :=
  result.1 = server ∧ ∀ value, deleted value → result.2 ≠ .returned value

section idle
variable {τ ρ : Type} {deleted : ρ → Prop} {server : Server J}

theorem idle_raised (fault : Fault) : Idle (τ := τ) deleted server (server,.raised fault) := ⟨rfl,fun _ _ => nofun⟩

theorem idle_suspended (task : τ) : Idle deleted server (server,.suspended task) := ⟨rfl,fun _ _ => nofun⟩

theorem authorized_idle {go : Filters J → Server J × Outcome τ ρ} (idle : ∀ filters, Idle deleted server (go filters)) :
    Idle deleted server (authorized w server go) := by
  unfold authorized
  split
  · exact idle_raised _
  · exact idle _

theorem external_idle {go : Server J × Outcome τ ρ} (idle : Idle deleted server go) : Idle deleted server (external w server go) := by
  unfold external
  split
  · exact idle_raised _
  · exact idle

-- An await that does not raise goes on.
theorem external_cases (go : Server J × Outcome τ ρ) : Idle deleted server (external w server go) ∨ external w server go = go := by
  unfold external
  split
  · exact .inl (idle_raised _)
  · exact .inr rfl

end idle

-- Each deletion removes in its last step what is there then, and nothing before.
theorem stepDelete_cases (server : Server J) (task : DeleteTask) :
    Idle (fun _ => True) server (stepDelete w server task) ∨ ∃ threadId ref, task = .streams threadId ref ∧
      stepDelete w server task = (server.withStore (removeThread server.store threadId ref),.returned threadId) := by
  cases task with
  | called threadId => exact .inl (idle_suspended _)
  | authorizing threadId matching =>
    refine .inl (authorized_idle fun filters => ?_)
    split
    · exact idle_raised _
    · split
      · exact idle_raised _
      · exact idle_suspended _
  | checkpoints threadId ref => exact .inl (external_idle (idle_suspended _))
  | streams threadId ref => exact (external_cases _).imp_right fun goes => ⟨threadId,ref,rfl,goes⟩

theorem stepDeleteRun_cases (server : Server J) (task : DeleteRunTask) :
    Idle (fun value => value.isSome) server (stepDeleteRun w server task) ∨ ∃ runId threadId, task = .streams runId threadId ∧
      stepDeleteRun w server task = (server.withStore (removeRun server.store runId threadId),.returned (some runId)) := by
  cases task with
  | called runId threadId => exact .inl (idle_suspended _)
  | authorizing runId threadId =>
    refine .inl (authorized_idle fun filters => ?_)
    split
    · exact ⟨rfl,fun value some_ equal => by cases equal; cases some_⟩
    · split
      · exact idle_raised _
      · exact idle_suspended _
  | checkpoints runId threadId => exact .inl (external_idle (idle_suspended _))
  | streams runId threadId => exact (external_cases _).imp_right fun goes => ⟨runId,threadId,rfl,goes⟩

theorem cleanedRun_store (task : DeleteRunTask) : (cleanedRun packages w world task).store = world.store ∨
    ∃ filters threadId, (cleanedRun packages w world task).store = consult filters world.store threadId := by
  unfold cleanedRun
  split
  · exact .inr ⟨_,_,rfl⟩
  · exact .inl rfl
  · exact .inl rfl
  · exact .inl rfl

theorem delete_captured (remains : Remains s done world.store) {task again : DeleteTask} (captured : Captured s (.delete (J := J) task))
    (suspends : (stepDelete w world.records.server task).2 = .suspended again) :
    Captured s (.delete (J := J) again) ∧ again.threadId = task.threadId := by
  cases task with
  | called threadId =>
    obtain rfl := Outcome.suspended.inj suspends
    exact ⟨fun ref found => found_record remains found,rfl⟩
  | authorizing threadId matching =>
    simp only [stepDelete,authorized] at suspends
    split at suspends
    · cases suspends
    · split at suspends
      · cases suspends
      · split at suspends
        · cases suspends
        · obtain rfl := Outcome.suspended.inj suspends
          exact ⟨captured _ rfl,rfl⟩
  | checkpoints threadId ref =>
    simp only [stepDelete,external] at suspends
    split at suspends
    · cases suspends
    · obtain rfl := Outcome.suspended.inj suspends
      exact ⟨captured,rfl⟩
  | streams threadId ref =>
    simp only [stepDelete,external] at suspends
    split at suspends <;> cases suspends

-- A step that returns no id of `Threads.delete` leaves the store alone.
theorem unfinished_delete [DecidableEq J] {task : DeleteTask} (unfinished : finishes packages w world (.delete task) = none) :
    (resume packages w world (.delete task)).1.store = world.store := by
  obtain ⟨store,outcome⟩ : (stepDeleteWhole packages w world task).1.store = _ ∧ _ := deleteWhole_store task
  refine store.trans ?_
  rcases stepDelete_cases world.records.server task with ⟨same,_⟩ | ⟨threadId,ref,_,goes⟩
  · exact congrArg Server.store same
  · simp [finishes,outcome,goes] at unfinished

theorem unfinished_deleteRun [DecidableEq J] {task : DeleteRunTask} (captured : (runTarget task).isSome)
    (unfinished : finishes packages w world (.deleteRun task) = none) :
    (resume packages w world (.deleteRun task)).1.store = (cleanedRun packages w world task).store := by
  rcases stepDeleteRun_cases (w := w) (cleanedRun packages w world task).records.server task with ⟨same,_⟩ | ⟨runId,threadId,_,goes⟩
  · exact congrArg Server.store same
  · simp only [finishes,goes] at unfinished
    rw [unfinished] at captured
    cases captured

theorem cleanedRun_undisturbed (task : DeleteRunTask) : Undisturbed world.store (cleanedRun packages w world task).store := by
  have store : (cleanedRun packages w world task).store = world.store ∨ _ := cleanedRun_store task
  rcases store with same | ⟨filters,threadId,consults⟩
  · rw [same]
    exact .refl _
  · rw [consults]
    exact consult_undisturbed _ _ _

theorem unfinished_undisturbed [DecidableEq J] {task : Mutation J} (deletes : (targetOf task).isSome)
    (unfinished : finishes packages w world task = none) : Undisturbed world.store (resume packages w world task).1.store := by
  cases task with
  | delete task =>
    rw [unfinished_delete unfinished]
    exact .refl _
  | deleteRun task =>
    rw [unfinished_deleteRun deletes unfinished]
    exact cleanedRun_undisturbed task
  | _ => cases deletes

theorem unfinished_same [DecidableEq J] {task : Mutation J} (deletes : (targetOf task).isSome)
    (unfinished : finishes packages w world task = none)
    (full : Complete world.store) :
    (resume packages w world task).1.store = world.store := by
  cases task with
  | delete task => exact unfinished_delete unfinished
  | deleteRun task =>
    refine (unfinished_deleteRun deletes unfinished).trans ?_
    have store : (cleanedRun packages w world task).store = world.store ∨ _ := cleanedRun_store task
    rcases store with same | ⟨filters,threadId,consults⟩
    · exact same
    · exact consults.trans (consult_same full filters threadId)
  | _ => cases deletes

theorem delete_step [DecidableEq J] (distinct : (threadIds s).Nodup) (remains : Remains s done world.store) {task : DeleteTask}
    (captured : Captured s (.delete (J := J) task)) :
    Remains s (done ++ (finishes packages w world (.delete task)).toList) (resume packages w world (.delete task)).1.store ∧
      ∀ u ∈ (resume packages w world (.delete task)).2, Captured s u ∧ targetOf u = some (.thread task.threadId) := by
  obtain ⟨store,outcome⟩ : (stepDeleteWhole packages w world task).1.store = _ ∧ _ := deleteWhole_store task
  refine ⟨?_,fun u member => ?_⟩
  · rcases stepDelete_cases world.records.server task with idle | ⟨threadId,ref,rfl,goes⟩
    · have unfinished : finishes packages w world (.delete task) = none := by
        unfold finishes
        dsimp only
        split
        · rename_i threadId returned
          exact absurd (outcome.symm.trans returned) (idle.2 threadId trivial)
        · rfl
      rw [unfinished,unfinished_delete unfinished]
      simpa using remains
    · have finished : finishes packages w world (.delete (.streams threadId ref)) = some (.thread threadId) := by
        simp [finishes,outcome,goes]
      rw [finished]
      refine (congrArg (Remains s _) (store.trans (congrArg (Server.store ∘ Prod.fst) goes))).mpr ?_
      exact removeThread_remains distinct remains captured
  · obtain ⟨again,suspends,rfl⟩ := mem_goes member
    obtain ⟨kept,named⟩ := delete_captured remains captured (outcome.symm.trans suspends)
    exact ⟨kept,congrArg (some ∘ Target.thread) named⟩

theorem deleteRun_step [DecidableEq J] (remains : Remains s done world.store) {task : DeleteRunTask}
    (captured : Captured s (.deleteRun (J := J) task)) :
    Remains s (done ++ (finishes packages w world (.deleteRun task)).toList) (resume packages w world (.deleteRun task)).1.store ∧
      ∀ u ∈ (resume packages w world (.deleteRun task)).2, Captured s u ∧ targetOf u = runTarget task := by
  have cleaned : Remains s done (cleanedRun packages w world task).store :=
    remains_undisturbed remains (cleanedRun_undisturbed task)
  refine ⟨?_,fun u member => ?_⟩
  · rcases stepDeleteRun_cases (w := w) (cleanedRun packages w world task).records.server task with
      idle | ⟨runId,threadId,rfl,goes⟩
    · have unfinished : finishes packages w world (.deleteRun task) = none := by
        unfold finishes
        dsimp only
        split
        · rename_i runId returned
          exact absurd returned (idle.2 (some runId) rfl)
        · rfl
      rw [unfinished,unfinished_deleteRun captured unfinished]
      simpa using cleaned
    · obtain ⟨runId,rfl⟩ : ∃ id, runId = some id := by
        cases runId with
        | none => cases captured
        | some id => exact ⟨id,rfl⟩
      have finished : finishes packages w world (.deleteRun (.streams (some runId) threadId)) = some (.run runId threadId) := by
        simp only [finishes,goes]
        rfl
      rw [finished]
      refine (congrArg (Remains s _) (congrArg (Server.store ∘ Prod.fst) goes)).mpr ?_
      exact removeRun_remains cleaned
  · obtain ⟨again,suspends,rfl⟩ := mem_goes member
    have named : (runTarget task).isSome := captured
    have same : runTarget again = runTarget task := by
      rw [runTarget_key] at named
      rw [runTarget_key,runTarget_key,stepDeleteRun_key (by simpa using named) suspends]
    exact ⟨by change (runTarget again).isSome = true; rw [same]; exact captured,same⟩

theorem deletion_step [DecidableEq J] (distinct : (threadIds s).Nodup) (remains : Remains s done world.store) {task : Mutation J}
    (captured : Captured s task) :
    Remains s (done ++ (finishes packages w world task).toList) (resume packages w world task).1.store ∧
      ∀ u ∈ (resume packages w world task).2, Captured s u ∧ targetOf u = targetOf task := by
  cases task with
  | delete task => exact delete_step distinct remains captured
  | deleteRun task => exact deleteRun_step remains captured
  | _ => exact captured.elim

-- A step that ends a deletion by returning its id ends it for good.
theorem finished_ends [DecidableEq J] {task : Mutation J} {target : Target} (finished : finishes packages w world task = some target) :
    targetOf task = some target ∧ (resume packages w world task).2 = [] := by
  cases task with
  | delete task =>
    obtain ⟨_,outcome⟩ : (stepDeleteWhole packages w world task).1.store = _ ∧ _ := deleteWhole_store task
    rcases stepDelete_cases world.records.server task with idle | ⟨threadId,ref,rfl,does⟩
    · unfold finishes at finished
      dsimp only at finished
      split at finished
      · rename_i threadId returned
        exact absurd (outcome.symm.trans returned) (idle.2 threadId trivial)
      · cases finished
    · simp only [finishes,outcome,does] at finished
      exact ⟨finished,congrArg (goes _) (outcome.trans (congrArg Prod.snd does))⟩
  | deleteRun task =>
    unfold finishes at finished
    dsimp only at finished
    split at finished
    · rename_i returned
      exact ⟨finished,congrArg (goes _) returned⟩
    · cases finished
  | _ => cases finished

end step

section run
variable [DecidableEq J] {packages : Packages J} {start p : Pool J} {taken : List (Pool J × Event J)}

structure Progress (packages : Packages J) (s : Store J) (taken : List (Pool J × Event J)) (p : Pool J) : Prop where
  remains : Remains s (taken.filterMap (completes packages)) p.shared.store
  captured : ∀ task ∈ p.tasks, Captured s task

theorem completes_resume {index : Nat} {w : Wake J} {task : Mutation J} (found : p.tasks[index]? = some task) :
    completes packages (p,.resume index w) = finishes packages w p.shared task := by
  change (p.tasks[index]?).bind _ = _
  rw [found]
  rfl

theorem progress_step {s : Store J} (distinct : (threadIds s).Nodup) {event : Event J} {next : Pool J}
    (progress : Progress packages s taken p) (meets : TaskPool.Meets Deletion (fun _ _ _ => True) (p,event))
    (step : TaskPool.advance (resume packages) p event = some next) : Progress packages s (taken ++ [(p,event)]) next := by
  cases event with
  | call task =>
    cases Option.some.inj step
    refine ⟨?_,fun u member => ?_⟩
    · rw [List.filterMap_append]
      exact (List.append_nil _).symm ▸ progress.remains
    rcases List.mem_append.mp member with old | new
    · exact progress.captured u old
    · rw [List.mem_singleton.mp new]
      have deletion : Deletion task := meets
      unfold Deletion at deletion
      split at deletion
      · exact trivial
      · exact (Option.isSome_map ..).trans deletion
      · exact deletion.elim
  | resume index w =>
    obtain ⟨before,task,after,split_,found,rfl⟩ := TaskPool.resume_parts step
    have mine : Captured s task := progress.captured task (by simp [split_])
    obtain ⟨remains,later⟩ := deletion_step (w := w) distinct progress.remains mine
    refine ⟨?_,fun u member => ?_⟩
    · have last : [(p,TaskPool.Event.resume index w)].filterMap (completes packages) = (finishes packages w p.shared task).toList := by
        rw [← completes_resume found]
        cases finished : completes packages (p,.resume index w) <;> simp [finished]
      rw [List.filterMap_append,last]
      exact remains
    · rcases List.mem_append.mp member with first | last
      · rcases List.mem_append.mp first with old | new
        · exact progress.captured u (by simp [split_,old])
        · exact (later u new).1
      · exact progress.captured u (by simp [split_,last])

theorem run_progress (runs : Runs packages start taken p) (idle : start.tasks = []) (distinct : (threadIds start.shared.store).Nodup)
    (deletions : ∀ step ∈ taken, TaskPool.Meets Deletion (fun _ _ _ => True) step) :
    Progress packages start.shared.store taken p ∧
      ∀ before step after, taken = before ++ step :: after → Progress packages start.shared.store before step.1 := by
  refine TaskPool.runs_history (fun _ step => TaskPool.Meets Deletion (fun _ _ _ => True) step) runs
    ⟨remains_start _,by simp [idle]⟩ (fun _ _ _ _ progress meets step => progress_step distinct progress meets step) ?_
  rintro before step after rfl
  exact deletions step (by simp)

-- Each call's target is either gone or still worked on.
def Accounted (packages : Packages J) (taken : List (Pool J × Event J)) (p : Pool J) : Prop :=
  ∀ target, target ∈ taken.filterMap calls ↔ target ∈ taken.filterMap (completes packages) ∨ ∃ task ∈ p.tasks, targetOf task = some target

theorem accounted_call {task : Mutation J} (accounted : Accounted packages taken p) :
    Accounted packages (taken ++ [(p,TaskPool.Event.call task)]) {p with tasks := p.tasks ++ [task]} := by
  intro target
  have done : (taken ++ [(p,TaskPool.Event.call task)]).filterMap (completes packages) = taken.filterMap (completes packages) := by
    rw [List.filterMap_append]
    exact List.append_nil _
  have called : target ∈ (taken ++ [(p,TaskPool.Event.call task)]).filterMap calls ↔ target ∈ taken.filterMap calls ∨ targetOf task = some target := by
    rw [List.filterMap_append,List.mem_append,List.mem_filterMap (l := [_])]
    simp [calls]
  rw [done,called,accounted target,or_assoc]
  simp [or_and_right,exists_or]

theorem accounted_resume {s : Store J} (distinct : (threadIds s).Nodup) (progress : Progress packages s taken p)
    (accounted : Accounted packages taken p) {index : Nat} {w : Wake J} {before after : List (Mutation J)} {task : Mutation J}
    (split_ : p.tasks = before ++ task :: after) (found : p.tasks[index]? = some task) (returns : Returns packages w p.shared task) :
    Accounted packages (taken ++ [(p,TaskPool.Event.resume index w)])
      ⟨(resume packages w p.shared task).1,before ++ (resume packages w p.shared task).2 ++ after⟩ := by
  intro target
  obtain ⟨_,later⟩ := deletion_step (w := w) distinct progress.remains (progress.captured task (by simp [split_]))
  have called : (taken ++ [(p,TaskPool.Event.resume index w)]).filterMap calls = taken.filterMap calls := by
    rw [List.filterMap_append]
    exact List.append_nil _
  have done : target ∈ (taken ++ [(p,TaskPool.Event.resume index w)]).filterMap (completes packages) ↔
      target ∈ taken.filterMap (completes packages) ∨ finishes packages w p.shared task = some target := by
    rw [List.filterMap_append,List.mem_append,← completes_resume found,List.mem_filterMap (l := [_])]
    simp
  -- The task is over with its id or goes on towards the same target.
  have mine : targetOf task = some target ↔ finishes packages w p.shared task = some target ∨
      ∃ u ∈ (resume packages w p.shared task).2, targetOf u = some target := by
    cases finished : finishes packages w p.shared task with
    | some done =>
      obtain ⟨aims,ended⟩ := finished_ends finished
      simp [aims,ended]
    | none =>
      have goesOn : (resume packages w p.shared task).2 ≠ [] := fun ended => by
        have some_ := returns ended
        rw [finished] at some_
        cases some_
      obtain ⟨u,member⟩ := List.exists_mem_of_ne_nil _ goesOn
      constructor
      · exact fun aims => .inr ⟨u,member,(later u member).2.trans aims⟩
      · rintro (ended | ⟨u,member,aims⟩)
        · cases ended
        · exact (later u member).2.symm.trans aims
  rw [called,done,accounted target,split_]
  simp only [List.mem_append,List.mem_cons,or_and_right,exists_or,exists_eq_left,mine]
  exact Iff.of_eq (by ac_rfl)

-- A deletion changes nothing before its last step, but for the
-- `state_updated_at` that it fills in, and any number of them that run at once
-- removes what was asked for. Another deletion may fail meanwhile.
theorem deletions_independent (runs : Runs packages start taken p) (idle : start.tasks = [])
    (distinct : (threadIds start.shared.store).Nodup)
    (deletions : ∀ step ∈ taken, TaskPool.Meets Deletion (fun _ _ _ => True) step) :
    (∀ w (world : World J) task, (targetOf task).isSome → finishes packages w world task = none →
      Undisturbed world.store (resume packages w world task).1.store ∧
        ((∃ inner, task = .delete inner) ∨ Complete world.store → (resume packages w world task).1.store = world.store)) ∧
    Remains start.shared.store (taken.filterMap (completes packages)) p.shared.store ∧
    ((∀ step ∈ taken, TaskPool.Meets (fun _ => True) (Returns packages) step) → p.tasks = [] →
      Remains start.shared.store (taken.filterMap calls) p.shared.store) := by
  obtain ⟨progress,earlier⟩ := run_progress runs idle distinct deletions
  refine ⟨fun w world task deletes unfinished => ⟨unfinished_undisturbed deletes unfinished,?_⟩,progress.remains,fun returns ended => ?_⟩
  · rintro (⟨inner,rfl⟩ | full)
    · exact unfinished_delete unfinished
    · exact unfinished_same deletes unfinished full
  · have accounted : Accounted packages taken p := by
      refine (TaskPool.runs_history (fun before step => TaskPool.Meets (fun _ => True) (Returns packages) step ∧
        Progress packages start.shared.store before step.1) runs (by simp [Accounted,idle]) ?_ ?_).1
      · rintro taken p event next accounted ⟨returns,progress⟩ step
        cases event with
        | call task =>
          cases Option.some.inj step
          exact accounted_call accounted
        | resume index w =>
          obtain ⟨before,task,after,split_,found,rfl⟩ := TaskPool.resume_parts step
          exact accounted_resume distinct progress accounted split_ found (returns task found)
      · rintro before step after rfl
        exact ⟨returns step (by simp),earlier before step after rfl⟩
    refine remains_congr (fun target => ?_) progress.remains
    simpa [ended] using accounted target

end run

-- The deletion of one thread with its run and that of the other's run, one
-- step of each in turn.
def deletingBoth : List (Event String) :=
  [.call (.delete (.called "T")),.call (.deleteRun (.called (some "r") "U")),.resume 0 waking,.resume 1 waking,.resume 0 waking,
    .resume 1 waking,.resume 0 waking,.resume 1 waking,.resume 0 waking,.resume 0 waking]

theorem deletions_independent_toy : ∃ taken p, Runs toyPackages ⟨toyWorld,[]⟩ taken p ∧ p.tasks = [] ∧
    Remains toyWorld.store [.thread "T",.run "r" "U"] p.shared.store := by
  have runs := TaskPool.perform_runs .nil (rfl : TaskPool.perform (Mutations.resume toyPackages) ⟨toyWorld,[]⟩ deletingBoth = some _)
  refine ⟨_,_,runs,rfl,(deletions_independent runs rfl (by decide) ?_).2.2 ?_ rfl⟩
  · iterate 2 refine List.forall_mem_cons.mpr ⟨by first | exact trivial | rfl,?_⟩
    iterate 8 refine List.forall_mem_cons.mpr ⟨fun _ _ => trivial,?_⟩
    exact fun _ none_ => (List.not_mem_nil none_).elim
  · iterate 2 refine List.forall_mem_cons.mpr ⟨trivial,?_⟩
    iterate 8 refine List.forall_mem_cons.mpr ⟨fun task found => by cases found; first | exact fun _ => rfl | exact nofun,?_⟩
    exact fun _ none_ => (List.not_mem_nil none_).elim

-- A thread that `Runs.put` has created lacks its `state_updated_at`.
def lacking : World String :=
  toyWorld.withStore (((Store.empty).appendThread {owned "U" "alice" with stateUpdatedAt := none}).appendRun ⟨some "r","U","a",.pending,0,0⟩)

def failing : List (Event String) :=
  [.call (.deleteRun (.called (some "r") "U")),.resume 0 waking,.resume 0 answering,.resume 0 {waking with failure := some .external}]

theorem failed_deletion_fills_in : (threadIds lacking.store).Nodup ∧ ∃ taken p, Runs toyPackages ⟨lacking,[]⟩ taken p ∧
    p.tasks = [] ∧ taken.filterMap (completes toyPackages) = [] ∧
    (lacking.store.liveThreads.map lacking.store.thread).map Thread.stateUpdatedAt = [none] ∧
    (p.shared.store.liveThreads.map p.shared.store.thread).map Thread.stateUpdatedAt = [some 0] := by
  have runs := TaskPool.perform_runs .nil (rfl : TaskPool.perform (Mutations.resume toyPackages) ⟨lacking,[]⟩ failing = some _)
  exact ⟨by decide,_,_,runs,rfl,rfl,rfl,rfl⟩

end InmemRuntime.DeletionIndependence
