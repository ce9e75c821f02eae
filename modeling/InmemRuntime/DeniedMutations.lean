import InmemRuntime.RefusedRuns
import InmemRuntime.RecordIds

namespace InmemRuntime.DeniedMutations
open OrderedDict CheckpointSaver DeleteForRuns Streams StreamUpkeep RunDeletion
open ThreadTtl RuntimeStore Serving ThreadOps RunOps AssistantOps Mutations RecordFrames Refusals RefusedThreads RefusedRuns
open RecordCreation (PutAssistantTask stepPutAssistant)

variable {J : Type}

section others
variable {check : Metadata J → Bool} {packages : Packages J} {w : Wake J} {s : World J}

-- The tables stay; the view that the store has of them may be set anew.
theorem tables_quiet [DecidableEq J] {assistantId : String} {tables : AssistantTables J} (same : tables = s.records.tables) :
    Quiet check (.assistant assistantId) s (s.withTables packages tables,[]) := by
  subst same
  exact ⟨⟨rfl,rfl,rfl,fun _ _ _ => ⟨rfl,rfl⟩⟩,⟨Nat.le_refl _,fun _ _ => rfl,id,Nat.le_refl _,fun _ _ member _ => member⟩,
    fun u member => (List.not_mem_nil member).elim⟩

theorem barred_assistant {assistantId : String} (barred : Barred check s (.assistant assistantId)) :
    ∃ a, s.records.tables.find assistantId = some a ∧ check a.metadata = false := by
  obtain ⟨present,fails⟩ := barred
  obtain ⟨a,found⟩ := Option.isSome_iff_exists.mp present
  exact ⟨a,found,fails a (List.mem_of_find?_eq_some found) (by simpa using List.find?_some found)⟩

theorem putAssistant_quiet [DecidableEq J] {assistantId : String} (barred : Barred check s (.assistant assistantId)) {task : PutAssistantTask J}
    (denied : Denied check s (.assistant assistantId) (.putAssistant task))
    (answers : Answers check (.assistant assistantId) w (.putAssistant task)) :
    Quiet check (.assistant assistantId) s (Mutations.resume packages w s (.putAssistant task)) := by
  cases task with
  | called call =>
    refine quiet_same fun u member => ?_
    cases List.mem_singleton.mp member
    exact denied
  | authorizing call =>
    cases auth : w.auth with
    | error fault =>
      have shape : Mutations.resume packages w s (.putAssistant (.authorizing call)) = (s,[]) := by
        unfold Mutations.resume stepPutAssistant
        rw [auth]
        rfl
      rw [shape]
      exact ended_quiet rfl rfl
    | ok filters =>
      cases answers filters auth
      obtain ⟨a,found,failed⟩ := barred_assistant barred
      cases denied
      have same : (putAssistant packages.objects.toJson w.now w.failure s.records.tables call (some check)).1 = s.records.tables := by
        unfold putAssistant
        split
        · rfl
        · rw [found]
          exact congrArg Prod.fst (if_pos (bars failed))
      have shape : Mutations.resume packages w s (.putAssistant (.authorizing call)) = (s.withTables packages
          (putAssistant packages.objects.toJson w.now w.failure s.records.tables call (some check)).1,[]) := by
        unfold Mutations.resume stepPutAssistant
        rw [auth]
        rfl
      rw [shape]
      exact tables_quiet same

-- A call that its own check refuses after its handler has answered.
theorem asking_quiet {α ρ : Type} {target : Target} {wrap : Asking α → Mutation J} {go : α → Filters J → World J × Except Fault ρ}
    {call : α} (answered : Answered check w) (refused : ∃ fault, Quiet check target s ((go call (some check)).1,[]) ∧
      (go call (some check)).2 = .error fault) :
    Quiet check target s (went wrap (asking w s go (.authorizing call))) := by
  unfold asking
  dsimp only
  cases auth : w.auth with
  | error fault => exact ended_quiet rfl rfl
  | ok filters =>
    cases answered filters auth
    obtain ⟨fault,quiet,raises⟩ := refused
    have shape : go call (some check) = ((go call (some check)).1,.error fault) := Prod.ext rfl raises
    dsimp only
    rw [shape]
    exact quiet

theorem called_quiet {α ρ : Type} {target : Target} {wrap : Asking α → Mutation J} {go : α → Filters J → World J × Except Fault ρ}
    {call : α} (denied : Denied check s target (wrap (.authorizing call))) :
    Quiet check target s (went wrap (asking w s go (.called call))) := by
  refine quiet_same fun u member => ?_
  cases List.mem_singleton.mp member
  exact denied

theorem patchAssistant_quiet [DecidableEq J] {assistantId : String} (barred : Barred check s (.assistant assistantId))
    {task : Asking (PatchAssistantCall J)} (denied : Denied check s (.assistant assistantId) (.patchAssistant task))
    (answers : Answers check (.assistant assistantId) w (.patchAssistant task)) :
    Quiet check (.assistant assistantId) s (went .patchAssistant (asking w s (patchAssistantWhole packages w s) task)) := by
  cases task with
  | called call => exact called_quiet denied
  | authorizing call =>
    obtain ⟨a,found,failed⟩ := barred_assistant barred
    cases denied
    refine asking_quiet answers ?_
    have refused : ∃ fault, patchAssistant packages.objects.toJson w.now w.failure s.records.tables call (some check) =
        (s.records.tables,.error fault) := by
      unfold patchAssistant
      split
      · exact ⟨_,rfl⟩
      · rw [found]
        exact ⟨_,if_pos (bars failed)⟩
    obtain ⟨fault,raises⟩ := refused
    refine ⟨fault,?_,congrArg Prod.snd raises⟩
    exact tables_quiet (congrArg Prod.fst raises)

theorem setLatest_quiet [DecidableEq J] {assistantId : String} (barred : Barred check s (.assistant assistantId))
    {task : Asking (String × Nat)} (denied : Denied check s (.assistant assistantId) (.setLatest task))
    (answers : Answers check (.assistant assistantId) w (.setLatest task)) :
    Quiet check (.assistant assistantId) s (went .setLatest (asking w s (setLatestWhole packages w s) task)) := by
  cases task with
  | called call => exact called_quiet denied
  | authorizing call =>
    obtain ⟨a,found,failed⟩ := barred_assistant barred
    cases denied
    refine asking_quiet answers ?_
    have refused : chosenVersion s.records.tables call.1 call.2 (some check) = .error (assistantMissing call.1) := by
      unfold chosenVersion
      rw [found]
      exact if_pos (bars failed)
    have raises : setLatest w.now s.records.tables call.1 call.2 (some check) = (s.records.tables,.error (assistantMissing call.1)) := by
      unfold setLatest
      rw [refused]
    refine ⟨assistantMissing call.1,?_,congrArg Prod.snd raises⟩
    exact tables_quiet (congrArg Prod.fst raises)

theorem deleteAssistant_quiet [DecidableEq J] {assistantId : String} (barred : Barred check s (.assistant assistantId)) {task : DeleteAssistantTask}
    (denied : Denied check s (.assistant assistantId) (.deleteAssistant task))
    (answers : Answers check (.assistant assistantId) w (.deleteAssistant task)) :
    Quiet check (.assistant assistantId) s (Mutations.resume packages w s (.deleteAssistant task)) := by
  cases task with
  | called other deleteThreads =>
    refine quiet_same fun u member => ?_
    cases List.mem_singleton.mp member
    exact denied
  | authorizing other deleteThreads =>
    obtain ⟨a,found,failed⟩ := barred_assistant barred
    cases denied
    unfold Mutations.resume stepDeleteAssistant
    dsimp only
    cases auth : w.auth with
    | error fault => exact ended_quiet rfl rfl
    | ok filters =>
      cases answers filters auth
      simp only [found,bars failed,↓reduceIte]
      exact ended_quiet rfl rfl
  | threads other inner rest => exact denied.elim
  | warning other rest => exact denied.elim
  | cancelling other told inner => exact denied.elim
  | signalling other action told => exact denied.elim

theorem updateCron_quiet {cronId : String} (barred : Barred check s (.cron cronId)) {task : Asking (UpdateCronCall J)}
    (denied : Denied check s (.cron cronId) (.updateCron task)) (answers : Answers check (.cron cronId) w (.updateCron task)) :
    Quiet check (.cron cronId) s (went .updateCron (asking w s (updateCron packages w s) task)) := by
  cases task with
  | called call => exact called_quiet denied
  | authorizing call =>
    cases denied
    refine asking_quiet answers ?_
    have refused : ∃ fault, updateCron packages w s call (some check) = (s,.error fault) := by
      unfold updateCron
      split
      · exact ⟨_,rfl⟩
      · split
        · rename_i cron fields found _
          have same : cron.cronId = call.cronId := by simpa using List.find?_some found
          exact ⟨_,if_pos (bars (same ▸ barred.2))⟩
        · exact ⟨_,rfl⟩
    obtain ⟨fault,raises⟩ := refused
    rw [raises]
    exact ⟨fault,ended_quiet rfl rfl,rfl⟩

theorem deleteCron_quiet {cronId : String} (barred : Barred check s (.cron cronId)) {task : Asking String}
    (denied : Denied check s (.cron cronId) (.deleteCron task)) (answers : Answers check (.cron cronId) w (.deleteCron task)) :
    Quiet check (.cron cronId) s (went .deleteCron (asking w s (deleteCron s) task)) := by
  cases task with
  | called other => exact called_quiet denied
  | authorizing other =>
    cases denied
    unfold asking
    dsimp only
    cases auth : w.auth with
    | error fault => exact ended_quiet rfl rfl
    | ok filters =>
      cases answers filters auth
      have whole : s.store.crons.filter (fun cron =>
          !(cron.cronId == cronId && passes (some check) (cronMetadata s cron.cronId))) = s.store.crons := by
        refine List.filter_eq_self.mpr fun cron _ => ?_
        by_cases same : cron.cronId = cronId
        · rw [same,Bool.not_and,bars barred.2,Bool.or_true]
        · simp [same]
      unfold deleteCron
      dsimp only
      rw [whole]
      exact ended_quiet rfl rfl

end others

section operations
variable [DecidableEq J] {check : Metadata J → Bool} {target : Target} {packages : Packages J}

-- One step, of the operation or of another call.
theorem step_quiet {w : Wake J} {s : World J} {task : Mutation J} (stored : ∀ ref ∈ s.store.boundRuns, ref < s.store.runs.next)
    (denied : Denied check s target task) (barred : Barred check s target) (answers : Answers check target w task)
    (guarded : Guarded packages check target w s task) (own : ∀ change, task ≠ .other change) :
    Quiet check target s (Mutations.resume packages w s task) := by
  cases target with
  | thread threadId =>
    cases task with
    | patch task => exact patch_quiet denied answers guarded
    | delete task => exact delete_quiet denied answers guarded
    | prune task => exact prune_quiet barred denied answers
    | copy task => exact copy_quiet barred denied answers
    | update task => exact update_quiet barred denied answers guarded
    | putRun task => exact putRun_quiet barred denied answers
    | deleteRun task => exact deleteRun_quiet barred denied answers guarded
    | cancel told task => exact cancel_quiet barred stored denied answers
    | signal key action => exact signal_quiet denied
    | delivering queue message => exact delivering_quiet denied
    | other change => exact absurd rfl (own change)
    | _ => exact denied.elim
  | assistant assistantId =>
    cases task with
    | putAssistant task => exact putAssistant_quiet barred denied answers
    | patchAssistant task => exact patchAssistant_quiet barred denied answers
    | setLatest task => exact setLatest_quiet barred denied answers
    | deleteAssistant task => exact deleteAssistant_quiet barred denied answers
    | other change => exact absurd rfl (own change)
    | _ => exact denied.elim
  | cron cronId =>
    cases task with
    | updateCron task => exact updateCron_quiet barred denied answers
    | deleteCron task => exact deleteCron_quiet barred denied answers
    | other change => exact absurd rfl (own change)
    | _ => exact denied.elim

-- Nobody else's call is among the tasks, only changes of any kind.
def Alone : Mutation J → Prop
  | .other _ => True
  | _ => False

def Careful (packages : Packages J) (check : Metadata J → Bool) (target : Target) : Pool J × Event J → Prop :=
  TaskPool.Meets Alone fun w s task => Barred check s target ∧ Answers check target w task ∧ Guarded packages check target w s task

def Harmless (packages : Packages J) (target : Target) : Pool J × Event J → Prop :=
  TaskPool.Meets (fun _ => True) fun w s task => ¬ Alone task → Unchanged target s (Mutations.resume packages w s task).1

structure Refusing (check : Metadata J → Bool) (target : Target) (p : Pool J) : Prop where
  stored : ∀ ref ∈ p.shared.store.boundRuns, ref < p.shared.store.runs.next
  denied : ∀ task ∈ p.tasks, Denied check p.shared target task

theorem resume_keeps {w : Wake J} {s : World J} {task : Mutation J} (stored : ∀ ref ∈ s.store.boundRuns, ref < s.store.runs.next)
    (denied : Denied check s target task) (barred : Barred check s target) (answers : Answers check target w task)
    (guarded : Guarded packages check target w s task) :
    Keeps s (Mutations.resume packages w s task).1 ∧
      ∀ u ∈ (Mutations.resume packages w s task).2, Denied check (Mutations.resume packages w s task).1 target u := by
  by_cases alone : ∃ change, task = .other change
  · obtain ⟨change,rfl⟩ := alone
    exact ⟨change.keeps s,fun u member => (List.not_mem_nil member).elim⟩
  · have quiet := step_quiet stored denied barred answers guarded fun change same => alone ⟨change,same⟩
    exact ⟨quiet.keeps,quiet.denied⟩

theorem advance_refusing {p next : Pool J} {event : Event J} (refusing : Refusing check target p)
    (careful : Careful packages check target (p,event)) (step : TaskPool.advance (Mutations.resume packages) p event = some next) :
    Refusing check target next := by
  cases event with
  | call task =>
    cases Option.some.inj step
    refine ⟨refusing.stored,fun other member => ?_⟩
    rcases List.mem_append.mp member with old | new
    · exact refusing.denied other old
    · cases List.mem_singleton.mp new
      cases task with
      | other change => cases target <;> trivial
      | _ => exact careful.elim
  | resume index w =>
    obtain ⟨before,task,after,split,found,rfl⟩ := TaskPool.resume_parts step
    obtain ⟨barred,answers,guarded⟩ := careful task found
    obtain ⟨keeps,spawned⟩ := resume_keeps refusing.stored (refusing.denied task (by simp [split])) barred answers guarded
    refine ⟨keeps.stored refusing.stored,fun other member => ?_⟩
    rcases List.mem_append.mp member with first | later
    · rcases List.mem_append.mp first with old | new
      · exact denied_later keeps (refusing.denied other (by simp [split,old]))
      · exact spawned other new
    · exact denied_later keeps (refusing.denied other (by simp [split,later]))

-- An operation that the target's metadata bars, called where its runs are
-- stored and met by any changes of other code.
theorem denied_changes_nothing (packages : Packages J) (check : Metadata J → Bool) (target : Target) (operation : Mutation J)
    (start : World J) (p : Pool J) (taken : List (Pool J × Event J)) (aims : Aims target operation)
    (stored : ∀ ref ∈ start.store.boundRuns, ref < start.store.runs.next) (runs : Runs packages ⟨start,[operation]⟩ taken p)
    (careful : ∀ step ∈ taken, Careful packages check target step) : ∀ step ∈ taken, Harmless packages target step := by
  have begins : Refusing check target ⟨start,[operation]⟩ := by
    refine ⟨stored,fun task member => ?_⟩
    cases List.mem_singleton.mp member
    exact aims_denied aims
  have refusing := (TaskPool.runs_invariant runs begins
    (fun _ _ _ here careful step => advance_refusing here careful step) careful).2
  rintro ⟨pool,event⟩ member
  cases event with
  | call task => trivial
  | resume index w =>
    intro task found own
    have here := refusing _ member
    obtain ⟨barred,answers,guarded⟩ := careful _ member task found
    refine (step_quiet here.stored (here.denied task (List.mem_of_getElem? found)) barred answers guarded fun change same => ?_).unchanged
    subst same
    exact own trivial

end operations

def toyPackages : Packages String :=
  ⟨⟨RecordIds.texts,"",fun _ => .empty,fun _ => ""⟩,RecordIds.noGraphs,none,toyBase.toSerde,[],⟨fun _ => 0,⟨id,fun _ => .refl _⟩⟩,
    fun _ => "",fun _ => none,fun _ now _ => .ok now,fun _ saver => saver,fun _ _ => ⟨false,"",""⟩,
    fun _ => [],fun _ => ""⟩

def alices (metadata : Metadata String) : Bool := metadata.get? "owner" == some "alice"

def owned (threadId owner : String) : Thread String :=
  ⟨threadId,.idle,Dict.empty.insert "owner" owner,0,0,some 0,none,none,none⟩

-- A run on each of two threads, and under the first a checkpoint that names
-- the run of the second, as a copy of it does.
def toyStore : Store String :=
  ((((Store.empty).appendThread (owned "T" "bob")).appendThread (owned "U" "alice")).appendRun ⟨some "q","T","a",.running,0,0⟩).appendRun
    ⟨some "r","U","a",.running,0,0⟩

def toyWorld : World String :=
  ⟨⟨.start toyStore,.empty,.empty⟩,.empty,
    clear.setBucket "T" "" (Dict.empty.insert (.text "1") ⟨⟨"",[]⟩,⟨"",[9]⟩,none⟩),⟨.new,bare_maintained ⟨rfl,rfl,rfl,rfl,rfl,rfl,rfl⟩⟩⟩

def waking : Wake String := .quiet 0

def answering : Wake String := {waking with auth := .ok (some alices)}

theorem toy_stored : ∀ ref ∈ toyWorld.store.boundRuns, ref < toyWorld.store.runs.next := by decide

theorem toy_barred {s : World String} (single : (threadRecords s.store "T").map Thread.metadata = [Dict.empty.insert "owner" "bob"]) :
    Barred alices s (.thread "T") := by
  refine ⟨fun none_ => by simp [none_] at single,fun thread member => ?_⟩
  have listed := List.mem_map_of_mem (f := Thread.metadata) member
  rw [single] at listed
  rw [List.mem_singleton.mp listed]
  decide

theorem answering_answered : Answered alices answering := fun _ same => (Except.ok.inj same).symm

def deletion : Mutation String := .deleteRun (.called (some "q") "T")

-- `Runs.delete` of the first thread's run for the owner of the second.
theorem denied_changes_nothing_toy : ∃ taken p, Runs toyPackages ⟨toyWorld,[deletion]⟩ taken p ∧ taken.length = 2 ∧ p.tasks = [] ∧
    ∀ step ∈ taken, Harmless toyPackages (.thread "T") step := by
  have runs := TaskPool.perform_runs .nil (rfl : TaskPool.perform (Mutations.resume toyPackages) ⟨toyWorld,[deletion]⟩
    [.resume 0 waking,.resume 0 answering] = some _)
  refine ⟨_,_,runs,rfl,rfl,denied_changes_nothing toyPackages alices (.thread "T") deletion toyWorld _ _ rfl toy_stored runs ?_⟩
  refine List.forall_mem_cons.mpr ⟨fun task found => ?_,List.forall_mem_cons.mpr ⟨fun task found => ?_,fun _ none_ => (List.not_mem_nil none_).elim⟩⟩
  · cases found
    exact ⟨toy_barred (by decide +kernel),trivial,trivial⟩
  · cases found
    exact ⟨toy_barred (by decide +kernel),fun _ => answering_answered,trivial⟩

-- The target's record exists and fails when a step is taken, and the handler
-- answers with the filter.
def Confronted (check : Metadata J → Bool) (target : Target) : Pool J × Event J → Prop :=
  TaskPool.Meets Alone fun w s task => Barred check s target ∧ Answers check target w task

def cancellation : Mutation String := .cancel [] (.called ⟨none,.rollback,none,some .all,none⟩)

def rollsBack : List (Event String) := [.resume 0 waking,.resume 0 answering,.resume 0 waking,.resume 1 waking,.resume 1 waking,.resume 1 waking]

theorem rollback_deletes_foreign : ∃ taken p, Runs toyPackages ⟨toyWorld,[cancellation]⟩ taken p ∧
    Aims (.thread "T") cancellation ∧ (∀ step ∈ taken, Confronted alices (.thread "T") step) ∧
    ¬ ∀ step ∈ taken, Harmless toyPackages (.thread "T") step := by
  have runs := TaskPool.perform_runs .nil (rfl : TaskPool.perform (Mutations.resume toyPackages) ⟨toyWorld,[cancellation]⟩
    rollsBack = some _)
  refine ⟨_,_,runs,⟨rfl,.inl rfl⟩,?_,fun harmless => ?_⟩
  · iterate 6 refine List.forall_mem_cons.mpr ⟨fun task found => ⟨toy_barred (by cases found; decide +kernel),?_⟩,?_⟩; rotate_left
    · exact fun _ none_ => (List.not_mem_nil none_).elim
    all_goals cases found
    · trivial
    · exact answering_answered
    · trivial
    · trivial
    · exact fun same => absurd (Target.thread.inj same) (by decide)
    · trivial
  · iterate 5 replace harmless := (List.forall_mem_cons.mp harmless).2
    have last : Harmless toyPackages (.thread "T") _ := harmless _ List.mem_cons_self
    have kept : ThreadKept "T" _ _ := last _ rfl fun alone => alone
    have lost : none = some _ := kept.checkpoints "" (.text "1")
    cases lost

end InmemRuntime.DeniedMutations
