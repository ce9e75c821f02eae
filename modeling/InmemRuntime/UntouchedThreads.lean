import InmemRuntime.ThreadIsolation
import InmemRuntime.WorldReferences

namespace InmemRuntime.UntouchedThreads
open OrderedDict CheckpointSaver DeleteForRuns Streams StreamUpkeep RunDeletion
open ThreadTtl RuntimeStore Serving ThreadOps RunOps TtlSweep AssistantOps Mutations RecordFrames
open RecordCreation (Records cronThread PutCronCall PutCronTask stepPutCron insertCron validateAssistant PutAssistantTask stepPutAssistant)
open WorldReferences (appendedCron insertCron_cases insertCron_ends)
open ThreadRecords ThreadFrames ThreadIsolation

variable {J : Type}

section calls
variable {packages : Packages J} {w : Wake J} {s : World J} {threadId : String}

theorem asking_stays {α ρ : Type} {wrap : Asking α → Mutation J} {go : α → Filters J → World J × Except Fault ρ} {task : Asking α}
    (goes_ : ∀ call filters, task = .authorizing call → Isolated threadId s (go call filters).1)
    (again : ∀ call, task = .called call → Elsewhere threadId packages s (wrap (.authorizing call))) :
    Stays threadId packages s (went wrap (asking w s go task)) := by
  cases task with
  | called call => exact stays_goes (.refl _ _) fun later suspends => by cases suspends; exact again call rfl
  | authorizing call =>
    unfold asking
    dsimp only
    split
    · exact stays_goes (.refl _ _) nofun
    · rename_i filters _
      have isolated : Isolated threadId s (go call filters).1 := goes_ call filters rfl
      split <;> rename_i gone <;> rw [gone] at isolated
      · exact stays_goes isolated nofun
      · exact stays_goes isolated nofun

end calls

-- The assistants' calls write the tables and what goes with an assistant.
section assistants
variable [DecidableEq J] {packages : Packages J} {w : Wake J} {s : World J} {threadId assistantId : String}

theorem putAssistant_stays (task : PutAssistantTask J) : Stays threadId packages s (Mutations.resume packages w s (.putAssistant task)) := by
  cases task with
  | called call =>
    refine ⟨.refl _ _,fun u member => ?_⟩
    cases List.mem_singleton.mp member
    trivial
  | authorizing call =>
    unfold Mutations.resume stepPutAssistant
    dsimp only
    split
    · exact ⟨.refl _ _,fun u member => (List.not_mem_nil member).elim⟩
    · rename_i filters _
      exact ⟨tables_isolated packages _,fun u member => (List.not_mem_nil member).elim⟩

theorem removeAssistant_isolated (unused : Unused threadId s assistantId) : Isolated threadId s (removeAssistantWhole packages s assistantId) := by
  have removed : Isolated threadId s (s.withTables packages (removeAssistant s.records.tables assistantId)) := tables_isolated packages _
  refine removed.trans (leaves_isolated (leaves_sidecars rfl rfl rfl rfl ?_ rfl))
  refine (List.filter_filter ..).trans (List.filter_congr fun cron member => ?_)
  by_cases own : cron.threadId = threadId
  · simp [own,unused.crons cron member own]
  · simp [own]

omit [DecidableEq J] in
theorem deleteThreadsNext_away (used : LiveUsed s.store) (unused : Unused threadId s assistantId) {rest : List String} (out : threadId ∉ rest) :
    ∀ again, deleteThreadsNext s assistantId rest = .suspended again → deleteAssistantAway threadId packages s again := by
  intro again suspends
  cases rest with
  | nil =>
    cases suspends
    exact ⟨unused,nofun,unused.runs⟩
  | cons other rest =>
    cases suspends
    obtain ⟨apart,later⟩ := not_or.mp fun member => out (List.mem_cons.mpr member)
    exact ⟨unused,later,started_away used (Ne.symm apart)⟩

theorem threadsOf_away (others : ∀ thread ∈ threadRecords s.store threadId,
    thread.metadata.get? "assistant_id" ≠ some (packages.objects.text assistantId)) : threadId ∉ threadsOf packages s assistantId := by
  intro member
  obtain ⟨ref,picked,own⟩ := List.mem_map.mp member
  obtain ⟨live,named⟩ := List.mem_filter.mp picked
  refine others (s.store.thread ref) (List.mem_map_of_mem (List.mem_filter.mpr ⟨live,?_⟩)) (by simpa using named)
  simpa [Store.isThread] using own

theorem deleteAssistant_stays (used : LiveUsed s.store) (stored : ∀ ref ∈ s.store.boundRuns, ref < s.store.runs.next)
    {task : DeleteAssistantTask} (away : deleteAssistantAway threadId packages s task) :
    Stays threadId packages s (Mutations.resume packages w s (.deleteAssistant task)) := by
  have ended : ∀ {s' : World J} {fault : Fault}, Isolated threadId s s' →
      Stays threadId packages s (s',goes .deleteAssistant (.raised fault : Outcome DeleteAssistantTask String) ++ deliveries []) :=
    fun isolated => ⟨isolated,fun u member => (List.not_mem_nil member).elim⟩
  have goesOn : ∀ {s' : World J} {outcome : Outcome DeleteAssistantTask String}, Isolated threadId s s' →
      (∀ again, outcome = .suspended again → deleteAssistantAway threadId packages s' again) →
      Stays threadId packages s (s',goes .deleteAssistant outcome ++ deliveries []) := by
    intro s' outcome isolated again
    refine ⟨isolated,fun u member => ?_⟩
    rw [deliveries,List.map_nil,List.append_nil] at member
    obtain ⟨task,suspends,rfl⟩ := mem_goes member
    exact again task suspends
  unfold Mutations.resume
  cases task with
  | called assistantId deleteThreads => exact goesOn (.refl _ _) fun again suspends => by cases suspends; exact away
  | authorizing assistantId deleteThreads =>
    obtain ⟨unused,others⟩ := away
    unfold stepDeleteAssistant
    dsimp only
    split
    · exact ended (.refl _ _)
    · split
      · exact ended (.refl _ _)
      · split
        · exact ended (.refl _ _)
        · refine goesOn (.refl _ _) (deleteThreadsNext_away used unused ?_)
          split
          · rename_i chosen
            exact threadsOf_away (others chosen)
          · exact List.not_mem_nil
  | threads assistantId inner rest =>
    obtain ⟨unused,out,inside⟩ := away
    obtain ⟨isolated,again⟩ : Isolated threadId s (stepDeleteWhole packages w s inner).1 ∧ _ := deleteWhole_stays used inside
    have still := unused_later isolated unused
    unfold stepDeleteAssistant
    dsimp only
    split <;> rename_i stepped <;> rw [stepped] at isolated again still
    · exact goesOn isolated fun task suspends => by cases suspends; exact ⟨still,out,again _ rfl⟩
    · exact goesOn isolated (deleteThreadsNext_away (isolated.grows.live used) still out)
    · exact goesOn isolated fun task suspends => by cases suspends; exact ⟨still,out⟩
    · exact ended isolated
  | warning assistantId rest => exact goesOn (.refl _ _) (deleteThreadsNext_away used away.1 away.2)
  | cancelling assistantId told inner =>
    obtain ⟨unused,inside⟩ := away
    obtain ⟨isolated,again,toldAway,_⟩ := cancelWhole_stays (w:=w) stored inside
    have still := unused_later isolated unused
    unfold stepDeleteAssistant
    dsimp only
    split <;> rename_i stepped <;> rw [stepped] at isolated again toldAway still
    · exact goesOn isolated fun task suspends => by cases suspends; exact ⟨still,again _ rfl⟩
    · exact goesOn isolated fun task suspends => by cases suspends; exact ⟨still,toldAway _ rfl⟩
    · exact ended isolated
  | signalling assistantId action told =>
    obtain ⟨unused,toldAway⟩ := away
    cases told with
    | nil => exact ⟨removeAssistant_isolated unused,fun u member => (List.not_mem_nil member).elim⟩
    | cons key rest =>
      have sent : Stays threadId packages s ((sendSignal packages s key action).1,deliveries (sendSignal packages s key action).2) :=
        signal_stays (toldAway key List.mem_cons_self)
      refine ⟨sent.isolated,fun u member => ?_⟩
      rcases List.mem_append.mp member with again | delivery
      · cases List.mem_singleton.mp again
        exact ⟨unused_later sent.isolated unused,fun other listed => toldAway other (List.mem_cons_of_mem _ listed)⟩
      · exact sent.elsewhere u delivery

end assistants

-- A cron belongs to the thread that it names.
section crons
variable {packages : Packages J} {w : Wake J} {s : World J} {threadId : String}

theorem insertedCron_cases (graphs : RecordCreation.Graphs) (task : PutCronTask J) :
    (stepPutCron graphs w s.records task).1 = s.records ∨ ∃ cronId, (∀ cron ∈ s.store.crons, cron.cronId ≠ cronId) ∧
      (stepPutCron graphs w s.records task).1 = appendedCron s.records (PutCronTask.call task) cronId := by
  have validates : ∀ (call : PutCronCall J) cronId filters assistantId assistantFilters,
      (validateAssistant w s.records call cronId filters assistantId assistantFilters).1 = s.records ∨
        (∀ cron ∈ s.store.crons, cron.cronId ≠ cronId) ∧
          (validateAssistant w s.records call cronId filters assistantId assistantFilters).1 = appendedCron s.records call cronId := by
    intro call cronId filters assistantId assistantFilters
    unfold validateAssistant
    split
    · exact .inl rfl
    · split
      · exact .inl rfl
      · split
        · exact insertCron_cases s.records call cronId filters
        · exact .inl rfl
  have named : ∀ {result : Records J × Outcome (PutCronTask J) (List String)} {call : PutCronCall J} {cronId : String},
      (result.1 = s.records ∨ (∀ cron ∈ s.store.crons, cron.cronId ≠ cronId) ∧ result.1 = appendedCron s.records call cronId) →
      (result.1 = s.records ∨ ∃ cronId, (∀ cron ∈ s.store.crons, cron.cronId ≠ cronId) ∧
        result.1 = appendedCron s.records call cronId) :=
    fun inserts => inserts.imp_right fun appends => ⟨_,appends⟩
  cases task with
  | called call => exact .inl rfl
  | authorizing call cronId =>
    unfold stepPutCron
    dsimp only
    split
    · exact .inl rfl
    · exact .inl rfl
    · exact .inl rfl
    · split
      · exact named (validates call cronId _ _ _)
      · exact .inl rfl
  | authorizingAssistant call cronId filters assistantId =>
    unfold stepPutCron
    dsimp only
    split
    · exact .inl rfl
    · exact named (validates call cronId _ _ _)
  | authorizingThread call cronId filters other =>
    unfold stepPutCron
    dsimp only
    split
    · exact .inl rfl
    · split
      · exact .inl rfl
      · split
        · exact .inl rfl
        · exact named (insertCron_cases s.records call cronId filters)

-- A suspended call goes on with what it was called with.
theorem putCron_call (graphs : RecordCreation.Graphs) {task later : PutCronTask J}
    (suspends : (stepPutCron graphs w s.records task).2 = .suspended later) : PutCronTask.call later = PutCronTask.call task := by
  have validates : ∀ (call : PutCronCall J) cronId filters assistantId assistantFilters,
      (validateAssistant w s.records call cronId filters assistantId assistantFilters).2 = .suspended later →
        PutCronTask.call later = call := by
    intro call cronId filters assistantId assistantFilters goes
    unfold validateAssistant at goes
    split at goes
    · cases goes
    · split at goes
      · cases goes
      · split at goes
        · exact absurd goes (insertCron_ends _ _ _ _)
        · cases goes
          rfl
  cases task with
  | called call =>
    cases suspends
    rfl
  | authorizing call cronId =>
    unfold stepPutCron at suspends
    dsimp only at suspends
    split at suspends
    · cases suspends
    · cases suspends
    · cases suspends
    · split at suspends
      · exact validates _ _ _ _ _ suspends
      · cases suspends
        rfl
  | authorizingAssistant call cronId filters assistantId =>
    unfold stepPutCron at suspends
    dsimp only at suspends
    split at suspends
    · cases suspends
    · exact validates _ _ _ _ _ suspends
  | authorizingThread call cronId filters other =>
    unfold stepPutCron at suspends
    dsimp only at suspends
    split at suspends
    · cases suspends
    · split at suspends
      · cases suspends
      · split at suspends
        · cases suspends
        · exact absurd suspends (insertCron_ends _ _ _ _)

-- The cron that is appended has a new id, and its rows with it.
theorem putCron_isolated {fields : CronFields J} {task : PutCronTask J} (away : cronThread (PutCronTask.call task).threadId ≠ threadId) :
    Isolated threadId s (stepPutCronWhole packages w s fields task).1 := by
  unfold stepPutCronWhole
  dsimp only
  rcases insertedCron_cases (w:=w) packages.graphs task with same | ⟨cronId,new,appends⟩
  · rw [same]
    have none_ : s.records.server.store.crons.drop s.store.crons.length = [] := List.drop_length
    rw [none_]
    exact .refl _ _
  · rw [appends]
    have last : (appendedCron s.records (PutCronTask.call task) cronId).server.store.crons.drop s.store.crons.length =
        [⟨cronId,cronThread (PutCronTask.call task).threadId⟩] := List.drop_left
    rw [last]
    have others : ∀ cron ∈ s.store.crons, (cronId == cron.cronId) = false := fun cron member => by simpa using (new cron member).symm
    have rows : Isolated threadId s {s with
        records := {s.records with cronMetadata := s.records.cronMetadata.insert cronId (PutCronTask.call task).metadata}
        cronFields := s.cronFields.insert cronId (newFields packages w fields (PutCronTask.call task) cronId)} :=
      cronRows_isolated fun cron member _ => ⟨Dict.get?_insert_other (others cron member),Dict.get?_insert_other (others cron member)⟩
    refine rows.trans (leaves_isolated (leaves_sidecars rfl rfl rfl rfl ?_ rfl))
    have mine : ((⟨cronId,cronThread (PutCronTask.call task).threadId⟩ : Cron).threadId == threadId) = false := beq_false_of_ne away
    exact (List.filter_append ..).trans (by rw [List.filter_singleton,mine]; exact List.append_nil _)

theorem putCron_stays {fields : CronFields J} {task : PutCronTask J} (away : cronThread (PutCronTask.call task).threadId ≠ threadId) :
    Stays threadId packages s (went (.putCron fields) (stepPutCronWhole packages w s fields task)) := by
  refine stays_goes (putCron_isolated away) fun later suspends => ?_
  have same : PutCronTask.call later = PutCronTask.call task := putCron_call packages.graphs suspends
  change cronThread (PutCronTask.call later).threadId ≠ threadId
  rw [same]
  exact away

theorem writeCron_isolated {cronId : String} (away : cronAway threadId s.store cronId) (fields : CronFields J) (metadata : Metadata J) :
    Isolated threadId s (writeCron s cronId fields metadata) := by
  refine cronRows_isolated fun cron member own => ?_
  have other : (cronId == cron.cronId) = false := by simpa using (away cron member own).symm
  exact ⟨Dict.get?_insert_other other,Dict.get?_insert_other other⟩

theorem updateCron_isolated {call : UpdateCronCall J} (away : cronAway threadId s.store call.cronId) (filters : Filters J) :
    Isolated threadId s (updateCron packages w s call filters).1 := by
  unfold updateCron
  split
  · exact .refl _ _
  · split
    · rename_i cron fields found _
      have named : cron.cronId = call.cronId := by simpa using List.find?_some found
      have here : cronAway threadId s.store cron.cronId := named ▸ away
      dsimp only
      split
      · exact .refl _ _
      · split
        · exact writeCron_isolated here _ _
        · exact writeCron_isolated here _ _
    · exact .refl _ _

theorem deleteCron_isolated {cronId : String} (away : cronAway threadId s.store cronId) (filters : Filters J) :
    Isolated threadId s (deleteCron s cronId filters).1 := by
  unfold deleteCron
  refine leaves_isolated (leaves_sidecars rfl rfl rfl rfl ?_ rfl)
  refine (List.filter_filter ..).trans (List.filter_congr fun cron member => ?_)
  by_cases own : cron.threadId = threadId
  · simp [own,away cron member own]
  · simp [own]

theorem updateCron_stays {task : Asking (UpdateCronCall J)} (away : Elsewhere threadId packages s (.updateCron task)) :
    Stays threadId packages s (went .updateCron (asking w s (updateCron packages w s) task)) := by
  refine asking_stays (fun call filters same => ?_) fun call same => ?_
  · subst same
    exact updateCron_isolated away filters
  · subst same
    exact away

theorem deleteCron_stays {task : Asking String} (away : Elsewhere threadId packages s (.deleteCron task)) :
    Stays threadId packages s (went .deleteCron (asking w s (deleteCron s) task)) := by
  refine asking_stays (fun cronId filters same => ?_) fun cronId same => ?_
  · subst same
    exact deleteCron_isolated away filters
  · subst same
    exact away

end crons

-- One step of any call that is elsewhere. Two calls learn only then what they
-- are about: a sweep, and the deletion of a run by the checkpoints that name it.
section pool
variable [DecidableEq J] {packages : Packages J} {threadId : String}

def Allowed (packages : Packages J) (threadId : String) (w : Wake J) (s : World J) : Mutation J → Prop
  | .sweep (.called call) => threadId ∉ selectedThreads packages.globalTtl s.store w.now call.limit
  | .deleteRun (.checkpoints (some runId) _) => w.failure = none → ¬ Removes packages.serde runId threadId s.saver
  | _ => True

theorem resume_stays {w : Wake J} {s : World J} {task : Mutation J}
    (confined : ∀ call saver, call.threadId ≠ threadId → SaverKept threadId saver (packages.updated call saver))
    (used : LiveUsed s.store) (stored : ∀ ref ∈ s.store.boundRuns, ref < s.store.runs.next) (fresh : w.newId ≠ threadId)
    (away : Elsewhere threadId packages s task) (allowed : Allowed packages threadId w s task) :
    Stays threadId packages s (Mutations.resume packages w s task) := by
  cases task with
  | put task => exact stays_served (.refl _ _) (spared_put used away) fun _ again => again
  | patch task => exact stays_served (.refl _ _) (spared_patch used away) fun _ again => again
  | delete task =>
    obtain ⟨isolated,again⟩ := deleteWhole_stays used away
    exact stays_goes isolated again
  | prune task => exact prune_stays used away
  | copy task => exact stays_served (saver_isolated (copiedSaver_kept away)) (spared_copy used fresh away) fun _ again => again
  | update task => exact update_stays confined away
  | sweep task =>
    have swept : Isolated threadId s (sweptSaver packages w s task) := sweptSaver_isolated away
    have same : (sweptSaver packages w s task).records = s.records := sweptSaver_records task
    have spared : Spared threadId (sweptSaver packages w s task).records.server (sweepAway threadId)
        (stepSweep packages.globalTtl w s.records.server task) := by
      rw [same]
      exact spared_sweep used away fun call called => by subst called; exact allowed
    exact stays_served swept spared fun _ again => again
  | putRun task => exact stays_served (.refl _ _) (spared_putRun used stored fresh away) fun _ again => again
  | deleteRun task =>
    refine stays_served (cleanedRun_isolated away ?_) (spared_deleteRun away) fun _ again => again
    intro runId other named
    subst named
    exact allowed
  | cancel told task => exact cancel_stays stored away
  | signal key action => exact signal_stays away
  | delivering queue message => exact delivering_stays away
  | putAssistant task => exact putAssistant_stays task
  | patchAssistant task => exact asking_stays (fun _ _ _ => tables_isolated packages _) fun _ _ => trivial
  | setLatest task => exact asking_stays (fun _ _ _ => tables_isolated packages _) fun _ _ => trivial
  | deleteAssistant task => exact deleteAssistant_stays used stored away
  | putCron fields task => exact putCron_stays away
  | updateCron task => exact updateCron_stays away
  | deleteCron task => exact deleteCron_stays away
  | other change => exact ⟨away s,fun u member => (List.not_mem_nil member).elim⟩

-- Each call is about other threads when it is made, and draws other ids.
def Careful (packages : Packages J) (threadId : String) (step : Pool J × Event J) : Prop :=
  match step.2 with
  | .call task => Elsewhere threadId packages step.1.shared task
  | .resume index w => w.newId ≠ threadId ∧ ∀ task, step.1.tasks[index]? = some task → Allowed packages threadId w step.1.shared task

structure Beside (packages : Packages J) (threadId : String) (start : World J) (p : Pool J) : Prop where
  isolated : Isolated threadId start p.shared
  used : LiveUsed p.shared.store
  stored : ∀ ref ∈ p.shared.store.boundRuns, ref < p.shared.store.runs.next
  elsewhere : ∀ task ∈ p.tasks, Elsewhere threadId packages p.shared task

theorem advance_beside {start : World J} {p next : Pool J} {event : Event J}
    (confined : ∀ call saver, call.threadId ≠ threadId → SaverKept threadId saver (packages.updated call saver))
    (beside : Beside packages threadId start p) (careful : Careful packages threadId (p,event))
    (step : TaskPool.advance (Mutations.resume packages) p event = some next) : Beside packages threadId start next := by
  cases event with
  | call task =>
    cases Option.some.inj step
    refine ⟨beside.isolated,beside.used,beside.stored,fun other member => ?_⟩
    rcases List.mem_append.mp member with old | new
    · exact beside.elsewhere other old
    · rw [List.mem_singleton.mp new]
      exact careful
  | resume index w =>
    obtain ⟨before,task,after,split,found,rfl⟩ := TaskPool.resume_parts step
    obtain ⟨fresh,allowed⟩ := careful
    obtain ⟨isolated,spawned⟩ : Stays threadId packages p.shared (Mutations.resume packages w p.shared task) :=
      resume_stays confined beside.used beside.stored fresh (beside.elsewhere task (by simp [split])) (allowed task found)
    refine ⟨beside.isolated.trans isolated,isolated.grows.live beside.used,isolated.keeps.stored beside.stored,fun other member => ?_⟩
    rcases List.mem_append.mp member with first | later
    · rcases List.mem_append.mp first with old | new
      · exact elsewhere_later isolated (beside.elsewhere other (by simp [split,old]))
      · exact spawned other new
    · exact elsewhere_later isolated (beside.elsewhere other (by simp [split,later]))

-- What calls about other threads leave of a thread, in any order of their
-- steps: all of it. A graph is taken to write under its own thread.
theorem thread_untouched (packages : Packages J) (threadId : String) (start : World J) (p : Pool J) (taken : List (Pool J × Event J))
    (confined : ∀ call saver, call.threadId ≠ threadId → SaverKept threadId saver (packages.updated call saver))
    (used : LiveUsed start.store) (stored : ∀ ref ∈ start.store.boundRuns, ref < start.store.runs.next)
    (runs : Runs packages ⟨start,[]⟩ taken p) (careful : ∀ step ∈ taken, Careful packages threadId step) :
    ThreadKept threadId start p.shared ∧ ∀ step ∈ taken, ThreadKept threadId start step.1.shared := by
  have begins : Beside packages threadId start ⟨start,[]⟩ := ⟨.refl _ _,used,stored,fun _ none_ => (List.not_mem_nil none_).elim⟩
  obtain ⟨last,earlier⟩ := TaskPool.runs_invariant runs begins
    (fun _ _ _ here careful step => advance_beside confined here careful step) careful
  exact ⟨last.isolated.kept,fun step member => (earlier step member).isolated.kept⟩

end pool

def deletesOther : List (Event String) := .call (.delete (.called "U")) :: List.replicate 4 (.resume 0 DeniedMutations.waking)

-- The deletion of the other thread, whose run and record are gone in the end.
theorem thread_untouched_toy : ∃ taken p, Runs DeniedMutations.toyPackages ⟨DeniedMutations.toyWorld,[]⟩ taken p ∧ p.tasks = [] ∧
    threadRecords p.shared.store "U" = [] ∧ threadRuns p.shared.store "U" = [] ∧ ThreadKept "T" DeniedMutations.toyWorld p.shared := by
  have runs := TaskPool.perform_runs .nil (rfl : TaskPool.perform (Mutations.resume DeniedMutations.toyPackages)
    ⟨DeniedMutations.toyWorld,[]⟩ deletesOther = some _)
  refine ⟨_,_,runs,rfl,rfl,rfl,(thread_untouched DeniedMutations.toyPackages "T" DeniedMutations.toyWorld _ _ (fun _ _ _ => .refl _ _)
    (show ∀ ref ∈ _, ref < _ by decide) DeniedMutations.toy_stored runs ?_).1⟩
  refine List.forall_mem_cons.mpr ⟨show "U" ≠ "T" by decide,?_⟩
  iterate 4 refine List.forall_mem_cons.mpr ⟨⟨by decide,fun task found => by cases found; trivial⟩,?_⟩
  exact fun _ none_ => (List.not_mem_nil none_).elim

end InmemRuntime.UntouchedThreads
