import InmemRuntime.References

namespace InmemRuntime.WorldReferences
open OrderedDict Streams ThreadTtl RuntimeStore Serving ThreadOps RunOps TtlSweep AssistantOps
open ThreadRecords ThreadDeletion Mutations References
open RecordIds (threadIds)
open RecordCreation (Records cronThread PutCronCall PutCronTask stepPutCron insertCron validateAssistant PutAssistantTask stepPutAssistant)

variable {J : Type}

-- No run, cron or TTL override names a record that does not exist.
structure Referenced (s : World J) : Prop where
  store : Consistent s.store
  assistants : ∀ cron ∈ s.store.crons, ∃ a ∈ s.records.tables.assistants, cronAssistant s cron = some a.assistantId

-- What a suspended call has found out and goes on with.
def Ready (packages : Packages J) (s : World J) : Mutation J → Prop
  | .delete task => Names s.store task
  | .prune (.deleting inner _ _) => Names s.store inner
  | .sweep task => SweepNames s.store task
  | .deleteAssistant (.threads _ inner _) => Names s.store inner
  | .putCron _ (.authorizingAssistant call _ _ assistantId) => packages.graphs.assistantId call.assistant = .ok assistantId
  | .putCron _ (.authorizingThread call _ _ threadId) =>
    call.threadId = some threadId ∧ ∃ assistantId, packages.graphs.assistantId call.assistant = .ok assistantId
  | .other _ => False
  | _ => True

-- The three steps that act on what was looked up before an await: the TTL of
-- a patch, the marker of a sweep and the assistant of a cron still have their
-- record when they are written.
def Guarded (packages : Packages J) (w : Wake J) (s : World J) : Mutation J → Prop
  | .patch task => Patchable w s.records.server task
  | .sweep task => Sweepable w s.store task
  | .putCron _ (.authorizingThread call _ _ _) => ∀ filters assistantId, w.auth = .ok filters →
      packages.graphs.assistantId call.assistant = .ok assistantId → (s.records.tables.find assistantId).isSome = true
  | _ => True

structure Maintains (s s' : World J) : Prop where
  grows : Extends s.store s'.store
  referenced : Referenced s → Referenced s'

section world
variable {s s' s'' : World J}

theorem Maintains.refl (s : World J) : Maintains s s := ⟨.refl _,id⟩

theorem Maintains.trans (first : Maintains s s') (second : Maintains s' s'') : Maintains s s'' :=
  ⟨first.grows.trans second.grows,second.referenced ∘ first.referenced⟩

-- A change of the store by a call that has nothing to do with assistants.
theorem store_maintains (tables : s'.records.tables = s.records.tables) (fields : s'.cronFields = s.cronFields)
    (upholds : Upholds s.store s'.store) : Maintains s s' := by
  refine ⟨upholds.grows,fun referenced => ⟨upholds.consistent referenced.store,fun cron member => ?_⟩⟩
  obtain ⟨a,listed,named⟩ := referenced.assistants cron (upholds.crons member)
  refine ⟨a,tables ▸ listed,?_⟩
  unfold cronAssistant at named ⊢
  rw [fields]
  exact named

theorem server_maintains {server : Server J} (upholds : Upholds s.store server.store) : Maintains s (s.withServer server) :=
  store_maintains rfl rfl upholds

theorem ready_later {packages : Packages J} {task : Mutation J} (grows : Extends s.store s'.store) (ready : Ready packages s task) :
    Ready packages s' task := by
  cases task with
  | delete task => exact names_extends grows ready
  | prune task =>
    cases task with
    | deleting inner rest pruned => exact names_extends grows ready
    | _ => exact ready
  | sweep task =>
    cases task with
    | deleting rest inner => exact names_extends grows ready
    | _ => exact ready
  | deleteAssistant task =>
    cases task with
    | threads assistantId inner rest => exact names_extends grows ready
    | _ => exact ready
  | putCron fields task => cases task <;> exact ready
  | _ => exact ready

end world

-- What one step of a call does, and what it goes on as.
structure Proper (packages : Packages J) (s : World J) (result : World J × List (Mutation J)) : Prop where
  maintains : Maintains s result.1
  ready : ∀ u ∈ result.2, Ready packages result.1 u

section threads
variable {packages : Packages J} {w : Wake J} {s : World J}

-- A call whose tasks are ready wherever they are.
theorem goes_proper {τ ρ : Type} {wrap : τ → Mutation J} {s' : World J} {outcome : Outcome τ ρ} (maintains : Maintains s s')
    (ready : ∀ task, outcome = .suspended task → Ready packages s' (wrap task)) : Proper packages s (s',goes wrap outcome) := by
  refine ⟨maintains,fun u member => ?_⟩
  obtain ⟨task,suspends,rfl⟩ := mem_goes member
  exact ready task suspends

theorem startDelete_names (used : LiveUsed s.store) (threadId : String) : Names s.store (startDelete s threadId) := by
  intro ref found
  obtain ⟨live,same⟩ := Store.findThread_some found
  exact ⟨used ref live,same⟩

theorem deleteWhole_maintains (task : DeleteTask) (names : Names s.store task) :
    Maintains s (stepDeleteWhole packages w s task).1 := by
  obtain ⟨records,fields⟩ := cleaned_records packages w s task
  have tables : (cleaned packages w s task).records.tables = s.records.tables := congrArg RecordCreation.Records.tables records
  unfold stepDeleteWhole
  dsimp only
  rw [records]
  exact store_maintains tables fields (delete_upholds task names)

theorem deleteWhole_names (used : LiveUsed s.store) {task again : DeleteTask} (names : Names s.store task)
    (suspends : (stepDeleteWhole packages w s task).2 = .suspended again) :
    Names (stepDeleteWhole packages w s task).1.store again := by
  have maintains : Maintains s (stepDeleteWhole packages w s task).1 := deleteWhole_maintains task names
  refine names_extends maintains.grows ?_
  obtain ⟨records,_⟩ := cleaned_records packages w s task
  unfold stepDeleteWhole at suspends
  dsimp only at suspends
  rw [records] at suspends
  exact stepDelete_names used names suspends

theorem deleteNext_ready (used : LiveUsed s.store) (pruned : Nat) (rest : List String) {task : PruneTask}
    (suspends : deleteNext s pruned rest = .suspended task) : Ready packages s (.prune task) := by
  cases rest with
  | nil => cases suspends
  | cons threadId rest =>
    cases suspends
    exact startDelete_names used threadId

theorem startPrune_ready (used : LiveUsed s.store) (call : PruneCall) {task : PruneTask}
    (suspends : startPrune s call = .suspended task) : Ready packages s (.prune task) := by
  unfold startPrune at suspends
  split at suspends
  · exact deleteNext_ready used 0 call.threadIds suspends
  · split at suspends
    · cases suspends
      trivial
    · cases suspends

theorem pruneNext_ready (batchSize pruned : Nat) (rest : List String) {task : PruneTask}
    (suspends : pruneNext batchSize pruned rest = .suspended task) : Ready packages s (.prune task) := by
  cases rest with
  | nil => cases suspends
  | cons threadId rest =>
    cases suspends
    trivial

theorem prune_proper (used : LiveUsed s.store) (task : PruneTask) (ready : Ready packages s (.prune task)) :
    Proper packages s (went .prune (stepPrune packages w s task)) := by
  cases task with
  | called call =>
    unfold stepPrune
    dsimp only
    split
    · exact goes_proper (.refl _) nofun
    · refine goes_proper (.refl _) fun task suspends => ?_
      cases suspends
      trivial
  | authorizing call =>
    unfold stepPrune
    dsimp only
    split
    · exact goes_proper (.refl _) nofun
    · exact goes_proper (.refl _) fun task suspends => startPrune_ready used call suspends
    · rename_i check _
      have maintains : Maintains s (s.withStore (call.threadIds.foldl (consult (some check)) s.store)) :=
        server_maintains (consults_uphold s.store (some check) call.threadIds)
      split
      · exact goes_proper maintains nofun
      · exact goes_proper maintains fun task suspends => startPrune_ready (maintains.grows.live used) call suspends
  | deleting inner rest pruned =>
    have maintains : Maintains s (stepDeleteWhole packages w s inner).1 := deleteWhole_maintains inner ready
    have later : LiveUsed (stepDeleteWhole packages w s inner).1.store := maintains.grows.live used
    have names : ∀ again, (stepDeleteWhole packages w s inner).2 = .suspended again →
        Names (stepDeleteWhole packages w s inner).1.store again := fun again same => deleteWhole_names used ready same
    unfold stepPrune
    dsimp only
    generalize stepDeleteWhole packages w s inner = result at maintains later names
    obtain ⟨world,outcome⟩ := result
    cases outcome with
    | suspended again =>
      refine goes_proper maintains fun task suspends => ?_
      cases suspends
      exact names again rfl
    | returned value => exact goes_proper maintains fun task suspends => deleteNext_ready later _ rest suspends
    | raised fault =>
      cases fault with
      | http exception => exact goes_proper maintains fun task suspends => deleteNext_ready later _ rest suspends
      | external => exact goes_proper maintains nofun
  | checkpointer orderedIds batchSize =>
    unfold stepPrune
    dsimp only
    split
    · exact goes_proper (.refl _) nofun
    · exact goes_proper (.refl _) fun task suspends => pruneNext_ready _ _ _ suspends
  | pruning batch rest batchSize pruned =>
    unfold stepPrune
    dsimp only
    split
    · exact goes_proper (.refl _) nofun
    · exact goes_proper (store_maintains rfl rfl (.refl _)) fun task suspends => pruneNext_ready _ _ _ suspends

theorem delivery_ready {s' : World J} {chosen : List (Nat × Message)} : ∀ u ∈ deliveries chosen, Ready packages s' u := by
  intro u member
  obtain ⟨row,_,rfl⟩ := List.mem_map.mp member
  trivial

theorem update_maintains (task : UpdateTask J) : Maintains s (stepUpdate packages w s task).1 := by
  have reads : ∀ threadId filters store ref, getWithFilters s.store threadId filters = (store,ref) → Maintains s (s.withStore store) := by
    intro threadId filters store ref got
    have upholds := consult_upholds s.store filters threadId
    unfold consult at upholds
    rw [got] at upholds
    exact server_maintains upholds
  cases task with
  | called call => exact .refl _
  | authorizing call =>
    unfold stepUpdate
    dsimp only
    split <;> exact .refl _
  | reading call filters =>
    unfold stepUpdate
    dsimp only
    split
    · exact .refl _
    · split
      · exact .refl _
      · rename_i store ref got
        split <;> exact reads _ _ _ _ got
  | updating call =>
    unfold stepUpdate
    dsimp only
    split
    · exact .refl _
    · exact store_maintains rfl rfl (.refl _)
  | readingAgain call =>
    unfold stepUpdate
    dsimp only
    split
    · exact .refl _
    · split
      · exact .refl _
      · rename_i store ref got
        exact reads _ _ _ _ got
  | finishing call =>
    unfold stepUpdate
    dsimp only
    split
    · exact .refl _
    · split
      · exact .refl _
      · rename_i store set
        exact store_maintains rfl rfl (setStatus_upholds set)

theorem update_proper [DecidableEq J] (task : UpdateTask J) : Proper packages s (Mutations.resume packages w s (.update task)) := by
  refine ⟨update_maintains task,fun u member => ?_⟩
  rcases List.mem_append.mp member with goes | delivered
  · obtain ⟨later,_,rfl⟩ := mem_goes goes
    trivial
  · exact delivery_ready u delivered

theorem sweepLoop_names {globalTtl : Option TtlConfig} (server : Server J) (rest : List String) {store : Store J} {task : SweepTask}
    (suspends : (sweepLoop globalTtl w server rest).2 = .suspended task) : SweepNames store task := by
  induction rest generalizing server with
  | nil => cases suspends
  | cons threadId rest ih =>
    unfold sweepLoop at suspends
    split at suspends
    · exact ih server suspends
    · split at suspends
      · exact ih server suspends
      · split at suspends <;> cases suspends <;> trivial

theorem sweep_names {globalTtl : Option TtlConfig} {server : Server J} (used : LiveUsed server.store) {task again : SweepTask}
    (names : SweepNames server.store task) (suspends : (stepSweep globalTtl w server task).2 = .suspended again) :
    SweepNames server.store again := by
  cases task with
  | called call =>
    unfold stepSweep at suspends
    dsimp only at suspends
    split at suspends
    · split at suspends
      · cases suspends
      · exact sweepLoop_names _ _ suspends
    · exact sweepLoop_names _ _ suspends
  | deleting rest inner =>
    have kept : ∀ later, (stepDelete w server inner).2 = .suspended later → Names server.store later :=
      fun later same => stepDelete_names used names same
    unfold stepSweep at suspends
    dsimp only at suspends
    generalize stepDelete w server inner = result at suspends kept
    obtain ⟨world,outcome⟩ := result
    cases outcome with
    | suspended later =>
      cases suspends
      exact kept later rfl
    | returned value => exact sweepLoop_names _ _ suspends
    | raised fault =>
      cases fault with
      | http exception =>
        dsimp only at suspends
        split at suspends
        · exact sweepLoop_names _ _ suspends
        · cases suspends
      | external => cases suspends
  | checkpointer threadId rest state updatedAt =>
    unfold stepSweep at suspends
    dsimp only at suspends
    split at suspends <;> cases suspends
    trivial
  | pruning threadId rest state updatedAt =>
    unfold stepSweep at suspends
    dsimp only at suspends
    split at suspends
    · cases suspends
    · exact sweepLoop_names _ _ suspends

theorem sweep_proper (used : LiveUsed s.store) (task : SweepTask) (ready : SweepNames s.store task) (sweepable : Sweepable w s.store task) :
    Proper packages s (served (sweptSaver packages w s task) .sweep (stepSweep packages.globalTtl w s.records.server task)) := by
  have fields : (sweptSaver packages w s task).records = s.records ∧ (sweptSaver packages w s task).cronFields = s.cronFields := by
    unfold sweptSaver
    split
    · exact cleaned_records packages w s _
    · exact ⟨rfl,rfl⟩
    · exact ⟨rfl,rfl⟩
  have tables : (sweptSaver packages w s task).records.tables = s.records.tables :=
    congrArg RecordCreation.Records.tables fields.1
  have upholds : Upholds s.store (stepSweep packages.globalTtl w s.records.server task).1.store := sweep_upholds task ready sweepable
  refine goes_proper (store_maintains tables fields.2 upholds) fun later suspends => ?_
  have names : SweepNames s.store later := sweep_names used ready suspends
  cases later with
  | deleting rest inner => exact names_extends upholds.grows names
  | _ => trivial

end threads

section runs
variable {packages : Packages J} {w : Wake J} {s : World J}

theorem deleteRun_proper (task : DeleteRunTask) : Proper packages s
    (served (cleanedRun packages w s task) .deleteRun (stepDeleteRun w (cleanedRun packages w s task).records.server task)) := by
  have first : Maintains s (cleanedRun packages w s task) := by
    unfold cleanedRun
    split
    · exact server_maintains (consult_upholds _ _ _)
    · exact store_maintains rfl rfl (.refl _)
    · exact store_maintains rfl rfl (.refl _)
    · exact .refl _
  exact goes_proper (first.trans (server_maintains (deleteRun_upholds task))) fun later _ => trivial

theorem consultRuns_upholds (store : Store J) (call : CancelCall) (filters : Filters J) : Upholds store (consultRuns store call filters) := by
  unfold consultRuns
  split
  · exact .refl _
  · exact consult_upholds _ _ _
  · exact consults_uphold _ _ _

theorem cancelWhole_maintains (told : List RunKey) (task : CancelTask) : Maintains s (stepCancelWhole w s told task).1 := by
  unfold stepCancelWhole
  dsimp only
  split
  · rename_i call filters _
    have first : Maintains s (s.withStore (consultRuns s.store call filters)) := server_maintains (consultRuns_upholds _ _ _)
    exact first.trans (server_maintains (cancel_upholds _))
  · exact server_maintains (cancel_upholds _)

theorem cancel_proper (told : List RunKey) (task : CancelTask) : Proper packages s (wentCancel task (stepCancelWhole w s told task)) := by
  have maintains := cancelWhole_maintains (w := w) (s := s) told task
  generalize stepCancelWhole w s told task = result at maintains
  obtain ⟨world,told',outcome⟩ := result
  cases outcome with
  | suspended later =>
    refine ⟨maintains,fun u member => ?_⟩
    cases List.mem_singleton.mp member
    trivial
  | returned deletes =>
    refine ⟨maintains,fun u member => ?_⟩
    rcases List.mem_append.mp member with signal | delete
    · obtain ⟨key,_,rfl⟩ := List.mem_map.mp signal
      trivial
    · obtain ⟨key,_,rfl⟩ := List.mem_map.mp delete
      trivial
  | raised fault => exact ⟨maintains,fun u member => (List.not_mem_nil member).elim⟩

end runs

section assistants
variable {packages : Packages J} {w : Wake J} {s : World J}

-- The store takes over a view of the assistants, which names no thread.
theorem viewed_upholds (store : Store J) (assistants : List (Assistant J)) : Upholds store {store with assistants} :=
  ⟨extends_same rfl rfl,List.Subset.refl _,fun consistent => ⟨consistent.runs,consistent.crons,consistent.ttls⟩⟩

theorem updateFirst_ids {assistantId : String} {f : AssistantRecord J → AssistantRecord J} (same : ∀ a, (f a).assistantId = a.assistantId)
    (rows : List (AssistantRecord J)) : ∀ a ∈ rows, ∃ a' ∈ updateFirst assistantId f rows, a'.assistantId = a.assistantId := by
  induction rows with
  | nil => exact fun _ none_ => (List.not_mem_nil none_).elim
  | cons head rest ih =>
    intro a member
    unfold updateFirst
    split
    · rcases List.mem_cons.mp member with rfl | later
      · exact ⟨f a,List.mem_cons_self,same a⟩
      · exact ⟨a,List.mem_cons_of_mem _ later,rfl⟩
    · rcases List.mem_cons.mp member with rfl | later
      · exact ⟨a,List.mem_cons_self,rfl⟩
      · obtain ⟨a',listed,named⟩ := ih a later
        exact ⟨a',List.mem_cons_of_mem _ listed,named⟩

theorem putAssistant_ids (now : Int) (graph : Option Fault) (tables : AssistantTables J) (call : PutAssistantCall J) (filters : Filters J) :
    ∀ a ∈ tables.assistants, ∃ a' ∈ (putAssistant packages.objects.toJson now graph tables call filters).1.assistants,
      a'.assistantId = a.assistantId := by
  have stays : ∀ a ∈ tables.assistants, ∃ a' ∈ tables.assistants, a'.assistantId = a.assistantId := fun a member => ⟨a,member,rfl⟩
  unfold putAssistant
  split
  · exact stays
  · split
    · split
      · exact stays
      · split <;> exact stays
    · exact fun a member => ⟨a,List.mem_append_left _ member,rfl⟩

theorem asking_proper {α ρ : Type} (wrap : Asking α → Mutation J) {go : α → Filters J → World J × Except Fault ρ}
    (ready : ∀ s' call, Ready packages s' (wrap (.authorizing call))) (goes : ∀ call filters, Maintains s (go call filters).1)
    (task : Asking α) : Proper packages s (went wrap (asking w s go task)) := by
  cases task with
  | called call =>
    refine goes_proper (.refl _) fun later suspends => ?_
    cases suspends
    exact ready s call
  | authorizing call =>
    unfold asking
    dsimp only
    split
    · exact goes_proper (.refl _) nofun
    · rename_i filters _
      have maintains := goes call filters
      generalize go call filters = result at maintains
      obtain ⟨world,outcome⟩ := result
      cases outcome with
      | error fault => exact goes_proper maintains nofun
      | ok value => exact goes_proper maintains nofun

theorem deleteThreadsNext_ready (used : LiveUsed s.store) (assistantId : String) (rest : List String) {task : DeleteAssistantTask}
    (suspends : deleteThreadsNext s assistantId rest = .suspended task) : Ready packages s (.deleteAssistant task) := by
  cases rest with
  | nil =>
    cases suspends
    trivial
  | cons threadId rest =>
    cases suspends
    exact startDelete_names used threadId

variable [DecidableEq J]

theorem tables_maintains {tables : AssistantTables J} (ids : ∀ a ∈ s.records.tables.assistants, ∃ a' ∈ tables.assistants,
    a'.assistantId = a.assistantId) : Maintains s (s.withTables packages tables) := by
  have upholds : Upholds s.store (s.withTables packages tables).store := viewed_upholds s.store _
  refine ⟨upholds.grows,fun referenced => ⟨upholds.consistent referenced.store,fun cron member => ?_⟩⟩
  obtain ⟨a,listed,named⟩ := referenced.assistants cron (upholds.crons member)
  obtain ⟨a',listed',same⟩ := ids a listed
  refine ⟨a',listed',?_⟩
  rw [same]
  exact named

theorem putAssistant_proper (task : PutAssistantTask J) : Proper packages s (Mutations.resume packages w s (.putAssistant task)) := by
  cases task with
  | called call =>
    refine ⟨.refl _,fun u member => ?_⟩
    cases List.mem_singleton.mp member
    trivial
  | authorizing call =>
    cases auth : w.auth with
    | error fault =>
      have shape : Mutations.resume packages w s (.putAssistant (.authorizing call)) = (s,[]) := by
        unfold Mutations.resume stepPutAssistant
        rw [auth]
        rfl
      rw [shape]
      exact ⟨.refl _,fun u member => (List.not_mem_nil member).elim⟩
    | ok filters =>
      have shape : Mutations.resume packages w s (.putAssistant (.authorizing call)) = (s.withTables packages
          (putAssistant packages.objects.toJson w.now w.failure s.records.tables call filters).1,[]) := by
        unfold Mutations.resume stepPutAssistant
        rw [auth]
        rfl
      rw [shape]
      exact ⟨tables_maintains (putAssistant_ids _ _ _ call filters),fun u member => (List.not_mem_nil member).elim⟩

theorem patchAssistant_maintains (call : PatchAssistantCall J) (filters : Filters J) :
    Maintains s (patchAssistantWhole packages w s call filters).1 := by
  refine tables_maintains ?_
  have stays : ∀ a ∈ s.records.tables.assistants, ∃ a' ∈ s.records.tables.assistants, a'.assistantId = a.assistantId :=
    fun a member => ⟨a,member,rfl⟩
  unfold patchAssistant
  split
  · exact stays
  · split
    · exact stays
    · split
      · exact stays
      · split
        · exact stays
        · have same : ∀ entry (a : AssistantRecord J), (patchedAssistant w.now entry a).assistantId = a.assistantId := fun _ _ => rfl
          exact updateFirst_ids (same _) _

theorem setLatest_maintains (call : String × Nat) (filters : Filters J) : Maintains s (setLatestWhole packages w s call filters).1 := by
  refine tables_maintains ?_
  unfold setLatest
  split
  · exact fun a member => ⟨a,member,rfl⟩
  · have same : ∀ version (a : AssistantRecord J), (latestAssistant w.now version a).assistantId = a.assistantId := fun _ _ => rfl
    exact updateFirst_ids (same _) _

-- The crons of the assistant go with it, so the others still have theirs.
theorem removeAssistant_maintains (assistantId : String) : Maintains s (removeAssistantWhole packages s assistantId) := by
  have upholds : Upholds s.store (removeAssistantWhole packages s assistantId).store :=
    (upholds_crons fun cron => cronAssistant s cron != some assistantId).trans (viewed_upholds _ _)
  refine ⟨upholds.grows,fun referenced => ⟨upholds.consistent referenced.store,fun cron member => ?_⟩⟩
  obtain ⟨old,foreign⟩ := List.mem_filter.mp (member : cron ∈ s.store.crons.filter fun cron => cronAssistant s cron != some assistantId)
  obtain ⟨a,listed,named⟩ := referenced.assistants cron old
  refine ⟨a,List.mem_filter.mpr ⟨listed,?_⟩,named⟩
  rw [named] at foreign
  simpa using foreign

theorem deleteAssistant_parts (used : LiveUsed s.store) (task : DeleteAssistantTask) (ready : Ready packages s (.deleteAssistant task)) :
    Maintains s (stepDeleteAssistant packages w s task).1 ∧ ∀ later, (stepDeleteAssistant packages w s task).2.1 = .suspended later →
      Ready packages (stepDeleteAssistant packages w s task).1 (.deleteAssistant later) := by
  cases task with
  | called assistantId deleteThreads =>
    refine ⟨.refl _,fun later suspends => ?_⟩
    cases suspends
    trivial
  | authorizing assistantId deleteThreads =>
    unfold stepDeleteAssistant
    dsimp only
    split
    · exact ⟨.refl _,fun later suspends => by cases suspends⟩
    · split
      · exact ⟨.refl _,fun later suspends => by cases suspends⟩
      · split
        · exact ⟨.refl _,fun later suspends => by cases suspends⟩
        · exact ⟨.refl _,fun later suspends => deleteThreadsNext_ready used assistantId _ suspends⟩
  | threads assistantId inner rest =>
    have maintains : Maintains s (stepDeleteWhole packages w s inner).1 := deleteWhole_maintains inner ready
    have live : LiveUsed (stepDeleteWhole packages w s inner).1.store := maintains.grows.live used
    have names : ∀ again, (stepDeleteWhole packages w s inner).2 = .suspended again →
        Names (stepDeleteWhole packages w s inner).1.store again := fun again same => deleteWhole_names used ready same
    unfold stepDeleteAssistant
    dsimp only
    generalize stepDeleteWhole packages w s inner = result at maintains live names
    obtain ⟨world,outcome⟩ := result
    cases outcome with
    | suspended again =>
      refine ⟨maintains,fun later suspends => ?_⟩
      cases suspends
      exact names again rfl
    | returned value => exact ⟨maintains,fun later suspends => deleteThreadsNext_ready live assistantId rest suspends⟩
    | raised fault =>
      cases fault with
      | http exception =>
        refine ⟨maintains,fun later suspends => ?_⟩
        cases suspends
        trivial
      | external => exact ⟨maintains,fun later suspends => by cases suspends⟩
  | warning assistantId rest => exact ⟨.refl _,fun later suspends => deleteThreadsNext_ready used assistantId rest suspends⟩
  | cancelling assistantId told inner =>
    have maintains := cancelWhole_maintains (w := w) (s := s) told inner
    unfold stepDeleteAssistant
    dsimp only
    generalize stepCancelWhole w s told inner = result at maintains
    obtain ⟨world,told',outcome⟩ := result
    cases outcome with
    | raised fault => exact ⟨maintains,fun later suspends => by cases suspends⟩
    | _ =>
      refine ⟨maintains,fun later suspends => ?_⟩
      cases suspends
      trivial
  | signalling assistantId action told =>
    cases told with
    | nil => exact ⟨removeAssistant_maintains assistantId,fun later suspends => by cases suspends⟩
    | cons key rest =>
      refine ⟨store_maintains rfl rfl (.refl _),fun later suspends => ?_⟩
      cases suspends
      trivial

theorem deleteAssistant_proper (used : LiveUsed s.store) (task : DeleteAssistantTask) (ready : Ready packages s (.deleteAssistant task)) :
    Proper packages s (Mutations.resume packages w s (.deleteAssistant task)) := by
  obtain ⟨maintains,later⟩ := deleteAssistant_parts (w := w) used task ready
  refine ⟨maintains,fun u member => ?_⟩
  rcases List.mem_append.mp member with goes | delivered
  · obtain ⟨next,suspends,rfl⟩ := mem_goes goes
    exact later next suspends
  · exact delivery_ready u delivered

end assistants

section crons
variable {packages : Packages J} {w : Wake J} {s : World J}

-- The records after a cron was appended for a call.
def appendedCron (s : Records J) (call : PutCronCall J) (cronId : String) : Records J :=
  {s with
    server := s.server.withStore {s.server.store with crons := s.server.store.crons ++ [⟨cronId,cronThread call.threadId⟩]}
    cronMetadata := s.cronMetadata.insert cronId call.metadata}

-- What a call has checked when it appends its cron.
structure Validated (packages : Packages J) (s : Records J) (call : PutCronCall J) (cronId : String) : Prop where
  new : ∀ cron ∈ s.server.store.crons, cron.cronId ≠ cronId
  assistant : ∃ a ∈ s.tables.assistants, packages.graphs.assistantId call.assistant = .ok a.assistantId
  thread : ∀ threadId, call.threadId = some threadId → threadId ∈ threadIds s.server.store

theorem insertCron_cases (s : Records J) (call : PutCronCall J) (cronId : String) (filters : Filters J) :
    (insertCron w s call cronId filters).1 = s ∨
      (∀ cron ∈ s.server.store.crons, cron.cronId ≠ cronId) ∧ (insertCron w s call cronId filters).1 = appendedCron s call cronId := by
  unfold insertCron
  split
  · split <;> exact .inl rfl
  · rename_i absent
    split
    · exact .inl rfl
    · exact .inr ⟨fun cron member => by simpa using List.find?_eq_none.mp absent cron member,rfl⟩

theorem insertCron_ends (s : Records J) (call : PutCronCall J) (cronId : String) (filters : Filters J) {task : PutCronTask J} :
    (insertCron w s call cronId filters).2 ≠ .suspended task := by
  unfold insertCron
  split
  · split <;> exact nofun
  · split <;> exact nofun

theorem find_assistant {tables : AssistantTables J} {assistantId : String} {a : AssistantRecord J}
    (found : tables.find assistantId = some a) : a ∈ tables.assistants ∧ a.assistantId = assistantId :=
  ⟨List.mem_of_find?_eq_some found,by simpa using List.find?_some found⟩

-- One step of `Crons.put`: it goes on, or it appends what it has checked.
theorem putCron_cases {fields : CronFields J} (task : PutCronTask J) (ready : Ready packages s (.putCron fields task))
    (guarded : Guarded packages w s (.putCron fields task)) :
    (stepPutCron packages.graphs w s.records task).1 = s.records ∨ ∃ cronId, Validated packages s.records (PutCronTask.call task) cronId ∧
      (stepPutCron packages.graphs w s.records task).1 = appendedCron s.records (PutCronTask.call task) cronId := by
  have validates : ∀ call cronId filters assistantId assistantFilters, packages.graphs.assistantId call.assistant = .ok assistantId →
      (validateAssistant w s.records call cronId filters assistantId assistantFilters).1 = s.records ∨ ∃ newId,
        Validated packages s.records call newId ∧
        (validateAssistant w s.records call cronId filters assistantId assistantFilters).1 = appendedCron s.records call newId := by
    intro call cronId filters assistantId assistantFilters resolved
    unfold validateAssistant
    split
    · exact .inl rfl
    · rename_i a found
      obtain ⟨member,same⟩ := find_assistant found
      split
      · exact .inl rfl
      · split
        · rename_i none_
          rcases insertCron_cases (w := w) s.records call cronId filters with stays | ⟨new,appends⟩
          · exact .inl stays
          · exact .inr ⟨cronId,⟨new,⟨a,member,same ▸ resolved⟩,fun threadId given => nomatch none_.symm.trans given⟩,appends⟩
        · exact .inl rfl
  cases task with
  | called call => exact .inl rfl
  | authorizing call cronId =>
    unfold stepPutCron
    dsimp only
    split
    · exact .inl rfl
    · exact .inl rfl
    · exact .inl rfl
    · rename_i resolved
      split
      · exact validates _ _ _ _ _ resolved
      · exact .inl rfl
  | authorizingAssistant call cronId filters assistantId =>
    unfold stepPutCron
    dsimp only
    split
    · exact .inl rfl
    · exact validates _ _ _ _ _ ready
  | authorizingThread call cronId filters threadId =>
    obtain ⟨given,assistantId,resolved⟩ := ready
    unfold stepPutCron
    dsimp only
    split
    · exact .inl rfl
    · rename_i threadFilters allowed
      obtain ⟨a,found⟩ := Option.isSome_iff_exists.mp (guarded threadFilters assistantId allowed resolved)
      obtain ⟨member,same⟩ := find_assistant found
      split
      · exact .inl rfl
      · rename_i ref thread
        split
        · exact .inl rfl
        · rcases insertCron_cases (w := w) s.records call cronId filters with stays | ⟨new,appends⟩
          · exact .inl stays
          · refine .inr ⟨cronId,⟨new,⟨a,member,same ▸ resolved⟩,fun other named => ?_⟩,appends⟩
            rw [← Option.some.inj (given.symm.trans named)]
            exact found_exists thread

theorem putCron_ready {fields : CronFields J} (task later : PutCronTask J) (ready : Ready packages s (.putCron fields task))
    (suspends : (stepPutCron packages.graphs w s.records task).2 = .suspended later) (s' : World J) :
    Ready packages s' (.putCron fields later) := by
  have validates : ∀ call cronId filters assistantId assistantFilters, packages.graphs.assistantId call.assistant = .ok assistantId →
      (validateAssistant w s.records call cronId filters assistantId assistantFilters).2 = .suspended later →
      Ready packages s' (.putCron fields later) := by
    intro call cronId filters assistantId assistantFilters resolved goes
    unfold validateAssistant at goes
    split at goes
    · cases goes
    · split at goes
      · cases goes
      · split at goes
        · exact absurd goes (insertCron_ends _ _ _ _)
        · rename_i threadId given
          cases goes
          exact ⟨given,assistantId,resolved⟩
  cases task with
  | called call =>
    cases suspends
    trivial
  | authorizing call cronId =>
    unfold stepPutCron at suspends
    dsimp only at suspends
    split at suspends
    · cases suspends
    · cases suspends
    · cases suspends
    · rename_i resolved
      split at suspends
      · exact validates _ _ _ _ _ resolved suspends
      · cases suspends
        exact resolved
  | authorizingAssistant call cronId filters assistantId =>
    unfold stepPutCron at suspends
    dsimp only at suspends
    split at suspends
    · cases suspends
    · exact validates _ _ _ _ _ ready suspends
  | authorizingThread call cronId filters threadId =>
    unfold stepPutCron at suspends
    dsimp only at suspends
    split at suspends
    · cases suspends
    · split at suspends
      · cases suspends
      · split at suspends
        · cases suspends
        · exact absurd suspends (insertCron_ends _ _ _ _)

theorem appendedCron_consistent {call : PutCronCall J} {cronId : String} (validated : Validated packages s.records call cronId)
    (consistent : Consistent s.store) : Consistent (appendedCron s.records call cronId).server.store := by
  refine ⟨consistent.runs,fun cron member named => ?_,consistent.ttls⟩
  rcases List.mem_append.mp member with old | new
  · exact consistent.crons cron old named
  · obtain rfl := List.mem_singleton.mp new
    cases given : call.threadId with
    | none => exact absurd (congrArg cronThread given) named
    | some threadId =>
      exact validated.thread threadId given

theorem putCron_proper {fields : CronFields J} (task : PutCronTask J) (ready : Ready packages s (.putCron fields task))
    (guarded : Guarded packages w s (.putCron fields task)) :
    Proper packages s (went (.putCron fields) (stepPutCronWhole packages w s fields task)) := by
  refine goes_proper ?_ fun later suspends => putCron_ready task later ready suspends _
  unfold stepPutCronWhole
  dsimp only
  rcases putCron_cases task ready guarded with stays | ⟨cronId,validated,appends⟩
  · rw [stays]
    have none_ : s.records.server.store.crons.drop s.store.crons.length = [] := List.drop_length
    rw [none_]
    exact .refl _
  · rw [appends]
    have last : (appendedCron s.records (PutCronTask.call task) cronId).server.store.crons.drop s.store.crons.length =
        [⟨cronId,cronThread (PutCronTask.call task).threadId⟩] := List.drop_left
    rw [last]
    refine ⟨extends_same rfl rfl,fun referenced => ⟨appendedCron_consistent validated referenced.store,fun cron member => ?_⟩⟩
    rcases List.mem_append.mp (member : cron ∈ s.store.crons ++ [⟨cronId,_⟩]) with old | new
    · obtain ⟨a,listed,named⟩ := referenced.assistants cron old
      refine ⟨a,listed,?_⟩
      unfold cronAssistant
      dsimp only
      rw [Dict.get?_insert_other (by simpa using (validated.new cron old).symm)]
      exact named
    · obtain rfl := List.mem_singleton.mp new
      obtain ⟨a,listed,resolved⟩ := validated.assistant
      refine ⟨a,listed,?_⟩
      unfold cronAssistant newFields
      dsimp only
      rw [Dict.get?_insert_self,resolved]
      rfl

theorem writeCron_maintains {cronId : String} {fields fields' : CronFields J} {metadata : Metadata J}
    (found : s.cronFields.get? cronId = some fields) (same : fields'.assistantId = fields.assistantId) :
    Maintains s (writeCron s cronId fields' metadata) := by
  refine ⟨.refl _,fun referenced => ⟨referenced.store,fun cron member => ?_⟩⟩
  obtain ⟨a,listed,named⟩ := referenced.assistants cron member
  refine ⟨a,listed,?_⟩
  unfold cronAssistant writeCron at *
  dsimp only
  by_cases own : cronId = cron.cronId
  · rw [← own,found] at named
    rw [← own,Dict.get?_insert_self]
    exact (congrArg some same).trans named
  · rw [Dict.get?_insert_other (by simpa using own)]
    exact named

theorem rescheduled_assistant (call : UpdateCronCall J) (fields : CronFields J) :
    (rescheduled packages w call fields).1.assistantId = fields.assistantId := by
  unfold rescheduled
  dsimp only
  split
  · split
    · rfl
    · split <;> rfl
  · split
    · split <;> rfl
    · rfl

theorem updateCron_maintains (call : UpdateCronCall J) (filters : Filters J) :
    Maintains s (updateCron packages w s call filters).1 := by
  unfold updateCron
  split
  · exact .refl _
  · split
    · rename_i cron fields listed found
      have own : cron.cronId = call.cronId := by simpa using List.find?_some listed
      have stays : (rescheduled packages w call fields).1.assistantId = fields.assistantId := rescheduled_assistant call fields
      rw [← own] at found
      dsimp only
      split
      · exact .refl _
      · split
        · rename_i done _ same
          rw [same] at stays
          exact writeCron_maintains found stays
        · rename_i done same
          rw [same] at stays
          exact writeCron_maintains found stays
    · exact .refl _

theorem deleteCron_maintains (cronId : String) (filters : Filters J) : Maintains s (deleteCron s cronId filters).1 :=
  store_maintains rfl rfl (upholds_crons fun cron => !(cron.cronId == cronId && passes filters (cronMetadata s cron.cronId)))

end crons

end InmemRuntime.WorldReferences
