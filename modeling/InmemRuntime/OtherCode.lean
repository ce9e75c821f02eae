import InmemRuntime.JointAtomicity
import InmemRuntime.ThreadFrames

namespace InmemRuntime.OtherCode
open Streams StreamUpkeep ThreadTtl RuntimeStore Serving ThreadOps RunOps TtlSweep AssistantOps RecordCreation Mutations RecordFrames
open StoreWrites ThreadRecords ThreadFrames

variable {J : Type}

-- A store where each thread and each run is still what it was.
structure Grows (s s' : Store J) : Prop where
  nextRun : s.runs.next ≤ s'.runs.next
  threads : ∀ ref < s.runs.next, (s'.run ref).threadId = (s.run ref).threadId
  stored : (∀ ref ∈ s.boundRuns, ref < s.runs.next) → ∀ ref ∈ s'.boundRuns, ref < s'.runs.next
  grows : Extends s s'

structure Evolves (s s' : World J) : Prop where
  store : Grows s.store s'.store
  nextQueue : s.streams.val.contents.next ≤ s'.streams.val.contents.next
  places : ∀ holder, registered s'.streams.val holder ⊆ registered s.streams.val holder

section stores
variable {s s' s'' : Store J}

theorem Grows.refl (s : Store J) : Grows s s := ⟨Nat.le_refl _,fun _ _ => rfl,id,.refl s⟩

theorem Grows.trans (first : Grows s s') (second : Grows s' s'') : Grows s s'' where
  nextRun := Nat.le_trans first.nextRun second.nextRun
  threads ref known := (second.threads ref (Nat.lt_of_lt_of_le known first.nextRun)).trans (first.threads ref known)
  stored known := second.stored (first.stored known)
  grows := first.grows.trans second.grows

-- Neither a thread nor a run is changed.
theorem grows_same (threads : s'.threads = s.threads) (live : s'.liveThreads = s.liveThreads) (runs : s'.runs = s.runs)
    (bound : s'.boundRuns = s.boundRuns) : Grows s s' := by
  refine ⟨le_of_eq (by rw [runs]),fun ref _ => by simp only [Store.run,runs],fun stored => ?_,extends_same threads live⟩
  rw [bound,runs]
  exact stored

theorem write_grows {permit : Permit} (write : Write permit s s') : Grows s s' := by
  have grows := write_extends write
  cases write with
  | thread same => exact ⟨Nat.le_refl _,fun _ _ => rfl,id,grows⟩
  | newThread => exact ⟨Nat.le_refl _,fun _ _ => rfl,id,grows⟩
  | replaced => exact ⟨Nat.le_refl _,fun _ _ => rfl,id,grows⟩
  | removed ok => exact ⟨Nat.le_refl _,fun _ _ => rfl,fun stored ref member => stored ref (List.mem_filter.mp member).1,grows⟩
  | newRun ok =>
    refine ⟨Nat.le_succ _,fun ref known => ?_,fun stored ref member => ?_,grows⟩
    · exact congrArg Run.threadId (ObjectHeap.Heap.read_alloc_old known)
    · rcases List.mem_append.mp member with old | new
      · exact Nat.lt_succ_of_lt (stored ref old)
      · rw [List.mem_singleton.mp new]
        exact Nat.lt_succ_self _
  | run ok => exact ⟨Nat.le_refl _,fun ref _ => ObjectHeap.Heap.read_write_field Run.threadId (by rfl) ref,id,grows⟩
  | claimed ok => exact ⟨Nat.le_refl _,fun ref _ => ObjectHeap.Heap.read_write_field Run.threadId (by rfl) ref,id,grows⟩
  | removedRun ok => exact ⟨Nat.le_refl _,fun _ _ => rfl,fun stored ref member => stored ref (List.mem_filter.mp member).1,grows⟩
  | sidecar => exact ⟨Nat.le_refl _,fun _ _ => rfl,id,grows⟩

theorem writes_grow {permit : Permit} (writes : Writes permit s s') : Grows s s' := by
  induction writes with
  | refl => exact .refl _
  | tail _ write ih => exact ih.trans (write_grows write)

theorem consult_grows (s : Store J) (filters : Filters J) (threadId : String) : Grows s (consult filters s threadId) := by
  unfold consult getWithFilters
  split
  · exact .refl _
  · rename_i ref _
    split
    · exact .refl _
    · have write : Write anyWrite s (s.updateThread ref filledIn) := .thread fun _ => rfl
      exact write_grows write

theorem consults_grow (filters : Filters J) (threadIds : List String) (s : Store J) : Grows s (threadIds.foldl (consult filters) s) := by
  induction threadIds generalizing s with
  | nil => exact .refl s
  | cons threadId rest ih => exact (consult_grows s filters threadId).trans (ih _)

theorem consultRuns_grow (s : Store J) (call : CancelCall) (filters : Filters J) : Grows s (consultRuns s call filters) := by
  unfold consultRuns
  split
  · exact .refl s
  · exact consult_grows s _ _
  · exact consults_grow _ _ s

theorem authorized_grows {τ ρ : Type} {w : Wake J} {s : Server J} {go : Filters J → Server J × Outcome τ ρ}
    (goes : ∀ filters, Grows s.store (go filters).1.store) : Grows s.store (authorized w s go).1.store := by
  unfold authorized
  split
  · exact .refl _
  · exact goes _

theorem copy_grows (w : Wake J) (s : Server J) (task : CopyTask J) : Grows s.store (stepCopy w s task).1.store := by
  cases task with
  | called call => exact .refl _
  | authorizingRead call newId => exact authorized_grows fun _ => .refl _
  | authorizingCreate call newId filters =>
    refine authorized_grows fun _ => ?_
    split
    · exact .refl _
    · rename_i ref _
      split
      · exact .refl _
      · have write : Write anyWrite s.store (s.store.appendThread (copiedThread (s.store.thread ref) newId w.now)) := .newThread
        exact (write_grows write).trans (grows_same rfl rfl rfl rfl)
  | checkpointer ref =>
    unfold stepCopy external
    dsimp only
    split <;> exact .refl _

-- A cron is appended, or nothing is.
theorem putCron_grows (graphs : Graphs) (w : Wake J) (s : Records J) (task : PutCronTask J) :
    Grows s.server.store (stepPutCron graphs w s task).1.server.store := by
  have inserts : ∀ call cronId filters, Grows s.server.store (insertCron w s call cronId filters).1.server.store := by
    intro call cronId filters
    unfold insertCron
    split
    · split <;> exact .refl _
    · split
      · exact .refl _
      · exact grows_same rfl rfl rfl rfl
  have validates : ∀ call cronId filters assistantId assistantFilters,
      Grows s.server.store (validateAssistant w s call cronId filters assistantId assistantFilters).1.server.store := by
    intro call cronId filters assistantId assistantFilters
    unfold validateAssistant
    split
    · exact .refl _
    · split
      · exact .refl _
      · split
        · exact inserts _ _ _
        · exact .refl _
  unfold stepPutCron
  split
  · exact .refl _
  · split
    · exact .refl _
    · exact .refl _
    · exact .refl _
    · split
      · exact validates _ _ _ _ _
      · exact .refl _
  · split
    · exact .refl _
    · exact validates _ _ _ _ _
  · split
    · exact .refl _
    · split
      · exact .refl _
      · split
        · exact .refl _
        · exact inserts _ _ _

end stores

section worlds
variable (packages : Packages J) (w : Wake J) {s s' s'' : World J}

theorem Evolves.refl (s : World J) : Evolves s s := ⟨.refl _,Nat.le_refl _,fun _ => List.Subset.refl _⟩

theorem Evolves.trans (first : Evolves s s') (second : Evolves s' s'') : Evolves s s'' :=
  ⟨first.store.trans second.store,Nat.le_trans first.nextQueue second.nextQueue,
    fun holder => List.Subset.trans (second.places holder) (first.places holder)⟩

theorem Evolves.keeps (evolves : Evolves s s') : Keeps s s' :=
  ⟨evolves.store.nextRun,evolves.store.threads,evolves.store.stored,evolves.nextQueue,fun holder _ member _ => evolves.places holder member⟩

-- The streams are left alone.
theorem store_evolves (streams : s'.streams = s.streams) (store : Grows s.store s'.store) : Evolves s s' := by
  refine ⟨store,le_of_eq (by rw [streams]),fun holder => ?_⟩
  rw [streams]
  exact List.Subset.refl _

theorem server_evolves {server : Server J} (grows : Grows s.store server.store) : Evolves s (s.withServer server) := store_evolves rfl grows

theorem writes_evolve {server : Server J} (writes : Writes anyWrite s.store server.store) : Evolves s (s.withServer server) :=
  server_evolves (writes_grow writes)

theorem streams_evolve {streams : Upkept} (fewer : s.streams.val.contents.next ≤ streams.val.contents.next ∧
    ∀ holder, registered streams.val holder ⊆ registered s.streams.val holder) : Evolves s {s with streams} :=
  ⟨.refl _,fewer.1,fewer.2⟩

theorem touched_fewer {m m' : StreamManager} {queues : List Nat} (touched : Touched m m' queues) : m.contents.next ≤ m'.contents.next ∧
    ∀ holder, registered m' holder ⊆ registered m holder :=
  ⟨touched.next,fun holder => touched.registered holder ▸ List.Subset.refl _⟩

theorem cleaned_evolves (s : World J) (task : DeleteTask) : Evolves s (cleaned packages w s task) := by
  unfold cleaned
  split
  · exact store_evolves rfl (.refl _)
  · exact streams_evolve (deleteThread_places packages.codec packages.streams.clock packages.streams.order _)
  · exact .refl s

theorem deleteWhole_evolves (s : World J) (task : DeleteTask) : Evolves s (stepDeleteWhole packages w s task).1 := by
  have steps : Steps anyWrite (cleaned packages w s task).records.server (stepDelete w (cleaned packages w s task).records.server task).1 :=
    delete_steps w _ task fun _ _ _ _ _ _ => trivial
  exact (cleaned_evolves packages w s task).trans (writes_evolve steps.writes)

theorem prune_evolves (s : World J) (task : PruneTask) : Evolves s (stepPrune packages w s task).1 := by
  cases task with
  | called call =>
    unfold stepPrune
    dsimp only
    split <;> exact .refl s
  | authorizing call =>
    unfold stepPrune
    dsimp only
    split
    · exact .refl s
    · exact .refl s
    · rename_i check _
      have found : Evolves s (s.withStore (call.threadIds.foldl (consult (some check)) s.store)) := server_evolves (consults_grow _ _ _)
      split <;> exact found
  | deleting inner rest pruned =>
    have evolves := deleteWhole_evolves packages w s inner
    unfold stepPrune
    dsimp only
    generalize stepDeleteWhole packages w s inner = result at evolves
    obtain ⟨world,outcome⟩ := result
    cases outcome with
    | suspended again => exact evolves
    | returned value => exact evolves
    | raised fault => cases fault <;> exact evolves
  | checkpointer orderedIds batchSize =>
    unfold stepPrune
    dsimp only
    split <;> exact .refl s
  | pruning batch rest batchSize pruned =>
    unfold stepPrune
    dsimp only
    split
    · exact .refl s
    · exact store_evolves rfl (.refl _)

theorem update_evolves (s : World J) (task : UpdateTask J) : Evolves s (stepUpdate packages w s task).1 := by
  have reads : ∀ threadId filters store ref, getWithFilters s.store threadId filters = (store,ref) → Evolves s (s.withStore store) := by
    intro threadId filters store ref got
    have grows := consult_grows s.store filters threadId
    unfold consult at grows
    rw [got] at grows
    exact server_evolves grows
  cases task with
  | called call => exact .refl s
  | authorizing call =>
    unfold stepUpdate
    dsimp only
    split <;> exact .refl s
  | reading call filters =>
    unfold stepUpdate
    dsimp only
    split
    · exact .refl s
    · split
      · exact .refl s
      · rename_i store ref got
        split <;> exact reads _ _ _ _ got
  | updating call =>
    unfold stepUpdate
    dsimp only
    split
    · exact .refl s
    · exact store_evolves rfl (.refl _)
  | readingAgain call =>
    unfold stepUpdate
    dsimp only
    split
    · exact .refl s
    · split
      · exact .refl s
      · rename_i store ref got
        exact reads _ _ _ _ got
  | finishing call =>
    unfold stepUpdate
    dsimp only
    split
    · exact .refl s
    · split
      · exact .refl s
      · rename_i store set
        have writes : Writes anyWrite s.store store := setStatus_writes set
        have grows : Evolves s (s.withStore store) := server_evolves (writes_grow writes)
        exact grows.trans (streams_evolve (touched_fewer (putThread_touched _ _ _)))

theorem sweep_evolves (s : World J) (task : SweepTask) : Evolves s ((sweptSaver packages w s task).withServer
    (stepSweep packages.globalTtl w s.records.server task).1) := by
  have swept : Evolves s (sweptSaver packages w s task) := by
    unfold sweptSaver
    split
    · exact cleaned_evolves packages w s _
    · exact store_evolves rfl (.refl _)
    · exact .refl s
  have writes : Writes anyWrite s.store (stepSweep packages.globalTtl w s.records.server task).1.store :=
    sweep_writes w s.records.server task fun _ _ _ _ _ _ _ => trivial
  exact ⟨writes_grow writes,swept.nextQueue,swept.places⟩

theorem deleteRun_evolves (s : World J) (task : DeleteRunTask) : Evolves s ((cleanedRun packages w s task).withServer
    (stepDeleteRun w (cleanedRun packages w s task).records.server task).1) := by
  have cleans : Evolves s (cleanedRun packages w s task) := by
    unfold cleanedRun
    split
    · exact server_evolves (consult_grows _ _ _)
    · exact store_evolves rfl (.refl _)
    · exact streams_evolve (deleteRun_places packages.codec packages.streams.clock _ _)
    · exact .refl s
  have steps : Steps anyWrite _ (stepDeleteRun w (cleanedRun packages w s task).records.server task).1 :=
    deleteRun_steps w _ task fun _ _ _ _ _ _ => trivial
  exact cleans.trans (writes_evolve steps.writes)

theorem cancel_evolves (s : World J) (told : List RunKey) (task : CancelTask) : Evolves s (stepCancelWhole w s told task).1 := by
  have cancels : ∀ (wake : Wake J) (s : World J), Evolves s (s.withServer (stepCancel wake s.records.server task).1) := by
    intro wake s
    have steps : Steps anyWrite s.records.server (stepCancel wake s.records.server task).1 := cancel_steps wake _ task fun _ _ _ _ => trivial
    exact writes_evolve steps.writes
  unfold stepCancelWhole
  dsimp only
  split
  · rename_i call filters _
    have consulted : Evolves s (s.withStore (consultRuns s.store call filters)) := server_evolves (consultRuns_grow _ _ _)
    exact consulted.trans (cancels _ _)
  · exact cancels _ s

theorem signal_evolves (s : World J) (key : RunKey) (action : Action) : Evolves s (sendSignal packages s key action).1 := by
  refine streams_evolve ⟨le_of_eq (congrArg ObjectHeap.Heap.next (put_next _ _ false)).symm,fun holder queue member => ?_⟩
  rw [← put_places _ _ false holder]
  exact member

theorem tables_evolve [DecidableEq J] (s : World J) (tables : AssistantTables J) : Evolves s (s.withTables packages tables) :=
  store_evolves rfl (grows_same rfl rfl rfl rfl)

theorem deleteAssistant_evolves [DecidableEq J] (s : World J) (task : DeleteAssistantTask) :
    Evolves s (stepDeleteAssistant packages w s task).1 := by
  cases task with
  | called assistantId deleteThreads => exact .refl s
  | authorizing assistantId deleteThreads =>
    unfold stepDeleteAssistant
    dsimp only
    split
    · exact .refl s
    · split
      · exact .refl s
      · split <;> exact .refl s
  | threads assistantId inner rest =>
    have evolves := deleteWhole_evolves packages w s inner
    unfold stepDeleteAssistant
    dsimp only
    generalize stepDeleteWhole packages w s inner = result at evolves
    obtain ⟨world,outcome⟩ := result
    cases outcome with
    | suspended again => exact evolves
    | returned value => exact evolves
    | raised fault => cases fault <;> exact evolves
  | warning assistantId rest => exact .refl s
  | cancelling assistantId told inner =>
    have evolves := cancel_evolves w s told inner
    unfold stepDeleteAssistant
    dsimp only
    generalize stepCancelWhole w s told inner = result at evolves
    obtain ⟨world,told',outcome⟩ := result
    cases outcome <;> exact evolves
  | signalling assistantId action told =>
    cases told with
    | nil =>
      have removed := tables_evolve packages s (removeAssistant s.records.tables assistantId)
      exact removed.trans (store_evolves rfl (grows_same rfl rfl rfl rfl))
    | cons key rest => exact signal_evolves packages s key action

theorem asking_evolves {α ρ : Type} {go : α → Filters J → World J × Except Fault ρ} (goes : ∀ call filters, Evolves s (go call filters).1)
    (task : Asking α) : Evolves s (asking w s go task).1 := by
  cases task with
  | called call => exact .refl s
  | authorizing call =>
    unfold asking
    dsimp only
    split
    · exact .refl s
    · rename_i filters _
      have evolves := goes call filters
      generalize go call filters = result at evolves
      obtain ⟨world,outcome⟩ := result
      cases outcome <;> exact evolves

-- One step of any call. What other code does between the steps of a call may
-- be the step of another one.
theorem resume_evolves [DecidableEq J] (s : World J) (task : Mutation J) (own : ∀ change, task ≠ .other change) :
    Evolves s (Mutations.resume packages w s task).1 := by
  cases task with
  | other change => exact absurd rfl (own change)
  | put task =>
    have steps : Steps anyWrite s.records.server _ := put_steps w s.records.server task
    exact writes_evolve steps.writes
  | patch task =>
    have steps : Steps anyWrite s.records.server _ := patch_steps w s.records.server task
    exact writes_evolve steps.writes
  | delete task => exact deleteWhole_evolves packages w s task
  | prune task => exact prune_evolves packages w s task
  | copy task => exact ⟨copy_grows w s.records.server task,Nat.le_refl _,fun _ => List.Subset.refl _⟩
  | update task => exact update_evolves packages w s task
  | sweep task => exact sweep_evolves packages w s task
  | putRun task =>
    have steps : Steps anyWrite s.records.server (stepPutRun packages.objects.text w s.records.server task).1 :=
      putRun_steps w s.records.server task fun _ _ => trivial
    exact writes_evolve steps.writes
  | deleteRun task => exact deleteRun_evolves packages w s task
  | cancel told task =>
    have evolves := cancel_evolves w s told task
    dsimp only [Mutations.resume]
    generalize stepCancelWhole w s told task = result at evolves
    obtain ⟨world,told',outcome⟩ := result
    cases outcome <;> exact evolves
  | signal key action => exact signal_evolves packages s key action
  | delivering queue message => exact streams_evolve (touched_fewer (deliver_touched s.streams.val queue message))
  | putAssistant task =>
    cases task with
    | called call => exact .refl s
    | authorizing call =>
      refine store_evolves rfl ?_
      dsimp only [Mutations.resume,stepPutAssistant]
      split
      · exact .refl _
      · exact grows_same rfl rfl rfl rfl
  | patchAssistant task => exact asking_evolves w (fun _ _ => tables_evolve packages s _) task
  | setLatest task => exact asking_evolves w (fun _ _ => tables_evolve packages s _) task
  | deleteAssistant task => exact deleteAssistant_evolves packages w s task
  | putCron fields task => exact store_evolves rfl (putCron_grows packages.graphs w s.records task)
  | updateCron task =>
    refine asking_evolves w (fun call filters => ?_) task
    unfold updateCron
    dsimp only
    split
    · exact .refl s
    · split
      · split
        · exact .refl s
        · split <;> exact store_evolves rfl (.refl _)
      · exact .refl s
  | deleteCron task =>
    have deletes : ∀ cronId filters, Evolves s (deleteCron s cronId filters).1 := fun _ _ => store_evolves rfl (grows_same rfl rfl rfl rfl)
    exact asking_evolves w deletes task

-- So a call beside the one that is looked at is a change like any other.
theorem call_change [DecidableEq J] (task : Mutation J) (own : ∀ change, task ≠ .other change) :
    ∃ change : Change J, ∀ s, change.apply s = (Mutations.resume packages w s task).1 :=
  ⟨⟨fun s => (Mutations.resume packages w s task).1,fun s => (resume_evolves packages w s task own).keeps⟩,fun _ => rfl⟩

theorem call_storeChange [DecidableEq J] (world : World J) (task : Mutation J) (own : ∀ change, task ≠ .other change) :
    ∃ change : JointAtomicity.Change J, ∀ store, change.apply store = (Mutations.resume packages w (world.withStore store) task).1.store :=
  ⟨⟨fun store => (Mutations.resume packages w (world.withStore store) task).1.store,
    fun store => (resume_evolves packages w (world.withStore store) task own).store.grows⟩,fun _ => rfl⟩

end worlds
end InmemRuntime.OtherCode
