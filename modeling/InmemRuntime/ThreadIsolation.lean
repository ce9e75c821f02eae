import InmemRuntime.ThreadFrames
import InmemRuntime.DeniedMutations

namespace InmemRuntime.ThreadIsolation
open OrderedDict CheckpointSaver DeleteForRuns Streams StreamUpkeep RunDeletion
open ThreadTtl RuntimeStore Serving ThreadOps RunOps TtlSweep AssistantOps RecordCreation Mutations RecordFrames
open Refusals (Away Quiet away_later)
open ThreadRecords ThreadFrames

variable {J : Type}

section relation
variable {s s' s'' : World J} {threadId : String}

theorem kept_trans (first : ThreadKept threadId s s') (second : ThreadKept threadId s' s'') : ThreadKept threadId s s'' where
  records := second.records.trans first.records
  runs := second.runs.trans first.runs
  crons := second.crons.trans first.crons
  cronRows cron member own := by
    have listed : cron ∈ s'.store.crons.filter (·.threadId == threadId) := by
      rw [first.crons]
      exact List.mem_filter.mpr ⟨member,by simpa using own⟩
    obtain ⟨metadata,fields⟩ := first.cronRows cron member own
    obtain ⟨metadata',fields'⟩ := second.cronRows cron (List.mem_filter.mp listed).1 own
    exact ⟨metadata'.trans metadata,fields'.trans fields⟩
  ttl := second.ttl.trans first.ttl
  checkpoints ns id := (second.checkpoints ns id).trans (first.checkpoints ns id)
  writes := second.writes.trans first.writes
  blobs := second.blobs.trans first.blobs
  streams runId := (first.streams runId).trans (second.streams runId)
  watchers := first.watchers.trans second.watchers

theorem keeps_trans (first : Keeps s s') (second : Keeps s' s'') : Keeps s s'' where
  nextRun := Nat.le_trans first.nextRun second.nextRun
  threads ref known := (second.threads ref (Nat.lt_of_lt_of_le known first.nextRun)).trans (first.threads ref known)
  stored known := second.stored (first.stored known)
  nextQueue := Nat.le_trans first.nextQueue second.nextQueue
  places holder queue member known :=
    first.places holder queue (second.places holder queue member (Nat.lt_of_lt_of_le known first.nextQueue)) known

-- A change of the world on behalf of other threads.
structure Isolated (threadId : String) (s s' : World J) : Prop where
  kept : ThreadKept threadId s s'
  keeps : Keeps s s'
  grows : Extends s.store s'.store

theorem Isolated.refl (threadId : String) (s : World J) : Isolated threadId s s := ⟨.refl _ _,Keeps.refl _,.refl _⟩

theorem Isolated.trans (first : Isolated threadId s s') (second : Isolated threadId s' s'') : Isolated threadId s s'' :=
  ⟨kept_trans first.kept second.kept,keeps_trans first.keeps second.keeps,first.grows.trans second.grows⟩

theorem leaves_isolated {server : Server J} (leaves : Leaves threadId s.store server.store) : Isolated threadId s (s.withServer server) :=
  ⟨⟨leaves.records,leaves.runs,leaves.crons,fun _ _ _ => ⟨rfl,rfl⟩,leaves.ttl,fun _ _ => rfl,rfl,rfl,fun _ => SameRun.refl _ _,rfl,
      fun _ _ => rfl⟩,
    ⟨leaves.nextRun,leaves.threads,leaves.stored,Nat.le_refl _,fun _ _ member _ => member⟩,leaves.grows⟩

theorem saver_isolated {saver : Saver} (kept : SaverKept threadId s.saver saver) : Isolated threadId s {s with saver} :=
  ⟨⟨rfl,rfl,rfl,fun _ _ _ => ⟨rfl,rfl⟩,rfl,kept.checkpoints,kept.writes,kept.blobs,fun _ => SameRun.refl _ _,rfl,fun _ _ => rfl⟩,
    ⟨Nat.le_refl _,fun _ _ => rfl,id,Nat.le_refl _,fun _ _ member _ => member⟩,.refl _⟩

theorem streams_isolated {streams : Upkept} (kept : StreamsKept threadId s.streams.val streams.val) :
    Isolated threadId s {s with streams} :=
  ⟨⟨rfl,rfl,rfl,fun _ _ _ => ⟨rfl,rfl⟩,rfl,fun _ _ => rfl,rfl,rfl,kept.runs,kept.watchers⟩,
    ⟨Nat.le_refl _,fun _ _ => rfl,id,kept.next,fun holder _ member _ => kept.places holder member⟩,.refl _⟩

-- The rows of crons of other threads.
theorem cronRows_isolated {cronMetadata : Dict String (Metadata J)} {cronFields : Dict String (CronFields J)}
    (same : ∀ cron ∈ s.store.crons, cron.threadId = threadId → cronMetadata.get? cron.cronId = s.records.cronMetadata.get? cron.cronId ∧
      cronFields.get? cron.cronId = s.cronFields.get? cron.cronId) :
    Isolated threadId s {s with records := {s.records with cronMetadata}, cronFields} :=
  ⟨⟨rfl,rfl,rfl,fun cron member own => ⟨(same cron member own).1,(same cron member own).2⟩,rfl,fun _ _ => rfl,rfl,rfl,
      fun _ => SameRun.refl _ _,rfl,fun _ _ => rfl⟩,
    ⟨Nat.le_refl _,fun _ _ => rfl,id,Nat.le_refl _,fun _ _ member _ => member⟩,.refl _⟩

theorem tables_isolated [DecidableEq J] (packages : Packages J) (tables : AssistantTables J) :
    Isolated threadId s (s.withTables packages tables) := by
  have leaves : Leaves threadId s.store {s.store with assistants := tables.assistants.map (view packages.objects.toJson)} :=
    leaves_sidecars rfl rfl rfl rfl rfl rfl
  have stored : Isolated threadId s (s.withStore {s.store with assistants := tables.assistants.map (view packages.objects.toJson)}) :=
    leaves_isolated leaves
  obtain ⟨kept,keeps,grows⟩ := stored
  exact ⟨⟨kept.records,kept.runs,kept.crons,fun _ _ _ => ⟨rfl,rfl⟩,kept.ttl,fun _ _ => rfl,rfl,rfl,fun _ => SameRun.refl _ _,rfl,
    fun _ _ => rfl⟩,⟨keeps.nextRun,keeps.threads,keeps.stored,Nat.le_refl _,fun _ _ member _ => member⟩,grows⟩

end relation

-- What a call of any kind is when it is about other threads only, at each of
-- its suspension points. Where it is a matter of what belongs to the thread, it
-- stays so as long as the thread is left alone.
section elsewhere
variable (threadId : String)

def pruneAway (s : Store J) : PruneTask → Prop
  | .called call | .authorizing call => threadId ∉ call.threadIds
  | .deleting inner rest _ => threadId ∉ rest ∧ deleteAway threadId s inner
  | .checkpointer orderedIds _ => threadId ∉ orderedIds
  | .pruning batch rest _ _ => threadId ∉ batch ∧ threadId ∉ rest

def updateAway : UpdateTask J → Prop
  | .called call | .authorizing call | .reading call _ | .updating call | .readingAgain call | .finishing call => call.threadId ≠ threadId

def picksNone (s : Store J) (call : CancelCall) : Prop := ∀ run ∈ threadRuns s threadId, isRunMatch call run = false

def cancelAway (s : World J) (told : List RunKey) : CancelTask → Prop
  | .called call | .authorizing call => call.threadId ≠ some threadId ∧ picksNone threadId s.store call
  | .looping _ rest deletes _ =>
    (∀ key ∈ told, key.threadId ≠ some threadId) ∧ (∀ ref ∈ rest, Away threadId s ref) ∧ ∀ key ∈ deletes, key.2 ≠ threadId

def interruption (assistantId : String) : CancelCall := ⟨none,.interrupt,none,none,some assistantId⟩

-- No run or cron of the thread is the assistant's.
structure Unused (s : World J) (assistantId : String) : Prop where
  runs : picksNone threadId s.store (interruption assistantId)
  crons : ∀ cron ∈ s.store.crons, cron.threadId = threadId → cronAssistant s cron ≠ some assistantId

def deleteAssistantAway (packages : Packages J) (s : World J) : DeleteAssistantTask → Prop
  | .called assistantId deleteThreads | .authorizing assistantId deleteThreads => Unused threadId s assistantId ∧
      (deleteThreads = true → ∀ thread ∈ threadRecords s.store threadId,
        thread.metadata.get? "assistant_id" ≠ some (packages.objects.text assistantId))
  | .threads assistantId inner rest => Unused threadId s assistantId ∧ threadId ∉ rest ∧ deleteAway threadId s.store inner
  | .warning assistantId rest => Unused threadId s assistantId ∧ threadId ∉ rest
  | .cancelling assistantId told inner => Unused threadId s assistantId ∧ cancelAway threadId s told inner
  | .signalling assistantId _ told => Unused threadId s assistantId ∧ ∀ key ∈ told, key.threadId ≠ some threadId

def cronAway (s : Store J) (cronId : String) : Prop := ∀ cron ∈ s.crons, cron.threadId = threadId → cron.cronId ≠ cronId

def Elsewhere (packages : Packages J) (s : World J) : Mutation J → Prop
  | .put task => putAway threadId task
  | .patch task => patchAway threadId task
  | .delete task => deleteAway threadId s.store task
  | .prune task => pruneAway threadId s.store task
  | .copy task => copyAway threadId task
  | .update task => updateAway threadId task
  | .sweep task => sweepAway threadId s.store task
  | .putRun task => putRunAway threadId task
  | .deleteRun task => task.key.2 ≠ threadId
  | .cancel told task => cancelAway threadId s told task
  | .signal key _ => key.threadId ≠ some threadId
  | .delivering queue _ => queue < s.streams.val.contents.next ∧ ∀ holder, queue ∈ registered s.streams.val holder →
      place holder ≠ some threadId
  | .putAssistant _ | .patchAssistant _ | .setLatest _ => True
  | .deleteAssistant task => deleteAssistantAway threadId packages s task
  | .putCron _ task => cronThread (PutCronTask.call task).threadId ≠ threadId
  | .updateCron (.called call) | .updateCron (.authorizing call) => cronAway threadId s.store call.cronId
  | .deleteCron (.called cronId) | .deleteCron (.authorizing cronId) => cronAway threadId s.store cronId
  | .other change => ∀ s, Isolated threadId s (change.apply s)

end elsewhere

section later
variable {packages : Packages J} {s s' : World J} {threadId : String}

theorem picksNone_later (isolated : Isolated threadId s s') {call : CancelCall} (none_ : picksNone threadId s.store call) :
    picksNone threadId s'.store call := by
  unfold picksNone
  rw [isolated.kept.runs]
  exact none_

theorem thread_cron (isolated : Isolated threadId s s') {cron : Cron} (member : cron ∈ s'.store.crons) (own : cron.threadId = threadId) :
    cron ∈ s.store.crons ∧ SameCron s s' cron.cronId := by
  have listed : cron ∈ s.store.crons.filter (·.threadId == threadId) := by
    rw [← isolated.kept.crons]
    exact List.mem_filter.mpr ⟨member,by simpa using own⟩
  obtain ⟨here,_⟩ := List.mem_filter.mp listed
  exact ⟨here,isolated.kept.cronRows cron here own⟩

theorem cronAway_later (isolated : Isolated threadId s s') {cronId : String} (away : cronAway threadId s.store cronId) :
    cronAway threadId s'.store cronId := fun cron member own => away cron (thread_cron isolated member own).1 own

theorem unused_later (isolated : Isolated threadId s s') {assistantId : String} (unused : Unused threadId s assistantId) :
    Unused threadId s' assistantId := by
  refine ⟨picksNone_later isolated unused.runs,fun cron member own => ?_⟩
  obtain ⟨here,same⟩ := thread_cron isolated member own
  unfold cronAssistant
  rw [same.fields]
  exact unused.crons cron here own

theorem cancelAway_later (isolated : Isolated threadId s s') {told : List RunKey} {task : CancelTask}
    (away : cancelAway threadId s told task) : cancelAway threadId s' told task := by
  cases task with
  | called call => exact ⟨away.1,picksNone_later isolated away.2⟩
  | authorizing call => exact ⟨away.1,picksNone_later isolated away.2⟩
  | looping call rest deletes cancelable =>
    exact ⟨away.1,fun ref member => away_later isolated.keeps (away.2.1 ref member),away.2.2⟩

theorem elsewhere_later (isolated : Isolated threadId s s') {task : Mutation J} (away : Elsewhere threadId packages s task) :
    Elsewhere threadId packages s' task := by
  have grows := isolated.grows
  cases task with
  | delete task => exact deleteAway_later grows away
  | prune task =>
    cases task with
    | deleting inner rest pruned => exact ⟨away.1,deleteAway_later grows away.2⟩
    | _ => exact away
  | sweep task =>
    cases task with
    | deleting rest inner => exact ⟨away.1,deleteAway_later grows away.2⟩
    | _ => exact away
  | cancel told task => exact cancelAway_later isolated away
  | delivering queue message =>
    refine ⟨Nat.lt_of_lt_of_le away.1 isolated.keeps.nextQueue,fun holder member => ?_⟩
    exact away.2 holder (isolated.keeps.places holder queue member away.1)
  | deleteAssistant task =>
    cases task with
    | called assistantId deleteThreads => exact ⟨unused_later isolated away.1,by rw [isolated.kept.records]; exact away.2⟩
    | authorizing assistantId deleteThreads => exact ⟨unused_later isolated away.1,by rw [isolated.kept.records]; exact away.2⟩
    | threads assistantId inner rest => exact ⟨unused_later isolated away.1,away.2.1,deleteAway_later grows away.2.2⟩
    | warning assistantId rest => exact ⟨unused_later isolated away.1,away.2⟩
    | cancelling assistantId told inner => exact ⟨unused_later isolated away.1,cancelAway_later isolated away.2⟩
    | signalling assistantId action told => exact ⟨unused_later isolated away.1,away.2⟩
  | updateCron task => cases task <;> exact cronAway_later isolated away
  | deleteCron task => cases task <;> exact cronAway_later isolated away
  | _ => exact away

end later

section steps
variable {packages : Packages J} {w : Wake J} {s : World J} {threadId : String} {τ ρ : Type}

-- One step of a call that is elsewhere, with what it goes on as.
structure Stays (threadId : String) (packages : Packages J) (s : World J) (result : World J × List (Mutation J)) : Prop where
  isolated : Isolated threadId s result.1
  elsewhere : ∀ u ∈ result.2, Elsewhere threadId packages result.1 u

theorem stays_goes {wrap : τ → Mutation J} {result : World J × Outcome τ ρ} (isolated : Isolated threadId s result.1)
    (again : ∀ task, result.2 = .suspended task → Elsewhere threadId packages result.1 (wrap task)) :
    Stays threadId packages s (result.1,goes wrap result.2) := by
  refine ⟨isolated,fun u member => ?_⟩
  obtain ⟨task,suspends,rfl⟩ := mem_goes member
  exact again task suspends

theorem stays_served {away : Store J → τ → Prop} {wrap : τ → Mutation J} {middle : World J} {result : Server J × Outcome τ ρ}
    (first : Isolated threadId s middle) (spared : Spared threadId middle.records.server away result)
    (wraps : ∀ task, away result.1.store task → Elsewhere threadId packages (middle.withServer result.1) (wrap task)) :
    Stays threadId packages s (served middle wrap result) := by
  refine ⟨first.trans (leaves_isolated spared.leaves),fun u member => ?_⟩
  obtain ⟨task,suspends,rfl⟩ := mem_goes member
  exact wraps task (spared.again task suspends)

-- The cleanup of a thread, and the steps of its deletion.
theorem cleaned_isolated {task : DeleteTask} (away : deleteAway threadId s.store task) :
    Isolated threadId s (cleaned packages w s task) := by
  unfold cleaned
  split
  · exact saver_isolated (untouched_kept (SweepExactness.deleteThread_untouched s.saver away.1.symm))
  · exact streams_isolated (deleteThread_kept s.streams.property _ _ _ away.1)
  · exact .refl _ _

theorem deleteWhole_stays (used : LiveUsed s.store) {task : DeleteTask} (away : deleteAway threadId s.store task) :
    Isolated threadId s (stepDeleteWhole packages w s task).1 ∧
      ∀ again, (stepDeleteWhole packages w s task).2 = .suspended again →
        deleteAway threadId (stepDeleteWhole packages w s task).1.store again := by
  have first : Isolated threadId s (cleaned packages w s task) := cleaned_isolated away
  have same : (cleaned packages w s task).records = s.records := (cleaned_records packages w s task).1
  unfold stepDeleteWhole
  dsimp only
  have spared : Spared threadId (cleaned packages w s task).records.server (deleteAway threadId)
      (stepDelete w (cleaned packages w s task).records.server task) := by
    rw [same]
    exact spared_delete used away
  exact ⟨first.trans (leaves_isolated spared.leaves),spared.again⟩

theorem consult_leaves {store : Store J} {other : String} (apart : other ≠ threadId) (filters : Filters J) :
    Leaves threadId store (consult filters store other) := by
  unfold consult getWithFilters
  cases found : store.findThread other with
  | none => exact .refl _ _
  | some ref =>
    dsimp only
    split
    · exact .refl _ _
    · exact leaves_updateThread ((Store.findThread_some found).2.trans_ne apart) fun _ => rfl

theorem consults_leave {store : Store J} {others : List String} (out : threadId ∉ others) (filters : Filters J) :
    Leaves threadId store (others.foldl (consult filters) store) := by
  induction others generalizing store with
  | nil => exact .refl _ _
  | cons other rest ih =>
    obtain ⟨apart,later⟩ := not_or.mp fun member => out (List.mem_cons.mpr member)
    exact (consult_leaves (Ne.symm apart) filters).trans (ih later)

theorem got_leaves {store filled : Store J} {other : String} {filters : Filters J} {found : Option Nat} (apart : other ≠ threadId)
    (got : getWithFilters store other filters = (filled,found)) : Leaves threadId store filled := by
  have same : consult filters store other = filled := congrArg Prod.fst got
  exact same ▸ consult_leaves apart filters

theorem deleteNext_away (used : LiveUsed s.store) {pruned : Nat} {rest : List String} (out : threadId ∉ rest) :
    ∀ again, deleteNext s pruned rest = .suspended again → pruneAway threadId s.store again := by
  intro again suspends
  unfold deleteNext at suspends
  split at suspends
  · cases suspends
  · rename_i other rest
    cases suspends
    obtain ⟨apart,later⟩ := not_or.mp fun member => out (List.mem_cons.mpr member)
    exact ⟨later,started_away used (Ne.symm apart)⟩

theorem startPrune_away (used : LiveUsed s.store) {call : PruneCall} (out : threadId ∉ call.threadIds) :
    ∀ again, startPrune s call = .suspended again → pruneAway threadId s.store again := by
  intro again suspends
  unfold startPrune at suspends
  split at suspends
  · exact deleteNext_away used out again suspends
  · split at suspends
    · cases suspends
      exact fun member => out (List.mem_filter.mp member).1
    · cases suspends

theorem pruneNext_away {batchSize pruned : Nat} {threadIds : List String} {store : Store J} (out : threadId ∉ threadIds) :
    ∀ again, pruneNext batchSize pruned threadIds = .suspended again → pruneAway threadId store again := by
  intro again suspends
  unfold pruneNext at suspends
  split at suspends
  · cases suspends
  · cases suspends
    exact ⟨fun member => out (List.mem_of_mem_take member),fun member => out (List.mem_of_mem_drop member)⟩

theorem prune_stays (used : LiveUsed s.store) {task : PruneTask} (away : pruneAway threadId s.store task) :
    Stays threadId packages s (went .prune (stepPrune packages w s task)) := by
  cases task with
  | called call =>
    unfold stepPrune
    dsimp only
    split
    · exact stays_goes (.refl _ _) nofun
    · exact stays_goes (.refl _ _) fun again suspends => by cases suspends; exact away
  | authorizing call =>
    unfold stepPrune
    dsimp only
    split
    · exact stays_goes (.refl _ _) nofun
    · exact stays_goes (.refl _ _) (startPrune_away used away)
    · rename_i check _
      have found : Isolated threadId s (s.withStore (call.threadIds.foldl (consult (some check)) s.store)) :=
        leaves_isolated (consults_leave away (some check))
      split
      · exact stays_goes found nofun
      · exact stays_goes found (startPrune_away (found.grows.live used) away)
  | deleting inner rest pruned =>
    obtain ⟨out,inside⟩ := away
    obtain ⟨isolated,again⟩ : Isolated threadId s (stepDeleteWhole packages w s inner).1 ∧ _ := deleteWhole_stays used inside
    unfold stepPrune
    dsimp only
    split <;> rename_i stepped <;> rw [stepped] at isolated again
    · exact stays_goes isolated fun task suspends => by cases suspends; exact ⟨out,again _ rfl⟩
    · exact stays_goes isolated (deleteNext_away (isolated.grows.live used) out)
    · exact stays_goes isolated (deleteNext_away (isolated.grows.live used) out)
    · exact stays_goes isolated nofun
  | checkpointer orderedIds batchSize =>
    unfold stepPrune
    dsimp only
    split
    · exact stays_goes (.refl _ _) nofun
    · exact stays_goes (.refl _ _) (pruneNext_away away)
  | pruning batch rest batchSize pruned =>
    have first : Isolated threadId s {s with saver := prunedThreads packages s.saver batch} :=
      saver_isolated (prunedThreads_kept packages s.saver away.1)
    unfold stepPrune
    dsimp only
    split
    · exact stays_goes (.refl _ _) nofun
    · exact stays_goes first (pruneNext_away away.2)

theorem copiedSaver_kept {task : CopyTask J} (away : copyAway threadId task) : SaverKept threadId s.saver (copiedSaver packages w s task) := by
  unfold copiedSaver
  split
  · rename_i call newId filters
    split
    · split
      · exact .refl _ _
      · exact copiedCheckpoints_kept packages away
    · exact .refl _ _
  · exact .refl _ _

-- A copy is drawn under a new id; its source is only read.
theorem spared_copy {server : Server J} (used : LiveUsed server.store) (fresh : w.newId ≠ threadId) {task : CopyTask J}
    (away : copyAway threadId task) : Spared threadId server (fun _ => copyAway threadId) (stepCopy w server task) := by
  cases task with
  | called call => exact spared_suspended fresh
  | authorizingRead call newId => exact spared_authorized fun filters => spared_suspended away
  | authorizingCreate call newId filters =>
    refine spared_authorized fun _ => ?_
    split
    · exact spared_returned _ (.refl _ _)
    · rename_i ref found
      dsimp only
      split
      · exact spared_returned _ (.refl _ _)
      · have made : Leaves threadId server.store (server.store.appendThread (copiedThread (server.store.thread ref) newId w.now)) :=
          leaves_appendThread used away
        have ttl : (RecordCreation.copiedTtl server.store.ttls call.threadId newId).get? threadId = server.store.ttls.get? threadId := by
          unfold RecordCreation.copiedTtl
          split
          · rfl
          · split
            · exact Dict.get?_insert_other (beq_false_of_ne away)
            · rfl
        have copied := made.trans (leaves_ttls (s:=server.store.appendThread _) ttl)
        refine ⟨copied,fun again suspends => ?_⟩
        split at suspends <;> cases suspends
        trivial
  | checkpointer ref => exact spared_external (spared_returned _ (.refl _ _))

theorem setStatus_leaves {store store' : Store J} {now : Int} {call : StatusCall J} (set : setStatus store now call = .ok store')
    (apart : call.threadId ≠ threadId) : Leaves threadId store store' := by
  unfold setStatus at set
  split at set
  · cases set
  · rename_i ref found
    cases set
    exact leaves_updateThread ((Store.findThread_some found).2.trans_ne apart) fun _ => rfl

theorem published_isolated (other : String) (message : Message) :
    Isolated threadId s {s with streams := (s.streams.operate packages (.putThread other message)).1} :=
  streams_isolated (putThread_kept s.streams.property _ other message)

theorem putThread_deliveries {other : String} {message : Message} (apart : other ≠ threadId) {s' : World J}
    (streams : s'.streams = (s.streams.operate packages (.putThread other message)).1) :
    ∀ u ∈ deliveries (s.streams.operate packages (.putThread other message)).2, Elsewhere threadId packages s' u := by
  intro u member
  obtain ⟨row,chosen,rfl⟩ := List.mem_map.mp member
  have owned := s.streams.property.owned
  have mine : row.1 ∈ registered s.streams.val (.watcher other) := putThread_chosen chosen
  have kept : StreamsKept threadId s.streams.val s'.streams.val := by
    rw [streams]
    exact putThread_kept s.streams.property _ other message
  refine ⟨Nat.lt_of_lt_of_le (owned.used _ _ mine) kept.next,fun holder there => ?_⟩
  have same : holder = .watcher other := owned.apart holder _ row.1 (kept.places holder there) mine
  rw [same]
  exact fun named => apart (Option.some.inj named)

theorem update_stays [DecidableEq J] (confined : ∀ call saver, call.threadId ≠ threadId → SaverKept threadId saver (packages.updated call saver))
    {task : UpdateTask J} (away : updateAway threadId task) :
    Stays threadId packages s (Mutations.resume packages w s (.update task)) := by
  have ended : ∀ {s' : World J} {fault : Fault}, Isolated threadId s s' →
      Stays threadId packages s (s',goes .update (.raised fault : Outcome (UpdateTask J) Unit) ++ deliveries []) :=
    fun isolated => ⟨isolated,fun u member => (List.not_mem_nil member).elim⟩
  have goesOn : ∀ {s' : World J} {again : UpdateTask J}, Isolated threadId s s' → updateAway threadId again →
      Stays threadId packages s (s',goes .update (.suspended again : Outcome (UpdateTask J) Unit) ++ deliveries []) := by
    intro s' again isolated away
    refine ⟨isolated,fun u member => ?_⟩
    cases List.mem_singleton.mp member
    exact away
  unfold Mutations.resume
  cases task with
  | called call => exact goesOn (.refl _ _) away
  | authorizing call =>
    unfold stepUpdate
    dsimp only
    split
    · exact ended (.refl _ _)
    · exact goesOn (.refl _ _) away
  | reading call filters =>
    unfold stepUpdate
    dsimp only
    split
    · exact ended (.refl _ _)
    · split
      · exact ended (.refl _ _)
      · rename_i store ref got
        have filled : Isolated threadId s (s.withStore store) := leaves_isolated (got_leaves away got)
        split
        · exact ended filled
        · exact goesOn filled away
  | updating call =>
    unfold stepUpdate
    dsimp only
    split
    · exact ended (.refl _ _)
    · exact goesOn (saver_isolated (confined call s.saver away)) away
  | readingAgain call =>
    unfold stepUpdate
    dsimp only
    split
    · exact ended (.refl _ _)
    · split
      · exact ended (.refl _ _)
      · rename_i store ref got
        exact goesOn (leaves_isolated (got_leaves away got)) away
  | finishing call =>
    unfold stepUpdate
    dsimp only
    split
    · exact ended (.refl _ _)
    · split
      · exact ended (.refl _ _)
      · rename_i store set
        have written : Isolated threadId s (s.withStore store) := leaves_isolated (setStatus_leaves set away)
        exact ⟨written.trans (published_isolated (s:=s.withStore store) call.threadId _),putThread_deliveries away rfl⟩

theorem sweptSaver_records (task : SweepTask) : (sweptSaver packages w s task).records = s.records := by
  unfold sweptSaver
  split
  · exact (cleaned_records packages w s _).1
  · rfl
  · rfl

theorem sweptSaver_isolated {task : SweepTask} (away : sweepAway threadId s.store task) :
    Isolated threadId s (sweptSaver packages w s task) := by
  unfold sweptSaver
  split
  · exact cleaned_isolated away.2
  · exact saver_isolated (prunedThreads_kept packages s.saver (by simpa using away.2.symm))
  · exact .refl _ _

theorem cleanedRun_isolated {task : DeleteRunTask} (away : task.key.2 ≠ threadId)
    (spares : ∀ runId other, task = .checkpoints (some runId) other → w.failure = none → ¬ Removes packages.serde runId threadId s.saver) :
    Isolated threadId s (cleanedRun packages w s task) := by
  unfold cleanedRun
  split
  · exact leaves_isolated (consult_leaves away _)
  · rename_i runId other failure
    obtain ⟨checkpoints,writes,blobs⟩ := deleteForRuns_kept packages.serde runId threadId s.saver (spares runId other rfl failure)
    exact saver_isolated ⟨checkpoints,writes,blobs⟩
  · rename_i runId other failure
    obtain ⟨next,fewer⟩ := deleteRun_places packages.codec packages.streams.clock s.streams.val ⟨some other,runId⟩
    have others : ∀ own, SameRun s.streams.val (s.streams.val.deleteRun packages.codec packages.streams.clock ⟨some other,runId⟩)
        ⟨some threadId,own⟩ := fun own =>
      deleteRun_others s.streams.property fun same => away (Option.some.inj (congrArg RunKey.threadId same)).symm
    exact streams_isolated ⟨others,deleteRun_threads s.streams.property threadId,next,fewer⟩
  · exact .refl _ _

theorem removeRun_leaves {store : Store J} {runId : Option String} {other : String} (apart : other ≠ threadId) :
    Leaves threadId store (removeRun store runId other) :=
  spares_leaves (spares_removeRun apart) (write_extends (show StoreWrites.Write anyWrite store _ from .removedRun fun _ _ _ => trivial))

theorem spared_deleteRun {server : Server J} {task : DeleteRunTask} (away : task.key.2 ≠ threadId) :
    Spared threadId server (fun _ (again : DeleteRunTask) => again.key.2 ≠ threadId) (stepDeleteRun w server task) := by
  cases task with
  | called runId other => exact spared_suspended away
  | authorizing runId other =>
    refine spared_authorized fun filters => ?_
    split
    · exact spared_returned _ (.refl _ _)
    · split
      · exact spared_raised _
      · exact spared_suspended away
  | checkpoints runId other => exact spared_external (spared_suspended away)
  | streams runId other => exact spared_external (spared_returned _ (removeRun_leaves away))

-- What a cancellation picks when it picks no run of the thread.
theorem candidates_away (stored : ∀ ref ∈ s.store.boundRuns, ref < s.store.runs.next) {call : CancelCall}
    (none_ : picksNone threadId s.store call) (filters : Filters J) : ∀ ref ∈ candidateRuns s.store call filters, Away threadId s ref := by
  have away : ∀ ref ∈ s.store.boundRuns.filter (fun ref => isRunMatch call (s.store.run ref)), Away threadId s ref := by
    intro ref member
    obtain ⟨bound,picked⟩ := List.mem_filter.mp member
    refine ⟨stored ref bound,fun own => ?_⟩
    have mine : s.store.run ref ∈ threadRuns s.store threadId :=
      List.mem_map_of_mem (List.mem_filter.mpr ⟨bound,by simpa using own⟩)
    rw [none_ _ mine] at picked
    cases picked
  intro ref member
  unfold candidateRuns at member
  dsimp only at member
  split at member
  · exact away ref member
  · split at member
    · split at member
      · exact away ref member
      · cases member
    · exact away ref (List.mem_filter.mp member).1

theorem consultRuns_leaves (stored : ∀ ref ∈ s.store.boundRuns, ref < s.store.runs.next) {call : CancelCall}
    (away : cancelAway threadId s [] (.authorizing call)) (filters : Filters J) :
    Leaves threadId s.store (consultRuns s.store call filters) := by
  obtain ⟨apart,none_⟩ := away
  unfold consultRuns
  split
  · exact .refl _ _
  · rename_i check other given
    exact consult_leaves (fun same => apart (given.trans (congrArg some same))) _
  · refine consults_leave (fun member => ?_) _
    obtain ⟨ref,picked,own⟩ := List.mem_map.mp member
    exact (candidates_away stored none_ none ref picked).2 own

theorem gathered_elsewhere {action : Action} {told : List RunKey} {deletes : List (Option String × String)}
    (away : ∀ key ∈ told, key.threadId ≠ some threadId) (others : ∀ key ∈ deletes, key.2 ≠ threadId) :
    ∀ u ∈ gathered action told deletes, Elsewhere threadId packages s u := by
  intro u member
  rcases List.mem_append.mp member with signal | delete
  · obtain ⟨key,listed,rfl⟩ := List.mem_map.mp signal
    exact away key listed
  · obtain ⟨key,listed,rfl⟩ := List.mem_map.mp delete
    exact others key listed

-- Where a cancellation may be after a step, as a call of its own or inside
-- the deletion of an assistant.
structure CancelStays (threadId : String) (s : World J) (result : World J × List RunKey × Outcome CancelTask (List (Option String × String))) :
    Prop where
  isolated : Isolated threadId s result.1
  again : ∀ task, result.2.2 = .suspended task → cancelAway threadId result.1 result.2.1 task
  told : ∀ deletes, result.2.2 = .returned deletes → ∀ key ∈ result.2.1, key.threadId ≠ some threadId
  deletes : ∀ deletes, result.2.2 = .returned deletes → ∀ key ∈ deletes, key.2 ≠ threadId

theorem loop_stays {call : CancelCall} {refs : List Nat} {server : Server J} {deletes : List (Option String × String)}
    {cancelable : Bool} {told : List RunKey} (first : Leaves threadId s.store server.store)
    (away : ∀ ref ∈ refs, Away threadId (s.withServer server) ref) (toldAway : ∀ key ∈ told, key.threadId ≠ some threadId)
    (others : ∀ key ∈ deletes, key.2 ≠ threadId) :
    CancelStays threadId s (s.withServer (cancelLoop w server call refs deletes cancelable).1,told,
      (cancelLoop w server call refs deletes cancelable).2) := by
  obtain ⟨spares,suspends,returns⟩ := RefusedRuns.cancelLoop_spares (w:=w) call refs server deletes cancelable
    (fun ref member => (away ref member).2) others
  have steps : StoreWrites.Steps anyWrite server (cancelLoop w server call refs deletes cancelable).1 :=
    StoreWrites.cancelLoop_steps w server call refs deletes cancelable fun _ _ _ _ => trivial
  refine ⟨leaves_isolated (first.trans (spares_leaves spares (writes_extend steps.writes))),fun task same => ?_,fun _ _ => toldAway,returns⟩
  obtain ⟨rest,deletes',cancelable',rfl,fewer,gone⟩ := suspends task same
  refine ⟨toldAway,fun ref listed => ?_,gone⟩
  obtain ⟨bound,apart⟩ := away ref (fewer listed)
  exact ⟨lt_of_lt_of_eq bound spares.nextRun.symm,fun own => apart ((spares.threads ref).symm.trans own)⟩

theorem cancelWhole_stays (stored : ∀ ref ∈ s.store.boundRuns, ref < s.store.runs.next) {told : List RunKey} {task : CancelTask}
    (away : cancelAway threadId s told task) : CancelStays threadId s (stepCancelWhole w s told task) := by
  have ended : ∀ {s' : World J} {told : List RunKey} {fault : Fault}, Isolated threadId s s' →
      CancelStays threadId s (s',told,.raised fault) := fun isolated => ⟨isolated,nofun,nofun,nofun⟩
  cases task with
  | called call =>
    unfold stepCancelWhole stepCancel
    dsimp only
    split
    · exact ended (.refl _ _)
    · exact ⟨.refl _ _,fun task same => by cases same; exact away,nofun,nofun⟩
  | authorizing call =>
    unfold stepCancelWhole
    dsimp only
    cases auth : w.auth with
    | error fault =>
      unfold stepCancel authorized
      dsimp only
      exact ended (.refl _ _)
    | ok filters =>
      have leaves : Leaves threadId s.store (consultRuns s.store call filters) := consultRuns_leaves stored away filters
      have toldAway : ∀ key ∈ (candidateRuns s.store call filters).map (fun ref => runKey (s.store.run ref)),
          key.threadId ≠ some threadId := by
        intro key member
        obtain ⟨ref,candidate,rfl⟩ := List.mem_map.mp member
        exact fun same => (candidates_away stored away.2 filters ref candidate).2 (Option.some.inj same)
      have consulted : Isolated threadId s (s.withStore (consultRuns s.store call filters)) := leaves_isolated leaves
      have picked := candidates_away (s:=s.withStore (consultRuns s.store call filters)) (consulted.keeps.stored stored)
        (picksNone_later consulted away.2) filters
      unfold stepCancel authorized
      dsimp only
      split
      · split
        · exact ⟨consulted,nofun,fun _ _ => toldAway,fun deletes same key member => by cases same; cases member⟩
        · exact ended consulted
      · rename_i ref rest candidates
        exact loop_stays leaves (fun other member => picked other (candidates ▸ member)) toldAway nofun
  | looping call rest deletes cancelable =>
    obtain ⟨toldAway,refs,others⟩ := away
    exact loop_stays (s:=s) (.refl _ _) refs toldAway others

theorem cancel_stays (stored : ∀ ref ∈ s.store.boundRuns, ref < s.store.runs.next) {told : List RunKey} {task : CancelTask}
    (away : cancelAway threadId s told task) : Stays threadId packages s (wentCancel task (stepCancelWhole w s told task)) := by
  obtain ⟨isolated,again,toldAway,others⟩ := cancelWhole_stays (w:=w) stored away
  unfold wentCancel
  split <;> rename_i stepped <;> rw [stepped] at isolated again toldAway others
  · refine ⟨isolated,fun u member => ?_⟩
    cases List.mem_singleton.mp member
    exact again _ rfl
  · exact ⟨isolated,gathered_elsewhere (toldAway _ rfl) (others _ rfl)⟩
  · exact ⟨isolated,fun u member => (List.not_mem_nil member).elim⟩

-- A signal and its delivery, as they were for a thread that a filter bars.
theorem quiet_stays {result : World J × List (Mutation J)} (quiet : Quiet (fun _ => true) (.thread threadId) s result)
    (same : result.1.store = s.store) (delivers : ∀ u ∈ result.2, ∃ queue message, u = .delivering queue message) :
    Stays threadId packages s result := by
  refine ⟨⟨quiet.unchanged,quiet.keeps,same ▸ .refl _⟩,fun u member => ?_⟩
  have denied := quiet.denied u member
  obtain ⟨queue,message,rfl⟩ := delivers u member
  exact denied

theorem signal_stays {key : RunKey} {action : Action} (apart : key.threadId ≠ some threadId) :
    Stays threadId packages s ((sendSignal packages s key action).1,deliveries (sendSignal packages s key action).2) := by
  refine quiet_stays (RefusedRuns.signal_quiet apart) rfl fun u member => ?_
  obtain ⟨row,_,rfl⟩ := List.mem_map.mp member
  exact ⟨_,_,rfl⟩

theorem delivering_stays {queue : Nat} {message : Message} (away : Elsewhere threadId packages s (.delivering queue message)) :
    Stays threadId packages s ({s with streams := s.streams.deliver queue message},[]) :=
  quiet_stays (RefusedRuns.delivering_quiet away) rfl fun _ member => (List.not_mem_nil member).elim

end steps

end InmemRuntime.ThreadIsolation
