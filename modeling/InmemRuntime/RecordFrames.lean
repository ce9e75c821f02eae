import InmemRuntime.Mutations

namespace InmemRuntime.RecordFrames
open OrderedDict ObjectHeap CheckpointData CheckpointSaver DeleteForRuns Streams StreamUpkeep RunDeletion
open ThreadTtl RuntimeStore Serving ThreadOps RunOps AssistantOps RecordCreation Mutations

variable {J : Type}

-- The live records of a thread id, and the runs of a thread.
def threadRecords (s : Store J) (threadId : String) : List (Thread J) :=
  (s.liveThreads.filter (s.isThread threadId)).map s.thread

def threadRuns (s : Store J) (threadId : String) : List Run :=
  (s.boundRuns.filter fun ref => (s.run ref).threadId == threadId).map s.run

structure SameCron (s s' : World J) (cronId : String) : Prop where
  metadata : s'.records.cronMetadata.get? cronId = s.records.cronMetadata.get? cronId
  fields : s'.cronFields.get? cronId = s.cronFields.get? cronId

-- Everything that belongs to one thread is what it was.
structure ThreadKept (threadId : String) (s s' : World J) : Prop where
  records : threadRecords s'.store threadId = threadRecords s.store threadId
  runs : threadRuns s'.store threadId = threadRuns s.store threadId
  crons : s'.store.crons.filter (·.threadId == threadId) = s.store.crons.filter (·.threadId == threadId)
  cronRows : ∀ cron ∈ s.store.crons, cron.threadId = threadId → SameCron s s' cron.cronId
  ttl : s'.store.ttls.get? threadId = s.store.ttls.get? threadId
  checkpoints : ∀ ns id, s'.saver.entryAt threadId ns id = s.saver.entryAt threadId ns id
  writes : ownWrites s'.saver threadId = ownWrites s.saver threadId
  blobs : ownBlobs s'.saver threadId = ownBlobs s.saver threadId
  streams : ∀ runId, SameRun s.streams.val s'.streams.val ⟨some threadId,runId⟩
  watchers : StreamUpkeep.SameThread s.streams.val s'.streams.val threadId

structure AssistantKept (assistantId : String) (s s' : World J) : Prop where
  records : s'.records.tables.assistants.filter (·.assistantId == assistantId) =
    s.records.tables.assistants.filter (·.assistantId == assistantId)
  versions : s'.records.tables.versions.filter (·.assistantId == assistantId) =
    s.records.tables.versions.filter (·.assistantId == assistantId)
  crons : s'.store.crons.filter (cronAssistant s' · == some assistantId) =
    s.store.crons.filter (cronAssistant s · == some assistantId)
  cronRows : ∀ cron ∈ s.store.crons, cronAssistant s cron = some assistantId → SameCron s s' cron.cronId

structure CronKept (cronId : String) (s s' : World J) : Prop where
  rows : s'.store.crons.filter (·.cronId == cronId) = s.store.crons.filter (·.cronId == cronId)
  same : SameCron s s' cronId

theorem SameRun.refl (m : StreamManager) (key : RunKey) : SameRun m m key := ⟨rfl,rfl,rfl,rfl,Iff.rfl,Iff.rfl,fun _ _ => rfl⟩

theorem ThreadKept.refl (threadId : String) (s : World J) : ThreadKept threadId s s :=
  ⟨rfl,rfl,rfl,fun _ _ _ => ⟨rfl,rfl⟩,rfl,fun _ _ => rfl,rfl,rfl,fun _ => SameRun.refl _ _,rfl,fun _ _ => rfl⟩

theorem Keeps.refl (s : World J) : Keeps s s := ⟨Nat.le_refl _,fun _ _ => rfl,id,Nat.le_refl _,fun _ _ member _ => member⟩

section store
variable {s s' s'' : Store J} {threadId : String}

-- A change of the store on behalf of other threads.
structure Spares (threadId : String) (s s' : Store J) : Prop where
  records : threadRecords s' threadId = threadRecords s threadId
  runs : threadRuns s' threadId = threadRuns s threadId
  crons : s'.crons = s.crons
  ttls : s'.ttls = s.ttls
  nextRun : s'.runs.next = s.runs.next
  threads : ∀ ref, (s'.run ref).threadId = (s.run ref).threadId
  bound : s'.boundRuns ⊆ s.boundRuns

theorem Spares.refl (threadId : String) (s : Store J) : Spares threadId s s :=
  ⟨rfl,rfl,rfl,rfl,rfl,fun _ => rfl,List.Subset.refl _⟩

theorem Spares.trans (first : Spares threadId s s') (second : Spares threadId s' s'') : Spares threadId s s'' :=
  ⟨second.records.trans first.records,second.runs.trans first.runs,second.crons.trans first.crons,second.ttls.trans first.ttls,
    second.nextRun.trans first.nextRun,fun ref => (second.threads ref).trans (first.threads ref),
    List.Subset.trans second.bound first.bound⟩

theorem spares_updateThread {ref : Nat} {f : Thread J → Thread J} (apart : (s.thread ref).threadId ≠ threadId)
    (same : ∀ t, (f t).threadId = t.threadId) : Spares threadId s (s.updateThread ref f) := by
  refine ⟨?_,rfl,rfl,rfl,rfl,fun _ => rfl,List.Subset.refl _⟩
  have listed : s.liveThreads.filter ((s.updateThread ref f).isThread threadId) = s.liveThreads.filter (s.isThread threadId) :=
    List.filter_congr fun other _ => by unfold Store.isThread; rw [Store.threadId_updateThread same]
  refine (congrArg (List.map (s.updateThread ref f).thread) listed).trans (List.map_congr_left fun other member => ?_)
  refine Store.thread_updateThread_other fun equal => apart ?_
  rw [← equal]
  simpa [Store.isThread] using (List.mem_filter.mp member).2

theorem spares_updateRun {ref : Nat} {f : Run → Run} (apart : (s.run ref).threadId ≠ threadId)
    (same : ∀ r, (f r).threadId = r.threadId) : Spares threadId s (s.updateRun ref f) := by
  have ids : ∀ other, ((s.updateRun ref f).run other).threadId = (s.run other).threadId :=
    Heap.read_write_field Run.threadId (same _)
  refine ⟨rfl,?_,rfl,rfl,rfl,ids,List.Subset.refl _⟩
  have listed : s.boundRuns.filter (fun other => ((s.updateRun ref f).run other).threadId == threadId) =
      s.boundRuns.filter fun other => (s.run other).threadId == threadId :=
    List.filter_congr fun other _ => by rw [ids]
  refine (congrArg (List.map (s.updateRun ref f).run) listed).trans (List.map_congr_left fun other member => ?_)
  refine Store.run_updateRun_other fun equal => apart ?_
  rw [← equal]
  simpa using (List.mem_filter.mp member).2

theorem spares_removeRun {runId : Option String} {other : String} (apart : other ≠ threadId) :
    Spares threadId s (removeRun s runId other) := by
  refine ⟨rfl,?_,rfl,rfl,rfl,fun _ => rfl,List.filter_subset_self _⟩
  refine congrArg (List.map s.run) ((List.filter_filter ..).trans (List.filter_congr fun ref _ => ?_))
  change ((s.run ref).threadId == threadId && !s.isRun runId other ref) = ((s.run ref).threadId == threadId)
  by_cases own : (s.run ref).threadId = threadId
  · simp [Store.isRun,own,apart.symm]
  · simp [own]

theorem spares_interrupt {now : Int} {ref : Nat} (apart : (s.run ref).threadId ≠ threadId) :
    Spares threadId s (interruptRun s now ref) := by
  have mark : ∀ {m : Store J}, Spares threadId s m →
      Spares threadId s (m.updateRun ref fun run => {run with status := .interrupted, updatedAt := now}) := fun first =>
    first.trans (spares_updateRun (by rw [first.threads]; exact apart) fun _ => rfl)
  unfold interruptRun
  dsimp only
  split
  · split
    · rename_i thread found
      exact mark (spares_updateThread (by rw [(Store.findThread_some found).2]; exact apart) fun _ => rfl)
    · exact mark (.refl _ _)
  · exact mark (.refl _ _)

end store

section world
variable {s s' : World J} {threadId : String}

theorem spares_kept {server : Server J} (spares : Spares threadId s.store server.store) :
    ThreadKept threadId s (s.withServer server) :=
  ⟨spares.records,spares.runs,congrArg (List.filter _) spares.crons,fun _ _ _ => ⟨rfl,rfl⟩,
    congrArg (fun ttls => Dict.get? ttls threadId) spares.ttls,fun _ _ => rfl,rfl,rfl,fun _ => SameRun.refl _ _,rfl,fun _ _ => rfl⟩

theorem spares_keeps {server : Server J} (spares : Spares threadId s.store server.store) : Keeps s (s.withServer server) := by
  refine ⟨le_of_eq spares.nextRun.symm,fun ref _ => spares.threads ref,?_,Nat.le_refl _,fun _ _ member _ => member⟩
  intro stored ref member
  exact lt_of_lt_of_eq (stored ref (spares.bound member)) spares.nextRun.symm

-- Deleting the checkpoints of a run spares a thread that loses none of them.
theorem deleteForRuns_kept (serde : Serde) (runId threadId : String) (s : Saver) (none_ : ¬ Removes serde runId threadId s) :
    (∀ ns id, (deleteForRuns (max 0) serde [runId] s).entryAt threadId ns id = s.entryAt threadId ns id) ∧
      ownWrites (deleteForRuns (max 0) serde [runId] s) threadId = ownWrites s threadId ∧
      ownBlobs (deleteForRuns (max 0) serde [runId] s) threadId = ownBlobs s threadId := by
  have apart : ∀ key ∈ removed serde [runId] s, key.threadId ≠ threadId := by
    rintro key member rfl
    obtain ⟨⟨entry,found,target⟩,loose⟩ := mem_removed.mp member
    exact none_ ⟨_,_,entry,found,target,loose⟩
  have shape : (removed serde [runId] s = [] ∧ deleteForRuns (max 0) serde [runId] s = s) ∨ _ := deleteForRuns_cases
  rcases shape with ⟨_,same⟩ | rebuilt
  · rw [same]
    exact ⟨fun _ _ => rfl,rfl,rfl⟩
  · rw [rebuilt]
    have writes : ownWrites (withoutKeys serde s (removed serde [runId] s)) threadId = ownWrites s threadId := kept_writes apart
    have blobs : ownBlobs (withoutKeys serde s (removed serde [runId] s)) threadId = ownBlobs s threadId := kept_blobs apart
    refine ⟨fun ns id => ?_,writes,blobs⟩
    have here : ¬ (⟨threadId,ns,id⟩ : CheckpointKey) ∈ removed serde [runId] s := fun member => apart _ member rfl
    exact ((withoutKeys_dropped serde s _).entry threadId ns id).trans (if_neg here)

end world

section streams
variable {m m' : StreamManager} {key other : RunKey} {threadId : String}

-- The thread where a queue is registered.
def place : Holder → Option String
  | .subscriber key | .listener key => key.threadId
  | .watcher threadId => some threadId

theorem put_places (now : Int) (message : Message) (resumable : Bool) (holder : Holder) :
    registered (m.put now key message resumable).1 holder = registered m holder := by
  unfold StreamManager.put
  dsimp only
  split
  · rfl
  · split <;> split <;> cases holder <;> rfl

theorem put_next (now : Int) (message : Message) (resumable : Bool) :
    (m.put now key message resumable).1.contents = m.contents := by
  unfold StreamManager.put
  dsimp only
  split
  · rfl
  · split <;> split <;> rfl

theorem put_others (now : Int) (message : Message) (apart : other ≠ key) :
    SameRun m (m.put now key message false).1 other := by
  unfold StreamManager.put
  dsimp only
  split
  · exact SameRun.refl _ _
  · rw [if_neg Bool.false_ne_true]
    split
    · refine ⟨rfl,rfl,?_,rfl,Iff.rfl,Iff.rfl,fun _ _ => rfl⟩
      exact (RunMap.find_set _ _ _ _).trans (if_neg apart.symm)
    · exact ⟨rfl,rfl,rfl,rfl,Iff.rfl,Iff.rfl,fun _ _ => rfl⟩

theorem put_watchers (now : Int) (message : Message) (resumable : Bool) :
    StreamUpkeep.SameThread m (m.put now key message resumable).1 threadId := by
  unfold StreamManager.put
  dsimp only
  split
  · exact ⟨rfl,fun _ _ => rfl⟩
  · split <;> split <;> exact ⟨rfl,fun _ _ => rfl⟩

-- A message goes to the queues of its own run.
theorem put_chosen (now : Int) (message : Message) (resumable : Bool) {queue : Nat} {sent : Message}
    (chosen : (queue,sent) ∈ (m.put now key message resumable).2) :
    ∃ holder, queue ∈ registered m holder ∧ place holder = key.threadId := by
  unfold StreamManager.put at chosen
  dsimp only at chosen
  split at chosen
  · cases chosen
  · split at chosen
    · obtain ⟨queue',member,same⟩ := List.mem_map.mp chosen
      cases same
      refine ⟨.listener key,?_,rfl⟩
      revert member
      split <;> exact id
    · obtain ⟨queue',member,same⟩ := List.mem_map.mp chosen
      cases same
      refine ⟨.subscriber key,?_,rfl⟩
      revert member
      split <;> exact id

theorem deleteRun_places (codec : List UInt8) (clock : Clock) (m : StreamManager) (key : RunKey) :
    m.contents.next ≤ (m.deleteRun codec clock key).contents.next ∧
      ∀ holder, registered (m.deleteRun codec clock key) holder ⊆ registered m holder := by
  obtain ⟨told,pending,same,touched,_⟩ := deleteRun_shape codec clock m key
  rw [same]
  refine ⟨touched.next,fun holder queue member => ?_⟩
  have cleared : queue ∈ registered (told.clearRunState key) holder := by
    cases holder <;> exact member
  rw [← touched.registered holder]
  exact registered_cleared holder cleared

end streams

end InmemRuntime.RecordFrames
