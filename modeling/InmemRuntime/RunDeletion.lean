import InmemRuntime.Sequential
import InmemRuntime.SizeExact

namespace InmemRuntime.RunDeletion
open OrderedDict CheckpointData CheckpointSaver SizeTracking SizeAccounting DeltaWalk Prune DeleteForRuns ThreadCopy
open ThreadTtl RuntimeStore Serving ThreadOps RunOps JointStatus

def ownWrites (s : Saver) (threadId : String) : Dict WriteKey WriteGroup :=
  s.writes.filter fun key _ => key.threadId == threadId

def ownBlobs (s : Saver) (threadId : String) : Dict BlobKey Typed :=
  s.blobs.filter fun key _ => key.threadId == threadId

-- Everything that the saver holds for one thread is what it was.
structure Untouched (threadId : String) (s s' : Saver) : Prop where
  storage : s'.storage.get? threadId = s.storage.get? threadId
  writes : ownWrites s' threadId = ownWrites s threadId
  blobs : ownBlobs s' threadId = ownBlobs s threadId
  size : s'.sizeState.byThread.get? threadId = s.sizeState.byThread.get? threadId

-- Nothing that is stored for the thread is an empty dictionary.
def Filled (s : Saver) (threadId : String) : Prop :=
  ∀ namespaces, s.storage.get? threadId = some namespaces →
    namespaces.dict.isEmpty = false ∧ ∀ row ∈ namespaces.dict.entries, row.2.isEmpty = false

-- The thread's entry of the tracker is what a recount gives.
def Counted (s : Saver) (threadId : String) : Prop :=
  s.sizeState.byThread.get? threadId = (rebuildSizeTracking (max 0) s).sizeState.byThread.get? threadId

-- The run has a checkpoint under its thread that no other one there needs.
def Removes (serde : Serde) (runId threadId : String) (s : Saver) : Prop :=
  ∃ ns id entry, s.entryAt threadId ns id = some entry ∧ targeted serde [runId] entry = true ∧
    ¬ Needed serde [runId] s threadId ns id

-- A checkpoint of another thread that carries the run's id is needed there;
-- and where the run has something to remove, the threads beside it hold no
-- empty dictionaries, which go too, and are counted right already.
structure OwnOnly (serde : Serde) (runId threadId : String) (s : Saver) : Prop where
  spared : ∀ other, other ≠ threadId → ∀ ns id entry, s.entryAt other ns id = some entry →
    targeted serde [runId] entry = true → Needed serde [runId] s other ns id
  settled : Removes serde runId threadId s → ∀ other, other ≠ threadId → Filled s other ∧ Counted s other

section frame
variable {serde : Serde} {s s' : Saver} {gone : List CheckpointKey} {threadId : String}

theorem dropped_storage (gone : List CheckpointKey) (s : Saver) (threadId : String) :
    (dropCheckpoints gone s).get? threadId = ((s.storage.get? threadId).map fun namespaces =>
      ⟨(namespaces.dict.mapValues fun ns checkpoints => checkpoints.filter fun id _ =>
        !gone.contains ⟨threadId,ns,id⟩).filter fun _ checkpoints => !checkpoints.isEmpty,namespaces.auto⟩).filter
          fun namespaces => !namespaces.dict.isEmpty := by
  simp only [dropCheckpoints,Dict.get?_keep,Dict.get?_map]

theorem filled_of_same (same : (dropCheckpoints gone s).get? threadId = s.storage.get? threadId) : Filled s threadId := by
  intro namespaces found
  rw [dropped_storage,found,Option.filter_eq_some_iff,Option.map_some,Option.some.injEq] at same
  obtain ⟨rewritten,nonempty⟩ := same
  refine ⟨by simpa using nonempty,fun row member => ?_⟩
  rw [← rewritten] at member
  simpa using (List.mem_filter.mp member).2

theorem same_of_filled (filled : Filled s threadId) (apart : ∀ key ∈ gone, key.threadId ≠ threadId) :
    (dropCheckpoints gone s).get? threadId = s.storage.get? threadId := by
  rw [dropped_storage]
  cases found : s.storage.get? threadId with
  | none => rfl
  | some namespaces =>
    obtain ⟨nonempty,rows⟩ := filled namespaces found
    have kept : ∀ ns checkpoints, Dict.filter checkpoints (fun id (_ : Entry) => !gone.contains ⟨threadId,ns,id⟩) =
        checkpoints := by
      intro ns checkpoints
      refine Dict.ext (List.filter_eq_self.mpr fun row _ => ?_)
      rw [Bool.not_eq_true',Bool.eq_false_iff,Ne,List.contains_iff_mem]
      exact fun member => apart _ member rfl
    have same : (namespaces.dict.mapValues fun ns checkpoints => checkpoints.filter fun id _ =>
        !gone.contains ⟨threadId,ns,id⟩).filter (fun _ checkpoints => !checkpoints.isEmpty) = namespaces.dict := by
      refine Dict.ext ?_
      simp only [kept,Dict.entries_filter,Dict.entries_mapValues,List.map_id']
      exact List.filter_eq_self.mpr fun row member => by rw [rows row member]; rfl
    rw [Option.map_some,same]
    simp [Option.filter,nonempty]

theorem kept_writes (apart : ∀ key ∈ gone, key.threadId ≠ threadId) :
    ownWrites (withoutKeys serde s gone) threadId = ownWrites s threadId := by
  refine Dict.ext ?_
  simp only [ownWrites,withoutKeys,Dict.entries_filter,List.filter_filter]
  refine List.filter_congr fun row _ => ?_
  by_cases own : row.1.threadId = threadId
  · have stays : normalized row.1 ∉ gone.map normalized := by
      intro member
      obtain ⟨key,listed,equal⟩ := List.mem_map.mp member
      exact apart key listed ((congrArg Prod.fst equal).trans own)
    simp only [own,beq_self_eq_true,List.contains_eq_mem,stays,decide_false,Bool.not_false,Bool.and_self]
  · simp [own]

theorem kept_blobs (apart : ∀ key ∈ gone, key.threadId ≠ threadId) :
    ownBlobs (withoutKeys serde s gone) threadId = ownBlobs s threadId := by
  refine Dict.ext ?_
  simp only [ownBlobs,withoutKeys,Dict.entries_filter,List.filter_filter]
  refine List.filter_congr fun row _ => ?_
  by_cases own : row.1.threadId = threadId
  · have stays : (referencedBy serde s gone).contains row.1 = false := by
      rw [Bool.eq_false_iff,Ne,referencedBy_contains]
      rintro ⟨key,listed,_,_,_,_,thread,_⟩
      exact apart key listed (thread.trans own)
    simp only [own,beq_self_eq_true,stays,Bool.false_and,Bool.not_false,Bool.and_self]
  · simp [own]

theorem owned_sum {κ ν : Type} [BEq κ] (owner : κ → String) (weight : κ → ν → Int × Int) (d : Dict κ ν) :
    d.sum (fun k v => selected (· == threadId) (owner k) (weight k v)) =
      (d.filter fun k _ => owner k == threadId).sum weight := by
  simp only [Dict.sum,Dict.entries_filter]
  induction d.entries with
  | nil => rfl
  | cons row rest ih =>
    rw [List.map_cons,List.sum_cons,ih,List.filter_cons]
    by_cases own : (owner row.1 == threadId) = true
    · simp [selected,own]
    · simp [selected,Bool.eq_false_iff.mpr own]

-- A thread weighs what its own rows weigh.
theorem own_contents (storage : s'.storage.get? threadId = s.storage.get? threadId)
    (writes : ownWrites s' threadId = ownWrites s threadId) (blobs : ownBlobs s' threadId = ownBlobs s threadId) :
    contents s' (· == threadId) = contents s (· == threadId) := by
  have weight : ∀ s : Saver, contents s (· == threadId) =
      s.storage.weightAt (fun _ namespaces => namespacesWeight namespaces.dict) threadId +
        (ownWrites s threadId).sum groupWeight + (ownBlobs s threadId).sum blobWeight := by
    intro s
    unfold contents writesWeight blobsWeight ownWrites ownBlobs
    rw [SizeCopy.source_weight,owned_sum WriteKey.threadId,owned_sum BlobKey.threadId]
  rw [weight,weight,Dict.weightAt,Dict.weightAt,storage,writes,blobs]

theorem recounted (s : Saver) (threadId : String) :
    (rebuildSizeTracking (max 0) s).sizeState.byThread.get? threadId = stored (contents s (· == threadId)) :=
  (rebuild_follows s).1.each threadId

theorem nothing_removed {runIds : List String} (none : removed serde runIds s = []) :
    deleteForRuns (max 0) serde runIds s = s := by
  simp [deleteForRuns,none]

-- Deleting a run leaves every other thread alone in exactly these states.
theorem deleteForRuns_frame (serde : Serde) (runId threadId : String) (s : Saver) :
    (∀ other, other ≠ threadId → Untouched other s (deleteForRuns (max 0) serde [runId] s)) ↔
      OwnOnly serde runId threadId s := by
  by_cases none : removed serde [runId] s = []
  · have free : ∀ key, key ∉ removed serde [runId] s := by simp [none]
    rw [nothing_removed none]
    refine ⟨fun _ => ⟨fun other _ ns id entry found target => ?_,?_⟩,fun _ _ _ => ⟨rfl,rfl,rfl,rfl⟩⟩
    · by_contra loose
      exact free ⟨other,ns,id⟩ (mem_removed.mpr ⟨⟨entry,found,target⟩,loose⟩)
    · rintro ⟨ns,id,entry,found,target,loose⟩
      have member : (⟨threadId,ns,id⟩ : CheckpointKey) ∈ removed serde [runId] s := mem_removed.mpr ⟨⟨entry,found,target⟩,loose⟩
      exact absurd member (free _)
  · have rebuilt : deleteForRuns (max 0) serde [runId] s = _ := deleteForRuns_cases.resolve_left fun same => none same.1
    rw [rebuilt]
    constructor
    · intro untouched
      refine ⟨fun other apart ns id entry found target => ?_,fun _ other apart => ?_⟩
      · by_contra loose
        have member : (⟨other,ns,id⟩ : CheckpointKey) ∈ removed serde [runId] s :=
          mem_removed.mpr ⟨⟨entry,found,target⟩,loose⟩
        have lost := (withoutKeys_dropped serde s (removed serde [runId] s)).entry other ns id
        have kept : (withoutKeys serde s (removed serde [runId] s)).storage.get? other = s.storage.get? other :=
          (untouched other apart).storage
        rw [if_pos member,Saver.entryAt,Saver.checkpointsAt,kept] at lost
        cases found.symm.trans lost
      · obtain ⟨storage,writes,blobs,size⟩ := untouched other apart
        have same : contents (withoutKeys serde s (removed serde [runId] s)) (· == other) = contents s (· == other) :=
          own_contents storage writes blobs
        refine ⟨filled_of_same storage,?_⟩
        unfold Counted
        rw [← size,recounted,recounted,same]
    · rintro ⟨spared,settled⟩ other apart
      have own : ∀ key ∈ removed serde [runId] s, key.threadId = threadId := by
        intro key member
        obtain ⟨⟨entry,found,target⟩,loose⟩ := mem_removed.mp member
        by_contra foreign
        exact loose (spared key.threadId foreign key.checkpointNs key.checkpointId entry found target)
      have away : ∀ key ∈ removed serde [runId] s, key.threadId ≠ other := fun key member equal =>
        apart (equal.symm.trans (own key member))
      obtain ⟨key,member⟩ := List.exists_mem_of_ne_nil _ none
      obtain ⟨⟨entry,found,target⟩,loose⟩ := mem_removed.mp member
      rw [own key member] at found loose
      obtain ⟨filled,counted⟩ := settled ⟨_,_,_,found,target,loose⟩ other apart
      have storage := same_of_filled filled away
      have writes : ownWrites (withoutKeys serde s (removed serde [runId] s)) other = ownWrites s other := kept_writes away
      have blobs : ownBlobs (withoutKeys serde s (removed serde [runId] s)) other = ownBlobs s other := kept_blobs away
      have same : contents (withoutKeys serde s (removed serde [runId] s)) (· == other) = contents s (· == other) :=
        own_contents storage writes blobs
      refine ⟨storage,writes,blobs,?_⟩
      rw [counted,recounted,recounted,same]

end frame

-- The store and the saver of one process.
structure Runtime (J : Type) where
  store : Store J
  saver : Saver

-- A call of `Runs.delete` that went through, with what it met and what it left.
structure Deletion (J : Type) where
  runId : String
  threadId : String
  before : Runtime J
  after : Runtime J

-- Calls that run from their start to their end. The saver's own operations
-- come from the graphs; the two ids of a copy are the source and the new one.
inductive Operation (J K : Type) where
  | saver (operation : SizeExact.Operation K)
  | putRun (call : PutRunCall J) (filters : Filters J) (wake : Wake J)
  | copyThread (sub : IdSubstitution) (threadId newThreadId : String) (filters : Filters J) (now : Int)
  | deleteThread (threadId : String) (filters : Filters J)
  | deleteRun (runId threadId : String) (filters : Filters J)
  | cancel (call : CancelCall) (answers : Sequential.CancelAnswers J)
  | joint (call : JointCall J) (now : Int) (filters : Filters J)

variable {J K : Type}

-- An operation of the saver that raises leaves what it had done: a `put` on a
-- namespace that a plain dictionary lacks has stored its blobs by then.
def callSaver (base : Base K) (s : Saver) (operation : SizeExact.Operation K) : Saver :=
  match SizeExact.execute (max 0) base s operation with
  | some s => s
  | none =>
    match operation with
    | .put config checkpoint _ newVersions =>
      {s with blobs := storeBlobs config.threadId config.checkpointNs (blobFor base checkpoint) s.blobs newVersions.entries}
    | _ => s

-- `_delete_checkpoints_for_thread` with the built-in saver: with a run id, the
-- thread id is not looked at.
def deleteCheckpoints (serde : Serde) (s : Saver) (threadId : String) (runId : Option String) : Saver :=
  match runId with
  | none => deleteThread s threadId
  | some runId => deleteForRuns (max 0) serde [runId] s

def copiedTtl (ttl : TtlState) : Option TtlState :=
  ttl.ttlMinutes.map fun minutes => ⟨some (ttl.strategy.getD "delete"),some minutes,none⟩

def copiedThread (newThreadId : String) (now : Int) (thread : Thread J) : Thread J :=
  ⟨newThreadId,.idle,thread.metadata,now,now,some now,none,none,none⟩

-- `Threads.copy`. The record and its TTL are there before the saver is asked.
def copyThread (s : Runtime J) (sub : IdSubstitution) (threadId newThreadId : String) (filters : Filters J) (now : Int) :
    Runtime J :=
  match s.store.findThread threadId with
  | none => s
  | some ref =>
    if !passes filters (s.store.thread ref).metadata then s
    else
      let store := s.store.appendThread (copiedThread newThreadId now (s.store.thread ref))
      let ttls := match (store.ttls.get? threadId).bind copiedTtl with
        | some ttl => store.ttls.insert newThreadId ttl
        | none => store.ttls
      ⟨{store with ttls},(ThreadCopy.copyThread sub s.saver threadId newThreadId).getD s.saver⟩

section performing
variable (text : String → J) (base : Base K)

-- `Threads.delete`.
def deleteThreadWhole (s : Runtime J) (threadId : String) (filters : Filters J) : Runtime J :=
  match s.store.findThread threadId with
  | none => s
  | some ref =>
    if !passes filters (s.store.thread ref).metadata then s
    else ⟨removeThread s.store threadId ref,deleteCheckpoints base.toSerde s.saver threadId none⟩

-- `Runs.delete` behind its checks.
def deleteRun (s : Runtime J) (runId threadId : String) : Runtime J :=
  ⟨removeRun s.store (some runId) threadId,deleteCheckpoints base.toSerde s.saver threadId (some runId)⟩

-- `Runs.delete`; `allowed` says whether the filters let it through.
def tryDelete (allowed : Bool) (s : Runtime J) (runId : Option String) (threadId : String) :
    Runtime J × List (Deletion J) :=
  match runId with
  | none => (s,[])
  | some runId =>
    if allowed && (s.store.findRun (some runId) threadId).isSome then
      (deleteRun base s runId threadId,[⟨runId,threadId,s,deleteRun base s runId threadId⟩])
    else (s,[])

-- The deletions that a cancellation gathered.
def deleteAll (allowed : Option String → String → Bool) (s : Runtime J) :
    List (Option String × String) → Runtime J × List (Deletion J)
  | [] => (s,[])
  | (runId,threadId) :: rest =>
    let first := tryDelete base (allowed runId threadId) s runId threadId
    let later := deleteAll allowed first.1 rest
    (later.1,first.2 ++ later.2)

def cancel (s : Runtime J) (call : CancelCall) (answers : Sequential.CancelAnswers J) : Runtime J × List (Deletion J) :=
  match validateCancel call with
  | some _ => (s,[])
  | none =>
    let looped := Sequential.cancelRuns call answers s.store (candidateRuns s.store call answers.filters)
    deleteAll base answers.deleted {s with store := looped.1} looped.2

-- `Threads.set_joint_status`, which deletes the run when it ends by rollback.
def setJointStatus (s : Runtime J) (call : JointCall J) (now : Int) (filters : Filters J) :
    Runtime J × List (Deletion J) :=
  let found := (s.store.findThread call.threadId).isSome && visible s.store call.threadId filters
  let deleted := tryDelete base (call.runEnd == .rollback && found) s (some call.runId) call.threadId
  ({deleted.1 with store := Sequential.setJointStatus text s.store call now !deleted.2.isEmpty},deleted.2)

def perform : Operation J K → Runtime J → Runtime J × List (Deletion J)
  | .saver operation,s => ({s with saver := callSaver base s.saver operation},[])
  | .putRun call filters wake,s => ({s with store := Sequential.putRunWhole text s.store call filters wake},[])
  | .copyThread sub threadId newThreadId filters now,s => (copyThread s sub threadId newThreadId filters now,[])
  | .deleteThread threadId filters,s => (deleteThreadWhole base s threadId filters,[])
  | .deleteRun runId threadId filters,s => tryDelete base (visible s.store threadId filters) s (some runId) threadId
  | .cancel call answers,s => cancel base s call answers
  | .joint call now filters,s => setJointStatus text base s call now filters

-- The operations of a history with the state that each of them met, and the
-- deletions that went through in it.
inductive History (start : Runtime J) : List (Runtime J × Operation J K) → List (Deletion J) → Runtime J → Prop where
  | nil : History start [] [] start
  | step (prior : History start taken done s) (op : Operation J K) :
      History start (taken ++ [(s,op)]) (done ++ (perform text base op s).2) (perform text base op s).1

end performing

section histories
variable {text : String → J} {base : Base K} {start s : Runtime J}

structure Completed (base : Base K) (deletion : Deletion J) : Prop where
  found : (deletion.before.store.findRun (some deletion.runId) deletion.threadId).isSome
  after : deletion.after = deleteRun base deletion.before deletion.runId deletion.threadId

theorem tryDelete_completed (allowed : Bool) (s : Runtime J) (runId : Option String) (threadId : String) :
    ∀ deletion ∈ (tryDelete base allowed s runId threadId).2, Completed base deletion := by
  intro deletion member
  unfold tryDelete at member
  split at member
  · cases member
  · split at member
    · rename_i granted
      cases List.mem_singleton.mp member
      exact ⟨(Bool.and_eq_true_iff.mp granted).2,rfl⟩
    · cases member

theorem deleteAll_completed (allowed : Option String → String → Bool) (s : Runtime J) (keys : List (Option String × String)) :
    ∀ deletion ∈ (deleteAll base allowed s keys).2, Completed base deletion := by
  induction keys generalizing s with
  | nil => simp [deleteAll]
  | cons key rest ih =>
    intro deletion member
    rcases List.mem_append.mp member with first | later
    · exact tryDelete_completed _ _ _ _ deletion first
    · exact ih _ deletion later

theorem perform_completed (op : Operation J K) (s : Runtime J) :
    ∀ deletion ∈ (perform text base op s).2, Completed base deletion := by
  cases op with
  | saver operation => simp [perform]
  | putRun call filters wake => simp [perform]
  | copyThread sub threadId newThreadId filters now => simp [perform]
  | deleteThread threadId filters => simp [perform]
  | deleteRun runId threadId filters => exact tryDelete_completed _ _ _ _
  | cancel call answers =>
    simp only [perform,cancel]
    split
    · simp
    · exact deleteAll_completed _ _ _
  | joint call now filters => exact tryDelete_completed _ _ _ _

theorem history_completed {taken : List (Runtime J × Operation J K)} {done : List (Deletion J)}
    (history : History text base start taken done s) : ∀ deletion ∈ done, Completed base deletion := by
  induction history with
  | nil => simp
  | step _ op ih =>
    intro deletion member
    rcases List.mem_append.mp member with before | now
    · exact ih deletion before
    · exact perform_completed op _ deletion now

-- In every history, each deletion of a run leaves the other threads alone
-- exactly when the state it met was of that kind.
theorem deletions_frame (text : String → J) (base : Base K) (start s : Runtime J)
    (taken : List (Runtime J × Operation J K)) (done : List (Deletion J)) (history : History text base start taken done s) :
    ∀ deletion ∈ done, (deletion.before.store.findRun (some deletion.runId) deletion.threadId).isSome = true ∧
      ((∀ other, other ≠ deletion.threadId → Untouched other deletion.before.saver deletion.after.saver) ↔
        OwnOnly base.toSerde deletion.runId deletion.threadId deletion.before.saver) := by
  intro deletion member
  obtain ⟨found,after⟩ := history_completed history deletion member
  rw [after]
  exact ⟨found,deleteForRuns_frame base.toSerde deletion.runId deletion.threadId deletion.before.saver⟩

-- An operation that raises nothing; a copy goes to an id that is new.
def Clean (base : Base K) (s : Runtime J) : Operation J K → Prop
  | .saver operation => SizeExact.Allowed s.saver operation ∧
      ∃ next, SizeExact.execute (max 0) base s.saver operation = some next
  | .copyThread sub threadId newThreadId _ _ => FreshTarget sub s.saver threadId newThreadId
  | _ => True

def Followed (s : Runtime J) : Prop := SizeExact.Follows s.saver

-- Both ends of a call keep the tracker right, and so does what it met.
def Tracked (result : Runtime J × List (Deletion J)) : Prop :=
  Followed result.1 ∧ ∀ deletion ∈ result.2, Followed deletion.before

theorem tracked_nothing {s : Runtime J} (followed : Followed s) : Tracked (s,[]) := ⟨followed,by simp⟩

theorem tryDelete_tracked {s : Runtime J} (followed : Followed s) (allowed : Bool) (runId : Option String)
    (threadId : String) : Tracked (tryDelete base allowed s runId threadId) := by
  unfold tryDelete
  split
  · exact tracked_nothing followed
  · split
    · exact ⟨(SizeExact.deleteForRuns_step followed base.toSerde _).1,by simpa using followed⟩
    · exact tracked_nothing followed

theorem deleteAll_tracked {s : Runtime J} (followed : Followed s) (allowed : Option String → String → Bool)
    (keys : List (Option String × String)) : Tracked (deleteAll base allowed s keys) := by
  induction keys generalizing s with
  | nil => exact tracked_nothing followed
  | cons key rest ih =>
    have first : Tracked (tryDelete base (allowed key.1 key.2) s key.1 key.2) := tryDelete_tracked followed (allowed key.1 key.2) key.1 key.2
    have later := ih first.1
    refine ⟨later.1,fun deletion member => ?_⟩
    exact (List.mem_append.mp member).elim (first.2 deletion) (later.2 deletion)

theorem perform_tracked {s : Runtime J} (followed : Followed s) (op : Operation J K) (clean : Clean base s op) :
    Tracked (perform text base op s) := by
  cases op with
  | saver operation =>
    obtain ⟨allowed,next,executed⟩ := clean
    refine tracked_nothing ?_
    simp only [Followed,callSaver,executed]
    exact (SizeExact.execute_step followed allowed executed).1
  | putRun call filters wake => exact tracked_nothing followed
  | copyThread sub threadId newThreadId filters now =>
    refine tracked_nothing ?_
    unfold copyThread
    split
    · exact followed
    · split
      · exact followed
      · cases copied : ThreadCopy.copyThread sub s.saver threadId newThreadId with
        | none => exact followed
        | some saver => exact SizeExact.copy_step followed clean copied
  | deleteThread threadId filters =>
    refine tracked_nothing ?_
    unfold deleteThreadWhole
    split
    · exact followed
    · split
      · exact followed
      · exact SizeExact.deleteThread_step followed threadId
  | deleteRun runId threadId filters => exact tryDelete_tracked followed _ _ _
  | cancel call answers =>
    simp only [perform,cancel]
    split
    · exact tracked_nothing followed
    · refine deleteAll_tracked ?_ _ _
      exact followed
  | joint call now filters => exact tryDelete_tracked followed _ _ _

theorem history_followed {taken : List (Runtime J × Operation J K)} {done : List (Deletion J)}
    (history : History text base start taken done s) (followed : Followed start)
    (clean : ∀ step ∈ taken, Clean base step.1 step.2) : Tracked (s,done) := by
  induction history with
  | nil => exact tracked_nothing followed
  | step _ op ih =>
    obtain ⟨now,before⟩ := ih fun step member => clean step (List.mem_append_left _ member)
    obtain ⟨next,deleted⟩ : Tracked (perform text base op _) := perform_tracked now op (clean _ (List.mem_append_right _ (List.mem_singleton.mpr rfl)))
    exact ⟨next,fun deletion member => (List.mem_append.mp member).elim (before deletion) (deleted deletion)⟩

-- While no operation raises, every thread is counted right at every deletion.
theorem history_counted {taken : List (Runtime J × Operation J K)} {done : List (Deletion J)}
    (history : History text base start taken done s) (followed : Followed start)
    (clean : ∀ step ∈ taken, Clean base step.1 step.2) :
    ∀ deletion ∈ done, ∀ threadId, Counted deletion.before.saver threadId := fun deletion member threadId =>
  (SizeExact.follows_exact ((history_followed history followed clean).2 deletion member)).threads threadId

theorem removeRun_missing {s : Store J} {runId : Option String} {threadId : String}
    (missing : s.findRun runId threadId = none) : removeRun s runId threadId = s := by
  have all : s.boundRuns.filter (fun ref => !s.isRun runId threadId ref) = s.boundRuns :=
    List.filter_eq_self.mpr fun ref member => by simpa using List.find?_eq_none.mp missing ref member
  unfold removeRun
  rw [all]

theorem deleteAll_store (allowed : Option String → String → Bool) (s : Runtime J) (keys : List (Option String × String)) :
    (deleteAll base allowed s keys).1.store =
      Sequential.removeRuns (fun runId threadId => runId.isSome && allowed runId threadId) s.store keys := by
  induction keys generalizing s with
  | nil => rfl
  | cons key rest ih =>
    obtain ⟨runId,threadId⟩ := key
    refine (ih _).trans (congrArg (fun store => Sequential.removeRuns _ store rest) ?_)
    cases runId with
    | none => rfl
    | some runId =>
      unfold tryDelete
      cases found : s.store.findRun (some runId) threadId with
      | some ref => by_cases goes : allowed (some runId) threadId = true <;> simp [goes,found,deleteRun]
      | none => simp [found,removeRun_missing found]

-- What the store sees of a cancellation is the cancellation without a saver.
theorem cancel_store (s : Runtime J) (call : CancelCall) (answers : Sequential.CancelAnswers J) :
    (cancel base s call answers).1.store = Sequential.cancel s.store call answers := by
  unfold cancel Sequential.cancel
  cases validateCancel call with
  | some fault => rfl
  | none => exact deleteAll_store _ _ _

end histories

-- Metadata is the byte 9 where it names the run `r`.
def toyBase : Base (List UInt8) :=
  {SizeExact.toyBase with loadsMetadata := fun metadata => ⟨if metadata.data = [9] then some "r" else none,none⟩}

def toyStart : Runtime Unit :=
  ⟨{Store.empty with assistants := [⟨"assistant","graph",true,.empty⟩]},clear⟩

def startRun : Operation Unit (List UInt8) :=
  .putRun ⟨"assistant",some "a",some "r",.pending,.empty,.empty,false,.create,0⟩ none (.quiet 1)

def writeCheckpoint : Operation Unit (List UInt8) :=
  .saver (.put ⟨"a","",none,.empty,.empty⟩ ⟨.text "1",.empty,[1]⟩ (Dict.empty.insert "run_id" [9]) .empty)

theorem toy_begins : History (fun _ => ()) toyBase toyStart [] [] toyStart := .nil

-- Without a copy the deletion goes through, and only its own thread changes.
theorem deletions_frame_toy : ∃ taken done s, History (fun _ => ()) toyBase toyStart taken done s ∧ done.length = 1 ∧
    ∀ deletion ∈ done, (deletion.before.store.findRun (some deletion.runId) deletion.threadId).isSome = true ∧
      ((∀ other, other ≠ deletion.threadId → Untouched other deletion.before.saver deletion.after.saver) ↔
        OwnOnly toyBase.toSerde deletion.runId deletion.threadId deletion.before.saver) :=
  have history := ((toy_begins.step startRun).step writeCheckpoint).step (.deleteRun "r" "a" none)
  ⟨_,_,_,history,rfl,deletions_frame (fun _ => ()) toyBase toyStart _ _ _ history⟩

-- The copy carries the metadata of the run, and loses its checkpoint with it.
theorem copy_loses_checkpoint : ∃ taken done s, History (fun _ => ()) toyBase toyStart taken done s ∧
    ∃ deletion ∈ done, deletion.runId = "r" ∧ deletion.threadId = "a" ∧
      (deletion.before.saver.checkpointsAt "b" "").size = 1 ∧ (deletion.after.saver.checkpointsAt "b" "").size = 0 ∧
      ¬ Untouched "b" deletion.before.saver deletion.after.saver := by
  have history := (((toy_begins.step startRun).step writeCheckpoint).step
    (.copyThread SizeExact.toySubstitution "a" "b" none 2)).step (.deleteRun "r" "a" none)
  refine ⟨_,_,_,history,_,List.mem_append_right _ (List.mem_singleton.mpr rfl),rfl,rfl,rfl,rfl,fun untouched => ?_⟩
  cases (congrArg Option.isSome untouched.storage : false = true)

end InmemRuntime.RunDeletion
