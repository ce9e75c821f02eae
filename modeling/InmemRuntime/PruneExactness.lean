import InmemRuntime.PruneHistory
import InmemRuntime.RunDeletion

namespace InmemRuntime.PruneExactness
open OrderedDict AncestorChain CheckpointData CheckpointSaver SizeTracking DeltaWalk Prune DeleteForRuns PruneHistory
open RunDeletion (ownWrites ownBlobs Untouched)

-- The newest checkpoint of a namespace, and the shortest part of its line that
-- settles all of its unmaterialised delta channels.
def Retained (serde : Serde) (s : Saver) (threadId ns : String) (id : CheckpointId) : Prop :=
  let scope := scopeAt serde s threadId ns
  ∃ latest entry, newest (s.checkpointsAt threadId ns).keys = some latest ∧ s.entryAt threadId ns latest = some entry ∧
    (id = latest ∨ ∃ part, ShortestCover scope.settled (scope.neededChannels entry) (scope.line entry) part ∧ id ∈ part)

def HasNamespace (s : Saver) (threadId : String) : Prop :=
  ∃ namespaces, s.storage.get? threadId = some namespaces ∧ namespaces.dict.isEmpty = false

-- What a thread has left of each of its three stores. A pending write stays
-- with the text of a checkpoint id.
structure Pruned (serde : Serde) (threadId : String) (s s' : Saver) : Prop where
  checkpoints : ∀ ns id entry, s'.entryAt threadId ns id = some entry ↔
    s.entryAt threadId ns id = some entry ∧ Retained serde s threadId ns id
  writes : HasNamespace s threadId → ∀ ns id group, s'.writes.get? ⟨threadId,ns,id⟩ = some group ↔
    s.writes.get? ⟨threadId,ns,id⟩ = some group ∧ ∃ kept, Retained serde s threadId ns kept ∧ kept.str = id.str
  blobs : HasNamespace s threadId → ∀ key, key.threadId = threadId → ∀ value, s'.blobs.get? key = some value ↔
    s.blobs.get? key = some value ∧ ∃ kept, Retained serde s threadId key.checkpointNs kept ∧
      Refers serde s ⟨threadId,key.checkpointNs,kept⟩ key

-- Nothing is left in a thread that another pruning would remove.
structure Settled (serde : Serde) (threadId : String) (s : Saver) : Prop where
  rows : ∀ namespaces, s.storage.get? threadId = some namespaces → ∀ row ∈ namespaces.dict.entries,
    row.2.isEmpty = false ∧ ∀ id ∈ row.2.keys, Retained serde s threadId row.1 id
  writes : HasNamespace s threadId → ∀ key ∈ (ownWrites s threadId).keys,
    ∃ kept, Retained serde s threadId key.checkpointNs kept ∧ kept.str = key.checkpointId.str
  blobs : HasNamespace s threadId → ∀ key ∈ (ownBlobs s threadId).keys,
    ∃ kept, Retained serde s threadId key.checkpointNs kept ∧ Refers serde s ⟨threadId,key.checkpointNs,kept⟩ key
  size : HasNamespace s threadId → ∃ pair, 0 ≤ pair ∧ s.sizeState.byThread.get? threadId = stored pair

section retained
variable {serde : Serde} {s s' : Saver} {threadId ns : String}

theorem retained_iff {id : CheckpointId} :
    Retained serde s threadId ns id ↔ id ∈ keepIds (scopeAt serde s threadId ns) := by
  have whole := fun entry => cover_shortest (scopeAt serde s threadId ns).settled
    ((scopeAt serde s threadId ns).neededChannels entry) ((scopeAt serde s threadId ns).line entry)
  constructor
  · rintro ⟨latest,entry,newest_,found,here⟩
    rw [latest_kept newest_ found]
    rcases here with rfl | ⟨part,shortest,member⟩
    · exact List.mem_cons_self
    · rw [shortest_unique shortest (whole entry)] at member
      exact List.mem_cons_of_mem _ member
  · intro keep
    cases newest_ : newest (s.checkpointsAt threadId ns).keys with
    | none =>
      have none_ : newest (scopeAt serde s threadId ns).checkpoints.keys = none := newest_
      simp [keepIds,none_] at keep
    | some latest =>
      obtain ⟨row,member,rfl⟩ := List.mem_map.mp (newest_mem newest_)
      have found : s.entryAt threadId ns row.1 = some row.2 := Dict.mem_iff.mp member
      rw [latest_kept newest_ found] at keep
      refine ⟨row.1,row.2,newest_,found,?_⟩
      rcases List.mem_cons.mp keep with here | chain
      · exact .inl here
      · exact .inr ⟨_,whole row.2,chain⟩

theorem row_checkpoints {namespaces : Namespaces} (bucket : s.storage.get? threadId = some namespaces)
    {row : String × Checkpoints} (member : row ∈ namespaces.dict.entries) : s.checkpointsAt threadId row.1 = row.2 := by
  simp [Saver.checkpointsAt,bucket,Dict.mem_iff.mp member]

-- The two key sets, read back from the loop over the namespaces.
theorem mem_writeKeys {namespaces : Namespaces} (bucket : s.storage.get? threadId = some namespaces) {id : CheckpointId} :
    normalized ⟨threadId,ns,id⟩ ∈ (sweepOf serde s threadId namespaces.dict).writeKeys ↔
      ∃ kept, Retained serde s threadId ns kept ∧ kept.str = id.str := by
  rw [sweepOf,(sweep_keys _ _).1,List.nil_append,List.mem_flatMap]
  constructor
  · rintro ⟨row,member,listed⟩
    obtain ⟨kept,keep,same⟩ := List.mem_map.mp listed
    simp only [normalized,scopeOf,Scope.key,Prod.mk.injEq,true_and] at same
    obtain ⟨rfl,text⟩ := same
    refine ⟨kept,retained_iff.mpr ?_,text⟩
    rw [scopeAt,row_checkpoints bucket member]
    exact keep
  · rintro ⟨kept,retained,text⟩
    obtain ⟨namespaces',bucket',_,member⟩ := keep_row (retained_iff.mp retained)
    rw [bucket] at bucket'
    cases bucket'
    refine ⟨_,member,List.mem_map.mpr ⟨kept,retained_iff.mp retained,?_⟩⟩
    simp [normalized,scopeOf,Scope.key,text]

theorem referred_versionKeys {id : CheckpointId} {key : BlobKey} (mine : key.threadId = threadId) (here : key.checkpointNs = ns) :
    Refers serde s ⟨threadId,ns,id⟩ key ↔ ∃ stored ∈ versionKeys (scopeAt serde s threadId ns) id, (key == stored) = true := by
  subst mine here
  unfold versionKeys Refers
  change (∃ entry version, (scopeAt serde s key.threadId key.checkpointNs).checkpoints.get? id = some entry ∧ _) ↔ _
  cases (scopeAt serde s key.threadId key.checkpointNs).checkpoints.get? id with
  | none => simp
  | some entry =>
    simp only [Option.some.injEq,exists_and_left,exists_eq_left',true_and,List.mem_map,exists_exists_and_eq_and,blobKey_beq]
    constructor
    · rintro ⟨version,found,equal⟩
      exact ⟨(key.channel,version),Dict.mem_iff.mpr found,rfl,rfl,rfl,equal⟩
    · rintro ⟨row,member,_,_,channel,equal⟩
      exact ⟨row.2,by rw [channel]; exact Dict.mem_iff.mp member,equal⟩

theorem mem_blobKeys {namespaces : Namespaces} (bucket : s.storage.get? threadId = some namespaces) {key : BlobKey}
    (mine : key.threadId = threadId) : (sweepOf serde s threadId namespaces.dict).blobKeys.contains key = true ↔
      ∃ kept, Retained serde s threadId key.checkpointNs kept ∧ Refers serde s ⟨threadId,key.checkpointNs,kept⟩ key := by
  rw [sweepOf,(sweep_keys _ _).2,List.nil_append,List.contains_iff_exists_mem_beq]
  constructor
  · rintro ⟨stored,listed,equal⟩
    obtain ⟨row,member,inner⟩ := List.mem_flatMap.mp listed
    obtain ⟨kept,keep,version⟩ := List.mem_flatMap.mp inner
    have scope : scopeOf serde s threadId row.1 row.2 = scopeAt serde s threadId row.1 := by
      rw [scopeAt,row_checkpoints bucket member]
    rw [scope] at keep version
    have named : stored.checkpointNs = row.1 := by
      unfold versionKeys at version
      split at version
      · cases version
      · obtain ⟨_,_,rfl⟩ := List.mem_map.mp version
        rfl
    have same : key.checkpointNs = row.1 := (blobKey_beq.mp equal).2.1.trans named
    rw [same]
    exact ⟨kept,retained_iff.mpr keep,(referred_versionKeys mine same).mpr ⟨stored,version,equal⟩⟩
  · rintro ⟨kept,retained,refers⟩
    obtain ⟨namespaces',bucket',_,member⟩ := keep_row (retained_iff.mp retained)
    rw [bucket] at bucket'
    cases bucket'
    obtain ⟨stored,version,equal⟩ := (referred_versionKeys mine rfl).mp refers
    exact ⟨stored,List.mem_flatMap.mpr ⟨_,member,List.mem_flatMap.mpr ⟨kept,retained_iff.mp retained,version⟩⟩,equal⟩

end retained

section one_thread
variable {clamp : Int → Int} {serde : Serde} {s s' : Saver} {threadId other ns : String}

theorem prune_applied {namespaces : Namespaces} (bucket : s.storage.get? threadId = some namespaces)
    (nonempty : namespaces.dict.isEmpty = false) : pruneThread clamp serde s threadId =
      applySweep clamp s threadId namespaces.auto (sweepOf serde s threadId namespaces.dict) := by
  simp [pruneThread,bucket,nonempty]

theorem prune_skipped (none_ : ¬ HasNamespace s threadId) : pruneThread clamp serde s threadId = s := by
  unfold pruneThread
  cases bucket : s.storage.get? threadId with
  | none => rfl
  | some namespaces =>
    cases empty : namespaces.dict.isEmpty with
    | true => simp [empty]
    | false => exact absurd ⟨namespaces,bucket,empty⟩ none_

theorem pruneThread_pruned : Pruned serde threadId s (pruneThread clamp serde s threadId) := by
  refine ⟨fun ns id entry => ?_,fun ⟨namespaces,bucket,nonempty⟩ ns id group => ?_,
    fun ⟨namespaces,bucket,nonempty⟩ key mine value => ?_⟩
  · rw [Saver.entryAt,pruned_checkpoints,kept,Dict.get?_keep,Option.filter_eq_some_iff,retained_iff,List.contains_iff_mem]
    rfl
  · rw [prune_applied bucket nonempty,← mem_writeKeys bucket]
    simp only [applySweep,Dict.get?_keep,Option.filter_eq_some_iff,losesGroup,BEq.rfl,Bool.true_and,Bool.not_not,
      List.contains_iff_mem]
  · rw [prune_applied bucket nonempty,← mem_blobKeys bucket mine]
    have step : (applySweep clamp s threadId namespaces.auto (sweepOf serde s threadId namespaces.dict)).blobs.get? key =
        (s.blobs.get? key).filter fun _ => !losesBlob threadId (sweepOf serde s threadId namespaces.dict) key := by
      refine Dict.get?_filter fun stored _ same => ?_
      simp only [losesBlob,(blobKey_beq.mp same).1]
      rw [Dict.contains_congr same]
    rw [step,Option.filter_eq_some_iff]
    simp [losesBlob,mine]

theorem pruneThread_untouched (apart : other ≠ threadId) : Untouched other s (pruneThread clamp serde s threadId) := by
  by_cases named : HasNamespace s threadId
  · obtain ⟨namespaces,bucket,nonempty⟩ := named
    rw [prune_applied bucket nonempty]
    have mine : (threadId == other) = false := by simpa using Ne.symm apart
    refine ⟨Dict.get?_insert_other mine,?_,?_,?_⟩
    · refine Dict.ext ?_
      simp only [ownWrites,applySweep,Dict.entries_filter,List.filter_filter]
      refine List.filter_congr fun row _ => ?_
      by_cases same : row.1.threadId = other
      · simp [same,losesGroup,apart]
      · simp [same]
    · refine Dict.ext ?_
      simp only [ownBlobs,applySweep,Dict.entries_filter,List.filter_filter]
      refine List.filter_congr fun row _ => ?_
      by_cases same : row.1.threadId = other
      · simp [same,losesBlob,apart]
      · simp [same]
    · simp only [applySweep,SizeState.adjust,SizeState.assign]
      split
      · exact Dict.get?_insert_other mine
      · simp [Dict.get?_erase,mine]
  · rw [prune_skipped named]
    exact ⟨rfl,rfl,rfl,rfl⟩

theorem own_write {key : WriteKey} (mine : key.threadId = threadId) : (ownWrites s threadId).get? key = s.writes.get? key := by
  rw [ownWrites,Dict.get?_keep]
  cases s.writes.get? key <;> simp [Option.filter,mine]

theorem own_blob {key : BlobKey} (mine : key.threadId = threadId) : (ownBlobs s threadId).get? key = s.blobs.get? key := by
  rw [ownBlobs,Dict.get?_filter fun stored _ same => by rw [(blobKey_beq.mp same).1]]
  cases s.blobs.get? key <;> simp [Option.filter,mine]

section untouched
variable (same : Untouched threadId s s')
include same

theorem untouched_checkpoints : s'.checkpointsAt threadId ns = s.checkpointsAt threadId ns := by
  rw [Saver.checkpointsAt,Saver.checkpointsAt,same.storage]

theorem untouched_writes {key : WriteKey} (mine : key.threadId = threadId) : s'.writes.get? key = s.writes.get? key := by
  rw [← own_write mine,← own_write mine,same.writes]

theorem untouched_blobs {key : BlobKey} (mine : key.threadId = threadId) : s'.blobs.get? key = s.blobs.get? key := by
  rw [← own_blob mine,← own_blob mine,same.blobs]

theorem untouched_namespace : HasNamespace s' threadId ↔ HasNamespace s threadId := by
  unfold HasNamespace
  rw [same.storage]

theorem untouched_refers {id : CheckpointId} {key : BlobKey} :
    Refers serde s' ⟨threadId,ns,id⟩ key ↔ Refers serde s ⟨threadId,ns,id⟩ key := by
  simp only [Refers,Saver.entryAt,untouched_checkpoints same]

end untouched

-- The keep set is a matter of the namespace and of the thread's own blobs.
theorem keepIds_same (checkpoints : s'.checkpointsAt threadId ns = s.checkpointsAt threadId ns)
    (blobs : ∀ key : BlobKey, key.threadId = threadId → s'.blobs.get? key = s.blobs.get? key) :
    keepIds (scopeAt serde s' threadId ns) = keepIds (scopeAt serde s threadId ns) := by
  cases newest_ : newest (s.checkpointsAt threadId ns).keys with
  | none =>
    have before : newest (scopeAt serde s threadId ns).checkpoints.keys = none := newest_
    have after : newest (scopeAt serde s' threadId ns).checkpoints.keys = none := by
      change newest (s'.checkpointsAt threadId ns).keys = none
      rw [checkpoints,newest_]
    simp [keepIds,before,after]
  | some latest =>
    obtain ⟨row,member,rfl⟩ := List.mem_map.mp (newest_mem newest_)
    have found : s.entryAt threadId ns row.1 = some row.2 := Dict.mem_iff.mp member
    have own : ∀ entry channel, (scopeAt serde s' threadId ns).ownBlob entry channel =
        (scopeAt serde s threadId ns).ownBlob entry channel := by
      intro entry channel
      change (((scopeAt serde s threadId ns).versions entry).get? channel).bind _ = _
      unfold Scope.ownBlob
      cases ((scopeAt serde s threadId ns).versions entry).get? channel with
      | none => rfl
      | some version => exact blobs ⟨threadId,ns,channel,version⟩ rfl
    rw [latest_kept newest_ found,
      latest_kept (checkpoints.symm ▸ newest_) (by rw [Saver.entryAt,checkpoints]; exact found)]
    have stored : ∀ id, (scopeAt serde s' threadId ns).checkpoints.get? id = (scopeAt serde s threadId ns).checkpoints.get? id :=
      fun id => congrArg (fun checkpoints => checkpoints.get? id) checkpoints
    refine congrArg (List.cons row.1) (deltaChain_preserved (fun id absent => (stored id).trans absent)
      (Nat.le_of_eq (congrArg Dict.size checkpoints)) rfl (own row.2) fun id _ => ⟨stored id,fun entry _ channel => own entry channel⟩)

theorem untouched_retained (same : Untouched threadId s s') {id : CheckpointId} :
    Retained serde s' threadId ns id ↔ Retained serde s threadId ns id := by
  rw [retained_iff,retained_iff,keepIds_same (untouched_checkpoints same) fun _ mine => untouched_blobs same mine]

theorem pruned_after {middle : Saver} (pruned : Pruned serde threadId s middle) (same : Untouched threadId middle s') :
    Pruned serde threadId s s' := by
  refine ⟨fun ns id entry => ?_,fun named ns id group => ?_,fun named key mine value => ?_⟩
  · rw [Saver.entryAt,untouched_checkpoints same]
    exact pruned.checkpoints ns id entry
  · rw [untouched_writes same rfl]
    exact pruned.writes named ns id group
  · rw [untouched_blobs same mine]
    exact pruned.blobs named key mine value

theorem pruned_before {middle : Saver} (same : Untouched threadId s middle) (pruned : Pruned serde threadId middle s') :
    Pruned serde threadId s s' := by
  refine ⟨fun ns id entry => ?_,fun named ns id group => ?_,fun named key mine value => ?_⟩
  · rw [pruned.checkpoints,untouched_retained same,Saver.entryAt,untouched_checkpoints same]
    rfl
  · rw [pruned.writes ((untouched_namespace same).mpr named),untouched_writes same rfl]
    simp only [untouched_retained same]
  · rw [pruned.blobs ((untouched_namespace same).mpr named) key mine,untouched_blobs same mine]
    simp only [untouched_retained same,untouched_refers same]

end one_thread

section settling
variable {serde : Serde} {s s' : Saver} {threadId ns : String}

theorem settled_untouched (settled : Settled serde threadId s) (same : Untouched threadId s s') : Settled serde threadId s' := by
  refine ⟨?_,?_,?_,?_⟩
  · rw [same.storage]
    simpa only [untouched_retained same] using settled.rows
  · rw [untouched_namespace same,same.writes]
    simpa only [untouched_retained same] using settled.writes
  · rw [untouched_namespace same,same.blobs]
    simpa only [untouched_retained same,untouched_refers same] using settled.blobs
  · rw [untouched_namespace same,same.size]
    exact settled.size

variable (serde s threadId) in
-- Pruning once more goes through the same namespaces and finds nothing to drop.
theorem settled_rows (rows : List (String × Checkpoints)) (sweep : Sweep)
    (stored : ∀ row ∈ rows, sweep.namespaces.get? row.1 = some row.2)
    (full : ∀ row ∈ rows, row.2.isEmpty = false ∧ ∀ id ∈ row.2.keys, id ∈ keepIds (scopeOf serde s threadId row.1 row.2)) :
    let after := rows.foldl (pruneNamespace (scopeOf serde s threadId)) sweep
    after.namespaces = sweep.namespaces ∧ after.removedSize = sweep.removedSize ∧
      after.removedCheckpoints = sweep.removedCheckpoints := by
  induction rows generalizing sweep with
  | nil => exact ⟨rfl,rfl,rfl⟩
  | cons row rest ih =>
    obtain ⟨nonempty,all⟩ := full row (by simp)
    have every : ∀ e ∈ row.2.entries, (keepIds (scopeOf serde s threadId row.1 row.2)).contains e.1 = true := fun e member =>
      List.contains_iff_mem.mpr (all e.1 (List.mem_map.mpr ⟨e,member,rfl⟩))
    have whole : kept (scopeOf serde s threadId row.1 row.2) = row.2 := Dict.filter_self every
    have nothing : dropped (scopeOf serde s threadId row.1 row.2) = .empty :=
      Dict.filter_none fun e member => by rw [every e member]; rfl
    have step : (pruneNamespace (scopeOf serde s threadId) sweep row).namespaces = sweep.namespaces ∧
        (pruneNamespace (scopeOf serde s threadId) sweep row).removedSize = sweep.removedSize ∧
        (pruneNamespace (scopeOf serde s threadId) sweep row).removedCheckpoints = sweep.removedCheckpoints := by
      simp only [pruneNamespace,nonempty,Bool.false_eq_true,↓reduceIte,whole,nothing,Dict.insert_same (stored row (by simp))]
      simp [Dict.sum,Dict.size]
    have later := ih (pruneNamespace (scopeOf serde s threadId) sweep row)
      (fun other listed => by rw [step.1]; exact stored other (List.mem_cons_of_mem _ listed))
      fun other listed => full other (List.mem_cons_of_mem _ listed)
    simp only [List.foldl_cons]
    exact ⟨later.1.trans step.1,later.2.1.trans step.2.1,later.2.2.trans step.2.2⟩

theorem adjust_nothing {s : SizeState} {pair : Int × Int} (nonneg : 0 ≤ pair) (held : s.byThread.get? threadId = stored pair) :
    s.adjust (max 0) threadId 0 0 = s := by
  have bytes : max 0 pair.1 = pair.1 := max_eq_right nonneg.1
  have count : max 0 pair.2 = pair.2 := max_eq_right nonneg.2
  have thread : s.thread threadId = pair := by rw [SizeState.thread,held,stored_getD]
  simp only [SizeState.adjust,SizeState.assign,thread,add_zero,bytes,count,sub_self]
  unfold stored at held
  split
  · rename_i some_
    rw [if_pos some_] at held
    rw [Dict.insert_same held]
  · rename_i zero
    rw [if_neg zero] at held
    rw [Dict.erase_absent held]

theorem settled_pruned (settled : Settled serde threadId s) : pruneThread (max 0) serde s threadId = s := by
  by_cases named : HasNamespace s threadId
  · obtain ⟨namespaces,bucket,nonempty⟩ := named
    have named : HasNamespace s threadId := ⟨namespaces,bucket,nonempty⟩
    obtain ⟨pair,nonneg,held⟩ := settled.size named
    obtain ⟨same,size,count⟩ := settled_rows serde s threadId namespaces.dict.entries
      ⟨namespaces.dict,[],[],0,0⟩ (fun row member => Dict.mem_iff.mp member)
      fun row member => by
        obtain ⟨full,all⟩ := settled.rows namespaces bucket row member
        refine ⟨full,fun id listed => ?_⟩
        have keep := retained_iff.mp (all id listed)
        rwa [scopeAt,row_checkpoints bucket member] at keep
    have writes : ∀ e ∈ s.writes.entries, losesGroup threadId (sweepOf serde s threadId namespaces.dict) e.1 = false := by
      intro e member
      by_cases mine : e.1.threadId = threadId
      · have own : e.1 ∈ (ownWrites s threadId).keys :=
          List.mem_map.mpr ⟨e,List.mem_filter.mpr ⟨member,by simpa using mine⟩,rfl⟩
        have listed := (mem_writeKeys bucket).mpr (settled.writes named e.1 own)
        have key : normalized e.1 = normalized ⟨threadId,e.1.checkpointNs,e.1.checkpointId⟩ := by simp [normalized,mine]
        simp only [losesGroup,key,listed,List.contains_iff_mem.mpr,Bool.not_true,Bool.and_false]
      · simp [losesGroup,mine]
    have blobs : ∀ e ∈ s.blobs.entries, losesBlob threadId (sweepOf serde s threadId namespaces.dict) e.1 = false := by
      intro e member
      by_cases mine : e.1.threadId = threadId
      · have own : e.1 ∈ (ownBlobs s threadId).keys :=
          List.mem_map.mpr ⟨e,List.mem_filter.mpr ⟨member,by simpa using mine⟩,rfl⟩
        have listed := (mem_blobKeys bucket mine).mpr (settled.blobs named e.1 own)
        simp only [losesBlob,listed,Bool.not_true,Bool.and_false]
      · simp [losesBlob,mine]
    have nothing : sweepRemovedSize s threadId (sweepOf serde s threadId namespaces.dict) = 0 := by
      unfold sweepRemovedSize removedGroups removedBlobs
      rw [Dict.filter_none writes,Dict.filter_none blobs,sweepOf,size]
      rfl
    rw [prune_applied bucket nonempty]
    unfold applySweep
    rw [nothing,Dict.filter_self fun e member => by rw [writes e member]; rfl,
      Dict.filter_self fun e member => by rw [blobs e member]; rfl]
    have dict : (sweepOf serde s threadId namespaces.dict).namespaces = namespaces.dict := same
    have none_ : (sweepOf serde s threadId namespaces.dict).removedCheckpoints = 0 := count
    rw [dict,none_,Dict.insert_same bucket,neg_zero,adjust_nothing nonneg held]
  · exact prune_skipped named

theorem keepIds_pruned {clamp : Int → Int} : keepIds (scopeAt serde (pruneThread clamp serde s threadId) threadId ns) =
    keepIds (scopeAt serde s threadId ns) := by
  cases newest_ : newest (s.checkpointsAt threadId ns).keys with
  | none =>
    have bare : (scopeAt serde s threadId ns).checkpoints = .empty := by
      change s.checkpointsAt threadId ns = _
      cases rows : (s.checkpointsAt threadId ns).entries with
      | nil => exact Dict.ext rows
      | cons row rest => simp [Dict.keys,rows,newest] at newest_
    have after : (scopeAt serde (pruneThread clamp serde s threadId) threadId ns).checkpoints = .empty := by
      change Saver.checkpointsAt _ threadId ns = _
      rw [pruned_checkpoints,kept,bare]
      rfl
    rw [keepIds_empty (Dict.isEmpty_iff.mpr bare),keepIds_empty (Dict.isEmpty_iff.mpr after)]
  | some latest =>
    obtain ⟨row,member,rfl⟩ := List.mem_map.mp (newest_mem newest_)
    have found : s.entryAt threadId ns row.1 = some row.2 := Dict.mem_iff.mp member
    have resumable : Resumable serde s (pruneThread clamp serde s threadId) threadId ns row.1 row.2 :=
      prune_resumable newest_ found
    rw [latest_kept newest_ found,latest_kept resumable.newest resumable.stored]
    have listed : row.1 ∈ keepIds (scopeAt serde s threadId ns) := by
      rw [latest_kept newest_ found]
      exact List.mem_cons_self
    refine congrArg (List.cons row.1) (deltaChain_preserved pruned_fewer pruned_smaller rfl
      ((kept_keeps listed).blobs row.2 found) fun id chain => kept_keeps ?_)
    rw [latest_kept newest_ found]
    exact List.mem_cons_of_mem _ chain

theorem retained_pruned {clamp : Int → Int} {id : CheckpointId} :
    Retained serde (pruneThread clamp serde s threadId) threadId ns id ↔ Retained serde s threadId ns id := by
  rw [retained_iff,retained_iff,keepIds_pruned]

theorem kept_nonempty {checkpoints : Checkpoints} (nonempty : checkpoints.isEmpty = false) :
    (kept (scopeOf serde s threadId ns checkpoints)).isEmpty = false := by
  cases newest_ : newest checkpoints.keys with
  | none =>
    cases rows : checkpoints.entries with
    | nil => simp [Dict.isEmpty,rows] at nonempty
    | cons row rest => simp [Dict.keys,rows,newest] at newest_
  | some latest =>
    obtain ⟨row,member,rfl⟩ := List.mem_map.mp (newest_mem newest_)
    have found : checkpoints.get? row.1 = some row.2 := Dict.mem_iff.mp member
    have keep : row.1 ∈ keepIds (scopeOf serde s threadId ns checkpoints) := by
      have picked : newest (scopeOf serde s threadId ns checkpoints).checkpoints.keys = some row.1 := newest_
      have here : (scopeOf serde s threadId ns checkpoints).checkpoints.get? row.1 = some row.2 := found
      simp [keepIds,picked,here]
    have remains : row ∈ (kept (scopeOf serde s threadId ns checkpoints)).entries :=
      List.mem_filter.mpr ⟨member,List.contains_iff_mem.mpr keep⟩
    cases empty : (kept (scopeOf serde s threadId ns checkpoints)).isEmpty with
    | false => rfl
    | true =>
      rw [Dict.isEmpty_iff.mp empty] at remains
      cases remains

theorem assign_held (s : SizeState) (new : Int × Int) : (s.assign threadId new).byThread.get? threadId = stored new := by
  unfold SizeState.assign stored
  split
  · exact Dict.get?_insert_self _ _ _
  · simp [Dict.get?_erase]

theorem pruneThread_settles : Settled serde threadId (pruneThread (max 0) serde s threadId) := by
  have pruned : Pruned serde threadId s (pruneThread (max 0) serde s threadId) := pruneThread_pruned
  by_cases named : HasNamespace s threadId
  · obtain ⟨namespaces,bucket,nonempty⟩ := named
    have named : HasNamespace s threadId := ⟨namespaces,bucket,nonempty⟩
    have applied : pruneThread (max 0) serde s threadId = applySweep (max 0) s threadId namespaces.auto
      (sweepOf serde s threadId namespaces.dict) := prune_applied bucket nonempty
    have after : (pruneThread (max 0) serde s threadId).storage.get? threadId =
        some ⟨(sweepOf serde s threadId namespaces.dict).namespaces,namespaces.auto⟩ := by
      rw [applied]
      exact Dict.get?_insert_self _ _ _
    refine ⟨fun stored found row member => ?_,fun _ key listed => ?_,fun _ key listed => ?_,fun _ => ?_⟩
    · have checkpoints := row_checkpoints found member
      rw [after] at found
      cases found
      refine ⟨?_,fun id listed => retained_pruned.mpr (retained_iff.mpr ?_)⟩
      · have here : (sweepOf serde s threadId namespaces.dict).namespaces.get? row.1 = some row.2 := Dict.mem_iff.mp member
        cases before : namespaces.dict.get? row.1 with
        | none =>
          have others : ∀ other ∈ namespaces.dict.entries, other.1 ≠ row.1 := by simpa using Dict.get?_none_iff.mp before
          rw [sweepOf,sweep_untouched others,before] at here
          cases here
        | some old =>
          rw [sweepOf,sweep_namespace namespaces.dict.distinct (Dict.mem_iff.mpr before)] at here
          split at here
          · cases here
          · rename_i full
            rw [← Option.some.inj here]
            exact kept_nonempty (Bool.not_eq_true _ ▸ full)
      · rw [← checkpoints,pruned_checkpoints] at listed
        obtain ⟨e,remains,rfl⟩ := List.mem_map.mp listed
        exact List.contains_iff_mem.mp (List.mem_filter.mp remains).2
    · obtain ⟨e,member,rfl⟩ := List.mem_map.mp listed
      obtain ⟨stored,mine⟩ := List.mem_filter.mp member
      obtain ⟨⟨thread,ns,id⟩,group⟩ := e
      cases eq_of_beq mine
      obtain ⟨_,kept,retained,text⟩ := (pruned.writes named ns id group).mp (Dict.mem_iff.mp stored)
      exact ⟨kept,retained_pruned.mpr retained,text⟩
    · obtain ⟨e,member,rfl⟩ := List.mem_map.mp listed
      obtain ⟨stored,mine⟩ := List.mem_filter.mp member
      obtain ⟨_,kept,retained,entry,version,found,versioned,rest⟩ :=
        (pruned.blobs named e.1 (eq_of_beq mine) e.2).mp (Dict.get?_of_mem stored BEq.rfl)
      refine ⟨kept,retained_pruned.mpr retained,entry,version,?_,versioned,rest⟩
      rw [kept_entry (retained_iff.mp retained)]
      exact found
    · rw [applied]
      exact ⟨_,⟨le_max_left _ _,le_max_left _ _⟩,assign_held _ _⟩
  · rw [prune_skipped named]
    refine ⟨fun namespaces bucket row member => ?_,fun here => absurd here named,fun here => absurd here named,
      fun here => absurd here named⟩
    cases empty : namespaces.dict.isEmpty with
    | false => exact absurd ⟨namespaces,bucket,empty⟩ named
    | true =>
      rw [Dict.isEmpty_iff.mp empty] at member
      cases member

end settling

section many_threads
variable {serde : Serde} {s : Saver} {threadId : String}

theorem untouched_trans {middle s' : Saver} (first : Untouched threadId s middle) (second : Untouched threadId middle s') :
    Untouched threadId s s' :=
  ⟨second.storage.trans first.storage,second.writes.trans first.writes,second.blobs.trans first.blobs,
    second.size.trans first.size⟩

-- Pruning any threads leaves alone the one that has nothing left to prune.
theorem settled_stays (settled : Settled serde threadId s) (threadIds : List String) :
    Untouched threadId s (threadIds.foldl (pruneThread (max 0) serde) s) := by
  induction threadIds generalizing s with
  | nil => exact ⟨rfl,rfl,rfl,rfl⟩
  | cons first rest ih =>
    rw [List.foldl_cons]
    by_cases same : threadId = first
    · rw [← same,settled_pruned settled]
      exact ih settled
    · have untouched : Untouched threadId s (pruneThread (max 0) serde s first) := pruneThread_untouched same
      exact untouched_trans untouched (ih (settled_untouched settled untouched))

theorem pruned_listed {threadIds : List String} (listed : threadId ∈ threadIds) :
    Pruned serde threadId s (threadIds.foldl (pruneThread (max 0) serde) s) ∧
      Settled serde threadId (threadIds.foldl (pruneThread (max 0) serde) s) := by
  induction threadIds generalizing s with
  | nil => cases listed
  | cons first rest ih =>
    rw [List.foldl_cons]
    by_cases same : threadId = first
    · rw [← same]
      have settled : Settled serde threadId (pruneThread (max 0) serde s threadId) := pruneThread_settles
      have stays := settled_stays settled rest
      exact ⟨pruned_after pruneThread_pruned stays,settled_untouched settled stays⟩
    · obtain ⟨pruned,settled⟩ := ih ((List.mem_cons.mp listed).resolve_left same)
      exact ⟨pruned_before (pruneThread_untouched same) pruned,settled⟩

theorem untouched_unlisted {threadIds : List String} (free : threadId ∉ threadIds) :
    Untouched threadId s (threadIds.foldl (pruneThread (max 0) serde) s) := by
  induction threadIds generalizing s with
  | nil => exact ⟨rfl,rfl,rfl,rfl⟩
  | cons first rest ih =>
    obtain ⟨apart,later⟩ := not_or.mp (List.mem_cons.not.mp free)
    rw [List.foldl_cons]
    exact untouched_trans (pruneThread_untouched apart) (ih later)

theorem settled_fixed {threadIds : List String} (settled : ∀ threadId ∈ threadIds, Settled serde threadId s) :
    threadIds.foldl (pruneThread (max 0) serde) s = s := by
  induction threadIds with
  | nil => rfl
  | cons first rest ih =>
    obtain ⟨here,later⟩ := List.forall_mem_cons.mp settled
    rw [List.foldl_cons,settled_pruned here,ih later]

end many_threads

theorem prune_keepLatest (clamp : Int → Int) (serde : Serde) (s : Saver) (threadIds : List String) :
    prune clamp serde s threadIds "keep_latest" = .ok (threadIds.foldl (pruneThread clamp serde) s) := by
  unfold prune
  rw [if_neg (by decide),if_neg (by decide)]

theorem keep_latest_exact (serde : Serde) (s : Saver) (threadIds : List String) :
    ∃ s', prune (max 0) serde s threadIds "keep_latest" = .ok s' ∧
      (∀ threadId ∈ threadIds, Pruned serde threadId s s') ∧ (∀ threadId, threadId ∉ threadIds → Untouched threadId s s') ∧
      prune (max 0) serde s' threadIds "keep_latest" = .ok s' := by
  refine ⟨_,prune_keepLatest _ _ _ _,fun threadId listed => (pruned_listed listed).1,fun threadId free =>
    untouched_unlisted free,?_⟩
  rw [prune_keepLatest,settled_fixed fun threadId listed => (pruned_listed listed).2]

def someUuid : String := "1ef4f797-8335-6428-8001-8a1503f9b875"

-- A namespace with two ids of one text, and a pending write of the second.
def twoIds : Saver :=
  let entry : Entry := ⟨⟨"msgpack",[1]⟩,⟨"msgpack",[]⟩,none⟩
  {storage := Dict.empty.insert "t" ⟨Dict.empty.insert "" ((Dict.empty.insert (.text someUuid) entry).insert (.uuid someUuid) entry),true⟩
   writes := Dict.empty.insert ⟨"t","",.uuid someUuid⟩ (Dict.empty.insert ("task",0) ⟨"task","messages",⟨"msgpack",[5]⟩,""⟩)
   blobs := Dict.empty
   sizeState := .clear}

-- The second checkpoint goes and its write stays.
theorem removed_write_stays :
    let s' := pruneThread (max 0) toySerde twoIds "t"
    prune (max 0) toySerde twoIds ["t"] "keep_latest" = .ok s' ∧ (twoIds.entryAt "t" "" (.uuid someUuid)).isSome = true ∧
      s'.entryAt "t" "" (.uuid someUuid) = none ∧ (s'.writes.get? ⟨"t","",.uuid someUuid⟩).isSome = true ∧
      ¬ Retained toySerde twoIds "t" "" (.uuid someUuid) :=
  ⟨rfl,by decide,by decide,by decide,fun retained => absurd (retained_iff.mp retained) (by decide)⟩

end InmemRuntime.PruneExactness
