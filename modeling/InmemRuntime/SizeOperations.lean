import InmemRuntime.SizeAccounting

namespace InmemRuntime.SizeOperations
open OrderedDict CheckpointData CheckpointSaver SizeTracking SizeAccounting DeltaWalk Prune DeleteForRuns ThreadCopy

variable {sel : String → Bool} {s : Saver} {threadId ns : String}

section putting
variable {J : Type} {base : Base J}

def blobSizeAt (blobs : Dict BlobKey Typed) (threadId ns channel : String) (version : Version) : Int :=
  match blobs.get? ⟨threadId,ns,channel,version⟩ with
  | some value => blobEntrySize channel version value
  | none => 0

-- An equal version may be stored under another spelling, whose length counts
-- on both sides and cancels.
theorem blob_insert (blobs : Dict BlobKey Typed) (channel : String) (version : Version) (value : Typed) :
    blobsWeight sel (blobs.insert ⟨threadId,ns,channel,version⟩ value) = blobsWeight sel blobs +
      selected sel threadId (blobEntrySize channel version value - blobSizeAt blobs threadId ns channel version,0) := by
  unfold blobsWeight blobSizeAt
  cases found : blobs.get? ⟨threadId,ns,channel,version⟩ with
  | none =>
    rw [Dict.sum_insert_new _ found]
    simp [blobWeight]
  | some old =>
    obtain ⟨stored,_,equal,changed⟩ :=
      Dict.sum_insert_old (fun key value => selected sel key.threadId (blobWeight key value)) (v:=value) found
    obtain ⟨thread,_,name,_⟩ := blobKey_beq.mp equal
    rw [changed,thread,sub_add_eq_add_sub,add_sub_assoc,← selected_sub]
    congr 2
    simp only [blobWeight,blobEntrySize,Prod.mk_sub_mk,name,Prod.mk.injEq,sub_self,and_true]
    omega

theorem channels_apart {channel channel' : String} {version version' : Version} (other : (channel == channel') = false) :
    ((⟨threadId,ns,channel,version⟩ : BlobKey) == ⟨threadId,ns,channel',version'⟩) = false := by
  refine Bool.eq_false_iff.mpr fun equal => ?_
  have same : channel = channel' := (blobKey_beq.mp equal).2.2.1
  rw [same,BEq.rfl] at other
  cases other

theorem storeBlobs_other {blob : String → Typed} {rows : List (String × Version)} {channel : String} {version : Version}
    (others : ∀ row ∈ rows, (row.1 == channel) = false) (blobs : Dict BlobKey Typed) :
    (storeBlobs threadId ns blob blobs rows).get? ⟨threadId,ns,channel,version⟩ =
      blobs.get? ⟨threadId,ns,channel,version⟩ := by
  unfold storeBlobs
  induction rows generalizing blobs with
  | nil => rfl
  | cons head rest ih =>
    rw [List.foldl_cons,ih fun row member => others row (by simp [member])]
    exact Dict.get?_insert_other (channels_apart (others head (by simp)))

theorem storeBlobs_get? {blob : String → Typed} {rows : List (String × Version)}
    (apart : rows.Pairwise fun a b => (a.1 == b.1) = false) (blobs : Dict BlobKey Typed) {row : String × Version}
    (member : row ∈ rows) :
    (storeBlobs threadId ns blob blobs rows).get? ⟨threadId,ns,row.1,row.2⟩ = some (blob row.1) := by
  induction rows generalizing blobs with
  | nil => cases member
  | cons head rest ih =>
    have parts := List.pairwise_cons.mp apart
    rcases List.mem_cons.mp member with rfl | later
    · have others : ∀ other ∈ rest, (other.1 == row.1) = false := fun other present => by
        rw [BEq.comm]; exact parts.1 other present
      exact (storeBlobs_other others _).trans (Dict.get?_insert_self _ _ _)
    · exact ih parts.2 _ later

theorem storeBlobs_weight {blob : String → Typed} {rows : List (String × Version)}
    (apart : rows.Pairwise fun a b => (a.1 == b.1) = false) (blobs : Dict BlobKey Typed) :
    blobsWeight sel (storeBlobs threadId ns blob blobs rows) = blobsWeight sel blobs + selected sel threadId
      ((rows.map fun row => blobEntrySize row.1 row.2 (blob row.1)).sum -
        (rows.map fun row => blobSizeAt blobs threadId ns row.1 row.2).sum,0) := by
  unfold storeBlobs
  induction rows generalizing blobs with
  | nil => simp [show ((0 : Int),(0 : Int)) = 0 from rfl]
  | cons head rest ih =>
    have parts := List.pairwise_cons.mp apart
    have untouched : rest.map (fun row => blobSizeAt (blobs.insert ⟨threadId,ns,head.1,head.2⟩ (blob head.1))
        threadId ns row.1 row.2) = rest.map fun row => blobSizeAt blobs threadId ns row.1 row.2 := by
      refine List.map_congr_left fun row member => ?_
      unfold blobSizeAt
      rw [Dict.get?_insert_other (channels_apart (parts.1 row member))]
    rw [List.foldl_cons,ih parts.2,untouched,blob_insert,add_assoc,← selected_add]
    congr 2
    simp only [List.map_cons,List.sum_cons,Prod.mk_add_mk,add_zero,Prod.mk.injEq,and_true]
    omega

theorem blobsSize_rows (versions : Dict String Version) : s.blobsSize threadId ns versions =
    (versions.entries.map fun row => blobSizeAt s.blobs threadId ns row.1 row.2).sum := rfl

theorem setBucket_checkpointsAt (checkpoints : Checkpoints) :
    (s.setBucket threadId ns checkpoints).checkpointsAt threadId ns = checkpoints := by
  simp [Saver.checkpointsAt,Saver.setBucket]

theorem entry_weight (id : CheckpointId) : (s.checkpointsAt threadId ns).weightAt entryWeight id =
    (s.entrySize threadId ns id,if (s.entryAt threadId ns id).isNone then 0 else 1) := by
  unfold Dict.weightAt Saver.entrySize Saver.entryAt
  cases (s.checkpointsAt threadId ns).get? id <;> rfl

theorem setEntry_weight (id : CheckpointId) (entry : Entry) :
    storageWeight sel (s.setBucket threadId ns ((s.checkpointsAt threadId ns).insert id entry)).storage =
      storageWeight sel s.storage + selected sel threadId (checkpointEntrySize id entry - s.entrySize threadId ns id,
        if (s.entryAt threadId ns id).isNone then 1 else 0) := by
  rw [setBucket_weight,checkpointsWeight,Dict.sum_insert,entry_weight]
  congr 2
  rw [checkpointsWeight,add_sub_cancel_left,entryWeight,Prod.mk_sub_mk]
  cases s.entryAt threadId ns id <;> rfl

theorem storedBlobs_size {blob : String → Typed} {newVersions : Dict String Version} {after : Saver}
    (stored : after.blobs = storeBlobs threadId ns blob s.blobs newVersions.entries) :
    after.blobsSize threadId ns newVersions =
      (newVersions.entries.map fun row => blobEntrySize row.1 row.2 (blob row.1)).sum := by
  rw [blobsSize_rows,stored]
  refine congrArg List.sum (List.map_congr_left fun row member => ?_)
  simp only [blobSizeAt,storeBlobs_get? newVersions.distinct s.blobs member]

theorem basePut_parts {config : PutConfig J} {checkpoint : Checkpoint J} {metadata : Dict String J}
    {newVersions : Dict String Version} {after : Saver}
    (stored : basePut base s config checkpoint metadata newVersions = some after) : ∃ entry,
      after.storage = (s.setBucket config.threadId config.checkpointNs
        ((s.checkpointsAt config.threadId config.checkpointNs).insert checkpoint.id entry)).storage ∧
      after.writes = s.writes ∧ after.blobs = storeBlobs config.threadId config.checkpointNs
        (blobFor base checkpoint) s.blobs newVersions.entries ∧ after.sizeState = s.sizeState := by
  unfold basePut at stored
  dsimp only at stored
  split at stored
  · cases stored
  · rename_i checkpoints bucket
    have same : checkpoints = s.checkpointsAt config.threadId config.checkpointNs := bucket_checkpointsAt bucket
    subst same
    cases Option.some.inj stored
    exact ⟨_,rfl,rfl,rfl,rfl⟩

-- `put` moves the contents by exactly the difference it hands to `adjust`.
theorem basePut_moves {config : PutConfig J} {checkpoint : Checkpoint J} {metadata : Dict String J}
    {newVersions : Dict String Version} {after : Saver}
    (stored : basePut base s config checkpoint metadata newVersions = some after) (sel : String → Bool) :
    contents after sel = shifted (contents s) config.threadId
      (after.entrySize config.threadId config.checkpointNs checkpoint.id +
          after.blobsSize config.threadId config.checkpointNs newVersions -
        (s.entrySize config.threadId config.checkpointNs checkpoint.id +
          s.blobsSize config.threadId config.checkpointNs newVersions),
        if (s.entryAt config.threadId config.checkpointNs checkpoint.id).isNone then 1 else 0) sel := by
  obtain ⟨entry,storage,writes,blobs,_⟩ := basePut_parts stored
  have size : after.entrySize config.threadId config.checkpointNs checkpoint.id =
      checkpointEntrySize checkpoint.id entry := by
    have here : after.entryAt config.threadId config.checkpointNs checkpoint.id = some entry := by
      unfold Saver.entryAt Saver.checkpointsAt
      rw [storage]
      exact (congrArg (Dict.get? · checkpoint.id) (setBucket_checkpointsAt _)).trans (Dict.get?_insert_self _ _ _)
    unfold Saver.entrySize
    rw [here]
  have weight : contents after sel = contents s sel +
      (selected sel config.threadId (checkpointEntrySize checkpoint.id entry -
          s.entrySize config.threadId config.checkpointNs checkpoint.id,
        if (s.entryAt config.threadId config.checkpointNs checkpoint.id).isNone then 1 else 0) +
      selected sel config.threadId ((newVersions.entries.map fun row =>
          blobEntrySize row.1 row.2 (blobFor base checkpoint row.1)).sum -
        s.blobsSize config.threadId config.checkpointNs newVersions,0)) := by
    unfold contents
    rw [storage,writes,blobs,setEntry_weight,storeBlobs_weight newVersions.distinct,blobsSize_rows]
    abel
  rw [weight,← selected_add,shifted,selected,size,storedBlobs_size blobs]
  congr 3
  simp only [Prod.mk_add_mk,add_zero,Prod.mk.injEq,and_true]
  omega

end putting

section writing
variable {J : Type} {base : Base J}

-- A write touches one group, so the rest of the groups weigh what they weighed.
theorem storeWrite_rest {key : WriteKey} {taskId taskPath : String} {live : Bool} (writes : Dict WriteKey WriteGroup)
    (write : Nat × String × J) :
    let weight := fun (key : WriteKey) group => selected sel key.threadId (groupWeight key group)
    (storeWrite base key taskId taskPath live writes write).sum weight -
        (storeWrite base key taskId taskPath live writes write).weightAt weight key =
      writes.sum weight - writes.weightAt weight key := by
  intro weight
  unfold storeWrite
  dsimp only
  split
  · rfl
  · rw [Dict.sum_insert]
    simp only [Dict.weightAt,Dict.get?_insert_self]
    abel

theorem basePutWrites_moves {key : WriteKey} {writes : List (String × J)} {taskId taskPath : String}
    (sel : String → Bool) : contents (basePutWrites base s key writes taskId taskPath) sel =
      shifted (contents s) key.threadId
        ((basePutWrites base s key writes taskId taskPath).groupSize key - s.groupSize key,0) sel := by
  have rest : ∀ (indexed : List (Nat × String × J)) (live : Bool) (start : Dict WriteKey WriteGroup),
      let weight := fun (key : WriteKey) group => selected sel key.threadId (groupWeight key group)
      let done := indexed.foldl (storeWrite base key taskId taskPath live) start
      done.sum weight - done.weightAt weight key = start.sum weight - start.weightAt weight key := by
    intro indexed live
    induction indexed with
    | nil => exact fun _ => rfl
    | cons write rest ih => exact fun start => (ih _).trans (storeWrite_rest start write)
  have moved := rest (writes.zipIdx.map fun e => (e.2,e.1)) (s.writes.get? key).isSome s.writes
  have after : (basePutWrites base s key writes taskId taskPath).writes.weightAt _ key =
      selected sel key.threadId (_,0) := group_weight key
  have before : s.writes.weightAt _ key = selected sel key.threadId (_,0) := group_weight key
  have groups : writesWeight sel (basePutWrites base s key writes taskId taskPath).writes = writesWeight sel s.writes +
      (selected sel key.threadId ((basePutWrites base s key writes taskId taskPath).groupSize key,0) -
        selected sel key.threadId (s.groupSize key,0)) := by
    rw [← after,← before]
    exact (sub_eq_iff_eq_add.mp moved).trans (by unfold writesWeight basePutWrites; abel)
  unfold contents
  rw [groups,← selected_sub,shifted,selected]
  simp only [Prod.mk_sub_mk,sub_self,basePutWrites]
  abel

end writing

-- Reading leaves at most an empty bucket and an empty group, without weight.
section reading

theorem setBucket_same (checkpoints : Checkpoints) (found : s.bucket threadId ns = some checkpoints) (sel : String → Bool) :
    contents (s.setBucket threadId ns checkpoints) sel = contents s sel := by
  have same : checkpoints = s.checkpointsAt threadId ns := bucket_checkpointsAt found
  unfold contents
  rw [setBucket_weight,same,sub_self,selected_zero,add_zero]
  rfl

theorem readTuple_same (id : CheckpointId) (entry : Entry) (sel : String → Bool) :
    contents (readTuple s threadId ns id entry).1 sel = contents s sel := by
  have group : groupWeight ⟨threadId,ns,id⟩ (s.group ⟨threadId,ns,id⟩) = (s.groupSize ⟨threadId,ns,id⟩,0) := by
    unfold Saver.group Saver.groupSize groupWeight
    cases s.writes.get? ⟨threadId,ns,id⟩ <;> rfl
  unfold contents
  simp only [readTuple,writesWeight,Dict.sum_insert,group_weight,group,sub_self,add_zero]

theorem getTuple_parts {checkpointId : Option CheckpointId} {after : Saver} {answer : Option (CheckpointId × Entry × WriteGroup)}
    (read : getTuple s threadId ns checkpointId = some (after,answer)) :
    after.sizeState = s.sizeState ∧ ∀ sel, contents after sel = contents s sel := by
  unfold getTuple at read
  split at read
  · cases read
  · rename_i checkpoints bucket
    have looked := setBucket_same checkpoints bucket
    dsimp only at read
    have found : ∀ id entry, readTuple (s.setBucket threadId ns checkpoints) threadId ns id entry = (after,answer) →
        after.sizeState = s.sizeState ∧ ∀ sel, contents after sel = contents s sel := by
      intro id entry equal
      have first := congrArg Prod.fst equal
      subst first
      exact ⟨rfl,fun sel => (readTuple_same id entry sel).trans (looked sel)⟩
    have missed : (s.setBucket threadId ns checkpoints,none) = (after,answer) →
        after.sizeState = s.sizeState ∧ ∀ sel, contents after sel = contents s sel := by
      intro equal
      cases equal
      exact ⟨rfl,looked⟩
    split at read
    · split at read
      · exact found _ _ (Option.some.inj read)
      · exact missed (Option.some.inj read)
    · split at read
      · exact missed (Option.some.inj read)
      · split at read
        · split at read
          · exact found _ _ (Option.some.inj read)
          · exact missed (Option.some.inj read)
        · cases read

end reading

theorem deleteThread_moves (threadId : String) (sel : String → Bool) : contents (deleteThread s threadId) sel =
    shifted (contents s) threadId (-contents s (· == threadId)) sel := by
  have storage := sum_thread id (fun _ (namespaces : Namespaces) => namespacesWeight namespaces.dict) sel threadId s.storage
  have writes := sum_thread WriteKey.threadId groupWeight sel threadId s.writes
  have blobs := sum_thread BlobKey.threadId blobWeight sel threadId s.blobs
  have split : contents (deleteThread s threadId) sel = contents s sel - selected sel threadId (contents s (· == threadId)) := by
    unfold contents
    rw [selected_add,selected_add]
    refine (congrArg₂ _ (congrArg₂ _ storage writes) blobs).trans ?_
    unfold storageWeight writesWeight blobsWeight
    simp only [id]
    abel
  rw [split,shifted,selected]
  split
  · exact sub_eq_add_neg _ _
  · simp

section pruning
variable {serde : Serde}

theorem pair_sum {κ ν : Type} [BEq κ] (f g : κ → ν → Int) (d : Dict κ ν) :
    d.sum (fun k v => (f k v,g k v)) = (d.sum f,d.sum g) := by
  simp only [Dict.sum]
  induction d.entries with
  | nil => rfl
  | cons row rest ih => simp [ih]

theorem checkpointsWeight_pair (checkpoints : Checkpoints) :
    checkpointsWeight checkpoints = (checkpoints.sum checkpointEntrySize,(checkpoints.size : Int)) := by
  have count : checkpoints.sum (fun _ _ => (1 : Int)) = (checkpoints.size : Int) := by simp [Dict.sum,Dict.size]
  rw [← count]
  exact pair_sum checkpointEntrySize (fun _ _ => 1) checkpoints

theorem kept_dropped_weight (scope : Scope) :
    checkpointsWeight (kept scope) + ((dropped scope).sum checkpointEntrySize,((dropped scope).size : Int)) =
      checkpointsWeight scope.checkpoints := by
  rw [← checkpointsWeight_pair]
  exact Dict.sum_filter_split entryWeight _ scope.checkpoints

-- The namespaces of the thread and what was removed from them add up.
def sweepWeight (sweep : Sweep) : Int × Int :=
  namespacesWeight sweep.namespaces + (sweep.removedSize,sweep.removedCheckpoints)

theorem pruneNamespace_weight {sweep : Sweep} {row : String × Checkpoints}
    (stored : sweep.namespaces.get? row.1 = some row.2) :
    sweepWeight (pruneNamespace (scopeOf serde s threadId) sweep row) = sweepWeight sweep := by
  have old : sweep.namespaces.weightAt (fun _ checkpoints => checkpointsWeight checkpoints) row.1 =
      checkpointsWeight row.2 := by
    unfold Dict.weightAt
    rw [stored]
  unfold pruneNamespace sweepWeight
  split
  · rename_i empty
    have nothing : checkpointsWeight row.2 = 0 := by rw [Dict.isEmpty_iff.mp empty]; rfl
    simp only [namespacesWeight,Dict.sum_erase,old,nothing,sub_zero]
  · have whole := kept_dropped_weight (scopeOf serde s threadId row.1 row.2)
    simp only [namespacesWeight,Dict.sum_insert,old]
    rw [← show checkpointsWeight (scopeOf serde s threadId row.1 row.2).checkpoints = checkpointsWeight row.2 from rfl,
      ← whole,← Prod.mk_add_mk]
    abel

theorem sweep_weight {rows : List (String × Checkpoints)} (distinct : rows.Pairwise fun a b => (a.1 == b.1) = false)
    {sweep : Sweep} (stored : ∀ row ∈ rows, sweep.namespaces.get? row.1 = some row.2) :
    sweepWeight (rows.foldl (pruneNamespace (scopeOf serde s threadId)) sweep) = sweepWeight sweep := by
  induction rows generalizing sweep with
  | nil => rfl
  | cons row rest ih =>
    have parts := List.pairwise_cons.mp distinct
    rw [List.foldl_cons,ih parts.2 fun later member => ?_,pruneNamespace_weight (stored row (by simp))]
    have other : ∀ head ∈ [row], head.1 ≠ later.1 := by
      intro head here equal
      rw [List.mem_singleton.mp here] at equal
      simpa [equal] using parts.1 later member
    exact (sweep_untouched other sweep).trans (stored later (by simp [member]))

theorem lost_weight {κ ν : Type} [BEq κ] (owner : κ → String) (weight : κ → ν → Int) (lost : κ → Bool) (d : Dict κ ν)
    (owned : ∀ k, lost k = true → owner k = threadId) :
    (d.filter fun k _ => !lost k).sum (fun k v => selected sel (owner k) (weight k v,0)) =
      d.sum (fun k v => selected sel (owner k) (weight k v,0)) -
        selected sel threadId ((d.filter fun k _ => lost k).sum weight,0) := by
  have gone : (d.filter fun k _ => lost k).sum (fun k v => selected sel (owner k) (weight k v,0)) =
      selected sel threadId ((d.filter fun k _ => lost k).sum weight,0) := by
    have zero : (d.filter fun k _ => lost k).sum (fun _ _ => (0 : Int)) = 0 := Dict.sum_zero fun _ _ => rfl
    conv => rhs; rw [← zero]
    rw [← pair_sum,← selected_sum]
    refine Dict.sum_congr fun row member => ?_
    rw [owned row.1 (List.mem_filter.mp member).2]
  rw [← gone,← Dict.sum_filter_split _ (fun k _ => lost k) d]
  abel

-- The rewritten namespaces of a thread lack what was removed from them.
theorem swept_storage {auto : Bool} {namespaces : Namespaces} {sweep : Sweep} (found : s.storage.get? threadId = some namespaces)
    (weighed : sweepWeight sweep = namespacesWeight namespaces.dict) :
    storageWeight sel (s.storage.insert threadId ⟨sweep.namespaces,auto⟩) =
      storageWeight sel s.storage - selected sel threadId (sweep.removedSize,sweep.removedCheckpoints) := by
  unfold storageWeight
  rw [Dict.sum_insert,Dict.weightAt,found]
  dsimp only
  rw [← weighed,sweepWeight,selected_add]
  abel

theorem applySweep_moves {clamp : Int → Int} {auto : Bool} {namespaces : Namespaces} {sweep : Sweep}
    (found : s.storage.get? threadId = some namespaces)
    (weighed : sweepWeight sweep = namespacesWeight namespaces.dict) (sel : String → Bool) :
    contents (applySweep clamp s threadId auto sweep) sel = shifted (contents s) threadId
      (-sweepRemovedSize s threadId sweep,-sweep.removedCheckpoints) sel := by
  have storage : storageWeight sel (applySweep clamp s threadId auto sweep).storage =
      storageWeight sel s.storage - selected sel threadId (sweep.removedSize,sweep.removedCheckpoints) :=
    swept_storage found weighed
  have writes : writesWeight sel (applySweep clamp s threadId auto sweep).writes = writesWeight sel s.writes -
      selected sel threadId ((removedGroups s threadId sweep).sum fun key group => writeGroupSize key.checkpointId group,0) :=
    lost_weight WriteKey.threadId (fun key group => writeGroupSize key.checkpointId group)
      (losesGroup threadId sweep) s.writes fun key lost => by simp [losesGroup] at lost; exact lost.1
  have blobs : blobsWeight sel (applySweep clamp s threadId auto sweep).blobs = blobsWeight sel s.blobs -
      selected sel threadId ((removedBlobs s threadId sweep).sum fun key value => blobEntrySize key.channel key.version value,0) :=
    lost_weight BlobKey.threadId (fun key value => blobEntrySize key.channel key.version value)
      (losesBlob threadId sweep) s.blobs fun key lost => by simp [losesBlob] at lost; exact lost.1
  have removed : ((-sweepRemovedSize s threadId sweep,-sweep.removedCheckpoints) : Int × Int) =
      0 - ((sweep.removedSize,sweep.removedCheckpoints) + ((removedGroups s threadId sweep).sum
        (fun key group => writeGroupSize key.checkpointId group),0) + ((removedBlobs s threadId sweep).sum
        (fun key value => blobEntrySize key.channel key.version value),0)) := by
    simp [sweepRemovedSize]
  change _ = contents s sel + selected sel threadId _
  rw [removed,selected_sub,selected_add,selected_add,selected_zero]
  unfold contents
  rw [storage,writes,blobs]
  abel

theorem pruneThread_parts (serde : Serde) (s : Saver) (threadId : String) :
    (∀ clamp', pruneThread clamp' serde s threadId = s) ∨ ∃ namespaces,
      s.storage.get? threadId = some namespaces ∧ ∀ clamp', pruneThread clamp' serde s threadId =
        applySweep clamp' s threadId namespaces.auto (sweepOf serde s threadId namespaces.dict) := by
  unfold pruneThread
  cases found : s.storage.get? threadId with
  | none => exact .inl fun _ => rfl
  | some namespaces =>
    cases empty : namespaces.dict.isEmpty with
    | true => exact .inl fun _ => by simp [empty]
    | false => exact .inr ⟨namespaces,rfl,fun _ => by simp [empty]⟩

theorem sweepOf_weight (namespaces : Dict String Checkpoints) :
    sweepWeight (sweepOf serde s threadId namespaces) = namespacesWeight namespaces :=
  (sweep_weight namespaces.distinct fun _ member => Dict.mem_iff.mp member).trans (add_zero _)

end pruning

end InmemRuntime.SizeOperations
