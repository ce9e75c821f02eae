import InmemRuntime.Prune

namespace InmemRuntime.PruneHistory
open OrderedDict AncestorChain CheckpointData CheckpointSaver SizeTracking DeltaWalk Prune

section one_thread
variable {clamp : Int → Int} {serde : Serde} {s : Saver} {threadId ns : String}

theorem kept_empty : kept (scopeOf serde s threadId ns .empty) = .empty := Dict.ext rfl

theorem sweepOf_get? (namespaces : Dict String Checkpoints) :
    ((sweepOf serde s threadId namespaces).namespaces.get? ns).getD .empty =
      kept (scopeOf serde s threadId ns ((namespaces.get? ns).getD .empty)) := by
  cases stored : namespaces.get? ns with
  | none =>
    have other : ∀ row ∈ namespaces.entries, row.1 ≠ ns := by simpa using Dict.get?_none_iff.mp stored
    rw [sweepOf,sweep_untouched other,stored]
    exact kept_empty.symm
  | some checkpoints =>
    obtain ⟨key,member,equal⟩ := Dict.mem_of_get? stored
    cases eq_of_beq equal
    rw [sweepOf,sweep_namespace namespaces.distinct member]
    split
    · rename_i bare
      cases Dict.isEmpty_iff.mp bare
      exact kept_empty.symm
    · rfl

theorem pruned_checkpoints :
    (pruneThread clamp serde s threadId).checkpointsAt threadId ns = kept (scopeAt serde s threadId ns) := by
  unfold pruneThread scopeAt
  cases found : s.storage.get? threadId with
  | none => simp [Saver.checkpointsAt,found,kept_empty]
  | some namespaces =>
    cases empty : namespaces.dict.isEmpty with
    | true =>
      have bare : namespaces.dict = .empty := Dict.isEmpty_iff.mp empty
      simp [Saver.checkpointsAt,found,bare,kept_empty]
    | false =>
      simp only [empty,Bool.false_eq_true,↓reduceIte,Saver.checkpointsAt,applySweep,Dict.get?_insert_self,
        Option.bind_some,found]
      exact sweepOf_get? namespaces.dict

theorem keepIds_stored {scope : Scope} {id : CheckpointId} (keep : id ∈ keepIds scope) :
    ∃ entry, scope.checkpoints.get? id = some entry := by
  unfold keepIds at keep
  split at keep
  · cases keep
  · split at keep
    · cases keep
    · rename_i entry found
      rcases List.mem_cons.mp keep with rfl | walked
      · exact ⟨entry,found⟩
      · rw [Scope.walked_deltaChain] at walked
        exact Scope.deltaChain_stored walked

-- A checkpoint in the keep set lies in a namespace that the loop visits.
theorem keep_row {id : CheckpointId} (keep : id ∈ keepIds (scopeAt serde s threadId ns)) :
    ∃ namespaces, s.storage.get? threadId = some namespaces ∧ namespaces.dict.isEmpty = false ∧
      (ns,s.checkpointsAt threadId ns) ∈ namespaces.dict.entries := by
  obtain ⟨entry,found⟩ := keepIds_stored keep
  change (s.checkpointsAt threadId ns).get? id = some entry at found
  cases bucket : s.storage.get? threadId with
  | none => simp [Saver.checkpointsAt,bucket] at found
  | some namespaces =>
    cases stored : namespaces.dict.get? ns with
    | none => simp [Saver.checkpointsAt,bucket,stored] at found
    | some checkpoints =>
      obtain ⟨key,member,equal⟩ := Dict.mem_of_get? stored
      cases eq_of_beq equal
      have here : s.checkpointsAt threadId ns = checkpoints := by simp [Saver.checkpointsAt,bucket,stored]
      refine ⟨namespaces,rfl,?_,here ▸ member⟩
      cases empty : namespaces.dict.isEmpty with
      | false => rfl
      | true => rw [Dict.isEmpty_iff.mp empty] at member; cases member

theorem kept_entry {id : CheckpointId} (keep : id ∈ keepIds (scopeAt serde s threadId ns)) :
    (pruneThread clamp serde s threadId).entryAt threadId ns id = s.entryAt threadId ns id := by
  unfold Saver.entryAt
  rw [pruned_checkpoints,kept,Dict.get?_filter (by intro stored _ equal; rw [eq_of_beq equal])]
  change ((s.checkpointsAt threadId ns).get? id).filter _ = _
  cases (s.checkpointsAt threadId ns).get? id <;> simp [Option.filter,keep]

theorem kept_writes {id : CheckpointId} (keep : id ∈ keepIds (scopeAt serde s threadId ns)) :
    (pruneThread clamp serde s threadId).writes.get? ⟨threadId,ns,id⟩ = s.writes.get? ⟨threadId,ns,id⟩ := by
  obtain ⟨namespaces,bucket,nonempty,member⟩ := keep_row keep
  simp only [pruneThread,applySweep,bucket,nonempty,Bool.false_eq_true,↓reduceIte]
  rw [Dict.get?_filter (by intro stored _ equal; rw [eq_of_beq equal])]
  have listed : normalized ⟨threadId,ns,id⟩ ∈ (sweepOf serde s threadId namespaces.dict).writeKeys := by
    rw [sweepOf,(sweep_keys _ _).1]
    exact List.mem_append_right _ (List.mem_flatMap.mpr ⟨_,member,List.mem_map.mpr ⟨id,keep,rfl⟩⟩)
  cases s.writes.get? ⟨threadId,ns,id⟩ <;> simp [Option.filter,losesGroup,listed]

theorem kept_blob {id : CheckpointId} (keep : id ∈ keepIds (scopeAt serde s threadId ns)) {key : BlobKey}
    (referenced : ∃ stored ∈ versionKeys (scopeAt serde s threadId ns) id, (key == stored) = true) :
    (pruneThread clamp serde s threadId).blobs.get? key = s.blobs.get? key := by
  obtain ⟨namespaces,bucket,nonempty,member⟩ := keep_row keep
  simp only [pruneThread,applySweep,bucket,nonempty,Bool.false_eq_true,↓reduceIte]
  obtain ⟨stored,version,equal⟩ := referenced
  have listed : stored ∈ (sweepOf serde s threadId namespaces.dict).blobKeys := by
    rw [sweepOf,(sweep_keys _ _).2]
    refine List.mem_append_right _ (List.mem_flatMap.mpr ⟨_,member,?_⟩)
    exact List.mem_flatMap.mpr ⟨id,keep,version⟩
  have held : (sweepOf serde s threadId namespaces.dict).blobKeys.contains key = true :=
    List.contains_iff_exists_mem_beq.mpr ⟨stored,listed,equal⟩
  rw [Dict.get?_filter]
  · cases s.blobs.get? key <;> simp [Option.filter,losesBlob,held]
  · intro other _ same
    simp only [losesBlob,(blobKey_beq.mp same).1]
    rw [Dict.contains_congr same]

theorem latest_kept {latest : CheckpointId} {entry : Entry}
    (newest_ : newest (s.checkpointsAt threadId ns).keys = some latest)
    (found : s.entryAt threadId ns latest = some entry) :
    keepIds (scopeAt serde s threadId ns) = latest :: (scopeAt serde s threadId ns).deltaChain entry := by
  rw [← Scope.walked_deltaChain]
  change newest (scopeAt serde s threadId ns).checkpoints.keys = some latest at newest_
  change (scopeAt serde s threadId ns).checkpoints.get? latest = some entry at found
  simp [keepIds,newest_,found]

theorem own_version_listed {scope : Scope} {id : CheckpointId} {entry : Entry} {channel : String} {version : Version}
    (found : scope.checkpoints.get? id = some entry) (versioned : (scope.versions entry).get? channel = some version) :
    ⟨scope.threadId,scope.checkpointNs,channel,version⟩ ∈ versionKeys scope id := by
  obtain ⟨stored,member,equal⟩ := Dict.mem_of_get? versioned
  cases eq_of_beq equal
  simp only [versionKeys,found]
  exact List.mem_map.mpr ⟨_,member,rfl⟩

theorem kept_keeps {id : CheckpointId} (keep : id ∈ keepIds (scopeAt serde s threadId ns)) :
    Keeps (scopeAt serde s threadId ns) (scopeAt serde (pruneThread clamp serde s threadId) threadId ns) id := by
  refine ⟨kept_entry keep,fun stored found channel => ?_⟩
  change (((scopeAt serde s threadId ns).versions stored).get? channel).bind _ = _
  unfold Scope.ownBlob
  cases versioned : ((scopeAt serde s threadId ns).versions stored).get? channel with
  | none => rfl
  | some version => exact kept_blob keep ⟨_,own_version_listed found versioned,BEq.rfl⟩

theorem pruned_fewer (id : CheckpointId) (absent : (scopeAt serde s threadId ns).checkpoints.get? id = none) :
    (scopeAt serde (pruneThread clamp serde s threadId) threadId ns).checkpoints.get? id = none := by
  change (Saver.checkpointsAt _ threadId ns).get? id = none
  rw [pruned_checkpoints,Dict.get?_none_iff]
  exact fun e member => Dict.get?_none_iff.mp absent e (List.mem_filter.mp member).1

theorem pruned_smaller : (scopeAt serde (pruneThread clamp serde s threadId) threadId ns).checkpoints.size ≤
    (scopeAt serde s threadId ns).checkpoints.size := by
  change (Saver.checkpointsAt _ threadId ns).size ≤ _
  rw [pruned_checkpoints]
  exact List.length_filter_le _ _

-- What a resume from the newest checkpoint of a namespace reads is as it was.
structure Resumable (serde : Serde) (s s' : Saver) (threadId ns : String) (latest : CheckpointId) (entry : Entry) :
    Prop where
  stored : s'.entryAt threadId ns latest = some entry
  newest : newest (s'.checkpointsAt threadId ns).keys = some latest
  blobs : ∀ channel version, ((scopeAt serde s threadId ns).versions entry).get? channel = some version →
    s'.blobs.get? ⟨threadId,ns,channel,version⟩ = s.blobs.get? ⟨threadId,ns,channel,version⟩
  writes : s'.writes.get? ⟨threadId,ns,latest⟩ = s.writes.get? ⟨threadId,ns,latest⟩
  history : ∀ channel ∈ (scopeAt serde s threadId ns).counters entry,
    (((scopeAt serde s threadId ns).versions entry).get? channel).isSome →
    materialised ((scopeAt serde s threadId ns).ownBlob entry channel) = false →
    (scopeAt serde s' threadId ns).deltaHistory s'.writes entry channel =
      (scopeAt serde s threadId ns).deltaHistory s.writes entry channel

theorem prune_resumable {latest : CheckpointId} {entry : Entry}
    (newest_ : newest (s.checkpointsAt threadId ns).keys = some latest)
    (found : s.entryAt threadId ns latest = some entry) :
    Resumable serde s (pruneThread clamp serde s threadId) threadId ns latest entry := by
  have keep : latest ∈ keepIds (scopeAt serde s threadId ns) := by rw [latest_kept newest_ found]; exact List.mem_cons_self
  refine ⟨(kept_entry keep).trans found,?_,?_,kept_writes keep,?_⟩
  · rw [pruned_checkpoints]
    have keys : (kept (scopeAt serde s threadId ns)).keys =
        (s.checkpointsAt threadId ns).keys.filter fun id => (keepIds (scopeAt serde s threadId ns)).contains id := by
      simp only [Dict.keys,kept,Dict.entries_filter,List.filter_map]
      rfl
    rw [keys]
    exact newest_filter newest_ (List.contains_iff_mem.mpr keep)
  · intro channel version versioned
    exact kept_blob keep ⟨_,own_version_listed found versioned,BEq.rfl⟩
  · intro channel counted versioned open_
    have names : (scopeAt serde (pruneThread clamp serde s threadId) threadId ns).threadId =
        (scopeAt serde s threadId ns).threadId := rfl
    refine history_preserved pruned_fewer pruned_smaller ⟨names,rfl⟩
      (Scope.mem_neededChannels.mpr ⟨counted,versioned,open_⟩) fun id member => ?_
    have chain : id ∈ keepIds (scopeAt serde s threadId ns) := by
      rw [latest_kept newest_ found]; exact List.mem_cons_of_mem _ member
    exact ⟨kept_keeps chain,kept_writes chain⟩

end one_thread

theorem keep_latest_resumable (clamp : Int → Int) (serde : Serde) (s : Saver) (threadId ns : String)
    (latest : CheckpointId) (newest_ : newest (s.checkpointsAt threadId ns).keys = some latest) :
    ∃ s' entry, prune clamp serde s [threadId] "keep_latest" = .ok s' ∧ s.entryAt threadId ns latest = some entry ∧
      Resumable serde s s' threadId ns latest entry := by
  obtain ⟨row,member,equal⟩ := List.mem_map.mp (newest_mem newest_)
  have found : s.entryAt threadId ns latest = some row.2 := Dict.get?_of_mem member (beq_iff_eq.mpr equal)
  refine ⟨pruneThread clamp serde s threadId,row.2,?_,found,prune_resumable newest_ found⟩
  unfold prune
  rw [if_neg (by decide),if_neg (by decide)]
  rfl

-- A toy serializer for concrete runs. The first byte of a checkpoint is its
-- version of `messages`; metadata holds 1 if it counts deltas and 9 for run `r`.
def toySerde : Serde :=
  ⟨fun value => ⟨match value.data with
      | [] => .empty
      | version :: _ => Dict.empty.insert "messages" (.int version.toNat)⟩,
   fun value => ⟨if value.data.contains 9 then some "r" else none,
      if value.data.contains 1 then some ["messages","draft"] else none⟩⟩

-- `c` counts deltas on top of the snapshot at `a`; `b` is an old branch.
def toySaver (head : List UInt8) : Saver :=
  let entry := fun payload metadata parentId => (⟨⟨"msgpack",payload⟩,⟨"msgpack",metadata⟩,parentId⟩ : Entry)
  let rows : Checkpoints := ((Dict.empty.insert (.text "a") (entry [1] [] none)).insert (.text "b")
    (entry [1] [] (some (.text "a")))).insert (.text "c") (entry head [1] (some (.text "a")))
  {storage := Dict.empty.insert "t" ⟨Dict.empty.insert "" rows,true⟩
   writes := Dict.empty
   blobs := (Dict.empty.insert ⟨"t","","messages",.int 1⟩ ⟨"msgpack",[7]⟩).insert ⟨"t","","messages",.int 2⟩ ⟨"empty",[]⟩
   sizeState := .clear}

theorem keep_latest_resumable_toy :
    ∃ s' entry, prune (max 0) toySerde (toySaver [2]) ["t"] "keep_latest" = .ok s' ∧
      (toySaver [2]).entryAt "t" "" (.text "c") = some entry ∧
      Resumable toySerde (toySaver [2]) s' "t" "" (.text "c") entry :=
  keep_latest_resumable (max 0) toySerde (toySaver [2]) "t" "" (.text "c") (by decide)

-- A counted channel without a version at the newest checkpoint is not walked
-- for, so what could have been folded for it goes with the old checkpoints.
theorem keep_latest_versionless_channel :
    let s := toySaver []
    let s' := pruneThread (max 0) toySerde s "t"
    let entry : Entry := ⟨⟨"msgpack",[]⟩,⟨"msgpack",[1]⟩,some (.text "a")⟩
    prune (max 0) toySerde s ["t"] "keep_latest" = .ok s' ∧
      newest (s.checkpointsAt "t" "").keys = some (.text "c") ∧ s.entryAt "t" "" (.text "c") = some entry ∧
      "messages" ∈ (scopeAt toySerde s "t" "").counters entry ∧
      materialised ((scopeAt toySerde s "t" "").ownBlob entry "messages") = false ∧
      (scopeAt toySerde s "t" "").deltaHistory s.writes entry "messages" = [(.text "a",none,some ⟨"msgpack",[7]⟩)] ∧
      (scopeAt toySerde s' "t" "").deltaHistory s'.writes entry "messages" = [] :=
  ⟨rfl,by decide⟩

end InmemRuntime.PruneHistory
