import InmemRuntime.Prune

namespace InmemRuntime.DeleteForRuns
open OrderedDict AncestorChain CheckpointData CheckpointSaver SizeTracking DeltaWalk Prune

-- `(thread_id, checkpoint_ns, checkpoint_id)`, as pending writes are keyed too.
abbrev CheckpointKey := WriteKey

section deleting
variable (clamp : Int → Int) (serde : Serde) (runIds : List String)

def targeted (entry : Entry) : Bool :=
  match (serde.loadsMetadata entry.metadata).runId with
  | some runId => runIds.contains runId
  | none => false

-- The checkpoints in the order in which the nested loops meet them.
def rows (s : Saver) : List (CheckpointKey × Entry) :=
  s.storage.entries.flatMap fun thread => thread.2.dict.entries.flatMap fun ns =>
    ns.2.entries.map fun row => (⟨thread.1,ns.1,row.1⟩,row.2)

def candidates (s : Saver) : List CheckpointKey :=
  ((rows s).filter fun row => targeted serde runIds row.2).map Prod.fst

-- The targeted parents that one surviving checkpoint needs.
def protectedBy (candidates : List CheckpointKey) (scope : Scope) (row : CheckpointId × Entry) : List CheckpointKey :=
  if candidates.contains (scope.key row.1) then []
  else ((scope.walked row.2).map scope.key).filter fun parent => candidates.contains parent

def protectedKeys (s : Saver) : List CheckpointKey :=
  s.storage.entries.flatMap fun thread => thread.2.dict.entries.flatMap fun ns =>
    ns.2.entries.flatMap (protectedBy (candidates serde runIds s) (scopeOf serde s thread.1 ns.1 ns.2))

def removed (s : Saver) : List CheckpointKey :=
  (candidates serde runIds s).filter fun key => !(protectedKeys serde runIds s).contains key

def referencedBy (s : Saver) (keys : List CheckpointKey) : List BlobKey :=
  keys.flatMap fun key => versionKeys (scopeAt serde s key.threadId key.checkpointNs) key.checkpointId

-- `del storage[...]`, then the namespaces and threads left without checkpoints.
def dropCheckpoints (gone : List CheckpointKey) (s : Saver) : Dict String Namespaces :=
  (s.storage.mapValues fun threadId namespaces => ⟨(namespaces.dict.mapValues fun ns checkpoints =>
    checkpoints.filter fun id _ => !gone.contains ⟨threadId,ns,id⟩).filter fun _ checkpoints => !checkpoints.isEmpty,
    namespaces.auto⟩).filter fun _ namespaces => !namespaces.dict.isEmpty

def withoutKeys (s : Saver) (gone : List CheckpointKey) : Saver :=
  let storage := dropCheckpoints gone s
  let removedBlobKeys := referencedBy serde s gone
  let retainedBlobKeys := referencedBy serde {s with storage} ((rows {s with storage}).map Prod.fst)
  {s with
    storage
    writes := s.writes.filter fun key _ => !(gone.map normalized).contains (normalized key)
    blobs := s.blobs.filter fun key _ => !(removedBlobKeys.contains key && !retainedBlobKeys.contains key)}

def deleteForRuns (s : Saver) : Saver :=
  if runIds.isEmpty then s
  else if (candidates serde runIds s).isEmpty then s
  else if (removed serde runIds s).isEmpty then s
  else rebuildSizeTracking clamp (withoutKeys serde s (removed serde runIds s))

end deleting

theorem checkpointsAt_of_mem {s : Saver} {thread : String × Namespaces} {ns : String × Checkpoints}
    (bucket : thread ∈ s.storage.entries) (row : ns ∈ thread.2.dict.entries) : s.checkpointsAt thread.1 ns.1 = ns.2 := by
  simp [Saver.checkpointsAt,Dict.mem_iff.mp bucket,Dict.mem_iff.mp row]

theorem mem_of_entry {s : Saver} {threadId ns : String} {id : CheckpointId} {entry : Entry}
    (found : s.entryAt threadId ns id = some entry) : ∃ namespaces, (threadId,namespaces) ∈ s.storage.entries ∧
      (ns,s.checkpointsAt threadId ns) ∈ namespaces.dict.entries := by
  cases thread : s.storage.get? threadId with
  | none => simp [Saver.entryAt,Saver.checkpointsAt,thread] at found
  | some namespaces =>
    cases bucket : namespaces.dict.get? ns with
    | none => simp [Saver.entryAt,Saver.checkpointsAt,thread,bucket] at found
    | some checkpoints =>
      refine ⟨namespaces,Dict.mem_iff.mpr thread,?_⟩
      simpa [Saver.checkpointsAt,thread,bucket] using Dict.mem_iff.mpr bucket

theorem mem_rows {s : Saver} {key : CheckpointKey} {entry : Entry} :
    (key,entry) ∈ rows s ↔ s.entryAt key.threadId key.checkpointNs key.checkpointId = some entry := by
  constructor
  · intro member
    obtain ⟨thread,bucket,inner⟩ := List.mem_flatMap.mp member
    obtain ⟨ns,row,deeper⟩ := List.mem_flatMap.mp inner
    obtain ⟨stored,held,equal⟩ := List.mem_map.mp deeper
    cases equal
    rw [← checkpointsAt_of_mem bucket row] at held
    exact Dict.mem_iff.mp held
  · intro found
    obtain ⟨namespaces,bucket,row⟩ := mem_of_entry found
    exact List.mem_flatMap.mpr ⟨_,bucket,List.mem_flatMap.mpr ⟨_,row,
      List.mem_map.mpr ⟨(key.checkpointId,entry),Dict.mem_iff.mpr found,rfl⟩⟩⟩

-- A bucket that is dropped because it is empty reads as the empty one it was.
theorem nonempty_getD (bucket : Option Checkpoints) :
    (bucket.filter fun checkpoints => !checkpoints.isEmpty).getD .empty = bucket.getD .empty := by
  cases bucket with
  | none => rfl
  | some checkpoints =>
    cases empty : checkpoints.isEmpty with
    | false => simp [Option.filter,empty]
    | true => simp [Dict.isEmpty_iff.mp empty,Option.filter]

theorem nonempty_bind (thread : Option Namespaces) (ns : String) :
    ((thread.filter fun namespaces => !namespaces.dict.isEmpty).bind fun namespaces => namespaces.dict.get? ns) =
      thread.bind fun namespaces => namespaces.dict.get? ns := by
  cases thread with
  | none => rfl
  | some namespaces =>
    cases empty : namespaces.dict.isEmpty with
    | false => simp [Option.filter,empty]
    | true => simp [Dict.isEmpty_iff.mp empty,Option.filter]

section dropping
variable {serde : Serde} {s : Saver} {gone : List CheckpointKey}

theorem dropped_checkpointsAt (threadId ns : String) : (withoutKeys serde s gone).checkpointsAt threadId ns =
    (s.checkpointsAt threadId ns).filter fun id _ => !gone.contains ⟨threadId,ns,id⟩ := by
  have nothing : (Dict.empty : Checkpoints).filter (fun id _ => !gone.contains ⟨threadId,ns,id⟩) = .empty := Dict.ext rfl
  unfold withoutKeys dropCheckpoints Saver.checkpointsAt
  simp only [Dict.get?_keep,Dict.get?_map,nonempty_bind]
  cases s.storage.get? threadId with
  | none => exact nothing.symm
  | some namespaces =>
    simp only [Option.map_some,Option.bind_some,Dict.get?_keep,Dict.get?_map,nonempty_getD]
    cases namespaces.dict.get? ns with
    | none => exact nothing.symm
    | some checkpoints => rfl

theorem dropped_writes (key : WriteKey) : (withoutKeys serde s gone).writes.get? key =
    if normalized key ∈ gone.map normalized then none else s.writes.get? key := by
  unfold withoutKeys
  rw [Dict.get?_keep]
  cases s.writes.get? key <;> by_cases member : normalized key ∈ gone.map normalized <;>
    simp only [Option.filter,List.contains_eq_mem,member,decide_true,decide_false,Bool.not_true,Bool.not_false,
      Bool.false_eq_true,↓reduceIte]

-- A checkpoint refers to a blob when its own version of the channel is that key.
def Refers (serde : Serde) (s : Saver) (key : CheckpointKey) (blob : BlobKey) : Prop :=
  ∃ entry version, s.entryAt key.threadId key.checkpointNs key.checkpointId = some entry ∧
    (serde.loadsCheckpoint entry.checkpoint).channelVersions.get? blob.channel = some version ∧
    key.threadId = blob.threadId ∧ key.checkpointNs = blob.checkpointNs ∧ (blob.version == version) = true

theorem referencedBy_contains {keys : List CheckpointKey} {blob : BlobKey} :
    (referencedBy serde s keys).contains blob = true ↔ ∃ key ∈ keys, Refers serde s key blob := by
  rw [List.contains_iff_exists_mem_beq]
  constructor
  · rintro ⟨stored,member,equal⟩
    obtain ⟨key,listed,own⟩ := List.mem_flatMap.mp member
    unfold versionKeys at own
    split at own
    · cases own
    · rename_i entry found
      obtain ⟨row,versioned,rfl⟩ := List.mem_map.mp own
      obtain ⟨thread,ns,channel,version⟩ := blobKey_beq.mp equal
      exact ⟨key,listed,entry,row.2,found,channel ▸ Dict.mem_iff.mp versioned,thread.symm,ns.symm,version⟩
  · rintro ⟨key,listed,entry,version,found,versioned,thread,ns,equal⟩
    refine ⟨⟨key.threadId,key.checkpointNs,blob.channel,version⟩,List.mem_flatMap.mpr ⟨key,listed,?_⟩,
      blobKey_beq.mpr ⟨thread.symm,ns.symm,rfl,equal⟩⟩
    unfold versionKeys
    change (scopeAt serde s key.threadId key.checkpointNs).checkpoints.get? key.checkpointId = some entry at found
    simp only [found]
    exact List.mem_map.mpr ⟨_,Dict.mem_iff.mpr versioned,rfl⟩

theorem retained_contains {blob : BlobKey} :
    (referencedBy serde s ((rows s).map Prod.fst)).contains blob = true ↔ ∃ key, Refers serde s key blob := by
  rw [referencedBy_contains]
  constructor
  · rintro ⟨key,_,refers⟩
    exact ⟨key,refers⟩
  · rintro ⟨key,entry,version,found,rest⟩
    exact ⟨key,List.mem_map.mpr ⟨_,mem_rows.mpr found,rfl⟩,entry,version,found,rest⟩

theorem dropped_blob (blob : BlobKey) : (withoutKeys serde s gone).blobs.get? blob =
    (s.blobs.get? blob).filter fun _ => !((referencedBy serde s gone).contains blob &&
      !(referencedBy serde (withoutKeys serde s gone) ((rows (withoutKeys serde s gone)).map Prod.fst)).contains blob) := by
  have respects : ∀ (keys : List BlobKey) (stored : BlobKey), (stored == blob) = true →
      keys.contains stored = keys.contains blob := fun keys stored equal => Dict.contains_congr equal
  exact Dict.get?_filter fun stored _ equal => by rw [respects _ stored equal,respects _ stored equal]

end dropping

-- How the three stores read after a set of checkpoints was dropped.
structure Dropped (serde : Serde) (s s' : Saver) (gone : List CheckpointKey) : Prop where
  checkpoints : ∀ threadId ns, s'.checkpointsAt threadId ns =
    (s.checkpointsAt threadId ns).filter fun id _ => !gone.contains ⟨threadId,ns,id⟩
  writes : ∀ key, s'.writes.get? key =
    if normalized key ∈ gone.map normalized then none else s.writes.get? key
  lost : ∀ blob, (∃ key ∈ gone, Refers serde s key blob) → (¬ ∃ key, Refers serde s' key blob) → s'.blobs.get? blob = none
  held : ∀ blob, (¬ ∃ key ∈ gone, Refers serde s key blob) ∨ (∃ key, Refers serde s' key blob) →
    s'.blobs.get? blob = s.blobs.get? blob

theorem dropped_nothing (serde : Serde) (s : Saver) : Dropped serde s s [] := by
  refine ⟨fun threadId ns => Dict.ext ?_,fun key => by simp,?_,fun _ _ => rfl⟩
  · simp
  · rintro blob ⟨key,member,_⟩
    cases member

theorem withoutKeys_dropped (serde : Serde) (s : Saver) (gone : List CheckpointKey) :
    Dropped serde s (withoutKeys serde s gone) gone := by
  refine ⟨dropped_checkpointsAt,dropped_writes,?_,?_⟩
  · intro blob referenced orphan
    have lost := referencedBy_contains.mpr referenced
    have unheld := Bool.eq_false_iff.mpr (mt retained_contains.mp orphan)
    rw [dropped_blob,lost,unheld]
    cases s.blobs.get? blob <;> rfl
  · intro blob reason
    rw [dropped_blob]
    rcases reason with untouched | retained
    · rw [Bool.eq_false_iff.mpr (mt referencedBy_contains.mp untouched)]
      cases s.blobs.get? blob <;> rfl
    · rw [retained_contains.mpr retained,Bool.not_true,Bool.and_false]
      cases s.blobs.get? blob <;> rfl

section dropped
variable {serde : Serde} {s s' : Saver} {gone : List CheckpointKey}

theorem Dropped.entry (dropped : Dropped serde s s' gone) (threadId ns : String) (id : CheckpointId) :
    s'.entryAt threadId ns id = if (⟨threadId,ns,id⟩ : CheckpointKey) ∈ gone then none else s.entryAt threadId ns id := by
  unfold Saver.entryAt
  rw [dropped.checkpoints,Dict.get?_keep]
  cases (s.checkpointsAt threadId ns).get? id <;> by_cases member : (⟨threadId,ns,id⟩ : CheckpointKey) ∈ gone <;>
    simp [Option.filter,member]

theorem Dropped.staying (dropped : Dropped serde s s' gone) {threadId ns : String} {id : CheckpointId}
    (stays : (⟨threadId,ns,id⟩ : CheckpointKey) ∉ gone) : s'.entryAt threadId ns id = s.entryAt threadId ns id := by
  rw [dropped.entry,if_neg stays]

theorem Dropped.before (dropped : Dropped serde s s' gone) {threadId ns : String} {id : CheckpointId} {entry : Entry}
    (found : s'.entryAt threadId ns id = some entry) : s.entryAt threadId ns id = some entry := by
  rw [dropped.entry] at found
  split at found
  · cases found
  · exact found

theorem Dropped.refers (dropped : Dropped serde s s' gone) {key : CheckpointKey} {blob : BlobKey} :
    Refers serde s' key blob ↔ key ∉ gone ∧ Refers serde s key blob := by
  unfold Refers
  rw [dropped.entry]
  by_cases member : key ∈ gone
  · simp [show (⟨key.threadId,key.checkpointNs,key.checkpointId⟩ : CheckpointKey) ∈ gone from member]
  · simp [show (⟨key.threadId,key.checkpointNs,key.checkpointId⟩ : CheckpointKey) ∉ gone from member]

-- Pending writes are dropped by the text of a checkpoint id, so two ids of a
-- namespace that print alike share their fate there.
def TextApart (s : Saver) (threadId ns : String) : Prop :=
  ∀ id id', (s.entryAt threadId ns id).isSome → (s.entryAt threadId ns id').isSome → id.str = id'.str → id = id'

-- With distinct texts the writes of a checkpoint go exactly when it goes.
theorem Dropped.writes_kept (dropped : Dropped serde s s' gone) {threadId ns : String} {id : CheckpointId}
    (stored : ∀ key ∈ gone, (s.entryAt key.threadId key.checkpointNs key.checkpointId).isSome)
    (apart : TextApart s threadId ns) (here : (s.entryAt threadId ns id).isSome)
    (stays : (⟨threadId,ns,id⟩ : CheckpointKey) ∉ gone) :
    s'.writes.get? ⟨threadId,ns,id⟩ = s.writes.get? ⟨threadId,ns,id⟩ := by
  rw [dropped.writes,if_neg]
  intro member
  obtain ⟨key,listed,equal⟩ := List.mem_map.mp member
  have present := stored key listed
  obtain ⟨thread,ns',id'⟩ := key
  injection equal with sameThread rest
  injection rest with sameNs sameText
  cases sameThread; cases sameNs
  rw [apart id' id present here sameText] at listed
  exact stays listed

theorem Dropped.keeps (dropped : Dropped serde s s' gone) {threadId ns : String} {id : CheckpointId}
    (stays : (⟨threadId,ns,id⟩ : CheckpointKey) ∉ gone) :
    Keeps (scopeAt serde s threadId ns) (scopeAt serde s' threadId ns) id := by
  refine ⟨dropped.staying stays,fun stored found channel => ?_⟩
  unfold Scope.ownBlob
  change (((scopeAt serde s threadId ns).versions stored).get? channel).bind _ = _
  cases versioned : ((scopeAt serde s threadId ns).versions stored).get? channel with
  | none => rfl
  | some version =>
    refine dropped.held ⟨threadId,ns,channel,version⟩ (.inr ⟨⟨threadId,ns,id⟩,stored,version,?_,versioned,rfl,rfl,BEq.rfl⟩)
    exact (dropped.staying stays).trans found

end dropped

section deletion
variable {clamp : Int → Int} {serde : Serde} {runIds : List String} {s : Saver}

theorem mem_candidates {key : CheckpointKey} : key ∈ candidates serde runIds s ↔
    ∃ entry, s.entryAt key.threadId key.checkpointNs key.checkpointId = some entry ∧ targeted serde runIds entry = true := by
  simp only [candidates,List.mem_map,List.mem_filter,Prod.exists,exists_and_right,exists_eq_right,mem_rows]

-- A targeted checkpoint is needed when it lies on the delta chain of a
-- checkpoint of its namespace that is not targeted.
def Needed (serde : Serde) (runIds : List String) (s : Saver) (threadId ns : String) (id : CheckpointId) : Prop :=
  ∃ survivor entry, s.entryAt threadId ns survivor = some entry ∧ targeted serde runIds entry = false ∧
    id ∈ (scopeAt serde s threadId ns).deltaChain entry

theorem mem_protectedKeys {key : CheckpointKey} : key ∈ protectedKeys serde runIds s ↔
    key ∈ candidates serde runIds s ∧ Needed serde runIds s key.threadId key.checkpointNs key.checkpointId := by
  constructor
  · intro member
    obtain ⟨thread,bucket,inner⟩ := List.mem_flatMap.mp member
    obtain ⟨ns,row,deeper⟩ := List.mem_flatMap.mp inner
    obtain ⟨survivor,stored,held⟩ := List.mem_flatMap.mp deeper
    rw [← checkpointsAt_of_mem bucket row] at stored held
    unfold protectedBy at held
    split at held
    · cases held
    · rename_i free
      obtain ⟨listed,candidate⟩ := List.mem_filter.mp held
      obtain ⟨id,walked,rfl⟩ := List.mem_map.mp listed
      have found : s.entryAt thread.1 ns.1 survivor.1 = some survivor.2 := Dict.mem_iff.mp stored
      refine ⟨List.contains_iff_mem.mp candidate,survivor.1,survivor.2,found,?_,?_⟩
      · rw [List.contains_iff_mem,mem_candidates] at free
        exact Bool.eq_false_iff.mpr fun target => free ⟨_,found,target⟩
      · rw [Scope.walked_deltaChain] at walked
        exact walked
  · rintro ⟨candidate,survivor,entry,found,free,chain⟩
    obtain ⟨namespaces,bucket,row⟩ := mem_of_entry found
    refine List.mem_flatMap.mpr ⟨_,bucket,List.mem_flatMap.mpr ⟨_,row,List.mem_flatMap.mpr ⟨(survivor,entry),?_,?_⟩⟩⟩
    · exact Dict.mem_iff.mpr found
    · have spared : (candidates serde runIds s).contains ⟨key.threadId,key.checkpointNs,survivor⟩ = false := by
        rw [Bool.eq_false_iff,Ne,List.contains_iff_mem,mem_candidates]
        rintro ⟨other,same,target⟩
        cases found.symm.trans same
        rw [free] at target
        cases target
      rw [← Scope.walked_deltaChain] at chain
      simp only [protectedBy,scopeOf,Scope.key,spared,Bool.false_eq_true,↓reduceIte]
      exact List.mem_filter.mpr ⟨List.mem_map.mpr ⟨key.checkpointId,chain,rfl⟩,List.contains_iff_mem.mpr candidate⟩

theorem mem_removed {key : CheckpointKey} : key ∈ removed serde runIds s ↔
    (∃ entry, s.entryAt key.threadId key.checkpointNs key.checkpointId = some entry ∧
      targeted serde runIds entry = true) ∧ ¬ Needed serde runIds s key.threadId key.checkpointNs key.checkpointId := by
  simp only [removed,List.mem_filter,Bool.not_eq_true',List.contains_eq_mem,decide_eq_false_iff_not,mem_protectedKeys,
    ← mem_candidates]
  exact ⟨fun ⟨candidate,free⟩ => ⟨candidate,fun needed => free ⟨candidate,needed⟩⟩,
    fun ⟨candidate,free⟩ => ⟨candidate,fun held => free held.2⟩⟩

theorem deleteForRuns_cases : (removed serde runIds s = [] ∧ deleteForRuns clamp serde runIds s = s) ∨
    deleteForRuns clamp serde runIds s = rebuildSizeTracking clamp (withoutKeys serde s (removed serde runIds s)) := by
  unfold deleteForRuns
  split
  · rename_i none
    refine .inl ⟨List.eq_nil_iff_forall_not_mem.mpr fun key member => ?_,rfl⟩
    obtain ⟨⟨entry,_,target⟩,_⟩ := mem_removed.mp member
    simp [targeted,List.isEmpty_iff.mp none] at target
    split at target <;> cases target
  · split
    · rename_i none
      exact .inl ⟨by simp [removed,List.isEmpty_iff.mp none],rfl⟩
    · split
      · rename_i none
        exact .inl ⟨List.isEmpty_iff.mp none,rfl⟩
      · exact .inr rfl

theorem deleteForRuns_dropped (clamp : Int → Int) (serde : Serde) (runIds : List String) (s : Saver) :
    Dropped serde s (deleteForRuns clamp serde runIds s) (removed serde runIds s) := by
  rcases (deleteForRuns_cases : _ ∨ deleteForRuns clamp serde runIds s = _) with ⟨none,same⟩ | rebuilt
  · rw [none,same]
    exact dropped_nothing serde s
  · rw [rebuilt]
    obtain ⟨checkpoints,writes,lost,held⟩ := withoutKeys_dropped serde s (removed serde runIds s)
    exact ⟨checkpoints,writes,lost,held⟩

end deletion

end InmemRuntime.DeleteForRuns
