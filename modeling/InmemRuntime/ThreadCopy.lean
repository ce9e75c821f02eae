import InmemRuntime.Saver

namespace InmemRuntime.ThreadCopy
open OrderedDict CheckpointData CheckpointSaver SizeTracking

-- What `_replace_thread_id` does to texts and to bytes: the source id, where
-- it occurs, gives way to the new id, which has the same length.
structure IdSubstitution where
  text : String → String
  data : List UInt8 → List UInt8
  text_length : ∀ value, (text value).utf8ByteSize = value.utf8ByteSize
  data_length : ∀ value, (data value).length = value.length

section replacing
variable (sub : IdSubstitution)

def replaceTyped (value : Typed) : Typed := ⟨sub.text value.type,sub.data value.data⟩

-- The data goes through JSON, which has no encoding for a `UUID`.
def replaceId : CheckpointId → Option CheckpointId
  | .text value => some (.text (sub.text value))
  | .uuid _ => none

def replaceParent : Option CheckpointId → Option (Option CheckpointId)
  | some id => (replaceId sub id).map some
  | none => some none

def replaceEntry (row : CheckpointId × Entry) : Option (CheckpointId × Entry) :=
  match replaceId sub row.1,replaceParent sub row.2.parentId with
  | some id,some parentId => some (id,⟨replaceTyped sub row.2.checkpoint,replaceTyped sub row.2.metadata,parentId⟩)
  | _,_ => none

def replaceCheckpoints (row : String × Checkpoints) : Option (String × Checkpoints) :=
  (row.2.entries.mapM (replaceEntry sub)).map fun rows => (sub.text row.1,Dict.empty.update rows)

def replaceNamespaces (namespaces : Dict String Checkpoints) : Option (Dict String Checkpoints) :=
  (namespaces.entries.mapM (replaceCheckpoints sub)).map Dict.empty.update

def replaceWrite (write : Write) : Write :=
  ⟨sub.text write.taskId,sub.text write.channel,replaceTyped sub write.value,sub.text write.taskPath⟩

def replaceGroup (group : WriteGroup) : WriteGroup := group.mapValues fun _ write => replaceWrite sub write

-- The saver's part of `Threads.copy`. Reading the source creates its bucket;
-- the copy is a plain dictionary, and only its values are rewritten in `writes`.
def copyThread (s : Saver) (source target : String) : Option Saver :=
  let namespaces := s.namespaces source
  match replaceNamespaces sub namespaces.dict with
  | none => none
  | some copied =>
    let groups := s.writes.entries.filter fun row => row.1.threadId == source
    let values := s.blobs.entries.filter fun row => row.1.threadId == source
    some {
      storage := (s.storage.insert source namespaces).insert target ⟨copied,false⟩
      writes := s.writes.update (groups.map fun row => ({row.1 with threadId := target},replaceGroup sub row.2))
      blobs := s.blobs.update (values.map fun row => ({row.1 with threadId := target},row.2))
      sizeState := s.sizeState.copyThread source target}

end replacing

-- A freshly drawn id names nothing yet, and putting it in place of the source
-- id does not make two namespaces or two checkpoint ids of the source equal.
structure FreshTarget (sub : IdSubstitution) (s : Saver) (source target : String) : Prop where
  other : source ≠ target
  storage : s.storage.get? target = none
  writes : ∀ row ∈ s.writes.entries, row.1.threadId ≠ target
  blobs : ∀ row ∈ s.blobs.entries, row.1.threadId ≠ target
  namespaces : ∀ ns ∈ (s.namespaces source).dict.keys, ∀ ns' ∈ (s.namespaces source).dict.keys,
    sub.text ns = sub.text ns' → ns = ns'
  ids : ∀ row ∈ (s.namespaces source).dict.entries, ∀ id ∈ row.2.keys, ∀ id' ∈ row.2.keys,
    sub.text id.str = sub.text id'.str → id.str = id'.str

section sizes
variable {sub : IdSubstitution}

theorem replaceTyped_size (value : Typed) : typedPayloadSize (replaceTyped sub value) = typedPayloadSize value := by
  simp [typedPayloadSize,replaceTyped,componentSize,sub.text_length,sub.data_length]

theorem replaceId_text {id id' : CheckpointId} (replaced : replaceId sub id = some id') :
    id = .text id.str ∧ id' = .text (sub.text id.str) := by
  cases id with
  | text value => exact ⟨rfl,(Option.some.inj replaced).symm⟩
  | uuid value => cases replaced

theorem replaceId_size {id id' : CheckpointId} (replaced : replaceId sub id = some id') :
    componentSize id'.component = componentSize id.component := by
  obtain ⟨text,equal⟩ := replaceId_text replaced
  rw [equal,text]
  simp [CheckpointId.component,componentSize,sub.text_length,CheckpointId.str]

theorem replaceEntry_parts {row row' : CheckpointId × Entry} (replaced : replaceEntry sub row = some row') :
    replaceId sub row.1 = some row'.1 ∧ checkpointEntrySize row'.1 row'.2 = checkpointEntrySize row.1 row.2 := by
  unfold replaceEntry at replaced
  split at replaced
  · rename_i id parentId here parent
    cases Option.some.inj replaced
    refine ⟨here,?_⟩
    have parentSize : componentSize (parentComponent parentId) = componentSize (parentComponent row.2.parentId) := by
      cases link : row.2.parentId with
      | none => rw [link] at parent; cases Option.some.inj parent; rfl
      | some old =>
        rw [link] at parent
        obtain ⟨new,hit,rfl⟩ := Option.map_eq_some_iff.mp parent
        exact replaceId_size hit
    simp only [checkpointEntrySize,replaceTyped_size,replaceId_size here,parentSize]
  · cases replaced

theorem replaceGroup_size (checkpointId : CheckpointId) (group : WriteGroup) :
    writeGroupSize checkpointId (replaceGroup sub group) = writeGroupSize checkpointId group := by
  have empty : (replaceGroup sub group).isEmpty = group.isEmpty := by simp [replaceGroup,Dict.isEmpty]
  unfold writeGroupSize
  rw [empty,replaceGroup,Dict.sum_mapValues]
  congr 2
  refine Dict.sum_congr fun row _ => ?_
  simp [writeSize,replaceWrite,replaceTyped_size,componentSize,sub.text_length]

end sizes

end InmemRuntime.ThreadCopy
