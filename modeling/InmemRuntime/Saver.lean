import InmemRuntime.CheckpointData
import InmemRuntime.SizeState

namespace InmemRuntime.CheckpointSaver
open OrderedDict CheckpointData SizeTracking

abbrev Checkpoints := Dict CheckpointId Entry

-- `storage[thread_id]`. Python builds it as a `defaultdict(dict)`; the thread
-- that `Threads.copy` writes is a plain dictionary and `auto` is false.
structure Namespaces where
  dict : Dict String Checkpoints
  auto : Bool
deriving DecidableEq

structure Saver where
  storage : Dict String Namespaces
  writes : Dict WriteKey WriteGroup
  blobs : Dict BlobKey Typed
  sizeState : SizeState

-- What the base class and its serializer contribute to a write.
structure Base (J : Type) extends Serde where
  dumpsCheckpoint : CheckpointId → J → Typed
  dumpsMetadata : Dict String J → Typed
  dumpsValue : J → Typed
  checkpointMetadata : Dict String J → Dict String J → Dict String J → Dict String J
  writesIdx : String → Option Int

-- `config` with the entries of `configurable` that the saver reads by name;
-- `configurable` itself holds all of them. `checkpointId` is the parent.
structure PutConfig (J : Type) where
  threadId : String
  checkpointNs : String
  checkpointId : Option CheckpointId
  configurable : Dict String J
  metadata : Dict String J

-- `body` is every field of the checkpoint besides its id and its values.
structure Checkpoint (J : Type) where
  id : CheckpointId
  channelValues : Dict String J
  body : J

namespace Saver

def namespaces (s : Saver) (threadId : String) : Namespaces := (s.storage.get? threadId).getD ⟨.empty,true⟩

-- Reading `storage[thread_id][checkpoint_ns]`; absent is the `KeyError` of a plain dictionary.
def bucket (s : Saver) (threadId ns : String) : Option Checkpoints :=
  match (s.namespaces threadId).dict.get? ns with
  | some checkpoints => some checkpoints
  | none => if (s.namespaces threadId).auto then some .empty else none

def setBucket (s : Saver) (threadId ns : String) (checkpoints : Checkpoints) : Saver :=
  let namespaces := s.namespaces threadId
  {s with storage := s.storage.insert threadId ⟨namespaces.dict.insert ns checkpoints,namespaces.auto⟩}

-- `storage.get(thread_id, {}).get(checkpoint_ns, {})`, which creates nothing.
def checkpointsAt (s : Saver) (threadId ns : String) : Checkpoints :=
  ((s.storage.get? threadId).bind fun namespaces => namespaces.dict.get? ns).getD .empty

def entryAt (s : Saver) (threadId ns : String) (id : CheckpointId) : Option Entry :=
  (s.checkpointsAt threadId ns).get? id

end Saver

def excludedKeys : List String := ["checkpoint_ns","checkpoint_id","run_id","thread_id"]

def transientKeys : List String := ["langgraph_request_id","langgraph_auth_user",
  "langgraph_auth_user_id","langgraph_auth_permissions"]

def withoutTransient {J : Type} (d : Dict String J) : Dict String J :=
  d.filter fun k _ => !transientKeys.contains k

def mergedMetadata {J : Type} (config : PutConfig J) (metadata : Dict String J) : Dict String J :=
  let configurable := config.configurable.filter fun k _ =>
    !k.startsWith "__" && !excludedKeys.contains k && !transientKeys.contains k
  (configurable.update (withoutTransient config.metadata).entries).update (withoutTransient metadata).entries

section putting
variable {J : Type} (clamp : Int → Int) (base : Base J)

def blobFor (checkpoint : Checkpoint J) (channel : String) : Typed :=
  match checkpoint.channelValues.get? channel with
  | some value => base.dumpsValue value
  | none => ⟨"empty",[]⟩

def storeBlobs (threadId ns : String) (blob : String → Typed) (blobs : Dict BlobKey Typed)
    (newVersions : List (String × Version)) : Dict BlobKey Typed :=
  newVersions.foldl (fun blobs e => blobs.insert ⟨threadId,ns,e.1,e.2⟩ (blob e.1)) blobs

-- `super().put`: blobs first, then the entry under its namespace.
def basePut (s : Saver) (config : PutConfig J) (checkpoint : Checkpoint J) (metadata : Dict String J)
    (newVersions : Dict String Version) : Option Saver :=
  let blobs := storeBlobs config.threadId config.checkpointNs (blobFor base checkpoint) s.blobs newVersions.entries
  let s := {s with blobs}
  match s.bucket config.threadId config.checkpointNs with
  | none => none
  | some checkpoints =>
    let entry : Entry := ⟨base.dumpsCheckpoint checkpoint.id checkpoint.body,
      base.dumpsMetadata (base.checkpointMetadata config.configurable config.metadata metadata),config.checkpointId⟩
    some (s.setBucket config.threadId config.checkpointNs (checkpoints.insert checkpoint.id entry))

def Saver.blobsSize (s : Saver) (threadId ns : String) (versions : Dict String Version) : Int :=
  versions.sum fun channel version =>
    match s.blobs.get? ⟨threadId,ns,channel,version⟩ with
    | some value => blobEntrySize channel version value
    | none => 0

def Saver.entrySize (s : Saver) (threadId ns : String) (id : CheckpointId) : Int :=
  match s.entryAt threadId ns id with
  | some entry => checkpointEntrySize id entry
  | none => 0

-- An id that is not a `UUID` goes through `str`, which text already is.
def put (s : Saver) (config : PutConfig J) (checkpoint : Checkpoint J) (metadata : Dict String J)
    (newVersions : Dict String Version) : Option Saver :=
  let threadId := config.threadId
  let ns := config.checkpointNs
  let oldEntry := s.entryAt threadId ns checkpoint.id
  let oldSize := s.entrySize threadId ns checkpoint.id + s.blobsSize threadId ns newVersions
  match basePut base s config checkpoint (mergedMetadata config metadata) newVersions with
  | none => none
  | some after =>
    let newSize := after.entrySize threadId ns checkpoint.id + after.blobsSize threadId ns newVersions
    let added : Int := if oldEntry.isNone then 1 else 0
    some {after with sizeState := after.sizeState.adjust clamp threadId (newSize - oldSize) added}

def Saver.group (s : Saver) (key : WriteKey) : WriteGroup := (s.writes.get? key).getD .empty

-- An ordinary write under an index that was already there is kept as it was;
-- special channels have negative indices and are overwritten.
def storeWrite (key : WriteKey) (taskId taskPath : String) (live : Bool) (writes : Dict WriteKey WriteGroup)
    (write : Nat × String × J) : Dict WriteKey WriteGroup :=
  let index := (base.writesIdx write.2.1).getD write.1
  let group := (writes.get? key).getD .empty
  if decide (0 ≤ index) && live && group.contains (taskId,index) then writes
  else writes.insert key (group.insert (taskId,index) ⟨taskId,write.2.1,base.dumpsValue write.2.2,taskPath⟩)

def basePutWrites (s : Saver) (key : WriteKey) (writes : List (String × J)) (taskId taskPath : String) : Saver :=
  let live := (s.writes.get? key).isSome
  let indexed := writes.zipIdx.map fun e => (e.2,e.1)
  {s with writes := indexed.foldl (storeWrite base key taskId taskPath live) s.writes}

def Saver.groupSize (s : Saver) (key : WriteKey) : Int :=
  match s.writes.get? key with
  | some group => writeGroupSize key.checkpointId group
  | none => 0

def putWrites (s : Saver) (key : WriteKey) (writes : List (String × J)) (taskId taskPath : String) : Saver :=
  let after := basePutWrites base s key writes taskId taskPath
  {after with sizeState := after.sizeState.adjust clamp key.threadId (after.groupSize key - s.groupSize key) 0}

end putting

-- `max(..., key=str)`: the first of the greatest.
def newest : List CheckpointId → Option CheckpointId
  | [] => none
  | id :: rest => some (rest.foldl (fun best id => if best.str < id.str then id else best) id)

-- `max(checkpoints.keys())` refuses to compare a text with a `UUID`.
def comparable (ids : List CheckpointId) : Bool :=
  ids.all (fun id => match id with | .text _ => true | .uuid _ => false) ||
    ids.all (fun id => match id with | .text _ => false | .uuid _ => true)

-- The base answer is built from the entry and its pending writes; looking for
-- them in default dictionaries leaves empty buckets and groups behind.
def readTuple (s : Saver) (threadId ns : String) (id : CheckpointId) (entry : Entry) :
    Saver × Option (CheckpointId × Entry × WriteGroup) :=
  let key : WriteKey := ⟨threadId,ns,id⟩
  ({s with writes := s.writes.insert key (s.group key)},some (id,entry,s.group key))

-- `none` is an exception; a `UUID` in the request is looked up as its text.
def getTuple (s : Saver) (threadId ns : String) (checkpointId : Option CheckpointId) :
    Option (Saver × Option (CheckpointId × Entry × WriteGroup)) :=
  match s.bucket threadId ns with
  | none => none
  | some checkpoints =>
    let s := s.setBucket threadId ns checkpoints
    match checkpointId with
    | some id =>
      match checkpoints.get? (.text id.str) with
      | some entry => some (readTuple s threadId ns (.text id.str) entry)
      | none => some (s,none)
    | none =>
      match newest checkpoints.keys with
      | none => some (s,none)
      | some id =>
        if comparable checkpoints.keys then
          match checkpoints.get? id with
          | some entry => some (readTuple s threadId ns id entry)
          | none => some (s,none)
        else none

def deleteThread (s : Saver) (threadId : String) : Saver :=
  {storage := s.storage.erase threadId
   writes := s.writes.filter fun key _ => key.threadId != threadId
   blobs := s.blobs.filter fun key _ => key.threadId != threadId
   sizeState := s.sizeState.removeThread threadId}

def clear : Saver := ⟨.empty,.empty,.empty,.clear⟩

-- One call of `adjust` for each checkpoint, write group and blob, in the order
-- of the three loops of `_rebuild_size_tracking`.
def rebuildCalls (s : Saver) : List (String × Int × Int) :=
  (s.storage.entries.flatMap fun thread => thread.2.dict.entries.flatMap fun ns => ns.2.entries.map fun row =>
    (thread.1,checkpointEntrySize row.1 row.2,1)) ++
  (s.writes.entries.map fun row => (row.1.threadId,writeGroupSize row.1.checkpointId row.2,0)) ++
  (s.blobs.entries.map fun row => (row.1.threadId,blobEntrySize row.1.channel row.1.version row.2,0))

def rebuildSizeTracking (clamp : Int → Int) (s : Saver) : Saver :=
  let sizeState := (rebuildCalls s).foldl (fun size call => size.adjust clamp call.1 call.2.1 call.2.2) .clear
  {s with sizeState}

end InmemRuntime.CheckpointSaver
