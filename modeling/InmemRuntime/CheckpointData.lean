import InmemRuntime.OrderedDict
import Mathlib.Algebra.Order.BigOperators.Group.List

namespace InmemRuntime.CheckpointData
open OrderedDict

-- Storage is keyed by text, but `put` leaves a `uuid.UUID` checkpoint id as it
-- is; such an id and the text it prints as are different dictionary keys.
inductive CheckpointId where
  | text (value : String)
  | uuid (value : String)
deriving DecidableEq,Repr

def CheckpointId.str : CheckpointId → String
  | .text value | .uuid value => value

-- A float version is its exact value together with the text it prints as.
inductive Version where
  | text (value : String)
  | int (value : Int)
  | float (value : Rat) (printed : String)
deriving DecidableEq,Repr

-- What decides key equality: `1` and `1.0` are one key, `"1"` is another.
def Version.identity : Version → String ⊕ Rat
  | .text value => .inl value
  | .int value => .inr value
  | .float value _ => .inr value

instance : BEq Version := ⟨fun x y => decide (x.identity = y.identity)⟩

theorem version_beq {x y : Version} : (x == y) = true ↔ x.identity = y.identity := decide_eq_true_iff

instance : EquivBEq Version where
  rfl := version_beq.mpr rfl
  symm equal := version_beq.mpr (version_beq.mp equal).symm
  trans left right := version_beq.mpr ((version_beq.mp left).trans (version_beq.mp right))

-- An already serialized value: the type tag and the bytes of `dumps_typed`.
structure Typed where
  type : String
  data : List UInt8
deriving DecidableEq,Repr

structure Entry where
  checkpoint : Typed
  metadata : Typed
  parentId : Option CheckpointId
deriving DecidableEq,Repr

structure WriteKey where
  threadId : String
  checkpointNs : String
  checkpointId : CheckpointId
deriving DecidableEq,Repr

structure Write where
  taskId : String
  channel : String
  value : Typed
  taskPath : String
deriving DecidableEq,Repr

-- Pending writes of one checkpoint under `(task_id, index)`.
abbrev WriteGroup := Dict (String × Int) Write

structure BlobKey where
  threadId : String
  checkpointNs : String
  channel : String
  version : Version
deriving DecidableEq,Repr

instance : BEq BlobKey := ⟨fun x y => decide (x.threadId = y.threadId) &&
  (decide (x.checkpointNs = y.checkpointNs) && (decide (x.channel = y.channel) && x.version == y.version))⟩

theorem blobKey_beq {x y : BlobKey} : (x == y) = true ↔ x.threadId = y.threadId ∧
    x.checkpointNs = y.checkpointNs ∧ x.channel = y.channel ∧ (x.version == y.version) = true := by
  change (_ && _) = true ↔ _
  simp only [Bool.and_eq_true,decide_eq_true_eq]

instance : EquivBEq BlobKey where
  rfl := blobKey_beq.mpr ⟨rfl,rfl,rfl,BEq.rfl⟩
  symm equal := by
    obtain ⟨thread,ns,channel,version⟩ := blobKey_beq.mp equal
    exact blobKey_beq.mpr ⟨thread.symm,ns.symm,channel.symm,BEq.symm version⟩
  trans left right := by
    obtain ⟨thread,ns,channel,version⟩ := blobKey_beq.mp left
    obtain ⟨thread',ns',channel',version'⟩ := blobKey_beq.mp right
    exact blobKey_beq.mpr ⟨thread.trans thread',ns.trans ns',channel.trans channel',BEq.trans version version'⟩

-- The cases `_component_size` tells apart; `other` carries `str(value)`.
inductive Component where
  | none
  | str (value : String)
  | bytes (value : List UInt8)
  | other (printed : String)

def componentSize : Component → Int
  | .none => 0
  | .str value => value.utf8ByteSize
  | .bytes value => value.length
  | .other printed => printed.utf8ByteSize

def CheckpointId.component : CheckpointId → Component
  | .text value => .str value
  | .uuid value => .other value

def Version.component : Version → Component
  | .text value => .str value
  | .int value => .other (toString value)
  | .float _ printed => .other printed

def parentComponent : Option CheckpointId → Component
  | some id => id.component
  | none => .none

def typedPayloadSize (value : Typed) : Int :=
  componentSize (.str value.type) + componentSize (.bytes value.data)

def checkpointEntrySize (checkpointId : CheckpointId) (entry : Entry) : Int :=
  componentSize checkpointId.component + typedPayloadSize entry.checkpoint +
    typedPayloadSize entry.metadata + componentSize (parentComponent entry.parentId)

def writeSize (innerKey : String × Int) (write : Write) : Int :=
  componentSize (.str innerKey.1) + componentSize (.other (toString innerKey.2)) +
    componentSize (.str write.taskId) + componentSize (.str write.channel) +
    typedPayloadSize write.value + componentSize (.str write.taskPath)

-- An empty group may be the residue of a read and weighs nothing.
def writeGroupSize (checkpointId : CheckpointId) (writes : WriteGroup) : Int :=
  if writes.isEmpty then 0 else componentSize checkpointId.component + writes.sum writeSize

def blobEntrySize (channel : String) (version : Version) (value : Typed) : Int :=
  componentSize (.str channel) + componentSize version.component + typedPayloadSize value

theorem component_nonneg (part : Component) : 0 ≤ componentSize part := by
  cases part <;> simp [componentSize]

theorem typed_nonneg (value : Typed) : 0 ≤ typedPayloadSize value :=
  Int.add_nonneg (component_nonneg _) (component_nonneg _)

theorem entry_nonneg (checkpointId : CheckpointId) (entry : Entry) : 0 ≤ checkpointEntrySize checkpointId entry := by
  have id := component_nonneg checkpointId.component
  have checkpoint := typed_nonneg entry.checkpoint
  have metadata := typed_nonneg entry.metadata
  have parent := component_nonneg (parentComponent entry.parentId)
  unfold checkpointEntrySize
  omega

theorem write_nonneg (innerKey : String × Int) (write : Write) : 0 ≤ writeSize innerKey write := by
  have task := component_nonneg (.str innerKey.1)
  have index := component_nonneg (.other (toString innerKey.2))
  have owner := component_nonneg (.str write.taskId)
  have channel := component_nonneg (.str write.channel)
  have value := typed_nonneg write.value
  have path := component_nonneg (.str write.taskPath)
  unfold writeSize
  omega

theorem group_nonneg (checkpointId : CheckpointId) (writes : WriteGroup) : 0 ≤ writeGroupSize checkpointId writes := by
  unfold writeGroupSize
  split
  · exact Int.le_refl _
  · refine Int.add_nonneg (component_nonneg _) (List.sum_nonneg ?_)
    intro size member
    obtain ⟨row,_,rfl⟩ := List.mem_map.mp member
    exact write_nonneg row.1 row.2

theorem blob_nonneg (channel : String) (version : Version) (value : Typed) : 0 ≤ blobEntrySize channel version value := by
  have name := component_nonneg (.str channel)
  have size := component_nonneg version.component
  have payload := typed_nonneg value
  unfold blobEntrySize
  omega

-- What the runtime reads of a decoded checkpoint and of decoded metadata.
-- `runId` is `str(metadata["run_id"])`; `deltaCounters` lists the channels of
-- `counters_since_delta_snapshot`, or is absent when that is not a dictionary.
structure CheckpointView where
  channelVersions : Dict String Version

structure MetadataView where
  runId : Option String
  deltaCounters : Option (List String)

-- The serializer as a total decoder of stored entries.
structure Serde where
  loadsCheckpoint : Typed → CheckpointView
  loadsMetadata : Typed → MetadataView

end InmemRuntime.CheckpointData
