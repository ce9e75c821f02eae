import InmemRuntime.DeltaWalk
import Mathlib.Data.String.Basic

namespace InmemRuntime.Prune
open OrderedDict AncestorChain CheckpointData CheckpointSaver SizeTracking DeltaWalk

-- The newest checkpoint and the parents its unmaterialised channels need.
def keepIds (scope : Scope) : List CheckpointId :=
  match newest scope.checkpoints.keys with
  | none => []
  | some latest =>
    match scope.checkpoints.get? latest with
    | none => []
    | some entry => latest :: scope.walked entry

-- `(thread_id, checkpoint_ns, str(checkpoint_id))` of every kept checkpoint.
abbrev NormalizedKey := String × String × String

def normalized (key : WriteKey) : NormalizedKey := (key.threadId,key.checkpointNs,key.checkpointId.str)

def versionKeys (scope : Scope) (id : CheckpointId) : List BlobKey :=
  match scope.checkpoints.get? id with
  | none => []
  | some entry => (scope.versions entry).entries.map fun e => ⟨scope.threadId,scope.checkpointNs,e.1,e.2⟩

def kept (scope : Scope) : Checkpoints :=
  scope.checkpoints.filter fun id _ => (keepIds scope).contains id

def dropped (scope : Scope) : Checkpoints :=
  scope.checkpoints.filter fun id _ => !(keepIds scope).contains id

def keptWriteKeys (scope : Scope) : List NormalizedKey :=
  (keepIds scope).map fun id => normalized (scope.key id)

def keptBlobKeys (scope : Scope) : List BlobKey := (keepIds scope).flatMap (versionKeys scope)

-- What the loop over the namespaces of one thread builds up.
structure Sweep where
  namespaces : Dict String Checkpoints
  writeKeys : List NormalizedKey
  blobKeys : List BlobKey
  removedSize : Int
  removedCheckpoints : Int

def pruneNamespace (scopeOf : String → Checkpoints → Scope) (sweep : Sweep) (row : String × Checkpoints) : Sweep :=
  if row.2.isEmpty then {sweep with namespaces := sweep.namespaces.erase row.1} else
  let scope := scopeOf row.1 row.2
  {namespaces := sweep.namespaces.insert row.1 (kept scope)
   writeKeys := sweep.writeKeys ++ keptWriteKeys scope
   blobKeys := sweep.blobKeys ++ keptBlobKeys scope
   removedSize := sweep.removedSize + (dropped scope).sum checkpointEntrySize
   removedCheckpoints := sweep.removedCheckpoints + (dropped scope).size}

section pruning
variable (clamp : Int → Int) (serde : Serde)

def sweepOf (s : Saver) (threadId : String) (namespaces : Dict String Checkpoints) : Sweep :=
  namespaces.entries.foldl (pruneNamespace (scopeOf serde s threadId)) ⟨namespaces,[],[],0,0⟩

def losesGroup (threadId : String) (sweep : Sweep) (key : WriteKey) : Bool :=
  key.threadId == threadId && !sweep.writeKeys.contains (normalized key)

def losesBlob (threadId : String) (sweep : Sweep) (key : BlobKey) : Bool :=
  key.threadId == threadId && !sweep.blobKeys.contains key

def removedGroups (s : Saver) (threadId : String) (sweep : Sweep) : Dict WriteKey WriteGroup :=
  s.writes.filter fun key _ => losesGroup threadId sweep key

def removedBlobs (s : Saver) (threadId : String) (sweep : Sweep) : Dict BlobKey Typed :=
  s.blobs.filter fun key _ => losesBlob threadId sweep key

def sweepRemovedSize (s : Saver) (threadId : String) (sweep : Sweep) : Int :=
  sweep.removedSize + (removedGroups s threadId sweep).sum (fun key group => writeGroupSize key.checkpointId group) +
    (removedBlobs s threadId sweep).sum (fun key value => blobEntrySize key.channel key.version value)

-- The rest of the loop over threads: writes, blobs and one size adjustment.
def applySweep (s : Saver) (threadId : String) (auto : Bool) (sweep : Sweep) : Saver :=
  {storage := s.storage.insert threadId ⟨sweep.namespaces,auto⟩
   writes := s.writes.filter fun key _ => !losesGroup threadId sweep key
   blobs := s.blobs.filter fun key _ => !losesBlob threadId sweep key
   sizeState := s.sizeState.adjust clamp threadId (-sweepRemovedSize s threadId sweep) (-sweep.removedCheckpoints)}

def pruneThread (s : Saver) (threadId : String) : Saver :=
  match s.storage.get? threadId with
  | none => s
  | some namespaces =>
    if namespaces.dict.isEmpty then s
    else applySweep clamp s threadId namespaces.auto (sweepOf serde s threadId namespaces.dict)

-- The `ValueError` of an unknown strategy, whose text quotes it.
structure UnsupportedStrategy where
  strategy : String

def prune (s : Saver) (threadIds : List String) (strategy : String) : Except UnsupportedStrategy Saver :=
  if strategy = "delete" ∨ strategy = "delete_all" then .ok (threadIds.foldl deleteThread s)
  else if strategy ≠ "keep_latest" then .error ⟨strategy⟩
  else .ok (threadIds.foldl (pruneThread clamp serde) s)

end pruning

-- `newest` picks the first of the greatest ids.
structure Newest (ids : List CheckpointId) (id : CheckpointId) (before after : List CheckpointId) : Prop where
  split : ids = before ++ id :: after
  less : ∀ other ∈ before, other.str < id.str
  notLess : ∀ other ∈ after, ¬ id.str < other.str

theorem newest_overtaken {rest before after : List CheckpointId} {first next best : CheckpointId}
    (spec : Newest (next :: rest) best before after) (larger : first.str < next.str) :
    Newest (first :: next :: rest) best (first :: before) after := by
  refine ⟨by rw [spec.split]; rfl,?_,spec.notLess⟩
  intro other member
  rcases List.mem_cons.mp member with rfl | later
  · cases before with
    | nil => injection spec.split with same; exact same ▸ larger
    | cons head before =>
      injection spec.split with same
      exact lt_trans larger (same ▸ spec.less head (by simp))
  · exact spec.less other later

theorem newest_defended {rest before after : List CheckpointId} {first next best : CheckpointId}
    (spec : Newest (first :: rest) best before after) (larger : ¬ first.str < next.str) :
    ∃ before after, Newest (first :: next :: rest) best before after := by
  cases before with
  | nil =>
    injection spec.split with same tail
    subst same tail
    refine ⟨[],next :: rest,rfl,by simp,?_⟩
    intro other member
    rcases List.mem_cons.mp member with rfl | later
    · exact larger
    · exact spec.notLess other later
  | cons head before =>
    injection spec.split with same tail
    subst same
    refine ⟨first :: next :: before,after,by rw [tail]; rfl,?_,spec.notLess⟩
    intro other member
    have top := spec.less first (by simp)
    rcases List.mem_cons.mp member with rfl | later
    · exact top
    · rcases List.mem_cons.mp later with rfl | deeper
      · exact lt_of_le_of_lt (not_lt.mp larger) top
      · exact spec.less other (List.mem_cons_of_mem _ deeper)

theorem newest_spec {ids : List CheckpointId} {id : CheckpointId} (found : newest ids = some id) :
    ∃ before after, Newest ids id before after := by
  have pick : ∀ (rest : List CheckpointId) (first : CheckpointId), ∃ before after, Newest (first :: rest)
      (rest.foldl (fun best id => if best.str < id.str then id else best) first) before after := by
    intro rest
    induction rest with
    | nil => exact fun first => ⟨[],[],rfl,by simp,by simp⟩
    | cons next rest ih =>
      intro first
      rw [List.foldl_cons]
      split
      · rename_i larger
        obtain ⟨before,after,spec⟩ := ih next
        exact ⟨_,_,newest_overtaken spec larger⟩
      · rename_i larger
        obtain ⟨before,after,spec⟩ := ih first
        exact newest_defended spec larger
  cases ids with
  | nil => cases found
  | cons head rest => cases Option.some.inj found; exact pick rest head

theorem newest_mem {ids : List CheckpointId} {id : CheckpointId} (found : newest ids = some id) : id ∈ ids := by
  obtain ⟨before,after,spec⟩ := newest_spec found
  rw [spec.split]
  simp

theorem newest_unique {ids before before' after after' : List CheckpointId} {id id' : CheckpointId}
    (left : Newest ids id before after) (right : Newest ids id' before' after') : id = id' := by
  rcases List.append_eq_append_iff.mp (left.split.symm.trans right.split) with ⟨gap,pre,post⟩ | ⟨gap,pre,post⟩
  · cases gap with
    | nil => injection post
    | cons head gap =>
      injection post with same rest
      exact absurd (right.less id (by simp [pre,same])) (left.notLess id' (by simp [rest]))
  · cases gap with
    | nil => injection post with same; exact same.symm
    | cons head gap =>
      injection post with same rest
      exact absurd (left.less id' (by simp [pre,same])) (right.notLess id (by simp [rest]))

-- Dropping other ids leaves the newest the newest.
theorem newest_filter {ids : List CheckpointId} {id : CheckpointId} {keep : CheckpointId → Bool}
    (found : newest ids = some id) (kept : keep id = true) : newest (ids.filter keep) = some id := by
  obtain ⟨before,after,spec⟩ := newest_spec found
  have left : Newest (ids.filter keep) id (before.filter keep) (after.filter keep) :=
    ⟨by simp [spec.split,kept],fun other member => spec.less other (List.mem_filter.mp member).1,
      fun other member => spec.notLess other (List.mem_filter.mp member).1⟩
  cases picked : newest (ids.filter keep) with
  | none =>
    cases rest : ids.filter keep with
    | nil => simpa [rest] using left.split
    | cons head tail => rw [rest] at picked; cases picked
  | some other =>
    obtain ⟨_,_,right⟩ := newest_spec picked
    rw [newest_unique left right]

theorem keepIds_empty {scope : Scope} (empty : scope.checkpoints.isEmpty = true) : keepIds scope = [] := by
  have none : scope.checkpoints.entries = [] := List.isEmpty_iff.mp empty
  simp [keepIds,Dict.keys,none,newest]

section sweeping
variable {serde : Serde} {s : Saver} {threadId : String} {rows : List (String × Checkpoints)}

theorem sweep_untouched {ns : String} (other : ∀ row ∈ rows, row.1 ≠ ns) (sweep : Sweep) :
    (rows.foldl (pruneNamespace (scopeOf serde s threadId)) sweep).namespaces.get? ns = sweep.namespaces.get? ns := by
  induction rows generalizing sweep with
  | nil => rfl
  | cons row rest ih =>
    have apart : (row.1 == ns) = false := by simpa using other row (by simp)
    rw [List.foldl_cons,ih (fun later member => other later (by simp [member]))]
    unfold pruneNamespace
    split
    · rw [Dict.get?_erase,apart]; rfl
    · exact Dict.get?_insert_other apart

-- Each namespace is rewritten once, from the row the loop started with.
theorem sweep_namespace (distinct : rows.Pairwise fun a b => (a.1 == b.1) = false)
    {row : String × Checkpoints} (member : row ∈ rows) (sweep : Sweep) :
    (rows.foldl (pruneNamespace (scopeOf serde s threadId)) sweep).namespaces.get? row.1 =
      if row.2.isEmpty then none else some (kept (scopeOf serde s threadId row.1 row.2)) := by
  induction rows generalizing sweep with
  | nil => cases member
  | cons head rest ih =>
    have parts := List.pairwise_cons.mp distinct
    rw [List.foldl_cons]
    rcases List.mem_cons.mp member with rfl | later
    · rw [sweep_untouched]
      · unfold pruneNamespace
        split
        · simp [Dict.get?_erase]
        · simp
      · intro other present equal
        simpa [equal] using parts.1 other present
    · exact ih parts.2 later _

-- The two key sets collect the contributions of the namespaces; an empty one
-- contributes nothing.
theorem sweep_keys (rows : List (String × Checkpoints)) (sweep : Sweep) :
    (rows.foldl (pruneNamespace (scopeOf serde s threadId)) sweep).writeKeys =
        sweep.writeKeys ++ rows.flatMap (fun row => keptWriteKeys (scopeOf serde s threadId row.1 row.2)) ∧
      (rows.foldl (pruneNamespace (scopeOf serde s threadId)) sweep).blobKeys =
        sweep.blobKeys ++ rows.flatMap (fun row => keptBlobKeys (scopeOf serde s threadId row.1 row.2)) := by
  induction rows generalizing sweep with
  | nil => simp
  | cons row rest ih =>
    simp only [List.foldl_cons,ih,List.flatMap_cons]
    unfold pruneNamespace
    split
    · rename_i empty
      have nothing : keepIds (scopeOf serde s threadId row.1 row.2) = [] := keepIds_empty empty
      simp [keptWriteKeys,keptBlobKeys,nothing]
    · simp [List.append_assoc]

end sweeping

end InmemRuntime.Prune
