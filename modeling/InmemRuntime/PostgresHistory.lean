import InmemRuntime.Prune
import Mathlib.Data.List.Dedup

namespace InmemRuntime.PostgresHistory
open OrderedDict AncestorChain

-- One row of `checkpoints` as the first query of a thread reads it; `versions`
-- and `delta` are absent where the JSON path is NULL.
structure CheckpointRow where
  threadId : String
  checkpointNs : String
  checkpointId : String
  parentCheckpointId : Option String
  versions : Option (Dict String String)
  delta : Option (List String)
  runId : Option String
deriving DecidableEq

structure BlobRow where
  threadId : String
  checkpointNs : String
  channel : String
  version : String
  type : String
deriving DecidableEq

-- The columns of `checkpoint_writes` that the `DELETE` compares.
structure WriteRow where
  threadId : String
  checkpointNs : String
  checkpointId : String
deriving DecidableEq

structure Database where
  checkpoints : List CheckpointRow
  blobs : List BlobRow
  writes : List WriteRow
deriving DecidableEq

-- `(checkpoint_ns, checkpoint_id)`.
abbrev RowKey := String × String

def CheckpointRow.key (row : CheckpointRow) : RowKey := (row.checkpointNs,row.checkpointId)

def fetchRows (db : Database) (threadId : String) : Dict RowKey CheckpointRow :=
  Dict.empty.update ((db.checkpoints.filter fun row => row.threadId == threadId).map fun row => (row.key,row))

-- `max(checkpoint_id, latest.get(ns, ""))`.
def laterId (checkpointId latest : String) : String := if checkpointId < latest then latest else checkpointId

def latestIds (rows : Dict RowKey CheckpointRow) : Dict String String :=
  rows.keys.foldl (fun latest key => latest.insert key.1 (laterId key.2 ((latest.get? key.1).getD ""))) .empty

def ownedBy (runIds : List String) (row : CheckpointRow) : Bool :=
  match row.runId with
  | some runId => runIds.contains runId
  | none => false

def candidates (runIds : Option (List String)) (rows : Dict RowKey CheckpointRow) : List RowKey :=
  match runIds with
  | some runIds => (rows.filter fun _ row => ownedBy runIds row).keys
  | none => rows.keys.filter fun key => !(latestIds rows).entries.contains key

abbrev BlobVersion := String × String × String

def materialized (db : Database) (threadId : String) : List BlobVersion :=
  (db.blobs.filter fun blob => blob.threadId == threadId && blob.type != "empty").map fun blob =>
    (blob.checkpointNs,blob.channel,blob.version)

-- `str((row["versions"] or {}).get(channel))`: a missing version reads `None`.
def CheckpointRow.versionText (row : CheckpointRow) (channel : String) : String :=
  ((row.versions.getD .empty).get? channel).getD "None"

section walking
variable (rows : Dict RowKey CheckpointRow) (materialized : List BlobVersion) (ns : String)

def holdsValue (row : CheckpointRow) (channel : String) : Bool := materialized.contains (ns,channel,row.versionText channel)

def neededChannels (row : CheckpointRow) : List String :=
  (row.delta.getD []).filter fun channel =>
    (row.versions.getD .empty).contains channel && !holdsValue materialized ns row channel

-- `while parent and needed`: an empty id ends the walk as a missing one does.
def walk : Nat → List RowKey → List String → Option String → List RowKey
  | 0,_,_,_ => []
  | _+1,_,_,none => []
  | fuel+1,visited,needed,some parent =>
    if parent = "" || needed.isEmpty then [] else
    if (ns,parent) ∈ visited then [] else
    match rows.get? (ns,parent) with
    | none => []
    | some row =>
      (ns,parent) :: walk fuel ((ns,parent) :: visited)
        (needed.filter fun channel => !holdsValue materialized ns row channel) row.parentCheckpointId

end walking

def protectedBy (rows : Dict RowKey CheckpointRow) (materialized : List BlobVersion) (entry : RowKey × CheckpointRow) :
    List RowKey :=
  walk rows materialized entry.1.1 (rows.size + 1) [] (neededChannels materialized entry.1.1 entry.2)
    entry.2.parentCheckpointId

def protectedKeys (rows : Dict RowKey CheckpointRow) (materialized : List BlobVersion) (candidates : List RowKey) :
    List RowKey :=
  rows.entries.flatMap fun entry => if candidates.contains entry.1 then [] else protectedBy rows materialized entry

def removedKeys (runIds : Option (List String)) (db : Database) (threadId : String) : List RowKey :=
  let rows := fetchRows db threadId
  let candidates := candidates runIds rows
  candidates.filter fun key => !(protectedKeys rows (materialized db threadId) candidates).contains key

-- The three statements: writes and checkpoints by key, then every blob of the
-- thread that no remaining checkpoint refers to.
def deleteRows (db : Database) (threadId : String) (removed : List RowKey) : Database :=
  let checkpoints := db.checkpoints.filter fun row => !(row.threadId == threadId && removed.contains row.key)
  {checkpoints
   writes := db.writes.filter fun write =>
     !(write.threadId == threadId && removed.contains (write.checkpointNs,write.checkpointId))
   blobs := db.blobs.filter fun blob => !(blob.threadId == threadId) || checkpoints.any fun row =>
     row.threadId == blob.threadId && row.checkpointNs == blob.checkpointNs &&
       (row.versions.getD .empty).get? blob.channel == some blob.version}

def removeThread (runIds : Option (List String)) (db : Database) (threadId : String) : Database :=
  if (fetchRows db threadId).isEmpty then db
  else if (removedKeys runIds db threadId).isEmpty then db
  else deleteRows db threadId (removedKeys runIds db threadId)

-- `SELECT DISTINCT thread_id ... WHERE metadata->>'run_id' = ANY(...)`.
def threadsOf (db : Database) (runIds : List String) : List String :=
  ((db.checkpoints.filter (ownedBy runIds)).map CheckpointRow.threadId).dedup

def removeHistory (db : Database) (threadIds : List String) (runIds : Option (List String)) : Database :=
  let threadIds := match runIds with
    | some runIds => threadsOf db runIds
    | none => threadIds
  threadIds.foldl (removeThread runIds) db

-- The walk without its loop, as a cover of the line of ancestors.
def link (rows : Dict RowKey CheckpointRow) (ns parent : String) : Option (Option String) :=
  if parent = "" then none else (rows.get? (ns,parent)).map CheckpointRow.parentCheckpointId

def settled (rows : Dict RowKey CheckpointRow) (materialized : List BlobVersion) (ns channel parent : String) : Bool :=
  match rows.get? (ns,parent) with
  | some row => holdsValue materialized ns row channel
  | none => false

theorem walk_cover (rows : Dict RowKey CheckpointRow) (materialized : List BlobVersion) (ns : String) (fuel : Nat)
    (visited needed : List String) (start : Option String) :
    walk rows materialized ns fuel (visited.map fun id => (ns,id)) needed start =
      (cover (settled rows materialized ns) needed (ancestors (link rows ns) fuel visited start)).map fun id => (ns,id) := by
  induction fuel generalizing visited needed start with
  | zero => rfl
  | succ fuel ih =>
    cases start with
    | none => rfl
    | some parent =>
      have seen : (ns,parent) ∈ visited.map (fun id => (ns,id)) ↔ parent ∈ visited := by simp
      simp only [walk,ancestors,seen]
      by_cases empty : parent = ""
      · simp [empty,link,cover]
      · by_cases visited_ : parent ∈ visited
        · simp [empty,visited_,cover]
        · cases found : rows.get? (ns,parent) with
          | none => simp [empty,visited_,link,found,cover]
          | some row =>
            have later := ih (parent :: visited) (needed.filter fun channel => !holdsValue materialized ns row channel)
              row.parentCheckpointId
            rw [List.map_cons] at later
            by_cases done : needed.isEmpty
            · simp [empty,visited_,link,found,cover,done]
            · simp [empty,visited_,link,found,cover,done,later,settled]

-- More than enough fuel changes nothing.
theorem line_budget (rows : Dict RowKey CheckpointRow) (ns : String) (start : Option String) {fuel : Nat}
    (enough : rows.size < fuel) :
    ancestors (link rows ns) fuel [] start = ancestors (link rows ns) (rows.size + 1) [] start := by
  have listed : ∀ id next, link rows ns id = some next → id ∈ rows.keys.map Prod.snd := by
    intro id next linked
    unfold link at linked
    split at linked
    · cases linked
    · obtain ⟨row,found,_⟩ := Option.map_eq_some_iff.mp linked
      exact List.mem_map.mpr ⟨(ns,id),Dict.mem_keys.mpr (Dict.contains_iff.mpr ⟨row,found⟩),rfl⟩
  have count : ((rows.keys.map Prod.snd).filter fun id => decide (id ∉ ([] : List String))).length = rows.size := by
    simp [Dict.keys,Dict.size]
  exact ancestors_budget listed (by omega) (by omega)

-- A table row of the thread with that primary key.
def Held (db : Database) (threadId : String) (key : RowKey) : Prop :=
  ∃ row ∈ db.checkpoints, row.threadId = threadId ∧ row.key = key

theorem fetched {db : Database} {threadId : String} {key : RowKey} :
    (∃ row, (fetchRows db threadId).get? key = some row) ↔ Held db threadId key := by
  rw [← Dict.contains_iff,fetchRows,Dict.contains_update]
  simp only [Dict.contains_eq_false_iff.mpr (Dict.get?_empty key),Bool.false_eq_true,false_or,List.mem_map,List.mem_filter,
    beq_iff_eq,Held]
  constructor
  · rintro ⟨_,⟨row,⟨member,mine⟩,rfl⟩,same⟩
    exact ⟨row,member,mine,same⟩
  · rintro ⟨row,member,mine,same⟩
    exact ⟨_,⟨row,⟨member,mine⟩,rfl⟩,same⟩

-- What the loop reads of a thread.
structure SameThread (threadId : String) (db db' : Database) : Prop where
  checkpoints : db'.checkpoints.filter (fun row => row.threadId == threadId) =
    db.checkpoints.filter fun row => row.threadId == threadId
  blobs : db'.blobs.filter (fun blob => blob.threadId == threadId && blob.type != "empty") =
    db.blobs.filter fun blob => blob.threadId == threadId && blob.type != "empty"

section deleting
variable {runIds : Option (List String)} {db db' : Database} {threadId other : String}

theorem SameThread.rows (same : SameThread threadId db db') : fetchRows db' threadId = fetchRows db threadId := by
  unfold fetchRows
  rw [same.checkpoints]

theorem SameThread.held (same : SameThread threadId db db') (key : RowKey) :
    Held db' threadId key ↔ Held db threadId key := by
  rw [← fetched,← fetched,same.rows]

theorem SameThread.removed (same : SameThread threadId db db') :
    removedKeys runIds db' threadId = removedKeys runIds db threadId := by
  unfold removedKeys materialized
  rw [same.rows,same.blobs]

theorem removeThread_other (apart : other ≠ threadId) : SameThread threadId db (removeThread runIds db other) := by
  unfold removeThread
  split
  · exact ⟨rfl,rfl⟩
  · split
    · exact ⟨rfl,rfl⟩
    · refine ⟨?_,?_⟩
      · simp only [deleteRows,List.filter_filter]
        refine List.filter_congr fun row _ => ?_
        by_cases mine : row.threadId = threadId
        · simp [mine,apart.symm]
        · simp [mine]
      · simp only [deleteRows,List.filter_filter]
        refine List.filter_congr fun blob _ => ?_
        by_cases mine : blob.threadId = threadId
        · simp [mine,apart.symm]
        · simp [mine]

theorem removeThread_held (key : RowKey) : Held (removeThread runIds db threadId) threadId key ↔
    Held db threadId key ∧ key ∉ removedKeys runIds db threadId := by
  unfold removeThread
  split
  · rename_i empty
    refine ⟨fun held => ⟨held,fun _ => ?_⟩,fun both => both.1⟩
    obtain ⟨row,found⟩ := fetched.mpr held
    rw [Dict.isEmpty_iff.mp empty] at found
    cases found
  · split
    · rename_i none
      rw [List.isEmpty_iff.mp none]
      simp
    · simp only [Held,deleteRows,List.mem_filter]
      constructor
      · rintro ⟨row,⟨member,stays⟩,mine,rfl⟩
        refine ⟨⟨row,member,mine,rfl⟩,fun listed => ?_⟩
        simp [mine,listed] at stays
      · rintro ⟨⟨row,member,mine,rfl⟩,free⟩
        exact ⟨row,⟨member,by simp [free]⟩,mine,rfl⟩

-- Each thread of the loop is handled once, in what the others left of it.
variable (runIds db threadId) in
theorem fold_held (threadIds : List String) (distinct : threadIds.Nodup) (key : RowKey) :
    Held (threadIds.foldl (removeThread runIds) db) threadId key ↔
      Held db threadId key ∧ (threadId ∈ threadIds → key ∉ removedKeys runIds db threadId) := by
  induction threadIds generalizing db with
  | nil => simp
  | cons first rest ih =>
    have parts := List.nodup_cons.mp distinct
    rw [List.foldl_cons,ih _ parts.2]
    by_cases mine : first = threadId
    · subst mine
      rw [removeThread_held]
      simp [parts.1]
    · have same : SameThread threadId db (removeThread runIds db first) := removeThread_other mine
      rw [same.held,same.removed]
      simp [Ne.symm mine]

theorem removeHistory_prunes (key : RowKey) : Held (removeHistory db [threadId] none) threadId key ↔
    Held db threadId key ∧ key ∉ removedKeys none db threadId := by
  have step := fold_held none db threadId [threadId] (by simp) key
  simpa [removeHistory] using step

-- A thread that the first query does not name has no candidates.
theorem removeHistory_deletes (runIds : List String) (threadIds : List String) (key : RowKey) :
    Held (removeHistory db threadIds (some runIds)) threadId key ↔
      Held db threadId key ∧ key ∉ removedKeys (some runIds) db threadId := by
  rw [show removeHistory db threadIds (some runIds) = (threadsOf db runIds).foldl (removeThread (some runIds)) db from rfl,
    fold_held _ _ _ (threadsOf db runIds) (List.nodup_dedup _)]
  refine and_congr_right fun _ => ⟨fun free listed => free ?_ listed,fun free _ => free⟩
  have candidate := (List.mem_filter.mp listed).1
  obtain ⟨entry,member,_⟩ := List.mem_map.mp candidate
  obtain ⟨stored,owned⟩ := List.mem_filter.mp member
  rcases Dict.get?_update_source (Dict.mem_iff.mp stored) with nothing | ⟨row,selected,_,same⟩
  · cases nothing
  · obtain ⟨stored,picked,rfl⟩ := List.mem_map.mp selected
    obtain ⟨listed,mine⟩ := List.mem_filter.mp picked
    rw [← same] at owned
    exact List.mem_dedup.mpr (List.mem_map.mpr ⟨stored,List.mem_filter.mpr ⟨listed,owned⟩,by simpa using mine⟩)

end deleting

end InmemRuntime.PostgresHistory
