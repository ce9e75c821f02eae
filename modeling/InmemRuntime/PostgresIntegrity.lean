import InmemRuntime.BackendRetention

namespace InmemRuntime.PostgresIntegrity
open OrderedDict AncestorChain PostgresHistory
open BackendRetention (latestIds_spec)

-- The ancestors that a reader of the channel goes through: down to the first
-- that holds a value.
def replay (db : Database) (threadId ns : String) (row : CheckpointRow) (channel : String) : List String :=
  cover (settled (fetchRows db threadId) (materialized db threadId) ns) [channel]
    (ancestors (link (fetchRows db threadId) ns) ((fetchRows db threadId).size + 1) [] row.parentCheckpointId)

-- The request is not after the checkpoint.
def Spares (runIds : Option (List String)) (rows : Dict RowKey CheckpointRow) (ns id : String) (row : CheckpointRow) : Prop :=
  match runIds with
  | none => (latestIds rows).get? ns = some id
  | some runIds => ownedBy runIds row = false

instance (runIds : Option (List String)) (rows : Dict RowKey CheckpointRow) (ns id : String) (row : CheckpointRow) :
    Decidable (Spares runIds rows ns id row) :=
  match runIds with
  | none => inferInstanceAs (Decidable ((latestIds rows).get? ns = some id))
  | some runIds => inferInstanceAs (Decidable (ownedBy runIds row = false))

structure Request where
  threadIds : List String
  runIds : Option (List String)

def perform (db : Database) (request : Request) : Database := removeHistory db request.threadIds request.runIds

-- A prune looks at the threads that it names, a deletion of runs at all.
def Request.reaches (request : Request) (threadId : String) : Bool :=
  request.runIds.isSome || request.threadIds.contains threadId

-- Each request of a run that reaches the thread spares the checkpoint in the
-- state that it meets.
def SparedBy (threadId ns id : String) (row : CheckpointRow) : Database → List Request → Prop
  | _,[] => True
  | db,request :: rest =>
    (request.reaches threadId = true → Spares request.runIds (fetchRows db threadId) ns id row) ∧
      SparedBy threadId ns id row (perform db request) rest

-- The row with its writes and with the blobs that it names.
structure Intact (db last : Database) (threadId ns id : String) (row : CheckpointRow) : Prop where
  stays : (fetchRows last threadId).get? (ns,id) = some row
  blobs : ∀ blob : BlobRow, blob.threadId = threadId → blob.checkpointNs = ns →
    (row.versions.getD .empty).get? blob.channel = some blob.version → (blob ∈ last.blobs ↔ blob ∈ db.blobs)
  writes : ∀ write : WriteRow, write.threadId = threadId → write.checkpointNs = ns → write.checkpointId = id →
    (write ∈ last.writes ↔ write ∈ db.writes)

-- No blob passes for the version of an ancestor that has none.
def Versioned (db : Database) (threadId : String) : Prop := ∀ blob ∈ db.blobs, blob.threadId = threadId → blob.version ≠ "None"

-- What a checkpoint is loaded from: it and, for each delta channel that needs
-- them, its ancestors.
structure Loads (db last : Database) (threadId ns id : String) (row : CheckpointRow) : Prop extends Intact db last threadId ns id row where
  fewer : last.blobs ⊆ db.blobs
  chain : ∀ channel ∈ neededChannels (materialized db threadId) ns row,
    replay db threadId ns row channel <+: replay last threadId ns row channel
  exact : Versioned db threadId → ∀ channel ∈ neededChannels (materialized db threadId) ns row,
    replay last threadId ns row channel = replay db threadId ns row channel
  ancestors : ∀ channel ∈ neededChannels (materialized db threadId) ns row, ∀ node ∈ replay db threadId ns row channel,
    ∃ other, (fetchRows db threadId).get? (ns,node) = some other ∧ Intact db last threadId ns node other

section intact
variable {db middle last : Database} {threadId ns id : String} {row : CheckpointRow}

theorem Intact.trans (first : Intact db middle threadId ns id row) (second : Intact middle last threadId ns id row) :
    Intact db last threadId ns id row :=
  ⟨second.stays,fun blob mine here names => (second.blobs blob mine here names).trans (first.blobs blob mine here names),
    fun write mine here same => (second.writes write mine here same).trans (first.writes write mine here same)⟩

theorem mem_materialized {channel version : String} : (ns,channel,version) ∈ materialized db threadId ↔
    ∃ blob ∈ db.blobs, blob.threadId = threadId ∧ blob.type ≠ "empty" ∧ blob.checkpointNs = ns ∧ blob.channel = channel ∧
      blob.version = version := by
  simp [materialized,and_assoc]

-- A version that the row has is held as before; one that it lacks can only
-- lose the blob that passed for it.
theorem Intact.holds (intact : Intact db last threadId ns id row) {channel version : String}
    (names : (row.versions.getD .empty).get? channel = some version) :
    holdsValue (materialized last threadId) ns row channel = holdsValue (materialized db threadId) ns row channel := by
  rw [Bool.eq_iff_iff]
  simp only [holdsValue,CheckpointRow.versionText,names,Option.getD_some,List.contains_iff_mem,mem_materialized]
  constructor
  · rintro ⟨blob,stored,mine,valued,here,rfl,rfl⟩
    exact ⟨blob,(intact.blobs blob mine here names).mp stored,mine,valued,here,rfl,rfl⟩
  · rintro ⟨blob,stored,mine,valued,here,rfl,rfl⟩
    exact ⟨blob,(intact.blobs blob mine here names).mpr stored,mine,valued,here,rfl,rfl⟩

theorem holds_fewer (fewer : last.blobs ⊆ db.blobs) {channel : String}
    (held : holdsValue (materialized last threadId) ns row channel = true) :
    holdsValue (materialized db threadId) ns row channel = true := by
  simp only [holdsValue,List.contains_iff_mem,mem_materialized] at held ⊢
  obtain ⟨blob,stored,rest⟩ := held
  exact ⟨blob,fewer stored,rest⟩

theorem Intact.needed (intact : Intact db last threadId ns id row) :
    neededChannels (materialized last threadId) ns row = neededChannels (materialized db threadId) ns row := by
  unfold neededChannels
  refine List.filter_congr fun channel _ => ?_
  cases names : (row.versions.getD .empty).get? channel with
  | none => simp [Dict.contains_eq_false_iff.mpr names]
  | some version => rw [intact.holds names]

theorem Intact.holds_versioned (intact : Intact db last threadId ns id row) (fewer : last.blobs ⊆ db.blobs)
    (versioned : Versioned db threadId) (channel : String) :
    holdsValue (materialized last threadId) ns row channel = holdsValue (materialized db threadId) ns row channel := by
  cases names : (row.versions.getD .empty).get? channel with
  | some version => exact intact.holds names
  | none =>
    have unheld : holdsValue (materialized db threadId) ns row channel = false := by
      rw [Bool.eq_false_iff]
      simp only [holdsValue,CheckpointRow.versionText,names,Option.getD_none,ne_eq,List.contains_iff_mem,mem_materialized]
      rintro ⟨blob,stored,mine,_,_,_,phantom⟩
      exact versioned blob stored mine phantom
    rw [unheld,Bool.eq_false_iff]
    exact fun held => by rw [holds_fewer fewer held] at unheld; cases unheld

theorem Loads.trans (first : Loads db middle threadId ns id row) (second : Loads middle last threadId ns id row) :
    Loads db last threadId ns id row := by
  have needed := first.toIntact.needed
  refine ⟨first.toIntact.trans second.toIntact,fun blob member => first.fewer (second.fewer member),?_,?_,?_⟩
  · intro channel wants
    exact (first.chain channel wants).trans (second.chain channel (needed ▸ wants))
  · intro versioned channel wants
    have later : Versioned middle threadId := fun blob stored => versioned blob (first.fewer stored)
    exact (second.exact later channel (needed ▸ wants)).trans (first.exact versioned channel wants)
  · intro channel wants node member
    obtain ⟨other,found,kept⟩ := first.ancestors channel wants node member
    obtain ⟨same,again,still⟩ := second.ancestors channel (needed ▸ wants) node ((first.chain channel wants).subset member)
    cases kept.stays.symm.trans again
    exact ⟨other,found,kept.trans still⟩

end intact

section removing
variable {runIds : Option (List String)} {db : Database} {threadId other ns id : String} {row : CheckpointRow}

theorem removeThread_cases (runIds : Option (List String)) (db : Database) (threadId : String) :
    removedKeys runIds db threadId = [] ∧ removeThread runIds db threadId = db ∨
      removedKeys runIds db threadId ≠ [] ∧ removeThread runIds db threadId = deleteRows db threadId (removedKeys runIds db threadId) := by
  unfold removeThread
  split
  · rename_i none
    have nothing : removedKeys runIds db threadId = [] := by
      refine List.eq_nil_iff_forall_not_mem.mpr fun key removed => ?_
      have candidate := (List.mem_filter.mp removed).1
      rw [Dict.isEmpty_iff.mp none] at candidate
      cases runIds <;> cases candidate
    exact .inl ⟨nothing,rfl⟩
  · split
    · rename_i none
      exact .inl ⟨List.isEmpty_iff.mp none,rfl⟩
    · rename_i some_
      exact .inr ⟨fun none => some_ (List.isEmpty_iff.mpr none),rfl⟩

theorem deleteRows_rows (db : Database) (threadId : String) (removed : List RowKey) :
    fetchRows (deleteRows db threadId removed) threadId = (fetchRows db threadId).filter fun key _ => !removed.contains key := by
  unfold fetchRows
  rw [Dict.filter_update (fun key => !removed.contains key),List.filter_map]
  have same : ((deleteRows db threadId removed).checkpoints.filter fun row => row.threadId == threadId) =
      (db.checkpoints.filter fun row => row.threadId == threadId).filter fun row => !removed.contains row.key := by
    simp only [deleteRows,List.filter_filter]
    refine List.filter_congr fun row _ => ?_
    cases row.threadId == threadId <;> simp
  rw [same]
  rfl

-- What the rows of a thread become when it or another one is cleaned up.
theorem removeThread_rows : fetchRows (removeThread runIds db threadId) threadId =
    (fetchRows db threadId).filter fun key _ => !(removedKeys runIds db threadId).contains key := by
  obtain ⟨nothing,same⟩ | ⟨_,deleted⟩ := removeThread_cases runIds db threadId
  · rw [same,nothing]
    exact (Dict.filter_self fun _ _ => rfl).symm
  · rw [deleted,deleteRows_rows]

theorem removeThread_fewer : (removeThread runIds db other).blobs ⊆ db.blobs := by
  obtain ⟨_,same⟩ | ⟨_,deleted⟩ := removeThread_cases runIds db other
  · rw [same]
    exact fun _ member => member
  · rw [deleted]
    exact fun _ member => (List.mem_filter.mp member).1

theorem removeThread_row (found : (fetchRows (removeThread runIds db other) threadId).get? (ns,id) = some row) :
    (fetchRows db threadId).get? (ns,id) = some row ∧ (other = threadId → (ns,id) ∉ removedKeys runIds db threadId) := by
  by_cases mine : other = threadId
  · subst mine
    rw [removeThread_rows,Dict.get?_keep,Option.filter_eq_some_iff] at found
    exact ⟨found.1,fun _ => by simpa using found.2⟩
  · have same : SameThread threadId db (removeThread runIds db other) := removeThread_other mine
    rw [same.rows] at found
    exact ⟨found,fun equal => absurd equal mine⟩

-- A row of the dictionary is a row of the table.
theorem fetched_row (found : (fetchRows db threadId).get? (ns,id) = some row) :
    row ∈ db.checkpoints ∧ row.threadId = threadId ∧ row.checkpointNs = ns ∧ row.checkpointId = id := by
  obtain nothing | ⟨stored,selected,key,same⟩ := Dict.get?_update_source found
  · cases nothing
  · obtain ⟨listed,picked,rfl⟩ := List.mem_map.mp selected
    obtain ⟨member,mine⟩ := List.mem_filter.mp picked
    cases same
    obtain ⟨rfl,rfl⟩ := Prod.mk.inj (eq_of_beq key)
    exact ⟨member,by simpa using mine,rfl,rfl⟩

-- Whatever row is left is left with its writes and the blobs that it names.
theorem removeThread_intact (found : (fetchRows (removeThread runIds db other) threadId).get? (ns,id) = some row) :
    Intact db (removeThread runIds db other) threadId ns id row := by
  obtain ⟨_,unremoved⟩ := removeThread_row found
  refine ⟨found,?_,?_⟩
  · intro blob mine here names
    obtain ⟨_,same⟩ | ⟨_,deleted⟩ := removeThread_cases runIds db other
    · rw [same]
    · refine ⟨fun member => removeThread_fewer member,fun member => ?_⟩
      obtain ⟨listed,owner,rfl,rfl⟩ := fetched_row found
      rw [deleted] at listed ⊢
      refine List.mem_filter.mpr ⟨member,?_⟩
      rw [Bool.or_eq_true,List.any_eq_true]
      refine .inr ⟨row,listed,?_⟩
      simp [owner,mine,here,names]
  · rintro write rfl rfl rfl
    obtain ⟨_,same⟩ | ⟨_,deleted⟩ := removeThread_cases runIds db other
    · rw [same]
    · rw [deleted]
      simp only [deleteRows,List.mem_filter,and_iff_left_iff_imp]
      intro _
      by_cases mine : other = write.threadId
      · subst mine
        simpa using unremoved rfl
      · simp [Ne.symm mine]

theorem candidate_listed {rows : Dict RowKey CheckpointRow} {key : RowKey} (candidate : key ∈ candidates runIds rows) :
    key ∈ rows.keys := by
  cases runIds with
  | none => exact (List.mem_filter.mp candidate).1
  | some runIds =>
    obtain ⟨entry,member,same⟩ := List.mem_map.mp candidate
    exact List.mem_map.mpr ⟨entry,(List.mem_filter.mp member).1,same⟩

-- A spared checkpoint is no candidate.
theorem spares_iff (found : (fetchRows db threadId).get? (ns,id) = some row) :
    Spares runIds (fetchRows db threadId) ns id row ↔ (ns,id) ∉ candidates runIds (fetchRows db threadId) := by
  have listed : (ns,id) ∈ (fetchRows db threadId).keys := Dict.mem_keys.mpr (Dict.contains_iff.mpr ⟨row,found⟩)
  cases runIds with
  | none =>
    simp only [Spares,candidates,List.mem_filter,listed,true_and,Bool.not_eq_true',List.contains_eq_mem,decide_eq_false_iff_not,not_not]
    rw [Dict.mem_iff]
  | some runIds =>
    simp only [Spares,candidates,Dict.mem_keys,Dict.contains_iff,Dict.get?_keep,found,Option.filter]
    by_cases owned : ownedBy runIds row = true <;> simp [owned]

-- What the walks for the spared checkpoints take in.
theorem protected_iff {node : String} :
    (ns,node) ∈ protectedKeys (fetchRows db threadId) (materialized db threadId) (candidates runIds (fetchRows db threadId)) ↔
      ∃ id row, (fetchRows db threadId).get? (ns,id) = some row ∧ Spares runIds (fetchRows db threadId) ns id row ∧
        ∃ channel ∈ neededChannels (materialized db threadId) ns row, node ∈ replay db threadId ns row channel := by
  have walked : ∀ other id row, (ns,node) ∈ protectedBy (fetchRows db threadId) (materialized db threadId) ((other,id),row) ↔
      other = ns ∧ ∃ channel ∈ neededChannels (materialized db threadId) other row, node ∈ replay db threadId other row channel := by
    intro other id row
    rw [protectedBy,show ([] : List RowKey) = ([] : List String).map (fun id => (other,id)) from rfl,walk_cover]
    simp only [List.mem_map,Prod.mk.injEq,exists_eq_right_right,mem_cover,replay,List.mem_singleton,exists_eq_left]
    constructor
    · rintro ⟨⟨before,after,split,channel,needs,unmet⟩,same⟩
      exact ⟨same,channel,needs,before,after,split,unmet⟩
    · rintro ⟨same,channel,needs,before,after,split,unmet⟩
      exact ⟨⟨before,after,split,channel,needs,unmet⟩,same⟩
  rw [protectedKeys,List.mem_flatMap]
  constructor
  · rintro ⟨⟨⟨other,id⟩,row⟩,member,listed⟩
    have found := Dict.mem_iff.mp member
    split at listed
    · cases listed
    · rename_i free
      rw [List.contains_iff_mem] at free
      obtain ⟨rfl,reads⟩ := (walked other id row).mp listed
      exact ⟨id,row,found,(spares_iff found).mpr free,reads⟩
  · rintro ⟨id,row,found,spared,reads⟩
    refine ⟨((ns,id),row),Dict.mem_iff.mpr found,?_⟩
    rw [if_neg]
    · exact (walked ns id row).mpr ⟨rfl,reads⟩
    · rw [List.contains_iff_mem]
      exact (spares_iff found).mp spared

theorem replay_protected (found : (fetchRows db threadId).get? (ns,id) = some row)
    (spared : Spares runIds (fetchRows db threadId) ns id row) {channel : String}
    (needs : channel ∈ neededChannels (materialized db threadId) ns row) {node : String} (member : node ∈ replay db threadId ns row channel) :
    (ns,node) ∉ removedKeys runIds db threadId := by
  intro removed
  obtain ⟨_,free⟩ := List.mem_filter.mp removed
  simp [protected_iff.mpr ⟨id,row,found,spared,channel,needs,member⟩] at free

end removing

section sparing
variable {runIds : Option (List String)} {db : Database} {threadId other ns id : String} {row : CheckpointRow}

theorem replay_row {channel node : String} (member : node ∈ replay db threadId ns row channel) :
    ∃ other, (fetchRows db threadId).get? (ns,node) = some other := by
  obtain ⟨after,linked⟩ := ancestors_present ((cover_sublist _ _ _).subset member)
  unfold link at linked
  split at linked
  · cases linked
  · obtain ⟨other,found,_⟩ := Option.map_eq_some_iff.mp linked
    exact ⟨other,found⟩

-- A clean-up of another thread is none of its business.
theorem loads_other (apart : other ≠ threadId) (found : (fetchRows db threadId).get? (ns,id) = some row) :
    Loads db (removeThread runIds db other) threadId ns id row := by
  have same : SameThread threadId db (removeThread runIds db other) := removeThread_other apart
  have replays : ∀ channel, replay (removeThread runIds db other) threadId ns row channel = replay db threadId ns row channel := by
    intro channel
    unfold replay materialized
    rw [same.rows,same.blobs]
  refine ⟨removeThread_intact (by rw [same.rows]; exact found),removeThread_fewer,fun channel _ => ?_,fun _ channel _ => replays channel,?_⟩
  · exact (replays _).symm ▸ List.prefix_rfl
  · intro channel _ node member
    obtain ⟨ancestor,here⟩ := replay_row member
    exact ⟨ancestor,here,removeThread_intact (by rw [same.rows]; exact here)⟩

theorem loads_own (spared : Spares runIds (fetchRows db threadId) ns id row) (found : (fetchRows db threadId).get? (ns,id) = some row) :
    Loads db (removeThread runIds db threadId) threadId ns id row := by
  let last := removeThread runIds db threadId
  have kept : ∀ {key row}, (fetchRows db threadId).get? key = some row → key ∉ removedKeys runIds db threadId →
      (fetchRows last threadId).get? key = some row := by
    intro key row stored free
    rw [removeThread_rows,Dict.get?_keep,stored]
    simp [Option.filter,free]
  have own : (fetchRows last threadId).get? (ns,id) = some row :=
    kept found fun removed => (spares_iff found).mp spared (List.mem_filter.mp removed).1
  have ancestor : ∀ channel ∈ neededChannels (materialized db threadId) ns row, ∀ node ∈ replay db threadId ns row channel,
      ∃ other, (fetchRows db threadId).get? (ns,node) = some other ∧ (fetchRows last threadId).get? (ns,node) = some other := by
    intro channel needs node member
    obtain ⟨other,here⟩ := replay_row member
    exact ⟨other,here,kept here (replay_protected found spared needs member)⟩
  -- Fewer rows take less fuel.
  have size : (fetchRows last threadId).size < (fetchRows db threadId).size + 1 := by
    rw [removeThread_rows]
    exact Nat.lt_succ_of_le (List.length_filter_le _ _)
  have replays : ∀ channel, replay last threadId ns row channel =
      cover (settled (fetchRows last threadId) (materialized last threadId) ns) [channel]
        (ancestors (link (fetchRows last threadId) ns) ((fetchRows db threadId).size + 1) [] row.parentCheckpointId) := by
    intro channel
    rw [line_budget _ _ _ size]
    rfl
  have linked : ∀ {node other}, (fetchRows db threadId).get? (ns,node) = some other → (fetchRows last threadId).get? (ns,node) = some other →
      link (fetchRows last threadId) ns node = link (fetchRows db threadId) ns node := by
    intro node other here still
    unfold link
    rw [here,still]
  refine ⟨removeThread_intact own,removeThread_fewer,?_,?_,?_⟩
  · intro channel needs
    rw [replays]
    refine cover_grows (List.Subset.refl _) fun node member => ?_
    obtain ⟨other,here,still⟩ := ancestor channel needs node member
    refine ⟨linked here still,fun channel held => ?_⟩
    simp only [settled,here,still] at held ⊢
    exact holds_fewer removeThread_fewer held
  · intro versioned channel needs
    rw [replays]
    refine cover_restricted (fun node missing => ?_) fun node member => ?_
    · unfold link at missing ⊢
      split
      · rfl
      · rename_i named
        rw [if_neg named,Option.map_eq_none_iff] at missing
        rw [removeThread_rows,Dict.get?_keep,missing]
        rfl
    · obtain ⟨other,here,still⟩ := ancestor channel needs node member
      refine ⟨linked here still,fun channel => ?_⟩
      simp only [settled,here,still]
      exact (removeThread_intact still).holds_versioned removeThread_fewer versioned channel
  · intro channel needs node member
    obtain ⟨other,here,still⟩ := ancestor channel needs node member
    exact ⟨other,here,removeThread_intact still⟩

-- The newest checkpoint of a namespace stays the newest.
theorem latest_stays {latest : String} (fewer : ∀ id, (ns,id) ∈ (fetchRows (removeThread runIds db other) threadId).keys → (ns,id) ∈ (fetchRows db threadId).keys)
    (stays : (ns,latest) ∈ (fetchRows (removeThread runIds db other) threadId).keys)
    (newest : (latestIds (fetchRows db threadId)).get? ns = some latest) :
    (latestIds (fetchRows (removeThread runIds db other) threadId)).get? ns = some latest := by
  have before := latestIds_spec (fetchRows db threadId) ns
  have after := latestIds_spec (fetchRows (removeThread runIds db other) threadId) ns
  rw [newest] at before
  obtain ⟨_,top⟩ := before
  cases found : (latestIds (fetchRows (removeThread runIds db other) threadId)).get? ns with
  | none =>
    simp only [found] at after
    exact absurd stays (after latest)
  | some best =>
    simp only [found] at after
    exact congrArg some (le_antisymm (not_lt.mp (top best (fewer best after.1))) (not_lt.mp (after.2 latest stays)))

theorem removeThread_spares {asked : Option (List String)}
    (stays : (fetchRows (removeThread runIds db other) threadId).get? (ns,id) = some row)
    (spared : Spares asked (fetchRows db threadId) ns id row) :
    Spares asked (fetchRows (removeThread runIds db other) threadId) ns id row := by
  cases asked with
  | some runIds => exact spared
  | none =>
    refine latest_stays (fun node listed => ?_) (Dict.mem_keys.mpr (Dict.contains_iff.mpr ⟨row,stays⟩)) spared
    obtain ⟨other,here⟩ := Dict.contains_iff.mp (Dict.mem_keys.mp listed)
    exact Dict.mem_keys.mpr (Dict.contains_iff.mpr ⟨other,(removeThread_row here).1⟩)

theorem loads_refl (found : (fetchRows db threadId).get? (ns,id) = some row) : Loads db db threadId ns id row := by
  refine ⟨⟨found,fun _ _ _ _ => Iff.rfl,fun _ _ _ _ => Iff.rfl⟩,fun _ member => member,fun _ _ => List.prefix_rfl,fun _ _ _ => rfl,?_⟩
  intro channel _ node member
  obtain ⟨other,here⟩ := replay_row member
  exact ⟨other,here,here,fun _ _ _ _ => Iff.rfl,fun _ _ _ _ => Iff.rfl⟩

-- The loop over the threads of a request, which may name one twice.
theorem loads_loop (threadIds : List String) (spared : threadId ∈ threadIds → Spares runIds (fetchRows db threadId) ns id row)
    (found : (fetchRows db threadId).get? (ns,id) = some row) :
    Loads db (threadIds.foldl (removeThread runIds) db) threadId ns id row := by
  induction threadIds generalizing db with
  | nil => exact loads_refl found
  | cons first rest ih =>
    by_cases mine : first = threadId
    · subst mine
      have named := spared List.mem_cons_self
      have step : Loads db (removeThread runIds db first) first ns id row := loads_own named found
      exact step.trans (ih (fun _ => removeThread_spares step.stays named) step.stays)
    · have step : Loads db (removeThread runIds db first) threadId ns id row := loads_other mine found
      exact step.trans (ih (fun later => removeThread_spares step.stays (spared (List.mem_cons_of_mem _ later))) step.stays)

theorem loads_request {request : Request}
    (spared : request.reaches threadId = true → Spares request.runIds (fetchRows db threadId) ns id row)
    (found : (fetchRows db threadId).get? (ns,id) = some row) : Loads db (perform db request) threadId ns id row := by
  obtain ⟨threadIds,runIds⟩ := request
  cases runIds with
  | none => exact loads_loop threadIds (fun named => spared (by simpa [Request.reaches] using named)) found
  | some runIds => exact loads_loop (threadsOf db runIds) (fun _ => spared rfl) found

end sparing

-- A run of prunes and run deletions leaves each checkpoint that none of those
-- which reach its thread is after, the blobs and writes that it names, and the whole line of ancestors
-- that its delta channels are read from.
theorem spared_loads (requests : List Request) (db : Database) (threadId ns id : String) (row : CheckpointRow)
    (found : (fetchRows db threadId).get? (ns,id) = some row) (spared : SparedBy threadId ns id row db requests) :
    Loads db (requests.foldl perform db) threadId ns id row := by
  induction requests generalizing db with
  | nil => exact loads_refl found
  | cons request rest ih =>
    obtain ⟨first,later⟩ := spared
    have step := loads_request first found
    exact step.trans (ih _ step.stays later)

-- `c` of run `r2` reads `messages` through `b` from the value of `a`, both of run
-- `r1`: a prune that names the thread twice, one of another thread, and the
-- deletion of `r1`.
section toy

def version (text : String) : Option (Dict String String) := some (Dict.empty.insert "messages" text)

def toy : Database :=
  {checkpoints := [⟨"t","","a",none,version "1",none,some "r1"⟩,⟨"t","","b",some "a",version "2",some ["messages"],some "r1"⟩,
     ⟨"t","","c",some "b",version "3",some ["messages"],some "r2"⟩,⟨"u","","d",none,version "1",none,some "r1"⟩]
   blobs := [⟨"t","","messages","1","msgpack"⟩,⟨"t","","messages","0","msgpack"⟩,⟨"u","","messages","1","msgpack"⟩]
   writes := [⟨"t","","b"⟩,⟨"u","","d"⟩]}

def requests : List Request := [⟨["t","t"],none⟩,⟨["u"],none⟩,⟨[],some ["r1"]⟩]

theorem spared_loads_toy : Loads toy (requests.foldl perform toy) "t" "" "c" ⟨"t","","c",some "b",version "3",some ["messages"],some "r2"⟩ ∧
    ¬Held (requests.foldl perform toy) "u" ("","d") := by
  refine ⟨spared_loads requests toy "t" "" "c" _ (by rfl) ⟨fun _ => ?_,fun named => ?_,fun _ => ?_,trivial⟩,?_⟩
  · decide +kernel
  · cases named
  · decide +kernel
  · unfold Held
    decide +kernel

end toy

section repeating
variable {runIds : Option (List String)} {db : Database} {threadId other : String}

theorem removeThread_done (done : removedKeys runIds db threadId = []) : removeThread runIds db threadId = db := by
  unfold removeThread
  simp [done]

-- After a clean-up of a thread, what is left of the candidates is protected by
-- walks that have only become longer.
theorem removeThread_finishes : removedKeys runIds (removeThread runIds db threadId) threadId = [] := by
  refine List.eq_nil_iff_forall_not_mem.mpr fun key removed => ?_
  obtain ⟨candidate,free⟩ := List.mem_filter.mp removed
  obtain ⟨ns,id⟩ := key
  obtain ⟨row,stays⟩ := Dict.contains_iff.mp (Dict.mem_keys.mp (candidate_listed candidate))
  obtain ⟨found,unremoved⟩ := removeThread_row stays
  have unspared : ¬ Spares runIds (fetchRows db threadId) ns id row := by
    intro spared
    exact (spares_iff stays).mp (removeThread_spares stays spared) candidate
  have before : (ns,id) ∈ candidates runIds (fetchRows db threadId) := by
    by_contra out
    exact unspared ((spares_iff found).mpr out)
  have protected_ : (ns,id) ∈ protectedKeys (fetchRows db threadId) (materialized db threadId) (candidates runIds (fetchRows db threadId)) := by
    by_contra out
    exact unremoved rfl (List.mem_filter.mpr ⟨before,by simp [out]⟩)
  obtain ⟨node,reader,here,spared,channel,needs,member⟩ := protected_iff.mp protected_
  have loads : Loads db (removeThread runIds db threadId) threadId ns node reader := loads_own spared here
  have still := protected_iff.mpr ⟨node,reader,loads.stays,removeThread_spares loads.stays spared,channel,loads.toIntact.needed ▸ needs,
    (loads.chain channel needs).subset member⟩
  simp [still] at free

theorem done_stays (done : removedKeys runIds db threadId = []) : removedKeys runIds (removeThread runIds db other) threadId = [] := by
  by_cases mine : other = threadId
  · subst mine
    exact removeThread_finishes
  · have same : SameThread threadId db (removeThread runIds db other) := removeThread_other mine
    rw [same.removed]
    exact done

theorem loop_finishes {threadIds : List String} (member : threadId ∈ threadIds) :
    removedKeys runIds (threadIds.foldl (removeThread runIds) db) threadId = [] := by
  have stays : ∀ (threadIds : List String) (db : Database), removedKeys runIds db threadId = [] →
      removedKeys runIds (threadIds.foldl (removeThread runIds) db) threadId = [] := by
    intro threadIds
    induction threadIds with
    | nil => exact fun db done => done
    | cons first rest ih => exact fun db done => ih _ (done_stays done)
  induction threadIds generalizing db with
  | nil => cases member
  | cons first rest ih =>
    rcases List.mem_cons.mp member with rfl | later
    · exact stays rest _ removeThread_finishes
    · exact ih later

theorem loop_done {threadIds : List String} (done : ∀ threadId ∈ threadIds, removedKeys runIds db threadId = []) :
    threadIds.foldl (removeThread runIds) db = db := by
  induction threadIds with
  | nil => rfl
  | cons first rest ih =>
    rw [List.foldl_cons,removeThread_done (done first List.mem_cons_self)]
    exact ih fun threadId member => done threadId (List.mem_cons_of_mem _ member)

theorem loop_rows (threadIds : List String) : (threadIds.foldl (removeThread runIds) db).checkpoints ⊆ db.checkpoints := by
  induction threadIds generalizing db with
  | nil => exact fun _ member => member
  | cons first rest ih =>
    intro row member
    have before := ih member
    obtain ⟨_,same⟩ | ⟨_,deleted⟩ := removeThread_cases runIds db first
    · rwa [same] at before
    · rw [deleted] at before
      exact (List.mem_filter.mp before).1

-- Some checkpoint of the blob's thread names it.
def Named (db : Database) (blob : BlobRow) : Prop := ∃ row ∈ db.checkpoints, row.threadId = blob.threadId ∧
  row.checkpointNs = blob.checkpointNs ∧ (row.versions.getD .empty).get? blob.channel = some blob.version

def Lost (start db : Database) (threadId : String) : Prop := ∃ key, Held start threadId key ∧ ¬Held db threadId key

-- What is left in a thread: the writes but those whose checkpoint is gone, and
-- the blobs, in a thread that has lost a checkpoint those which are still named.
structure Cleaned (start db : Database) (threadId : String) : Prop where
  rows : db.checkpoints ⊆ start.checkpoints
  writes : ∀ write : WriteRow, write.threadId = threadId → (write ∈ db.writes ↔ write ∈ start.writes ∧
    (Held start threadId (write.checkpointNs,write.checkpointId) → Held db threadId (write.checkpointNs,write.checkpointId)))
  blobs : ∀ blob : BlobRow, blob.threadId = threadId →
    (blob ∈ db.blobs ↔ blob ∈ start.blobs ∧ (Lost start db threadId → Named db blob))

theorem cleaned_refl (db : Database) (threadId : String) : Cleaned db db threadId := by
  refine ⟨fun _ member => member,fun write _ => ?_,fun blob _ => ?_⟩
  · exact ⟨fun member => ⟨member,id⟩,fun both => both.1⟩
  · refine ⟨fun member => ⟨member,fun lost => ?_⟩,fun both => both.1⟩
    obtain ⟨key,held,gone⟩ := lost
    exact absurd held gone

theorem removed_held {key : RowKey} (removed : key ∈ removedKeys runIds db threadId) : Held db threadId key := by
  apply fetched.mp
  apply Dict.contains_iff.mp
  apply Dict.mem_keys.mp
  exact candidate_listed (List.mem_filter.mp removed).1

-- One clean-up of the thread itself takes a checkpoint, its writes, and all the
-- blobs that nothing names any more.
theorem cleaned_own {start : Database} (cleaned : Cleaned start db threadId) (some_ : removedKeys runIds db threadId ≠ [])
    (deleted : removeThread runIds db threadId = deleteRows db threadId (removedKeys runIds db threadId)) :
    Cleaned start (removeThread runIds db threadId) threadId := by
  have older : ∀ key, Held db threadId key → Held start threadId key := by
    intro key held
    obtain ⟨row,stored,rest⟩ := held
    exact ⟨row,cleaned.rows stored,rest⟩
  have fewer : (removeThread runIds db threadId).checkpoints ⊆ db.checkpoints := by
    rw [deleted]
    exact fun _ member => (List.mem_filter.mp member).1
  have lost : Lost start (removeThread runIds db threadId) threadId := by
    obtain ⟨key,removed⟩ := List.exists_mem_of_ne_nil _ some_
    exact ⟨key,older key (removed_held removed),fun held => ((removeThread_held key).mp held).2 removed⟩
  refine ⟨fun _ member => cleaned.rows (fewer member),fun write own => ?_,fun blob own => ?_⟩
  · rw [removeThread_held,deleted]
    simp only [deleteRows,List.mem_filter,cleaned.writes write own,own,BEq.rfl,Bool.true_and,Bool.not_eq_true',
      List.contains_eq_mem,decide_eq_false_iff_not]
    constructor
    · intro both
      exact ⟨both.1.1,fun held => ⟨both.1.2 held,both.2⟩⟩
    · intro both
      refine ⟨⟨both.1,fun held => (both.2 held).1⟩,fun removed => ?_⟩
      exact (both.2 (older _ (removed_held removed))).2 removed
  · have kept : blob ∈ (removeThread runIds db threadId).blobs ↔ blob ∈ db.blobs ∧ Named (removeThread runIds db threadId) blob := by
      rw [deleted]
      simp only [deleteRows,List.mem_filter,own,BEq.rfl,Bool.not_true,Bool.false_or,List.any_eq_true,Bool.and_eq_true,beq_iff_eq,
        Named,and_assoc]
    rw [kept,cleaned.blobs blob own]
    constructor
    · exact fun both => ⟨both.1.1,fun _ => both.2⟩
    · intro both
      have names := both.2 lost
      obtain ⟨row,stored,rest⟩ := names
      exact ⟨⟨both.1,fun _ => ⟨row,fewer stored,rest⟩⟩,row,stored,rest⟩

-- One of another thread is not seen in this one.
theorem cleaned_other {start : Database} (cleaned : Cleaned start db threadId) (apart : other ≠ threadId)
    (deleted : removeThread runIds db other = deleteRows db other (removedKeys runIds db other)) :
    Cleaned start (removeThread runIds db other) threadId := by
  have same : SameThread threadId db (removeThread runIds db other) := removeThread_other apart
  have lost : Lost start (removeThread runIds db other) threadId ↔ Lost start db threadId := by
    simp only [Lost,same.held]
  have names : ∀ blob : BlobRow, blob.threadId = threadId → (Named (removeThread runIds db other) blob ↔ Named db blob) := by
    rintro blob rfl
    have listed : ∀ row : CheckpointRow, row.threadId = blob.threadId →
        (row ∈ (removeThread runIds db other).checkpoints ↔ row ∈ db.checkpoints) := by
      intro row own
      rw [deleted]
      simp [deleteRows,own,Ne.symm apart]
    refine exists_congr fun row => ?_
    constructor
    · exact fun named => ⟨(listed row named.2.1).mp named.1,named.2⟩
    · exact fun named => ⟨(listed row named.2.1).mpr named.1,named.2⟩
  refine ⟨?_,fun write own => ?_,fun blob own => ?_⟩
  · rw [deleted]
    exact fun _ member => cleaned.rows (List.mem_filter.mp member).1
  · rw [same.held,← cleaned.writes write own,deleted]
    simp [deleteRows,own,Ne.symm apart]
  · rw [lost,names blob own,← cleaned.blobs blob own,deleted]
    simp [deleteRows,own,Ne.symm apart]

theorem removeThread_cleaned {start : Database} (cleaned : Cleaned start db threadId) :
    Cleaned start (removeThread runIds db other) threadId := by
  obtain ⟨_,same⟩ | ⟨some_,deleted⟩ := removeThread_cases runIds db other
  · rwa [same]
  · by_cases mine : other = threadId
    · subst mine
      exact cleaned_own cleaned some_ deleted
    · exact cleaned_other cleaned mine deleted

theorem loop_cleaned {start : Database} (threadIds : List String) (cleaned : Cleaned start db threadId) :
    Cleaned start (threadIds.foldl (removeThread runIds) db) threadId := by
  induction threadIds generalizing db with
  | nil => exact cleaned
  | cons first rest ih => exact ih (removeThread_cleaned cleaned)

end repeating

-- A request that is made again changes nothing. What it leaves of the writes and
-- blobs of a thread is exactly what its remaining checkpoints call for.
theorem removal_complete (db : Database) (request : Request) : perform (perform db request) request = perform db request ∧
    ∀ threadId, Cleaned db (perform db request) threadId := by
  obtain ⟨threadIds,runIds⟩ := request
  refine ⟨?_,fun threadId => ?_⟩
  · cases runIds with
    | none => exact loop_done fun threadId member => loop_finishes member
    | some runIds =>
      refine loop_done fun threadId member => loop_finishes ?_
      obtain ⟨row,stored,rfl⟩ := List.mem_map.mp (List.mem_dedup.mp member)
      obtain ⟨listed,owned⟩ := List.mem_filter.mp stored
      exact List.mem_dedup.mpr (List.mem_map_of_mem (List.mem_filter.mpr ⟨loop_rows _ listed,owned⟩))
  · unfold perform removeHistory
    exact loop_cleaned _ (cleaned_refl db threadId)

end InmemRuntime.PostgresIntegrity
