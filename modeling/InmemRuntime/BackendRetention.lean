import InmemRuntime.PostgresHistory
import InmemRuntime.Survivors
import Mathlib.Data.List.Induction

namespace InmemRuntime.BackendRetention
open OrderedDict AncestorChain CheckpointData CheckpointSaver DeltaWalk Prune PruneHistory PostgresHistory
open DeleteForRuns (targeted)

-- One history in both backends: the entry of a checkpoint and its table row.
structure SameRow (serde : Serde) (entry : Entry) (row : CheckpointRow) : Prop where
  parent : entry.parentId = row.parentCheckpointId.map .text
  versions : ∀ channel, (serde.loadsCheckpoint entry.checkpoint).channelVersions.get? channel =
    ((row.versions.getD .empty).get? channel).map .text
  counters : ∀ channel, channel ∈ (serde.loadsMetadata entry.metadata).deltaCounters.getD [] ↔ channel ∈ row.delta.getD []
  runId : (serde.loadsMetadata entry.metadata).runId = row.runId

structure Represents (serde : Serde) (s : Saver) (db : Database) (threadId : String) : Prop where
  texts : ∀ ns value, s.entryAt threadId ns (.uuid value) = none
  stored : ∀ ns id, (s.entryAt threadId ns (.text id)).isSome = ((fetchRows db threadId).get? (ns,id)).isSome
  same : ∀ ns id entry row, s.entryAt threadId ns (.text id) = some entry → (fetchRows db threadId).get? (ns,id) = some row →
    SameRow serde entry row
  blobs : ∀ ns channel version, materialised (s.blobs.get? ⟨threadId,ns,channel,.text version⟩) =
    (materialized db threadId).contains (ns,channel,version)

inductive Request where
  | keepLatest
  | deleteForRuns (runIds : List String)

def inMemory (clamp : Int → Int) (serde : Serde) (s : Saver) (threadId : String) : Request → Saver
  | .keepLatest =>
    match prune clamp serde s [threadId] "keep_latest" with
    | .ok after => after
    | .error _ => s
  | .deleteForRuns runIds => DeleteForRuns.deleteForRuns clamp serde runIds s

def postgres (db : Database) (threadId : String) : Request → Database
  | .keepLatest => removeHistory db [threadId] none
  | .deleteForRuns runIds => removeHistory db [] (some runIds)

def SameKept (clamp : Int → Int) (serde : Serde) (s : Saver) (db : Database) (threadId : String) (request : Request) : Prop :=
  ∀ ns id, ((inMemory clamp serde s threadId request).entryAt threadId ns id).isSome ↔
    ∃ text, id = .text text ∧ Held (postgres db threadId request) threadId (ns,text)

-- The checkpoints that a request is not after: the newest of each namespace,
-- those of other runs.
def Survives (serde : Serde) (s : Saver) (threadId : String) (request : Request) (ns : String) (id : CheckpointId)
    (entry : Entry) : Prop :=
  match request with
  | .keepLatest => newest (s.checkpointsAt threadId ns).keys = some id
  | .deleteForRuns runIds => targeted serde runIds entry = false

-- Some survivor needs the checkpoint for its delta channels.
def Required (serde : Serde) (s : Saver) (threadId : String) (request : Request) (ns : String) (id : CheckpointId) : Prop :=
  ∃ survivor entry, s.entryAt threadId ns survivor = some entry ∧ Survives serde s threadId request ns survivor entry ∧
    id ∈ (scopeAt serde s threadId ns).deltaChain entry

-- An ancestor without a version of the channel, where a blob of version `None` has a value.
def Phantom (scope : Scope) (channel : String) (id : CheckpointId) : Prop :=
  ∃ entry, scope.checkpoints.get? id = some entry ∧ (scope.versions entry).get? channel = none ∧
    materialised (scope.blob? channel (.text "None")) = true

-- Needed along ids that are not empty, for a channel that has met no value and
-- no such ancestor before.
def PlainlyNeeds (scope : Scope) (entry : Entry) (id : CheckpointId) : Prop :=
  ∃ before after, scope.line entry = before ++ id :: after ∧ (∀ node ∈ before, node.str ≠ "") ∧ id.str ≠ "" ∧
    ∃ channel ∈ scope.neededChannels entry, ∀ node ∈ before, scope.settled channel node = false ∧ ¬Phantom scope channel node

def Sheltered (serde : Serde) (s : Saver) (threadId : String) (request : Request) : Prop :=
  ∀ ns id entry, s.entryAt threadId ns id = some entry → ¬Survives serde s threadId request ns id entry →
    Required serde s threadId request ns id →
    ∃ survivor other, s.entryAt threadId ns survivor = some other ∧ Survives serde s threadId request ns survivor other ∧
      PlainlyNeeds (scopeAt serde s threadId ns) other id

section chains
variable {serde : Serde} {s : Saver} {db : Database} {threadId ns : String}

theorem needed_same (shown : Represents serde s db threadId) {entry : Entry} {row : CheckpointRow}
    (same : SameRow serde entry row) (channel : String) : channel ∈ (scopeAt serde s threadId ns).neededChannels entry ↔
      channel ∈ neededChannels (materialized db threadId) ns row := by
  rw [Scope.mem_neededChannels,neededChannels,List.mem_filter]
  refine and_congr (same.counters channel) ?_
  have version := same.versions channel
  change ((scopeAt serde s threadId ns).versions entry).get? channel = _ at version
  unfold Scope.ownBlob
  rw [version]
  cases held : (row.versions.getD .empty).get? channel with
  | none => simp [Dict.contains_eq_false_iff.mpr held]
  | some text =>
    have blob : materialised ((scopeAt serde s threadId ns).blob? channel (.text text)) =
      (materialized db threadId).contains (ns,channel,text) := shown.blobs ns channel text
    have present : (row.versions.getD .empty).contains channel = true := Dict.contains_iff.mpr ⟨text,held⟩
    simp [blob,present,holdsValue,CheckpointRow.versionText,held]

theorem settled_same (shown : Represents serde s db threadId) (channel parent : String) :
    settled (fetchRows db threadId) (materialized db threadId) ns channel parent = true ↔
      (scopeAt serde s threadId ns).settled channel (.text parent) = true ∨
        Phantom (scopeAt serde s threadId ns) channel (.text parent) := by
  have both := shown.stored ns parent
  have scope : (scopeAt serde s threadId ns).checkpoints.get? (.text parent) = s.entryAt threadId ns (.text parent) := rfl
  unfold settled Scope.settled Phantom
  rw [scope]
  cases found : (fetchRows db threadId).get? (ns,parent) with
  | none =>
    rw [found] at both
    have missing : s.entryAt threadId ns (.text parent) = none := by simpa using both
    simp [missing]
  | some row =>
    rw [found] at both
    obtain ⟨entry,here⟩ := Option.isSome_iff_exists.mp both
    have version := (shown.same ns parent entry row here found).versions channel
    change ((scopeAt serde s threadId ns).versions entry).get? channel = _ at version
    have blob : ∀ text, materialised ((scopeAt serde s threadId ns).blob? channel (.text text)) =
      (materialized db threadId).contains (ns,channel,text) := shown.blobs ns channel
    simp only [here,Option.some.injEq,exists_eq_left',version,Scope.ownBlob]
    cases held : (row.versions.getD .empty).get? channel with
    | none =>
      have nothing : materialised none = false := rfl
      simp only [holdsValue,CheckpointRow.versionText,held,Option.getD_none,Option.map_none,Option.bind_none,blob,nothing,
        Bool.false_eq_true,false_or,true_and]
    | some text => simp [holdsValue,CheckpointRow.versionText,held,blob]

variable (ns) in
-- Both walk one line, the database as far as the first empty id.
theorem line_same (shown : Represents serde s db threadId) {entry : Entry} {row : CheckpointRow} (same : SameRow serde entry row) :
    (ancestors (link (fetchRows db threadId) ns) ((fetchRows db threadId).size + 1) [] row.parentCheckpointId).map
        CheckpointId.text =
      ((scopeAt serde s threadId ns).line entry).takeWhile fun id => !(id.str == "") := by
  let scope := scopeAt serde s threadId ns
  have enough : scope.checkpoints.size < (fetchRows db threadId).size + scope.checkpoints.size + 1 := by omega
  rw [← PostgresHistory.line_budget _ _ _
      (show _ < (fetchRows db threadId).size + scope.checkpoints.size + 1 by omega),
    ← scope.line_budget entry enough,same.parent]
  have injective : Function.Injective CheckpointId.text := fun _ _ equal => by injection equal
  refine ancestors_translate injective ?_ ?_ _ [] _
  · intro parent empty
    have blank : parent = "" := by simpa [CheckpointId.str] using empty
    simp [link,blank]
  · intro parent named
    have full : parent ≠ "" := by simpa [CheckpointId.str] using named
    have both := shown.stored ns parent
    change (s.entryAt threadId ns (.text parent)).map Entry.parentId = _
    cases found : (fetchRows db threadId).get? (ns,parent) with
    | none =>
      rw [found] at both
      have missing : s.entryAt threadId ns (.text parent) = none := by simpa using both
      simp [link,full,found,missing]
    | some row =>
      rw [found] at both
      obtain ⟨entry,here⟩ := Option.isSome_iff_exists.mp both
      simp [link,full,found,here,(shown.same ns parent entry row here found).parent]

theorem protectedBy_iff (shown : Represents serde s db threadId) {entry : Entry} {row : CheckpointRow}
    (same : SameRow serde entry row) (key : String) (other id : String) :
    (other,id) ∈ protectedBy (fetchRows db threadId) (materialized db threadId) ((ns,key),row) ↔
      other = ns ∧ PlainlyNeeds (scopeAt serde s threadId ns) entry (.text id) := by
  have line := line_same ns shown same
  rw [protectedBy,show ([] : List RowKey) = ([] : List String).map (fun id => (ns,id)) from rfl,walk_cover]
  simp only [List.mem_map,Prod.mk.injEq,exists_eq_right_right,mem_cover]
  constructor
  · rintro ⟨⟨before,after,split,channel,needed,unmet⟩,rfl⟩
    rw [split,List.map_append,List.map_cons] at line
    have whole := List.takeWhile_append_dropWhile (p:=fun id : CheckpointId => !(id.str == ""))
      (l:=(scopeAt serde s threadId ns).line entry)
    rw [← line] at whole
    have named : ∀ node ∈ before.map CheckpointId.text ++ .text id :: after.map .text, node.str ≠ "" := by
      intro node listed
      rw [line] at listed
      simpa using List.all_eq_true.mp List.all_takeWhile node listed
    refine ⟨rfl,_,_,whole.symm.trans (by rw [List.append_assoc,List.cons_append]),
      fun node listed => named node (List.mem_append_left _ listed),named _ (by simp),channel,
      (needed_same shown same channel).mpr needed,fun node listed => ?_⟩
    obtain ⟨parent,earlier,rfl⟩ := List.mem_map.mp listed
    have open_ := mt (settled_same shown channel parent).mpr (by rw [unmet parent earlier]; exact Bool.false_ne_true)
    exact ⟨Bool.eq_false_iff.mpr fun held => open_ (.inl held),fun phantom => open_ (.inr phantom)⟩
  · rintro ⟨rfl,before,after,split,named,own,channel,needed,unmet⟩
    refine ⟨?_,rfl⟩
    have prefix_ : ((scopeAt serde s threadId other).line entry).takeWhile (fun id : CheckpointId => !(id.str == "")) =
        before ++ .text id :: after.takeWhile fun id : CheckpointId => !(id.str == "") := by
      rw [split,List.takeWhile_append_of_pos fun node listed => by simpa using named node listed,List.takeWhile_cons_of_pos]
      simpa using own
    rw [prefix_] at line
    obtain ⟨first,rest,joined,left,right⟩ := List.map_eq_append_iff.mp line
    obtain ⟨head,tail,listed,same_,_⟩ := List.map_eq_cons_iff.mp right
    cases same_
    rw [listed] at joined
    refine ⟨first,tail,joined,channel,(needed_same shown same channel).mp needed,fun parent earlier => ?_⟩
    obtain ⟨open_,plain⟩ := unmet (.text parent) (by rw [← left]; exact List.mem_map_of_mem earlier)
    refine Bool.eq_false_iff.mpr fun held => ?_
    rcases (settled_same shown channel parent).mp held with settled | phantom
    · rw [open_] at settled
      cases settled
    · exact plain phantom

theorem plainly_chain {scope : Scope} {entry : Entry} {id : CheckpointId} (needs : PlainlyNeeds scope entry id) :
    id ∈ scope.deltaChain entry := by
  obtain ⟨before,after,split,_,_,channel,needed,unmet⟩ := needs
  exact mem_cover.mpr ⟨before,after,split,channel,needed,fun node listed => (unmet node listed).1⟩

end chains

-- The greatest id of a namespace, as the loop over the rows finds it.
theorem latestIds_spec (rows : Dict RowKey CheckpointRow) (ns : String) :
    match (latestIds rows).get? ns with
    | none => ∀ id, (ns,id) ∉ rows.keys
    | some latest => (ns,latest) ∈ rows.keys ∧ ∀ id, (ns,id) ∈ rows.keys → ¬latest < id := by
  unfold latestIds
  induction rows.keys using List.reverseRecOn with
  | nil => simp
  | append_singleton done key ih =>
    rw [List.foldl_append,List.foldl_cons,List.foldl_nil]
    generalize done.foldl (fun (latest : Dict String String) key =>
      latest.insert key.1 (laterId key.2 ((latest.get? key.1).getD ""))) .empty = latest at ih
    rw [Dict.get?_insert]
    by_cases mine : key.1 = ns
    · subst mine
      simp only [BEq.rfl,↓reduceIte]
      cases found : latest.get? key.1 with
      | none =>
        simp only [found] at ih
        have floor : ¬key.2 < "" := by
          rw [String.lt_iff_toList_lt]
          exact List.not_lt_nil _
        have first : laterId key.2 "" = key.2 := if_neg floor
        simp only [Option.getD_none,first,List.mem_append,List.mem_singleton]
        refine ⟨.inr trivial,fun id listed => ?_⟩
        rcases listed with old | same
        · exact absurd old (ih id)
        · rw [← same]
          exact lt_irrefl _
      | some best =>
        simp only [found] at ih
        obtain ⟨stored,top⟩ := ih
        simp only [Option.getD_some,laterId,List.mem_append,List.mem_singleton]
        split
        · rename_i smaller
          refine ⟨.inl stored,fun id listed => ?_⟩
          rcases listed with old | same
          · exact top id old
          · rw [← same] at smaller
            exact lt_asymm smaller
        · rename_i larger
          refine ⟨.inr rfl,fun id listed => ?_⟩
          rcases listed with old | same
          · exact fun less => top id old (lt_of_le_of_lt (not_lt.mp larger) less)
          · rw [← same]
            exact lt_irrefl _
    · have other : (key.1 == ns) = false := by simpa using mine
      have absent : ∀ id, (ns,id) ∈ done ++ [key] ↔ (ns,id) ∈ done := by
        intro id
        simp only [List.mem_append,List.mem_singleton,or_iff_left_iff_imp]
        exact fun same => absurd (congrArg Prod.fst same).symm mine
      simp only [other,Bool.false_eq_true,↓reduceIte]
      cases found : latest.get? ns with
      | none =>
        simp only [found] at ih
        exact fun id listed => ih id ((absent id).mp listed)
      | some best =>
        simp only [found] at ih
        exact ⟨(absent best).mpr ih.1,fun id listed => ih.2 id ((absent id).mp listed)⟩

section survivors
variable {serde : Serde} {s : Saver} {db : Database} {threadId ns : String}

theorem shown_keys (shown : Represents serde s db threadId) (id : String) :
    (ns,id) ∈ (fetchRows db threadId).keys ↔ CheckpointId.text id ∈ (s.checkpointsAt threadId ns).keys := by
  have both := shown.stored ns id
  unfold Saver.entryAt at both
  rw [Dict.mem_keys,Dict.mem_keys,Dict.contains_iff,Dict.contains_iff,← Option.isSome_iff_exists,← Option.isSome_iff_exists,both]

theorem shown_text (shown : Represents serde s db threadId) {id : CheckpointId}
    (listed : id ∈ (s.checkpointsAt threadId ns).keys) : ∃ text, id = .text text := by
  cases id with
  | text text => exact ⟨text,rfl⟩
  | uuid value =>
    obtain ⟨entry,found⟩ := Dict.contains_iff.mp (Dict.mem_keys.mp listed)
    have absent := shown.texts ns value
    unfold Saver.entryAt at absent
    rw [absent] at found
    cases found

-- Both backends keep the greatest id of a namespace.
theorem latest_same (shown : Represents serde s db threadId) {id : String} :
    (latestIds (fetchRows db threadId)).get? ns = some id ↔ newest (s.checkpointsAt threadId ns).keys = some (.text id) := by
  have spec := latestIds_spec (fetchRows db threadId) ns
  cases picked : newest (s.checkpointsAt threadId ns).keys with
  | none =>
    have bare : (s.checkpointsAt threadId ns).keys = [] := by
      cases keys : (s.checkpointsAt threadId ns).keys with
      | nil => rfl
      | cons head rest => rw [keys] at picked; cases picked
    cases found : (latestIds (fetchRows db threadId)).get? ns with
    | none => simp
    | some best =>
      simp only [found] at spec
      have listed := (shown_keys shown best).mp spec.1
      rw [bare] at listed
      cases listed
  | some first =>
    obtain ⟨text,rfl⟩ := shown_text shown (newest_mem picked)
    obtain ⟨before,after,split,less,notLess⟩ := newest_spec picked
    have top : ∀ other : CheckpointId, other ∈ (s.checkpointsAt threadId ns).keys → ¬text < other.str := by
      intro other listed
      rw [split] at listed
      rcases List.mem_append.mp listed with early | late
      · exact lt_asymm (less other early)
      · rcases List.mem_cons.mp late with rfl | rest
        · exact lt_irrefl _
        · exact notLess other rest
    cases found : (latestIds (fetchRows db threadId)).get? ns with
    | none =>
      simp only [found] at spec
      exact absurd ((shown_keys shown text).mpr (newest_mem picked)) (spec text)
    | some best =>
      simp only [found] at spec
      have upper := spec.2 text ((shown_keys shown text).mpr (newest_mem picked))
      have lower := top (.text best) ((shown_keys shown best).mp spec.1)
      have equal : best = text := le_antisymm (not_lt.mp lower) (not_lt.mp upper)
      simp [equal]

def runsOf : Request → Option (List String)
  | .keepLatest => none
  | .deleteForRuns runIds => some runIds

theorem candidate_iff (shown : Represents serde s db threadId) {request : Request} {id : String} {entry : Entry}
    (found : s.entryAt threadId ns (.text id) = some entry) :
    (ns,id) ∈ candidates (runsOf request) (fetchRows db threadId) ↔ ¬Survives serde s threadId request ns (.text id) entry := by
  have both := shown.stored ns id
  rw [found] at both
  obtain ⟨row,fetched_⟩ := Option.isSome_iff_exists.mp both.symm
  cases request with
  | keepLatest =>
    have listed : (ns,id) ∈ (fetchRows db threadId).keys := Dict.mem_keys.mpr (Dict.contains_iff.mpr ⟨row,fetched_⟩)
    simp only [candidates,runsOf,Survives,List.mem_filter,listed,true_and,Bool.not_eq_true',List.contains_eq_mem,
      decide_eq_false_iff_not,← latest_same shown]
    rw [Dict.mem_iff]
  | deleteForRuns runIds =>
    have owner := (shown.same ns id entry row found fetched_).runId
    have same : ownedBy runIds row = targeted serde runIds entry := by
      cases known : row.runId <;> simp [ownedBy,targeted,owner,known]
    simp only [candidates,runsOf,Survives,Dict.mem_keys,Dict.contains_iff,Dict.get?_keep,fetched_,Option.filter,same]
    cases targeted serde runIds entry <;> simp

theorem protected_iff (shown : Represents serde s db threadId) (request : Request) {id : String} :
    (ns,id) ∈ protectedKeys (fetchRows db threadId) (materialized db threadId)
        (candidates (runsOf request) (fetchRows db threadId)) ↔
      ∃ survivor other, s.entryAt threadId ns survivor = some other ∧ Survives serde s threadId request ns survivor other ∧
        PlainlyNeeds (scopeAt serde s threadId ns) other (.text id) := by
  rw [protectedKeys,List.mem_flatMap]
  constructor
  · rintro ⟨⟨⟨other,key⟩,row⟩,member,listed⟩
    have found := Dict.mem_iff.mp member
    obtain ⟨entry,here⟩ := Option.isSome_iff_exists.mp ((shown.stored other key).trans (by rw [found]; rfl))
    split at listed
    · cases listed
    · rename_i free
      rw [List.contains_iff_mem,candidate_iff shown here,not_not] at free
      obtain ⟨rfl,needs⟩ := (protectedBy_iff shown (shown.same other key entry row here found) key ns id).mp listed
      exact ⟨.text key,entry,here,free,needs⟩
  · rintro ⟨survivor,other,here,survives,needs⟩
    obtain ⟨key,rfl⟩ := shown_text shown (Dict.mem_keys.mpr (Dict.contains_iff.mpr ⟨other,here⟩))
    obtain ⟨row,found⟩ := Option.isSome_iff_exists.mp ((shown.stored ns key).symm.trans (by rw [here]; rfl))
    refine ⟨((ns,key),row),Dict.mem_iff.mpr found,?_⟩
    rw [if_neg]
    · exact (protectedBy_iff shown (shown.same ns key other row here found) key ns id).mpr ⟨rfl,needs⟩
    · rw [List.contains_iff_mem,candidate_iff shown here,not_not]
      exact survives

theorem inMemory_kept {clamp : Int → Int} {request : Request} {id : CheckpointId} :
    ((inMemory clamp serde s threadId request).entryAt threadId ns id).isSome ↔ ∃ entry, s.entryAt threadId ns id = some entry ∧
      (Survives serde s threadId request ns id entry ∨ Required serde s threadId request ns id) := by
  cases request with
  | keepLatest =>
    have pruned : inMemory clamp serde s threadId .keepLatest = pruneThread clamp serde s threadId := by
      unfold inMemory prune
      rw [if_neg (by decide),if_neg (by decide)]
      rfl
    have keep : id ∈ keepIds (scopeAt serde s threadId ns) ↔ (newest (s.checkpointsAt threadId ns).keys = some id ∨
        Required serde s threadId .keepLatest ns id) := by
      cases picked : newest (s.checkpointsAt threadId ns).keys with
      | none =>
        have none_ : keepIds (scopeAt serde s threadId ns) = [] := by
          change newest (scopeAt serde s threadId ns).checkpoints.keys = none at picked
          simp only [keepIds,picked]
        simp only [none_,List.not_mem_nil,Required,Survives,picked,reduceCtorEq,false_and,and_false,exists_false,or_self]
      | some latest =>
        obtain ⟨entry,found⟩ := Dict.contains_iff.mp (Dict.mem_keys.mp (newest_mem picked))
        rw [latest_kept picked found,List.mem_cons]
        refine or_congr ⟨fun same => by rw [same],fun same => (Option.some.inj same).symm⟩ ⟨fun chain => ?_,?_⟩
        · exact ⟨latest,entry,found,picked,chain⟩
        · rintro ⟨survivor,other,here,survives,chain⟩
          cases Option.some.inj (picked.symm.trans survives)
          cases Option.some.inj (here.symm.trans found)
          exact chain
    rw [pruned,Saver.entryAt,pruned_checkpoints,kept,Dict.get?_keep]
    change ((s.checkpointsAt threadId ns).get? id |>.filter _).isSome ↔ _
    simp only [Survives,← keep,Saver.entryAt]
    cases (s.checkpointsAt threadId ns).get? id with
    | none => simp
    | some entry => simp [Option.filter]
  | deleteForRuns runIds =>
    rw [inMemory,(DeleteForRuns.deleteForRuns_dropped clamp serde runIds s).entry]
    have gone : (⟨threadId,ns,id⟩ : DeleteForRuns.CheckpointKey) ∈ DeleteForRuns.removed serde runIds s ↔ _ := DeleteForRuns.mem_removed
    change _ ∈ _ ↔ _ ∧ ¬Required serde s threadId (.deleteForRuns runIds) ns id at gone
    cases found : s.entryAt threadId ns id with
    | none => simp
    | some entry =>
      rw [found] at gone
      simp only [Option.some.injEq,exists_eq_left',Survives] at gone ⊢
      by_cases target : targeted serde runIds entry
      · by_cases needed : Required serde s threadId (.deleteForRuns runIds) ns id <;> simp [gone,target,needed]
      · simp [gone,target]

theorem postgres_kept (shown : Represents serde s db threadId) {request : Request} {id : String} :
    Held (postgres db threadId request) threadId (ns,id) ↔ ∃ entry, s.entryAt threadId ns (.text id) = some entry ∧
      (Survives serde s threadId request ns (.text id) entry ∨ ∃ survivor other, s.entryAt threadId ns survivor = some other ∧
        Survives serde s threadId request ns survivor other ∧ PlainlyNeeds (scopeAt serde s threadId ns) other (.text id)) := by
  have step : Held (postgres db threadId request) threadId (ns,id) ↔
      Held db threadId (ns,id) ∧ (ns,id) ∉ removedKeys (runsOf request) db threadId := by
    cases request with
    | keepLatest => exact removeHistory_prunes _
    | deleteForRuns runIds => exact removeHistory_deletes runIds [] _
  rw [step,← fetched,← Option.isSome_iff_exists,← shown.stored,Option.isSome_iff_exists]
  constructor
  · rintro ⟨⟨entry,found⟩,stays⟩
    refine ⟨entry,found,?_⟩
    by_contra neither
    rw [not_or,← protected_iff shown request,← candidate_iff shown found] at neither
    exact stays (List.mem_filter.mpr ⟨neither.1,by simp [neither.2]⟩)
  · rintro ⟨entry,found,reason⟩
    refine ⟨⟨entry,found⟩,fun removed => ?_⟩
    obtain ⟨candidate,free⟩ := List.mem_filter.mp removed
    rcases reason with survives | needs
    · exact (candidate_iff shown found).mp candidate survives
    · simp [(protected_iff shown request).mpr needs] at free

end survivors

-- Exactly then the backends keep the same checkpoints: each candidate that the
-- in-memory walk protects is also reached by a walk that meets no empty id and
-- takes no blob of version `None` for the value of an ancestor without version.
theorem backends_retain (clamp : Int → Int) (serde : Serde) (s : Saver) (db : Database) (threadId : String) (request : Request)
    (shown : Represents serde s db threadId) :
    SameKept clamp serde s db threadId request ↔ Sheltered serde s threadId request := by
  constructor
  · intro same ns id entry found candidate needed
    have kept := (same ns id).mp (inMemory_kept.mpr ⟨entry,found,.inr needed⟩)
    obtain ⟨text,rfl,held⟩ := kept
    obtain ⟨stored,here,reason⟩ := (postgres_kept shown).mp held
    cases Option.some.inj (found.symm.trans here)
    exact reason.resolve_left candidate
  · intro sheltered ns id
    rw [inMemory_kept]
    constructor
    · rintro ⟨entry,found,reason⟩
      obtain ⟨text,rfl⟩ := shown_text shown (Dict.mem_keys.mpr (Dict.contains_iff.mpr ⟨entry,found⟩))
      refine ⟨text,rfl,(postgres_kept shown).mpr ⟨entry,found,?_⟩⟩
      by_cases survives : Survives serde s threadId request ns (.text text) entry
      · exact .inl survives
      · exact .inr (sheltered ns _ entry found survives (reason.resolve_left survives))
    · rintro ⟨text,rfl,held⟩
      obtain ⟨entry,found,reason⟩ := (postgres_kept shown).mp held
      refine ⟨entry,found,reason.imp_right ?_⟩
      rintro ⟨survivor,other,here,survives,needs⟩
      exact ⟨survivor,other,here,survives,plainly_chain needs⟩

-- `c` counts deltas of `messages` on the value that `a` holds in version
-- `None`; between them `b` has no version of the channel.
def toySerde : Serde :=
  ⟨fun value => ⟨match value.data with
      | [1] => Dict.empty.insert "messages" (.text "None")
      | [2] => Dict.empty.insert "messages" (.text "2")
      | _ => .empty⟩,
   fun value => ⟨none,if value.data = [1] then some ["messages"] else none⟩⟩

def toySaver : Saver :=
  let entry := fun payload metadata parentId => (⟨⟨"msgpack",payload⟩,⟨"msgpack",metadata⟩,parentId⟩ : Entry)
  {storage := Dict.empty.insert "t" ⟨Dict.empty.insert "" (((Dict.empty.insert (.text "a") (entry [1] [] none)).insert
     (.text "b") (entry [] [] (some (.text "a")))).insert (.text "c") (entry [2] [1] (some (.text "b")))),true⟩
   writes := .empty
   blobs := Dict.empty.insert ⟨"t","","messages",.text "None"⟩ ⟨"msgpack",[7]⟩
   sizeState := .clear}

def toyDatabase : Database :=
  {checkpoints := [⟨"t","","a",none,some (Dict.empty.insert "messages" "None"),none,none⟩,⟨"t","","b",some "a",none,none,none⟩,
     ⟨"t","","c",some "b",some (Dict.empty.insert "messages" "2"),some ["messages"],none⟩]
   blobs := [⟨"t","","messages","None","msgpack"⟩]
   writes := []}

theorem toy_represented : Represents toySerde toySaver toyDatabase "t" := by
  have entries : ∀ ns id, toySaver.entryAt "t" ns id = if "" = ns then
      (if .text "c" = id then some ⟨⟨"msgpack",[2]⟩,⟨"msgpack",[1]⟩,some (.text "b")⟩ else
       if .text "b" = id then some ⟨⟨"msgpack",[]⟩,⟨"msgpack",[]⟩,some (.text "a")⟩ else
       if .text "a" = id then some ⟨⟨"msgpack",[1]⟩,⟨"msgpack",[]⟩,none⟩ else none) else none := by
    intro ns id
    by_cases root : "" = ns
    · subst root
      simp [toySaver,Saver.entryAt,Saver.checkpointsAt,Dict.get?_insert]
    · simp [toySaver,Saver.entryAt,Saver.checkpointsAt,Dict.get?_insert,root]
  have rows : ∀ ns id, (fetchRows toyDatabase "t").get? (ns,id) = if "" = ns then
      (if "c" = id then some ⟨"t","","c",some "b",some (Dict.empty.insert "messages" "2"),some ["messages"],none⟩ else
       if "b" = id then some ⟨"t","","b",some "a",none,none,none⟩ else
       if "a" = id then some ⟨"t","","a",none,some (Dict.empty.insert "messages" "None"),none,none⟩ else none) else none := by
    intro ns id
    by_cases root : "" = ns
    · subst root
      simp [toyDatabase,fetchRows,Dict.update,Dict.get?_insert,CheckpointRow.key]
    · simp [toyDatabase,fetchRows,Dict.update,Dict.get?_insert,CheckpointRow.key,root]
  refine ⟨fun ns value => by simp [entries],fun ns id => ?_,fun ns id entry row found fetched => ?_,fun ns channel version => ?_⟩
  · rw [entries,rows]
    simp only [CheckpointId.text.injEq]
    split <;> (try split) <;> (try split) <;> (try split) <;> rfl
  · rw [entries] at found
    rw [rows] at fetched
    split at found
    · rename_i root
      rw [if_pos root] at fetched
      simp only [CheckpointId.text.injEq] at found
      by_cases last : "c" = id
      · rw [if_pos last] at found fetched
        cases found
        cases fetched
        exact ⟨rfl,fun channel => by simp [toySerde,Dict.get?_insert],fun channel => by simp [toySerde],rfl⟩
      · rw [if_neg last] at found fetched
        by_cases middle : "b" = id
        · rw [if_pos middle] at found fetched
          cases found
          cases fetched
          exact ⟨rfl,fun channel => by simp [toySerde],fun channel => by simp [toySerde],rfl⟩
        · rw [if_neg middle] at found fetched
          split at found
          · rename_i first
            rw [if_pos first] at fetched
            cases found
            cases fetched
            exact ⟨rfl,fun channel => by simp [toySerde,Dict.get?_insert],fun channel => by simp [toySerde],rfl⟩
          · cases found
    · cases found
  · have values : materialized toyDatabase "t" = [("","messages","None")] := by decide
    rw [values,Bool.eq_iff_iff]
    simp only [toySaver,Dict.get?_insert,List.contains_iff_mem,List.mem_singleton,Prod.mk.injEq]
    have key : ((⟨"t","","messages",.text "None"⟩ : BlobKey) == ⟨"t",ns,channel,.text version⟩) = true ↔
        ns = "" ∧ channel = "messages" ∧ version = "None" := by
      rw [blobKey_beq,version_beq]
      simp [Version.identity,eq_comm]
    rw [← key]
    split <;> simp_all [materialised]

theorem backends_retain_toy : SameKept (max 0) toySerde toySaver toyDatabase "t" .keepLatest ↔
    Sheltered toySerde toySaver "t" .keepLatest :=
  backends_retain (max 0) toySerde toySaver toyDatabase "t" .keepLatest toy_represented

-- In memory `a` is kept for the newest checkpoint, in the database it goes.
theorem backends_differ : Represents toySerde toySaver toyDatabase "t" ∧
    ¬SameKept (max 0) toySerde toySaver toyDatabase "t" .keepLatest := by
  refine ⟨toy_represented,fun same => ?_⟩
  obtain ⟨text,named,held⟩ := (same "" (.text "a")).mp (by decide +kernel)
  cases named
  have gone : ¬Held (postgres toyDatabase "t" .keepLatest) "t" ("","a") := by
    unfold Held
    decide +kernel
  exact gone held

end InmemRuntime.BackendRetention
