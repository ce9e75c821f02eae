import InmemRuntime.CheckpointLookup

namespace InmemRuntime.MetadataPrivacy
open OrderedDict CheckpointData CheckpointSaver SizeAccounting SizeExact CheckpointLookup

-- What `get_checkpoint_metadata` of the base class goes by: what it makes of a
-- value of the metadata, what of a scalar, and the keys that it leaves out.
structure Rules (J : Type) where
  kept : J → J
  scalar : J → Option J
  excluded : List String

section adopting
variable {J : Type} (rules : Rules J)

def Rules.admits (key : String) : Bool := !rules.excluded.contains key && !key.startsWith "__"

-- A scalar under a key that is not there yet.
def adoptEntry (metadata : Dict String J) (entry : String × J) : Dict String J :=
  if metadata.contains entry.1 || !rules.admits entry.1 then metadata
  else match rules.scalar entry.2 with
    | some value => metadata.insert entry.1 value
    | none => metadata

def adopt (metadata source : Dict String J) : Dict String J := source.entries.foldl (adoptEntry rules) metadata

def getCheckpointMetadata (configurable configMetadata metadata : Dict String J) : Dict String J :=
  adopt rules (adopt rules (metadata.mapValues fun _ => rules.kept) configMetadata) configurable

-- What the base class stores of what `put` hands to it.
def storedMetadata (config : PutConfig J) (metadata : Dict String J) : Dict String J :=
  getCheckpointMetadata rules config.configurable config.metadata (mergedMetadata config metadata)

-- A saver with this base class.
def withRules (base : Base J) : Base J := {base with checkpointMetadata := getCheckpointMetadata rules}

-- What the base class would adopt of `source` under that key.
def offered (source : Dict String J) (key : String) : Option J :=
  if rules.admits key then (source.get? key).bind rules.scalar else none

-- No transient key of the config has a scalar.
def Clean (config : PutConfig J) : Prop :=
  ∀ key ∈ transientKeys, offered rules config.metadata key = none ∧ offered rules config.configurable key = none

def Private (config : PutConfig J) (metadata : Dict String J) : Prop :=
  ∀ key ∈ transientKeys, (storedMetadata rules config metadata).get? key = none

-- Two requests that differ in the transient keys only.
structure Alike (config config' : PutConfig J) (metadata metadata' : Dict String J) : Prop where
  threadId : config'.threadId = config.threadId
  checkpointNs : config'.checkpointNs = config.checkpointNs
  checkpointId : config'.checkpointId = config.checkpointId
  configurable : withoutTransient config'.configurable = withoutTransient config.configurable
  configMetadata : withoutTransient config'.metadata = withoutTransient config.metadata
  metadata : withoutTransient metadata' = withoutTransient metadata

-- What two puts leave behind, if they end.
def SameStores : Option Saver → Option Saver → Prop
  | some s,some s' => s'.storage = s.storage ∧ s'.blobs = s.blobs
  | none,none => True
  | _,_ => False

instance [DecidableEq J] (config : PutConfig J) : Decidable (Clean rules config) :=
  inferInstanceAs (Decidable (∀ key ∈ transientKeys, _ ∧ _))

instance (left right : Option Saver) : Decidable (SameStores left right) :=
  match left,right with
  | some _,some _ => inferInstanceAs (Decidable (_ ∧ _))
  | none,none => .isTrue trivial
  | some _,none => .isFalse id
  | none,some _ => .isFalse id

end adopting

section rules
variable {J : Type} {rules : Rules J} {metadata : Dict String J}

theorem adoptEntry_get? (entry : String × J) (key : String) : (adoptEntry rules metadata entry).get? key =
    (metadata.get? key).or (if entry.1 = key ∧ rules.admits key = true then rules.scalar entry.2 else none) := by
  unfold adoptEntry
  by_cases same : entry.1 = key
  · subst same
    cases held : metadata.get? entry.1 with
    | some value =>
      have here : metadata.contains entry.1 = true := Dict.contains_iff.mpr ⟨value,held⟩
      simp [here,held]
    | none =>
      have absent : metadata.contains entry.1 = false := Dict.contains_eq_false_iff.mpr held
      cases admitted : rules.admits entry.1 <;> cases rules.scalar entry.2 <;> simp [absent,held]
  · split
    · simp [same]
    · cases rules.scalar entry.2 <;> simp [same,Dict.get?_insert]

-- What is there stays, and what is offered comes where there was nothing.
theorem adopt_get? (source : Dict String J) (key : String) :
    (adopt rules metadata source).get? key = (metadata.get? key).or (offered rules source key) := by
  obtain ⟨rows,apart⟩ := source
  unfold adopt offered Dict.get?
  dsimp only
  induction rows generalizing metadata with
  | nil => simp
  | cons row rest ih =>
    obtain ⟨others,later⟩ := List.pairwise_cons.mp apart
    have here : (adoptEntry rules metadata row).get? key = _ := adoptEntry_get? row key
    unfold Dict.get? at here
    rw [List.foldl_cons,ih later,here,List.find?_cons,Option.or_assoc]
    by_cases same : row.1 = key
    · subst same
      have missing : rest.find? (fun entry => entry.1 == row.1) = none := by
        refine List.find?_eq_none.mpr fun other member => ?_
        rw [BEq.comm,others other member]
        exact Bool.false_ne_true
      simp [missing]
    · have passed : (row.1 == key) = false := by simp [same]
      simp [same,passed]

theorem transient_unmerged (config : PutConfig J) {key : String} (transient : key ∈ transientKeys) :
    (mergedMetadata config metadata).get? key = none := by
  have listed : transientKeys.contains key = true := List.contains_iff_mem.mpr transient
  unfold mergedMetadata withoutTransient
  simp only [Dict.get?_update_dict,Dict.get?_keep,listed]
  cases metadata.get? key <;> cases config.metadata.get? key <;> cases config.configurable.get? key <;> simp

theorem private_iff (config : PutConfig J) (metadata : Dict String J) : Private rules config metadata ↔ Clean rules config := by
  refine forall₂_congr fun key transient => ?_
  unfold storedMetadata getCheckpointMetadata
  rw [adopt_get?,adopt_get?,Dict.get?_map,transient_unmerged config transient]
  simp

-- What is not offered might as well not be there.
theorem adopt_clean {source : Dict String J} (clean : ∀ key ∈ transientKeys, offered rules source key = none) (metadata : Dict String J) :
    adopt rules metadata source = adopt rules metadata (withoutTransient source) := by
  have passes : ∀ row ∈ source.entries, transientKeys.contains row.1 = true → ∀ metadata, adoptEntry rules metadata row = metadata := by
    intro row member transient metadata
    have offer := clean row.1 (List.contains_iff_mem.mp transient)
    unfold offered at offer
    rw [Dict.get?_of_mem member BEq.rfl] at offer
    unfold adoptEntry
    cases admitted : rules.admits row.1 with
    | false => simp
    | true =>
      rw [admitted,if_pos rfl] at offer
      simp [show rules.scalar row.2 = none from offer]
  unfold adopt withoutTransient
  rw [Dict.entries_filter,List.foldl_filter]
  refine List.foldl_ext _ _ _ fun metadata row member => ?_
  cases transient : transientKeys.contains row.1 with
  | true => simpa [transient] using passes row member transient metadata
  | false => simp

theorem merged_alike {config config' : PutConfig J} {metadata metadata' : Dict String J} (alike : Alike config config' metadata metadata') :
    mergedMetadata config' metadata' = mergedMetadata config metadata := by
  have narrowed : ∀ d : Dict String J, (d.filter fun k _ => !k.startsWith "__" && !excludedKeys.contains k && !transientKeys.contains k) =
      (withoutTransient d).filter fun k _ => !k.startsWith "__" && !excludedKeys.contains k := by
    intro d
    apply Dict.ext
    unfold withoutTransient
    rw [Dict.entries_filter,Dict.entries_filter,Dict.entries_filter,List.filter_filter]
  unfold mergedMetadata
  rw [narrowed,narrowed,alike.configurable,alike.configMetadata,alike.metadata]

theorem stored_alike {config config' : PutConfig J} {metadata metadata' : Dict String J} (alike : Alike config config' metadata metadata')
    (clean : Clean rules config) (clean' : Clean rules config') :
    storedMetadata rules config' metadata' = storedMetadata rules config metadata := by
  unfold storedMetadata getCheckpointMetadata
  rw [adopt_clean fun key member => (clean' key member).2,adopt_clean fun key member => (clean' key member).1,
    adopt_clean fun key member => (clean key member).2,adopt_clean fun key member => (clean key member).1,
    merged_alike alike,alike.configurable,alike.configMetadata]

-- The base class stores its metadata with the checkpoint, and nothing else of
-- the request but its ids.
theorem put_alike {base : Base J} {s : Saver} {config config' : PutConfig J} {metadata metadata' : Dict String J}
    (alike : Alike config config' metadata metadata') (same : storedMetadata rules config' metadata' = storedMetadata rules config metadata)
    (checkpoint : Checkpoint J) (newVersions : Dict String Version) :
    put (max 0) (withRules rules base) s config' checkpoint metadata' newVersions =
      put (max 0) (withRules rules base) s config checkpoint metadata newVersions := by
  have stored : basePut (withRules rules base) s config' checkpoint (mergedMetadata config' metadata') newVersions =
      basePut (withRules rules base) s config checkpoint (mergedMetadata config metadata) newVersions := by
    unfold basePut
    have handed : (withRules rules base).checkpointMetadata config'.configurable config'.metadata (mergedMetadata config' metadata') =
        (withRules rules base).checkpointMetadata config.configurable config.metadata (mergedMetadata config metadata) := same
    rw [handed,alike.threadId,alike.checkpointNs,alike.checkpointId]
  unfold put
  rw [stored,alike.threadId,alike.checkpointNs]

theorem put_entry {base : Base J} {s s' : Saver} {call : PutCall J}
    (ran : put (max 0) (withRules rules base) s call.config call.checkpoint call.metadata call.newVersions = some s') :
    (s'.entryAt call.config.threadId call.config.checkpointNs call.checkpoint.id).map Entry.metadata =
      some (base.dumpsMetadata (storedMetadata rules call.config call.metadata)) := by
  unfold put basePut at ran
  dsimp only at ran
  split at ran
  · cases ran
  · rename_i after stored
    split at stored
    · cases stored
    · rename_i checkpoints bucket
      cases Option.some.inj stored
      cases Option.some.inj ran
      have held : checkpoints = s.checkpointsAt call.config.threadId call.config.checkpointNs := bucket_checkpointsAt bucket
      subst held
      exact congrArg (Option.map Entry.metadata) ((entry_after rfl _ _ _).trans (if_pos rfl))

end rules

section result
variable {J : Type}

-- What two requests for one checkpoint leave behind is the same and shows
-- nothing of the requests, exactly when neither config has anything to leak.
theorem transient_unstored (rules : Rules J) (base : Base J) (s : Saver) (call call' : PutCall J)
    (same : call'.checkpoint = call.checkpoint ∧ call'.newVersions = call.newVersions)
    (alike : Alike call.config call'.config call.metadata call'.metadata) :
    (∀ one ∈ [call,call'], ∀ s', put (max 0) (withRules rules base) s one.config one.checkpoint one.metadata one.newVersions = some s' →
      (s'.entryAt one.config.threadId one.config.checkpointNs one.checkpoint.id).map Entry.metadata =
        some (base.dumpsMetadata (storedMetadata rules one.config one.metadata))) ∧
    (SameStores (put (max 0) (withRules rules base) s call.config call.checkpoint call.metadata call.newVersions)
        (put (max 0) (withRules rules base) s call'.config call'.checkpoint call'.metadata call'.newVersions) ∧
      Private rules call.config call.metadata ∧ Private rules call'.config call'.metadata ↔
        Clean rules call.config ∧ Clean rules call'.config) := by
  refine ⟨fun one _ s' ran => put_entry ran,?_⟩
  rw [private_iff,private_iff]
  refine ⟨And.right,fun clean => ⟨?_,clean⟩⟩
  rw [same.1,same.2,put_alike alike (stored_alike alike clean.1 clean.2)]
  unfold SameStores
  cases put (max 0) (withRules rules base) s call.config call.checkpoint call.metadata call.newVersions with
  | none => trivial
  | some s' => exact ⟨rfl,rfl⟩

end result

-- Every value but the empty one is a scalar.
def toyRules : Rules (List UInt8) := ⟨id,fun value => if value = [] then none else some value,["thread_id"]⟩

-- A put for the user with that id, whose permissions are a list.
def userCall (user : List UInt8) : PutCall (List UInt8) :=
  {toyCall (.text "a") with config := ⟨"t","",none,(Dict.empty.insert "langgraph_auth_permissions" []).insert "langgraph_auth_user_id" user,.empty⟩}

-- The same checkpoint without a user.
def nobodysCall : PutCall (List UInt8) :=
  {toyCall (.text "a") with config := ⟨"t","",none,Dict.empty.insert "langgraph_auth_permissions" [],.empty⟩}

theorem transient_unstored_toy : (userCall []).config.configurable ≠ nobodysCall.config.configurable ∧
    Private toyRules (userCall []).config .empty ∧ Private toyRules nobodysCall.config .empty ∧
    SameStores (put (max 0) (withRules toyRules toyBase) clear (userCall []).config (userCall []).checkpoint .empty .empty)
      (put (max 0) (withRules toyRules toyBase) clear nobodysCall.config nobodysCall.checkpoint .empty .empty) :=
  have clean : Clean toyRules (userCall []).config ∧ Clean toyRules nobodysCall.config := by decide +kernel
  have result := (transient_unstored toyRules toyBase clear (userCall []) nobodysCall ⟨rfl,rfl⟩ ⟨rfl,rfl,rfl,by decide +kernel,rfl,rfl⟩).2
  have ⟨stores,first,second⟩ := result.mpr clean
  ⟨by decide +kernel,first,second,stores⟩

-- The id of a user is a text, which the base class picks up again.
theorem user_stored : Alike (userCall [1]).config (userCall [2]).config .empty .empty ∧
    (storedMetadata toyRules (userCall [1]).config .empty).get? "langgraph_auth_user_id" = some [1] ∧
    ¬ Private toyRules (userCall [1]).config .empty ∧
    ¬ SameStores (put (max 0) (withRules toyRules toyBase) clear (userCall [1]).config (userCall [1]).checkpoint .empty .empty)
      (put (max 0) (withRules toyRules toyBase) clear (userCall [2]).config (userCall [2]).checkpoint .empty .empty) := by
  have kept : (storedMetadata toyRules (userCall [1]).config .empty).get? "langgraph_auth_user_id" = some [1] := by decide +kernel
  refine ⟨⟨rfl,rfl,rfl,by decide +kernel,rfl,rfl⟩,kept,fun hidden => ?_,by decide +kernel⟩
  have absent := hidden "langgraph_auth_user_id" (by decide)
  rw [kept] at absent
  cases absent

end InmemRuntime.MetadataPrivacy
