import InmemRuntime.SizeExact
import Mathlib.Data.Finset.Card
import Mathlib.Data.Finset.Image

namespace InmemRuntime.CheckpointLookup
open OrderedDict CheckpointData CheckpointSaver SizeTracking SizeAccounting SizeOperations SizeExact

-- The arguments of one `put`.
structure PutCall (J : Type) where
  config : PutConfig J
  checkpoint : Checkpoint J
  metadata : Dict String J
  newVersions : Dict String Version

section calls
variable {J : Type} (base : Base J)

-- One call after the other; `none` is an exception.
def putAll (s : Saver) (calls : List (PutCall J)) : Option Saver :=
  calls.foldlM (fun s call => put (max 0) base s call.config call.checkpoint call.metadata call.newVersions) s

-- The entry that a call stores.
def PutCall.entry (call : PutCall J) : Entry :=
  ⟨base.dumpsCheckpoint call.checkpoint.id call.checkpoint.body,base.dumpsMetadata
    (base.checkpointMetadata call.config.configurable call.config.metadata (mergedMetadata call.config call.metadata)),
    call.config.checkpointId⟩

-- Where a call stores it.
def PutCall.place (call : PutCall J) : String × String × CheckpointId :=
  (call.config.threadId,call.config.checkpointNs,call.checkpoint.id)

-- The checkpoint that a call is about: ids are the same when their texts are.
def named (place : String × String × CheckpointId) : String × String × String := (place.1,place.2.1,place.2.2.str)

def PutCall.target (call : PutCall J) : String × String × String := named call.place

def isText : CheckpointId → Bool
  | .text _ => true
  | .uuid _ => false

-- The last of the calls that has `key`.
def last {κ : Type} [DecidableEq κ] (key : PutCall J → κ) (calls : List (PutCall J)) (k : κ) : Option (PutCall J) :=
  (calls.filter fun call => key call = k).getLast?

-- The entry in what `get_tuple` answers; the outer `none` is an exception.
def answer (s : Saver) (threadId ns : String) (id : CheckpointId) : Option (Option Entry) :=
  (getTuple s threadId ns (some id)).map fun result => result.2.map fun found => found.2.1

structure Faithful (calls : List (PutCall J)) (s : Saver) : Prop where
  found : ∀ threadId ns id,
    answer s threadId ns id = some ((last PutCall.target calls (threadId,ns,id.str)).map (PutCall.entry base))
  total : s.sizeState.totalCheckpoints = (calls.map PutCall.target).toFinset.card
  threads : ∀ threadId, (s.sizeState.thread threadId).2 =
    ((calls.map PutCall.target).toFinset.filter fun target => target.1 = threadId).card

-- What holds after any calls: each place has the entry of its last call, and
-- the places are counted.
structure Stored (calls : List (PutCall J)) (s : Saver) : Prop where
  follows : Follows s
  auto : ∀ threadId, (s.namespaces threadId).auto = true
  entries : ∀ threadId ns id, s.entryAt threadId ns id = (last PutCall.place calls (threadId,ns,id)).map (PutCall.entry base)
  counts : ∀ sel, (contents s sel).2 = ((calls.map PutCall.place).toFinset.filter fun place => sel place.1 = true).card

end calls

section storing
variable {J : Type} {base : Base J} {s : Saver} {threadId ns : String} {calls : List (PutCall J)}

theorem last_append {κ : Type} [DecidableEq κ] (key : PutCall J → κ) (call : PutCall J) (k : κ) :
    last key (calls ++ [call]) k = if key call = k then some call else last key calls k := by
  unfold last
  rw [List.filter_append]
  by_cases same : key call = k <;> simp [same]

theorem last_none {κ : Type} [DecidableEq κ] {key : PutCall J → κ} {k : κ} : last key calls k = none ↔ k ∉ calls.map key := by
  simp [last]

theorem bucket_auto (auto : (s.namespaces threadId).auto = true) : s.bucket threadId ns = some (s.checkpointsAt threadId ns) := by
  cases found : s.bucket threadId ns with
  | none =>
    unfold Saver.bucket at found
    split at found
    · cases found
    · rw [if_pos auto] at found
      cases found
  | some checkpoints => rw [bucket_checkpointsAt found]

theorem setBucket_elsewhere (checkpoints : Checkpoints) {threadId' ns' : String} (other : ¬ (threadId = threadId' ∧ ns = ns')) :
    (s.setBucket threadId ns checkpoints).checkpointsAt threadId' ns' = s.checkpointsAt threadId' ns' := by
  unfold Saver.checkpointsAt Saver.setBucket
  dsimp only
  by_cases same : threadId = threadId'
  · subst same
    have apart : ns ≠ ns' := fun equal => other ⟨rfl,equal⟩
    cases found : s.storage.get? threadId <;> simp [Saver.namespaces,found,Dict.get?_insert,apart]
  · simp [Dict.get?_insert,same]

theorem setBucket_auto (auto : ∀ threadId, (s.namespaces threadId).auto = true) (checkpoints : Checkpoints) (threadId' : String) :
    ((s.setBucket threadId ns checkpoints).namespaces threadId').auto = true := by
  have here := auto threadId
  have there := auto threadId'
  unfold Saver.setBucket
  unfold Saver.namespaces at there ⊢
  by_cases same : threadId = threadId'
  · simpa [same] using same ▸ here
  · simpa [Dict.get?_insert,same] using there

theorem entry_after {s' : Saver} {id : CheckpointId} {entry : Entry}
    (storage : s'.storage = (s.setBucket threadId ns ((s.checkpointsAt threadId ns).insert id entry)).storage)
    (threadId' ns' : String) (id' : CheckpointId) :
    s'.entryAt threadId' ns' id' = if (threadId,ns,id) = (threadId',ns',id') then some entry else s.entryAt threadId' ns' id' := by
  have checkpoints : s'.checkpointsAt threadId' ns' =
      (s.setBucket threadId ns ((s.checkpointsAt threadId ns).insert id entry)).checkpointsAt threadId' ns' :=
    congrArg (fun storage : Dict String Namespaces => ((storage.get? threadId').bind fun namespaces => namespaces.dict.get? ns').getD .empty)
      storage
  unfold Saver.entryAt
  rw [checkpoints]
  by_cases here : threadId = threadId' ∧ ns = ns'
  · obtain ⟨rfl,rfl⟩ := here
    rw [setBucket_checkpointsAt]
    by_cases same : id = id' <;> simp [Dict.get?_insert,same]
  · rw [setBucket_elsewhere _ here,if_neg]
    exact fun same => here ⟨congrArg Prod.fst same,congrArg (fun place => place.2.1) same⟩

theorem basePut_storage (base : Base J) (call : PutCall J) (auto : (s.namespaces call.config.threadId).auto = true) :
    ∃ after, basePut base s call.config call.checkpoint (mergedMetadata call.config call.metadata) call.newVersions = some after ∧
      after.storage = (s.setBucket call.config.threadId call.config.checkpointNs
        ((s.checkpointsAt call.config.threadId call.config.checkpointNs).insert call.checkpoint.id (call.entry base))).storage := by
  have bucket : ∀ blobs, Saver.bucket {s with blobs} call.config.threadId call.config.checkpointNs =
      some (s.checkpointsAt call.config.threadId call.config.checkpointNs) := fun _ => bucket_auto auto
  unfold basePut
  dsimp only
  rw [bucket]
  exact ⟨_,rfl,rfl⟩

-- A further put adds its place, if it is a new one.
theorem places_grow (calls : List (PutCall J)) (call : PutCall J) (sel : String → Bool) :
    ((((calls ++ [call]).map PutCall.place).toFinset.filter fun place => sel place.1 = true).card : Int) =
      ((calls.map PutCall.place).toFinset.filter fun place => sel place.1 = true).card +
        if sel call.place.1 = true then (if (last PutCall.place calls call.place).isNone then 1 else 0) else 0 := by
  have grown : ((calls ++ [call]).map PutCall.place).toFinset = insert call.place (calls.map PutCall.place).toFinset := by
    simp
  rw [grown,Finset.filter_insert]
  by_cases mine : sel call.place.1 = true
  · rw [if_pos mine,if_pos mine]
    by_cases known : call.place ∈ calls.map PutCall.place
    · have some_ : (last PutCall.place calls call.place).isNone = false :=
        Bool.eq_false_iff.mpr fun none_ => last_none.mp (Option.isNone_iff_eq_none.mp none_) known
      have listed : call.place ∈ (calls.map PutCall.place).toFinset.filter fun place => sel place.1 = true :=
        Finset.mem_filter.mpr ⟨List.mem_toFinset.mpr known,mine⟩
      rw [Finset.insert_eq_of_mem listed]
      simp [some_]
    · have none_ : (last PutCall.place calls call.place).isNone = true := Option.isNone_iff_eq_none.mpr (last_none.mpr known)
      have fresh : call.place ∉ (calls.map PutCall.place).toFinset.filter fun place => sel place.1 = true :=
        fun listed => known (List.mem_toFinset.mp (Finset.mem_filter.mp listed).1)
      rw [Finset.card_insert_of_notMem fresh]
      simp [none_]
  · rw [if_neg mine,if_neg mine]
    simp

theorem put_stored (stored : Stored base calls s) (call : PutCall J) :
    ∃ s', put (max 0) base s call.config call.checkpoint call.metadata call.newVersions = some s' ∧ Stored base (calls ++ [call]) s' := by
  obtain ⟨after,ran,storage⟩ := basePut_storage base call (stored.auto call.config.threadId)
  obtain ⟨sizeState,stepped⟩ : ∃ sizeState,
      put (max 0) base s call.config call.checkpoint call.metadata call.newVersions = some {after with sizeState} := by
    unfold put
    dsimp only
    rw [ran]
    exact ⟨_,rfl⟩
  have kept : ({after with sizeState} : Saver).storage = after.storage := rfl
  have entries := entry_after (kept.trans storage)
  refine ⟨_,stepped,(put_step stored.follows stepped).1,fun threadId => ?_,fun threadId ns id => ?_,fun sel => ?_⟩
  · let bucket := (s.checkpointsAt call.config.threadId call.config.checkpointNs).insert call.checkpoint.id (call.entry base)
    have auto : ((s.setBucket call.config.threadId call.config.checkpointNs bucket).namespaces threadId).auto = true :=
      setBucket_auto stored.auto bucket threadId
    unfold Saver.namespaces at auto ⊢
    rw [← storage] at auto
    exact auto
  · rw [entries,last_append,stored.entries]
    unfold PutCall.place
    split <;> rfl
  · have moves := basePut_moves ran sel
    have old := stored.counts sel
    rw [stored.entries,Option.isNone_map] at moves
    change (contents after sel).2 = _
    rw [moves,places_grow,← old]
    unfold shifted
    by_cases mine : sel call.place.1 = true
    · have counted : sel call.config.threadId = true := mine
      rw [if_pos mine,if_pos counted]
      rfl
    · have skipped : ¬ sel call.config.threadId = true := mine
      rw [if_neg mine,if_neg skipped]
      rfl

-- After any puts every place has its last entry.
theorem putAll_stored (calls : List (PutCall J)) : ∃ s, putAll base clear calls = some s ∧ Stored base calls s := by
  induction calls using List.reverseRecOn with
  | nil => exact ⟨clear,rfl,clear_tracks,fun _ => rfl,fun _ _ _ => rfl,fun _ => rfl⟩
  | append_singleton calls call ih =>
    obtain ⟨s,ran,stored⟩ := ih
    obtain ⟨s',stepped,next⟩ := put_stored stored call
    refine ⟨s',?_,next⟩
    unfold putAll at ran ⊢
    rw [List.foldlM_append,ran]
    simpa using stepped

-- Whatever the request's id is made of, its text is looked up.
theorem answer_text (auto : (s.namespaces threadId).auto = true) (id : CheckpointId) :
    answer s threadId ns id = some (s.entryAt threadId ns (.text id.str)) := by
  unfold answer getTuple Saver.entryAt
  rw [bucket_auto auto]
  dsimp only
  cases (s.checkpointsAt threadId ns).get? (.text id.str) <;> rfl

theorem targets_image (calls : List (PutCall J)) :
    (calls.map PutCall.target).toFinset = (calls.map PutCall.place).toFinset.image named := by
  ext target
  simp [PutCall.target]

theorem text_place {call : PutCall J} (text : isText call.checkpoint.id = true) :
    call.place = (call.target.1,call.target.2.1,.text call.target.2.2) := by
  unfold PutCall.target PutCall.place
  cases kind : call.checkpoint.id with
  | text value => rfl
  | uuid value =>
    rw [kind] at text
    cases text

theorem stored_faithful (stored : Stored base calls s) (texts : ∀ call ∈ calls, isText call.checkpoint.id = true) :
    Faithful base calls s := by
  have injective : Set.InjOn named ((calls.map PutCall.place).toFinset : Set (String × String × CheckpointId)) := by
    intro place listed place' listed' same
    obtain ⟨call,member,rfl⟩ := List.mem_map.mp (List.mem_toFinset.mp listed)
    obtain ⟨call',member',rfl⟩ := List.mem_map.mp (List.mem_toFinset.mp listed')
    have targets : call.target = call'.target := same
    rw [text_place (texts call member),text_place (texts call' member'),targets]
  refine ⟨fun threadId ns id => ?_,?_,fun threadId => ?_⟩
  · rw [answer_text (stored.auto threadId),stored.entries]
    have same : last PutCall.place calls (threadId,ns,.text id.str) = last PutCall.target calls (threadId,ns,id.str) := by
      refine congrArg List.getLast? (List.filter_congr fun call member => decide_eq_decide.mpr ⟨fun here => ?_,fun here => ?_⟩)
      · unfold PutCall.target
        rw [here]
        rfl
      · rw [text_place (texts call member)]
        exact congrArg (fun target : String × String × String => (target.1,target.2.1,CheckpointId.text target.2.2)) here
    rw [same]
  · rw [stored.follows.checkpoints,stored.counts,targets_image,Finset.card_image_of_injOn injective]
    simp
  · rw [stored.follows.thread,stored.counts,targets_image,Finset.filter_image,Finset.card_image_of_injOn]
    · congr 2
      ext place
      rw [Finset.mem_filter,Finset.mem_filter]
      simp [named]
    · exact injective.mono fun place listed => (Finset.mem_filter.mp listed).1

-- An id that stays a `UUID` is not found under its text, or is counted beside it.
theorem faithful_texts (stored : Stored base calls s) (faithful : Faithful base calls s) :
    ∀ call ∈ calls, isText call.checkpoint.id = true := by
  intro call member
  cases kind : call.checkpoint.id with
  | text value => rfl
  | uuid value =>
    exfalso
    have counted : ((calls.map PutCall.place).toFinset.image named).card = (calls.map PutCall.place).toFinset.card := by
      have total := faithful.total
      rw [stored.follows.checkpoints,stored.counts,targets_image] at total
      simpa using total.symm
    have injective := Finset.card_image_iff.mp counted
    have found := faithful.found call.config.threadId call.config.checkpointNs call.checkpoint.id
    rw [answer_text (stored.auto _),stored.entries,Option.some_inj] at found
    have listed : (call.config.threadId,call.config.checkpointNs,CheckpointId.text call.checkpoint.id.str) ∈ calls.map PutCall.place := by
      refine Classical.byContradiction fun missing => ?_
      rw [last_none.mpr missing] at found
      have none_ := Option.map_eq_none_iff.mp found.symm
      exact last_none.mp none_ (List.mem_map.mpr ⟨call,member,rfl⟩)
    have same := injective (List.mem_toFinset.mpr listed) (List.mem_toFinset.mpr (List.mem_map_of_mem member)) rfl
    have ids : CheckpointId.text call.checkpoint.id.str = call.checkpoint.id := congrArg (fun place => place.2.2) same
    rw [kind] at ids
    cases ids

end storing

section result
variable {J : Type} (base : Base J)

theorem lookup_finds (calls : List (PutCall J)) : ∃ s, putAll base clear calls = some s ∧
    (Faithful base calls s ↔ ∀ call ∈ calls, isText call.checkpoint.id = true) := by
  obtain ⟨s,ran,stored⟩ : ∃ s, putAll base clear calls = some s ∧ Stored base calls s := putAll_stored calls
  exact ⟨s,ran,faithful_texts stored,stored_faithful stored⟩

end result

def someUuid : String := "1ef4f797-8335-6428-8001-8a1503f9b875"

def toyCall (id : CheckpointId) : PutCall (List UInt8) := ⟨⟨"t","",none,.empty,.empty⟩,⟨id,.empty,[1]⟩,.empty,.empty⟩

-- Nobody finds what was put under a `UUID`.
theorem uuid_unfound : ∃ s, putAll toyBase clear [toyCall (.uuid someUuid)] = some s ∧ answer s "t" "" (.uuid someUuid) = some none ∧
    ¬ Faithful toyBase [toyCall (.uuid someUuid)] s := by
  refine ⟨_,rfl,rfl,fun faithful => ?_⟩
  have found := faithful.found "t" "" (.uuid someUuid)
  cases found

end InmemRuntime.CheckpointLookup
