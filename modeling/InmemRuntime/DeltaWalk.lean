import InmemRuntime.AncestorChain
import InmemRuntime.Saver

namespace InmemRuntime.DeltaWalk
open OrderedDict AncestorChain CheckpointData CheckpointSaver

-- What pruning and run deletion read while they look at one namespace.
structure Scope where
  serde : Serde
  blobs : Dict BlobKey Typed
  threadId : String
  checkpointNs : String
  checkpoints : Checkpoints

def scopeOf (serde : Serde) (s : Saver) (threadId ns : String) (checkpoints : Checkpoints) : Scope :=
  ⟨serde,s.blobs,threadId,ns,checkpoints⟩

def scopeAt (serde : Serde) (s : Saver) (threadId ns : String) : Scope :=
  scopeOf serde s threadId ns (s.checkpointsAt threadId ns)

-- `blob is not None and blob[0] != "empty"`.
def materialised : Option Typed → Bool
  | some blob => blob.type != "empty"
  | none => false

namespace Scope

def key (s : Scope) (id : CheckpointId) : WriteKey := ⟨s.threadId,s.checkpointNs,id⟩

def blob? (s : Scope) (channel : String) (version : Version) : Option Typed :=
  s.blobs.get? ⟨s.threadId,s.checkpointNs,channel,version⟩

def versions (s : Scope) (entry : Entry) : Dict String Version :=
  (s.serde.loadsCheckpoint entry.checkpoint).channelVersions

def counters (s : Scope) (entry : Entry) : List String :=
  ((s.serde.loadsMetadata entry.metadata).deltaCounters).getD []

-- The blob of the entry's own version of a channel.
def ownBlob (s : Scope) (entry : Entry) (channel : String) : Option Typed :=
  ((s.versions entry).get? channel).bind (s.blob? channel)

def neededChannels (s : Scope) (entry : Entry) : List String :=
  ((s.versions entry).filter fun channel version =>
    (s.counters entry).contains channel && !materialised (s.blob? channel version)).keys

-- The `while` loop over parents; `fuel` bounds it by the number of checkpoints.
def walk (s : Scope) : Nat → List CheckpointId → List String → Option CheckpointId → List CheckpointId
  | 0,_,_,_ => []
  | _+1,_,_,none => []
  | fuel+1,visited,needed,some parent =>
    if needed.isEmpty then [] else
    if parent ∈ visited then [] else
    match s.checkpoints.get? parent with
    | none => []
    | some entry =>
      parent :: walk s fuel (parent :: visited)
        (needed.filter fun channel => !materialised (s.ownBlob entry channel)) entry.parentId

def walked (s : Scope) (entry : Entry) : List CheckpointId :=
  s.walk (s.checkpoints.size + 1) [] (s.neededChannels entry) entry.parentId

-- The same chain without a loop: the ancestors of the entry, as far as the
-- last of its unmaterialised channels needs them.
def link (s : Scope) (id : CheckpointId) : Option (Option CheckpointId) :=
  (s.checkpoints.get? id).map Entry.parentId

def settled (s : Scope) (channel : String) (id : CheckpointId) : Bool :=
  match s.checkpoints.get? id with
  | some entry => materialised (s.ownBlob entry channel)
  | none => false

def line (s : Scope) (entry : Entry) : List CheckpointId :=
  ancestors s.link (s.checkpoints.size + 1) [] entry.parentId

def deltaChain (s : Scope) (entry : Entry) : List CheckpointId :=
  cover s.settled (s.neededChannels entry) (s.line entry)

-- One step of a delta history: the ancestor, its pending writes and the blob
-- of its own version of the channel, which seeds the value at the last step.
def historyStep (s : Scope) (writes : Dict WriteKey WriteGroup) (channel : String) (id : CheckpointId) :
    CheckpointId × Option WriteGroup × Option Typed :=
  (id,writes.get? (s.key id),(s.checkpoints.get? id).bind fun entry => s.ownBlob entry channel)

def deltaHistory (s : Scope) (writes : Dict WriteKey WriteGroup) (entry : Entry) (channel : String) :
    List (CheckpointId × Option WriteGroup × Option Typed) :=
  (through (s.settled channel) (s.line entry)).map (s.historyStep writes channel)

theorem mem_neededChannels {s : Scope} {entry : Entry} {channel : String} :
    channel ∈ s.neededChannels entry ↔ channel ∈ s.counters entry ∧
      ((s.versions entry).get? channel).isSome ∧ materialised (s.ownBlob entry channel) = false := by
  simp only [neededChannels,Dict.keys,Dict.entries_filter,List.mem_map,List.mem_filter,Bool.and_eq_true,
    List.contains_iff_mem,Bool.not_eq_true',Prod.exists,exists_and_right,exists_eq_right]
  constructor
  · rintro ⟨version,member,counted,open_⟩
    have found := Dict.get?_of_mem member BEq.rfl
    exact ⟨counted,by simp [found],by simpa [ownBlob,found] using open_⟩
  · rintro ⟨counted,versioned,open_⟩
    obtain ⟨version,found⟩ := Option.isSome_iff_exists.mp versioned
    obtain ⟨stored,member,equal⟩ := Dict.mem_of_get? found
    cases eq_of_beq equal
    exact ⟨version,member,counted,by simpa [ownBlob,found] using open_⟩

theorem walk_cover (s : Scope) (fuel : Nat) (visited : List CheckpointId) (needed : List String)
    (start : Option CheckpointId) :
    s.walk fuel visited needed start = cover s.settled needed (ancestors s.link fuel visited start) := by
  induction fuel generalizing visited needed start with
  | zero => rfl
  | succ fuel ih =>
    cases start with
    | none => rfl
    | some parent =>
      simp only [walk,ancestors]
      by_cases seen : parent ∈ visited
      · simp [seen,cover]
      · cases found : s.checkpoints.get? parent with
        | none => simp [seen,link,found,cover]
        | some entry => simp [seen,link,found,cover,settled,ih]

theorem walked_deltaChain (s : Scope) (entry : Entry) : s.walked entry = s.deltaChain entry :=
  s.walk_cover _ _ _ _

theorem deltaChain_stored {s : Scope} {entry : Entry} {id : CheckpointId} (member : id ∈ s.deltaChain entry) :
    ∃ stored, s.checkpoints.get? id = some stored := by
  obtain ⟨parent,linked⟩ := ancestors_present ((cover_sublist _ _ _).mem member)
  obtain ⟨stored,found,_⟩ := Option.map_eq_some_iff.mp linked
  exact ⟨stored,found⟩

-- The fuel is no limit: any budget above the number of checkpoints gives the line.
theorem line_budget (s : Scope) (entry : Entry) {fuel : Nat} (enough : s.checkpoints.size < fuel) :
    ancestors s.link fuel [] entry.parentId = s.line entry := by
  have listed : ∀ k link, s.link k = some link → k ∈ s.checkpoints.keys := by
    intro k link linked
    obtain ⟨stored,found,_⟩ := Option.map_eq_some_iff.mp linked
    obtain ⟨key,member,equal⟩ := Dict.mem_of_get? found
    cases eq_of_beq equal
    exact List.mem_map.mpr ⟨_,member,rfl⟩
  have count : (s.checkpoints.keys.filter fun x => decide (x ∉ ([] : List CheckpointId))).length =
      s.checkpoints.size := by simp [Dict.keys,Dict.size]
  exact ancestors_budget listed (by omega) (by omega)

end Scope

-- What a filter over checkpoints and blobs owes to one entry of its namespace.
structure Keeps (s s' : Scope) (id : CheckpointId) : Prop where
  entry : s'.checkpoints.get? id = s.checkpoints.get? id
  blobs : ∀ stored, s.checkpoints.get? id = some stored →
    ∀ channel, s'.ownBlob stored channel = s.ownBlob stored channel

section restricting
variable {s s' : Scope}

theorem neededChannels_kept {entry : Entry} (decoder : s'.serde = s.serde)
    (own : ∀ channel, s'.ownBlob entry channel = s.ownBlob entry channel) :
    s'.neededChannels entry = s.neededChannels entry := by
  have versions : s'.versions entry = s.versions entry := by rw [Scope.versions,Scope.versions,decoder]
  have counters : s'.counters entry = s.counters entry := by rw [Scope.counters,Scope.counters,decoder]
  unfold Scope.neededChannels Dict.keys
  rw [versions,counters,Dict.entries_filter,Dict.entries_filter]
  congr 1
  refine List.filter_congr fun row member => ?_
  have blob := own row.1
  unfold Scope.ownBlob at blob
  rw [versions,Dict.mem_iff.mp member,Option.bind_some,Option.bind_some] at blob
  rw [blob]

theorem settled_kept {channel : String} {id : CheckpointId} (keeps : Keeps s s' id) :
    s'.settled channel id = s.settled channel id := by
  unfold Scope.settled
  rw [keeps.entry]
  cases found : s.checkpoints.get? id with
  | none => rfl
  | some stored => simp only [keeps.blobs stored found channel]

variable (fewer : ∀ id, s.checkpoints.get? id = none → s'.checkpoints.get? id = none)
  (smaller : s'.checkpoints.size ≤ s.checkpoints.size)
include fewer smaller

-- A chain whose members keep their entries and blobs is walked as before.
theorem deltaChain_preserved {entry : Entry} (decoder : s'.serde = s.serde)
    (own : ∀ channel, s'.ownBlob entry channel = s.ownBlob entry channel)
    (kept : ∀ id ∈ s.deltaChain entry, Keeps s s' id) : s'.deltaChain entry = s.deltaChain entry := by
  unfold Scope.deltaChain
  rw [neededChannels_kept decoder own,← s'.line_budget entry (Nat.lt_succ_of_le smaller)]
  refine cover_restricted (fun id absent => ?_) (fun id member => ⟨?_,fun channel => settled_kept (kept id member)⟩)
  · simp only [Scope.link,Option.map_eq_none_iff] at absent ⊢
    exact fewer id absent
  · simp only [Scope.link,(kept id member).entry]

variable (names : s'.threadId = s.threadId ∧ s'.checkpointNs = s.checkpointNs)
include names

theorem history_preserved {entry : Entry} {channel : String} {writes writes' : Dict WriteKey WriteGroup}
    (needed : channel ∈ s.neededChannels entry) (kept : ∀ id ∈ s.deltaChain entry, Keeps s s' id ∧
      writes'.get? (s.key id) = writes.get? (s.key id)) :
    s'.deltaHistory writes' entry channel = s.deltaHistory writes entry channel := by
  have onChain : ∀ id ∈ through (s.settled channel) (s.line entry), id ∈ s.deltaChain entry :=
    fun id member => through_mem_cover needed member
  have line : through (s'.settled channel) (s'.line entry) = through (s.settled channel) (s.line entry) := by
    rw [← s'.line_budget entry (Nat.lt_succ_of_le smaller)]
    refine through_restricted (fun id absent => ?_) (fun id member => ?_)
    · simp only [Scope.link,Option.map_eq_none_iff] at absent ⊢
      exact fewer id absent
    · obtain ⟨keeps,_⟩ := kept id (onChain id member)
      exact ⟨by simp only [Scope.link,keeps.entry],settled_kept keeps⟩
  unfold Scope.deltaHistory
  rw [line]
  refine List.map_congr_left fun id member => ?_
  obtain ⟨keeps,group⟩ := kept id (onChain id member)
  unfold Scope.historyStep
  rw [show s'.key id = s.key id by rw [Scope.key,names.1,names.2]; rfl,group,keeps.entry]
  cases found : s.checkpoints.get? id with
  | none => rfl
  | some stored => simp only [Option.bind_some,keeps.blobs stored found channel]

end restricting

end InmemRuntime.DeltaWalk
