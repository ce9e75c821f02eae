import InmemRuntime.SizeExact
import InmemRuntime.PruneExactness

namespace InmemRuntime.DecodeFailures
open OrderedDict CheckpointData CheckpointSaver SizeTracking SizeAccounting SizeOperations SizeExact
open DeltaWalk Prune DeleteForRuns PruneHistory PruneExactness

variable {J : Type}

-- Python iterates a set in an order of its own.
abbrev SetOrder := {order : List CheckpointKey → List CheckpointKey // ∀ keys, (order keys).Perm keys}

-- The operations that decode or encode while they change the stores; pruning
-- is that of `keep_latest`.
inductive Maintenance (J : Type) where
  | prune (threadIds : List String)
  | deleteForRuns (runIds : List String) (order : SetOrder)
  | put (config : PutConfig J) (checkpoint : Checkpoint J) (newVersions : Dict String Version)

-- What an operation has changed when it calls the serializer: nothing, some
-- namespaces of the thread it prunes after others, some checkpoints (with
-- their pending writes, once all are gone) or some blobs.
inductive Stage where
  | scan
  | rewritten (pruned : List String) (threadId : String) (namespaces : List String)
  | removed (gone : List CheckpointKey)
  | unreferenced (gone : List CheckpointKey)
  | stored (versions : List (String × Version))

-- A call of the serializer. No exception is caught, so when the call raises
-- the operation leaves the saver that it met.
abbrev Call := Stage × Saver

section pruning
variable (serde : Serde)

def rewriting (s : Saver) (threadId : String) (auto : Bool) (namespaces : Dict String Checkpoints) : Saver :=
  {s with storage := s.storage.insert threadId ⟨namespaces,auto⟩}

-- The newest checkpoint with its metadata and the parents up the chain are
-- decoded before the namespace is replaced, and all that is kept after it.
def namespaceCalls (s : Saver) (pruned : List String) (threadId : String) (auto : Bool) (done : List String) (sweep : Sweep)
    (row : String × Checkpoints) : List Call :=
  if row.2.isEmpty then [] else
  let keep := keepIds (scopeOf serde s threadId row.1 row.2)
  let next := pruneNamespace (scopeOf serde s threadId) sweep row
  List.replicate (keep.length + 1) (.rewritten pruned threadId done,rewriting s threadId auto sweep.namespaces) ++
    keep.map fun _ => (.rewritten pruned threadId (done ++ [row.1]),rewriting s threadId auto next.namespaces)

def rowCalls (s : Saver) (pruned : List String) (threadId : String) (auto : Bool) :
    List String → Sweep → List (String × Checkpoints) → List Call
  | _,_,[] => []
  | done,sweep,row :: rest => namespaceCalls serde s pruned threadId auto done sweep row ++
      rowCalls s pruned threadId auto (done ++ [row.1]) (pruneNamespace (scopeOf serde s threadId) sweep row) rest

def threadCalls (s : Saver) (pruned : List String) (threadId : String) : List Call :=
  match s.storage.get? threadId with
  | none => []
  | some namespaces => rowCalls serde s pruned threadId namespaces.auto [] ⟨namespaces.dict,[],[],0,0⟩ namespaces.dict.entries

def pruneCalls (s : Saver) (pruned : List String) : List String → List Call
  | [] => []
  | threadId :: rest => threadCalls serde s pruned threadId ++
      pruneCalls (pruneThread (max 0) serde s threadId) (pruned ++ [threadId]) rest

end pruning

section deleting
variable (serde : Serde)

-- `del self.storage[thread_id][checkpoint_ns][checkpoint_id]` for each key.
def removing (gone : List CheckpointKey) (s : Saver) : Saver :=
  {s with storage := s.storage.mapValues fun threadId namespaces => ⟨namespaces.dict.mapValues fun ns checkpoints =>
    checkpoints.filter fun id _ => !gone.contains ⟨threadId,ns,id⟩,namespaces.auto⟩}

def removalCalls (s : Saver) : List CheckpointKey → List CheckpointKey → List Call
  | _,[] => []
  | gone,key :: rest => (.removed gone,removing gone s) :: removalCalls s (gone ++ [key]) rest

-- A surviving checkpoint with its metadata, and the ancestors that it needs.
def survivorCalls (runIds : List String) (s : Saver) : List Call :=
  s.storage.entries.flatMap fun thread => thread.2.dict.entries.flatMap fun ns => ns.2.entries.flatMap fun row =>
    let scope := scopeOf serde s thread.1 ns.1 ns.2
    if (candidates serde runIds s).contains (scope.key row.1) then []
    else List.replicate ((scope.walked row.2).length + 2) (.scan,s)

-- The empty namespaces, the empty threads and the pending writes have gone.
def unreferenced (s : Saver) (gone : List CheckpointKey) : Saver := {withoutKeys serde s gone with blobs := s.blobs}

def deleteForRunsCalls (s : Saver) (runIds : List String) (order : SetOrder) : List Call :=
  if runIds.isEmpty then [] else
  let metadata := (rows s).map fun _ => (Stage.scan,s)
  if (candidates serde runIds s).isEmpty then metadata else
  let gone := order.val (removed serde runIds s)
  let after := unreferenced serde s gone
  metadata ++ survivorCalls serde runIds s ++ removalCalls s [] gone ++
    if gone.isEmpty then [] else (rows after).map fun _ => (.unreferenced gone,after)

end deleting

section putting
variable (base : Base J)

def storing (s : Saver) (config : PutConfig J) (checkpoint : Checkpoint J) (versions : List (String × Version)) : Saver :=
  {s with blobs := storeBlobs config.threadId config.checkpointNs (blobFor base checkpoint) s.blobs versions}

-- One call for each value, then the checkpoint and its metadata, for which the
-- namespace is there already.
def putCalls (s : Saver) (config : PutConfig J) (checkpoint : Checkpoint J) :
    List (String × Version) → List (String × Version) → List Call
  | done,[] =>
    let stored := storing base s config checkpoint done
    match stored.bucket config.threadId config.checkpointNs with
    | none => []
    | some checkpoints =>
      List.replicate 2 (.stored done,stored.setBucket config.threadId config.checkpointNs checkpoints)
  | done,row :: rest =>
    (if checkpoint.channelValues.contains row.1 then [(.stored done,storing base s config checkpoint done)] else []) ++
      putCalls s config checkpoint (done ++ [row]) rest

end putting

def calls (base : Base J) (s : Saver) : Maintenance J → List Call
  | .prune threadIds => pruneCalls base.toSerde s [] threadIds
  | .deleteForRuns runIds order => deleteForRunsCalls base.toSerde s runIds order
  | .put config checkpoint newVersions => putCalls base s config checkpoint [] newVersions.entries

-- Every checkpoint that is still stored has its entry, and its pending writes
-- and blobs as they were.
structure Intact (serde : Serde) (s s' : Saver) : Prop where
  entries : ∀ (key : CheckpointKey) entry, s'.entryAt key.threadId key.checkpointNs key.checkpointId = some entry →
    s.entryAt key.threadId key.checkpointNs key.checkpointId = some entry
  writes : ∀ (key : CheckpointKey) entry, s'.entryAt key.threadId key.checkpointNs key.checkpointId = some entry →
    ∀ group, s.writes.get? key = some group → s'.writes.get? key = some group
  blobs : ∀ (key : CheckpointKey) blob, Refers serde s' key blob → ∀ value, s.blobs.get? blob = some value →
    s'.blobs.get? blob = some value

def Consistent (serde : Serde) (s s' : Saver) : Prop := Intact serde s s' ∧ SizesExact s'

-- The values stored so far weigh what they replaced, and none of them replaced
-- another value of a stored checkpoint.
structure Neutral (base : Base J) (s : Saver) (config : PutConfig J) (checkpoint : Checkpoint J)
    (versions : List (String × Version)) : Prop where
  weight : (versions.map fun row => blobEntrySize row.1 row.2 (blobFor base checkpoint row.1)).sum =
    (versions.map fun row => blobSizeAt s.blobs config.threadId config.checkpointNs row.1 row.2).sum
  values : ∀ row ∈ versions, ∀ key : CheckpointKey, Refers base.toSerde s key ⟨config.threadId,config.checkpointNs,row.1,row.2⟩ →
    ∀ value, s.blobs.get? ⟨config.threadId,config.checkpointNs,row.1,row.2⟩ = some value → value = blobFor base checkpoint row.1

-- What the operation has changed by then does no harm.
def Harmless (base : Base J) (s : Saver) : Maintenance J → Stage → Prop
  | _,.scan => True
  | _,.rewritten pruned threadId namespaces => threadId ∈ pruned ∨ ∀ ns ∈ namespaces, ∀ id entry,
      s.entryAt threadId ns id = some entry → Retained base.toSerde s threadId ns id
  | _,.removed gone => gone = []
  | _,.unreferenced _ => False
  | .put config checkpoint _,.stored versions => Neutral base s config checkpoint versions
  | _,.stored _ => True

theorem Intact.refl (serde : Serde) (s : Saver) : Intact serde s s :=
  ⟨fun _ _ => id,fun _ _ _ _ => id,fun _ _ _ _ => id⟩

section intact
variable {serde : Serde} {s middle s' : Saver} {threadId : String}

theorem refers_back (entries : ∀ (key : CheckpointKey) entry, s'.entryAt key.threadId key.checkpointNs key.checkpointId = some entry →
    s.entryAt key.threadId key.checkpointNs key.checkpointId = some entry) {key : CheckpointKey} {blob : BlobKey}
    (refers : Refers serde s' key blob) : Refers serde s key blob := by
  obtain ⟨entry,version,found,rest⟩ := refers
  exact ⟨entry,version,entries key entry found,rest⟩

theorem Intact.trans (first : Intact serde s middle) (second : Intact serde middle s') : Intact serde s s' := by
  refine ⟨fun key entry found => first.entries key entry (second.entries key entry found),fun key entry found group held => ?_,
    fun key blob refers value held => ?_⟩
  · exact second.writes key entry found group (first.writes key entry (second.entries key entry found) group held)
  · exact second.blobs key blob refers value (first.blobs key blob (refers_back second.entries refers) value held)

-- Only checkpoints have gone.
theorem intact_fewer (entries : ∀ (key : CheckpointKey) entry,
    s'.entryAt key.threadId key.checkpointNs key.checkpointId = some entry →
    s.entryAt key.threadId key.checkpointNs key.checkpointId = some entry)
    (writes : s'.writes = s.writes) (blobs : s'.blobs = s.blobs) : Intact serde s s' :=
  ⟨entries,fun _ _ _ _ held => writes ▸ held,fun _ _ _ _ held => blobs ▸ held⟩

theorem pruneThread_intact (clamp : Int → Int) (serde : Serde) (s : Saver) (threadId : String) :
    Intact serde s (pruneThread clamp serde s threadId) := by
  by_cases named : HasNamespace s threadId
  · have pruned : Pruned serde threadId s (pruneThread clamp serde s threadId) := pruneThread_pruned
    have others : ∀ other, other ≠ threadId → RunDeletion.Untouched other s (pruneThread clamp serde s threadId) :=
      fun other apart => pruneThread_untouched apart
    have entries : ∀ (key : CheckpointKey) entry,
        (pruneThread clamp serde s threadId).entryAt key.threadId key.checkpointNs key.checkpointId = some entry →
        s.entryAt key.threadId key.checkpointNs key.checkpointId = some entry := by
      intro key entry found
      by_cases own : key.threadId = threadId
      · rw [own] at found ⊢
        exact ((pruned.checkpoints _ _ _).mp found).1
      · rw [Saver.entryAt,untouched_checkpoints (others _ own)] at found
        exact found
    refine ⟨entries,fun key entry found group held => ?_,fun key blob refers value held => ?_⟩
    · obtain ⟨thread,ns,id⟩ := key
      by_cases own : thread = threadId
      · subst own
        exact (pruned.writes named ns id group).mpr ⟨held,id,((pruned.checkpoints _ _ _).mp found).2,rfl⟩
      · rw [untouched_writes (others _ own) rfl]
        exact held
    · obtain ⟨entry,version,found,versioned,thread,ns,equal⟩ := refers
      by_cases own : blob.threadId = threadId
      · obtain ⟨thread',ns',id⟩ := key
        have home : thread' = threadId := thread.trans own
        subst home
        refine (pruned.blobs named blob own value).mpr ⟨held,id,?_,entry,version,?_,versioned,own.symm,rfl,equal⟩
        · rw [← show ns' = blob.checkpointNs from ns]
          exact ((pruned.checkpoints _ _ _).mp found).2
        · have kept := entries _ _ found
          rw [show ns' = blob.checkpointNs from ns] at kept
          exact kept
      · rw [untouched_blobs (others _ own) rfl]
        exact held
  · rw [prune_skipped named]
    exact .refl serde s

theorem prunes_intact (serde : Serde) (s : Saver) (threadIds : List String) :
    Intact serde s (threadIds.foldl (pruneThread (max 0) serde) s) := by
  induction threadIds generalizing s with
  | nil => exact .refl serde s
  | cons threadId rest ih => exact (pruneThread_intact (max 0) serde s threadId).trans (ih _)

theorem prunes_follow (follows : Follows s) (threadIds : List String) : Follows (threadIds.foldl (pruneThread (max 0) serde) s) := by
  induction threadIds generalizing s with
  | nil => exact follows
  | cons threadId rest ih => exact ih (pruneThread_step follows serde threadId).1

end intact

section counting
variable {serde : Serde} {s s' : Saver}

-- A tracker that did not move is right where the contents did not, and only
-- where their total did not.
theorem still_follows (follows : Follows s) (size : s'.sizeState = s.sizeState) (same : ∀ sel, contents s' sel = contents s sel) :
    SizesExact s' := by
  refine follows_exact ?_
  unfold Follows
  rw [size]
  exact Tracks.congr follows fun sel => (same sel).symm

theorem total_kept (follows : Follows s) (exact_ : SizesExact s') (size : s'.sizeState = s.sizeState) :
    contents s' (fun _ => true) = contents s fun _ => true := by
  have after := exact_follows exact_
  unfold Follows at after
  rw [size] at after
  exact Prod.ext (after.bytes.symm.trans follows.bytes) (after.checkpoints.symm.trans follows.checkpoints)

theorem snd_sum {α : Type} (f : α → Int × Int) (l : List α) : ((l.map f).sum).2 = (l.map fun a => (f a).2).sum := by
  induction l with
  | nil => rfl
  | cons head rest ih => rw [List.map_cons,List.sum_cons,List.map_cons,List.sum_cons,Prod.snd_add,ih]

-- The second total counts the checkpoints.
theorem contents_count (s : Saver) : (contents s fun _ => true).2 = (rows s).length := by
  have calls : rebuildCalls s = (rows s).map (fun row => (row.1.threadId,checkpointEntrySize row.1.checkpointId row.2,1)) ++
      (s.writes.entries.map fun row => (row.1.threadId,writeGroupSize row.1.checkpointId row.2,0)) ++
      (s.blobs.entries.map fun row => (row.1.threadId,blobEntrySize row.1.channel row.1.version row.2,0)) := by
    simp only [rebuildCalls,rows,List.map_flatMap,List.map_map,Function.comp_def]
  rw [← rebuildCalls_weight,snd_sum,calls]
  simp [selected,Function.comp_def]

theorem rows_removing (gone : List CheckpointKey) (s : Saver) :
    rows (removing gone s) = (rows s).filter fun row => !gone.contains row.1 := by
  simp only [rows,removing,Dict.entries_mapValues,List.flatMap_map,List.filter_flatMap,Dict.entries_filter,List.filter_map,
    Function.comp_def]

theorem flatMap_filter_empty {α β : Type} {keep : α → Bool} {f : α → List β} {l : List α}
    (empty : ∀ a ∈ l, keep a = false → f a = []) : (l.filter keep).flatMap f = l.flatMap f := by
  induction l with
  | nil => rfl
  | cons head rest ih =>
    obtain ⟨here,later⟩ := List.forall_mem_cons.mp empty
    cases kept : keep head with
    | true => rw [List.filter_cons_of_pos kept,List.flatMap_cons,List.flatMap_cons,ih later]
    | false => rw [List.filter_cons_of_neg (by simp [kept]),List.flatMap_cons,here kept,List.nil_append,ih later]

-- Empty buckets have no rows.
theorem rows_unreferenced (gone : List CheckpointKey) (s : Saver) :
    rows (unreferenced serde s gone) = (rows s).filter fun row => !gone.contains row.1 := by
  rw [← rows_removing]
  unfold rows unreferenced withoutKeys dropCheckpoints removing
  dsimp only
  rw [Dict.entries_filter]
  simp only [Dict.entries_mapValues]
  have inner : ∀ (namespaces : Dict String Checkpoints) threadId,
      (namespaces.filter fun _ checkpoints => !checkpoints.isEmpty).entries.flatMap
          (fun ns => ns.2.entries.map fun row => ((⟨threadId,ns.1,row.1⟩ : CheckpointKey),row.2)) =
        namespaces.entries.flatMap fun ns => ns.2.entries.map fun row => ((⟨threadId,ns.1,row.1⟩ : CheckpointKey),row.2) := by
    intro namespaces threadId
    refine flatMap_filter_empty fun ns _ empty => ?_
    have bare : ns.2.isEmpty = true := by simpa using empty
    rw [Dict.isEmpty_iff.mp bare]
    rfl
  rw [flatMap_filter_empty]
  · simp only [List.flatMap_map,inner,Dict.entries_mapValues]
  · intro thread _ empty
    have bare : thread.2.dict.isEmpty = true := by simpa using empty
    rw [Dict.isEmpty_iff.mp bare]
    rfl

-- A tracker that did not follow a removal is wrong.
theorem removal_counts (follows : Follows s) {gone : List CheckpointKey}
    (fewer : rows s' = (rows s).filter fun row => !gone.contains row.1) (size : s'.sizeState = s.sizeState)
    {row : CheckpointKey × Entry} (stored : row ∈ rows s) (removed : row.1 ∈ gone) : ¬ SizesExact s' := by
  intro exact_
  have same := congrArg Prod.snd (total_kept follows exact_ size)
  rw [contents_count,contents_count,fewer,Int.natCast_inj] at same
  have kept := List.length_filter_eq_length_iff.mp same row stored
  simp [removed] at kept

end counting

section pruned
variable {serde : Serde} {s : Saver} {pruned : List String} {threadId : String} {auto : Bool} {call : Call}

-- A call stands behind some of the rows of its thread.
theorem rowCalls_cases {done : List String} {sweep : Sweep} {rows : List (String × Checkpoints)}
    (member : call ∈ rowCalls serde s pruned threadId auto done sweep rows) : ∃ first rest, rows = first ++ rest ∧
      call = (.rewritten pruned threadId (done ++ first.map Prod.fst),
        rewriting s threadId auto (first.foldl (pruneNamespace (scopeOf serde s threadId)) sweep).namespaces) := by
  induction rows generalizing done sweep with
  | nil => cases member
  | cons row rest ih =>
    rcases List.mem_append.mp member with here | later
    · unfold namespaceCalls at here
      split at here
      · cases here
      · rcases List.mem_append.mp here with before | after
        · exact ⟨[],row :: rest,rfl,by rw [List.eq_of_mem_replicate before]; simp⟩
        · obtain ⟨id,_,same⟩ := List.mem_map.mp after
          exact ⟨[row],rest,rfl,same.symm⟩
    · obtain ⟨first,last,split,same⟩ := ih later
      exact ⟨row :: first,last,by rw [split]; rfl,by rw [same]; simp⟩

theorem pruneCalls_cases {threadIds : List String} (member : call ∈ pruneCalls serde s pruned threadIds) :
    ∃ before threadId after, threadIds = before ++ threadId :: after ∧
      call ∈ threadCalls serde (before.foldl (pruneThread (max 0) serde) s) (pruned ++ before) threadId := by
  induction threadIds generalizing s pruned with
  | nil => cases member
  | cons threadId rest ih =>
    rcases List.mem_append.mp member with here | later
    · exact ⟨[],threadId,rest,rfl,by simpa using here⟩
    · obtain ⟨before,other,after,split,here⟩ := ih later
      exact ⟨threadId :: before,other,after,by rw [split]; rfl,by simpa using here⟩

variable (serde s threadId) in
theorem swept_totals (rows : List (String × Checkpoints)) (sweep : Sweep) :
    let after := rows.foldl (pruneNamespace (scopeOf serde s threadId)) sweep
    after.removedCheckpoints = sweep.removedCheckpoints +
        ((rows.map fun row => (dropped (scopeOf serde s threadId row.1 row.2)).size).sum : Nat) ∧
      after.removedSize = sweep.removedSize +
        (rows.map fun row => (dropped (scopeOf serde s threadId row.1 row.2)).sum checkpointEntrySize).sum := by
  induction rows generalizing sweep with
  | nil => simp
  | cons row rest ih =>
    obtain ⟨count,size⟩ := ih (pruneNamespace (scopeOf serde s threadId) sweep row)
    rw [List.foldl_cons]
    refine ⟨count.trans ?_,size.trans ?_⟩
    · unfold pruneNamespace
      split
      · rename_i empty
        have none_ : (dropped (scopeOf serde s threadId row.1 row.2)).size = 0 := by
          rw [Dict.isEmpty_iff.mp empty]
          rfl
        simp [none_]
      · simp only [List.map_cons,List.sum_cons,Nat.cast_add]
        omega
    · unfold pruneNamespace
      split
      · rename_i empty
        have none_ : (dropped (scopeOf serde s threadId row.1 row.2)).sum checkpointEntrySize = 0 := by
          rw [Dict.isEmpty_iff.mp empty]
          rfl
        simp [none_]
      · simp only [List.map_cons,List.sum_cons]
        omega

variable (serde auto) in
-- What the tracker does not know of while a thread is being rewritten.
theorem rewriting_contents {namespaces : Namespaces} (found : s.storage.get? threadId = some namespaces)
    {first rest : List (String × Checkpoints)} (split : namespaces.dict.entries = first ++ rest) (sel : String → Bool) :
    let sweep := first.foldl (pruneNamespace (scopeOf serde s threadId)) ⟨namespaces.dict,[],[],0,0⟩
    contents (rewriting s threadId auto sweep.namespaces) sel =
      contents s sel - selected sel threadId (sweep.removedSize,sweep.removedCheckpoints) := by
  intro sweep
  have distinct : first.Pairwise fun a b => (a.1 == b.1) = false :=
    (List.pairwise_append.mp (split ▸ namespaces.dict.distinct)).1
  have stored : ∀ row ∈ first, namespaces.dict.get? row.1 = some row.2 :=
    fun row member => Dict.mem_iff.mp (split ▸ List.mem_append_left _ member)
  have weighed : sweepWeight sweep = namespacesWeight namespaces.dict :=
    (sweep_weight distinct stored).trans (add_zero _)
  have storage : storageWeight sel (rewriting s threadId auto sweep.namespaces).storage =
      storageWeight sel s.storage - selected sel threadId (sweep.removedSize,sweep.removedCheckpoints) :=
    swept_storage found weighed
  unfold contents
  rw [storage]
  change _ - _ + writesWeight sel s.writes + blobsWeight sel s.blobs = _
  abel

theorem rewriting_exact (follows : Follows s) {namespaces : Namespaces} (found : s.storage.get? threadId = some namespaces)
    {first rest : List (String × Checkpoints)} (split : namespaces.dict.entries = first ++ rest) :
    SizesExact (rewriting s threadId auto
        (first.foldl (pruneNamespace (scopeOf serde s threadId)) ⟨namespaces.dict,[],[],0,0⟩).namespaces) ↔
      ∀ row ∈ first, ∀ id ∈ row.2.keys, id ∈ keepIds (scopeOf serde s threadId row.1 row.2) := by
  have moves := rewriting_contents serde auto found split
  obtain ⟨count,size⟩ := swept_totals serde s threadId first ⟨namespaces.dict,[],[],0,0⟩
  have full : (∀ row ∈ first, ∀ id ∈ row.2.keys, id ∈ keepIds (scopeOf serde s threadId row.1 row.2)) ↔
      ∀ row ∈ first, (dropped (scopeOf serde s threadId row.1 row.2)).entries = [] := by
    refine forall₂_congr fun row _ => ?_
    simp only [dropped,Dict.entries_filter,List.filter_eq_nil_iff,Dict.keys,List.mem_map]
    constructor
    · rintro kept e member
      simpa using kept e.1 ⟨e,member,rfl⟩
    · rintro kept id ⟨e,member,rfl⟩
      simpa using kept e member
  rw [full]
  constructor
  · intro exact_ row member
    have same := (moves fun _ => true).symm.trans (total_kept follows exact_ rfl)
    have nothing := congrArg Prod.snd (sub_eq_self.mp same)
    change _ = (0 : Int) at nothing
    simp only [selected,↓reduceIte] at nothing
    rw [count] at nothing
    have zero : ((first.map fun row => (dropped (scopeOf serde s threadId row.1 row.2)).size).sum : Nat) = 0 := by
      have none_ : (⟨namespaces.dict,[],[],0,0⟩ : Sweep).removedCheckpoints = 0 := rfl
      omega
    exact List.length_eq_zero_iff.mp (List.sum_eq_zero_iff.mp zero _ (List.mem_map.mpr ⟨row,member,rfl⟩))
  · intro none_
    refine still_follows follows rfl fun sel => ?_
    refine (moves sel).trans ?_
    rw [count,size]
    have counts : (first.map fun row => (dropped (scopeOf serde s threadId row.1 row.2)).size).sum = 0 := by
      refine List.sum_eq_zero_iff.mpr fun n member => ?_
      obtain ⟨row,listed,rfl⟩ := List.mem_map.mp member
      exact List.length_eq_zero_iff.mpr (none_ row listed)
    have sizes : (first.map fun row => (dropped (scopeOf serde s threadId row.1 row.2)).sum checkpointEntrySize).sum = 0 := by
      refine List.sum_eq_zero fun n member => ?_
      obtain ⟨row,listed,rfl⟩ := List.mem_map.mp member
      rw [Dict.sum,none_ row listed]
      rfl
    rw [counts,sizes]
    exact (congrArg (contents s sel - ·) selected_zero).trans (sub_zero _)

variable (serde auto) in
theorem rewriting_intact {namespaces : Namespaces} (found : s.storage.get? threadId = some namespaces)
    {first rest : List (String × Checkpoints)} (split : namespaces.dict.entries = first ++ rest) :
    Intact serde s (rewriting s threadId auto
      (first.foldl (pruneNamespace (scopeOf serde s threadId)) ⟨namespaces.dict,[],[],0,0⟩).namespaces) := by
  refine intact_fewer (fun key entry stored => ?_) rfl rfl
  obtain ⟨thread,ns,id⟩ := key
  unfold Saver.entryAt Saver.checkpointsAt rewriting at stored
  unfold Saver.entryAt Saver.checkpointsAt
  dsimp only at stored ⊢
  by_cases own : threadId = thread
  · subst own
    rw [Dict.get?_insert_self,Option.bind_some] at stored
    rw [found,Option.bind_some]
    by_cases listed : ∃ row ∈ first, row.1 = ns
    · obtain ⟨row,member,rfl⟩ := listed
      have distinct : first.Pairwise fun a b => (a.1 == b.1) = false :=
        (List.pairwise_append.mp (split ▸ namespaces.dict.distinct)).1
      have held : namespaces.dict.get? row.1 = some row.2 := Dict.mem_iff.mp (split ▸ List.mem_append_left _ member)
      rw [sweep_namespace distinct member] at stored
      rw [held]
      split at stored
      · cases stored
      · have filtered : ((scopeOf serde s threadId row.1 row.2).checkpoints.filter fun id _ =>
            (keepIds (scopeOf serde s threadId row.1 row.2)).contains id).get? id = some entry := stored
        rw [Dict.get?_keep] at filtered
        exact (Option.filter_eq_some_iff.mp filtered).1
    · rw [sweep_untouched fun row member same => listed ⟨row,member,same⟩] at stored
      exact stored
  · rw [Dict.get?_insert_other (by simpa using own)] at stored
    exact stored

-- A call of a pruning, and what it leaves if it raises.
theorem pruneCalls_consistent {threadIds : List String} (exact_ : SizesExact s) (member : call ∈ pruneCalls serde s [] threadIds) :
    ∃ before threadId namespaces, call.1 = .rewritten before threadId namespaces ∧ (Consistent serde s call.2 ↔
      threadId ∈ before ∨ ∀ ns ∈ namespaces, ∀ id entry, s.entryAt threadId ns id = some entry → Retained serde s threadId ns id) := by
  obtain ⟨before,threadId,after,_,here⟩ := pruneCalls_cases member
  have follows : Follows (before.foldl (pruneThread (max 0) serde) s) := prunes_follow (exact_follows exact_) before
  have intact : Intact serde s (before.foldl (pruneThread (max 0) serde) s) := prunes_intact serde s before
  have settled : threadId ∈ before → Settled serde threadId (before.foldl (pruneThread (max 0) serde) s) :=
    fun listed => (pruned_listed listed).2
  have fresh : threadId ∉ before → RunDeletion.Untouched threadId s (before.foldl (pruneThread (max 0) serde) s) := untouched_unlisted
  generalize before.foldl (pruneThread (max 0) serde) s = turn at here follows intact settled fresh
  rw [List.nil_append] at here
  unfold threadCalls at here
  split at here
  · cases here
  · rename_i namespaces found
    obtain ⟨first,rest,split,rfl⟩ := rowCalls_cases here
    refine ⟨before,threadId,first.map Prod.fst,rfl,?_⟩
    have scope : ∀ row ∈ first, turn.checkpointsAt threadId row.1 = row.2 := by
      intro row member
      have held : namespaces.dict.get? row.1 = some row.2 := Dict.mem_iff.mp (split ▸ List.mem_append_left _ member)
      rw [Saver.checkpointsAt,found,Option.bind_some,held]
      rfl
    have sizes : SizesExact (rewriting turn threadId namespaces.auto (first.foldl (pruneNamespace (scopeOf serde turn threadId))
        ⟨namespaces.dict,[],[],0,0⟩).namespaces) ↔ ∀ row ∈ first, ∀ id ∈ row.2.keys, Retained serde turn threadId row.1 id := by
      rw [rewriting_exact follows found split]
      refine forall₂_congr fun row listed => forall₂_congr fun id _ => ?_
      rw [retained_iff,scopeAt,scope row listed]
    have whole := intact.trans (rewriting_intact serde namespaces.auto found split)
    by_cases listed : threadId ∈ before
    · refine iff_of_true ⟨whole,sizes.mpr fun row member => ?_⟩ (.inl listed)
      exact ((settled listed).rows namespaces found row (split ▸ List.mem_append_left _ member)).2
    · refine ⟨fun consistent => .inr fun ns named id entry stored => ?_,fun kept => ⟨whole,sizes.mpr fun row member id key => ?_⟩⟩
      · obtain ⟨row,member,rfl⟩ := List.mem_map.mp named
        rw [Saver.entryAt,← untouched_checkpoints (fresh listed),scope row member] at stored
        have key : id ∈ row.2.keys := List.mem_map.mpr ⟨_,Dict.mem_iff.mpr stored,rfl⟩
        exact (untouched_retained (fresh listed)).mp (sizes.mp consistent.2 row member id key)
      · obtain ⟨e,stored,rfl⟩ := List.mem_map.mp key
        refine (untouched_retained (fresh listed)).mpr (kept.resolve_left listed row.1 (List.mem_map.mpr ⟨row,member,rfl⟩) e.1 e.2 ?_)
        rw [Saver.entryAt,← untouched_checkpoints (fresh listed),scope row member]
        exact Dict.mem_iff.mp stored

end pruned

section deleted
variable {serde : Serde} {s : Saver} {call : Call}

theorem removalCalls_cases {gone keys : List CheckpointKey} (member : call ∈ removalCalls s gone keys) :
    ∃ first rest, keys = first ++ rest ∧ call = (.removed (gone ++ first),removing (gone ++ first) s) := by
  induction keys generalizing gone with
  | nil => cases member
  | cons key rest ih =>
    rcases List.mem_cons.mp member with rfl | later
    · exact ⟨[],key :: rest,rfl,by rw [List.append_nil]⟩
    · obtain ⟨first,last,split,same⟩ := ih later
      exact ⟨key :: first,last,by rw [split]; rfl,by rw [same]; simp⟩

theorem removing_nothing (s : Saver) : removing [] s = s := by
  have keeps : ∀ (checkpoints : Checkpoints) threadId ns,
      (checkpoints.filter fun id _ => !([] : List CheckpointKey).contains ⟨threadId,ns,id⟩) = checkpoints :=
    fun checkpoints _ _ => Dict.filter_self fun _ _ => rfl
  have namespaces : ∀ (rows : Dict String Checkpoints), (rows.mapValues fun _ checkpoints => checkpoints) = rows :=
    fun rows => Dict.ext (List.map_id' _)
  have threads : (s.storage.mapValues fun _ namespaces => namespaces) = s.storage := Dict.ext (List.map_id' _)
  unfold removing
  simp only [keeps,namespaces]
  exact congrArg (fun storage => {s with storage}) threads

-- The scans read a saver that has not changed.
theorem survivor_scans {runIds : List String} (member : call ∈ survivorCalls serde runIds s) : call = (.scan,s) := by
  obtain ⟨thread,_,inner⟩ := List.mem_flatMap.mp member
  obtain ⟨ns,_,deeper⟩ := List.mem_flatMap.mp inner
  obtain ⟨row,_,here⟩ := List.mem_flatMap.mp deeper
  dsimp only at here
  split at here
  · cases here
  · exact List.eq_of_mem_replicate here

theorem removed_stored {runIds : List String} {key : CheckpointKey} (gone : key ∈ removed serde runIds s) :
    ∃ row ∈ rows s, row.1 = key := by
  obtain ⟨row,listed,same⟩ := List.mem_map.mp (List.mem_filter.mp gone).1
  exact ⟨row,(List.mem_filter.mp listed).1,same⟩

theorem deleteCalls_consistent {runIds : List String} {order : SetOrder} (exact_ : SizesExact s)
    (member : call ∈ deleteForRunsCalls serde s runIds order) :
    call.1 = .scan ∧ Consistent serde s call.2 ∨ (∃ gone, call.1 = .removed gone ∧ (Consistent serde s call.2 ↔ gone = [])) ∨
      ∃ gone, call.1 = .unreferenced gone ∧ ¬ Consistent serde s call.2 := by
  have follows : Follows s := exact_follows exact_
  have scans : call = (.scan,s) → call.1 = .scan ∧ Consistent serde s call.2 := by
    rintro rfl
    exact ⟨rfl,.refl serde s,exact_⟩
  unfold deleteForRunsCalls at member
  split at member
  · cases member
  · dsimp only at member
    split at member
    · obtain ⟨row,_,same⟩ := List.mem_map.mp member
      exact .inl (scans same.symm)
    · rcases List.mem_append.mp member with first | last
      · rcases List.mem_append.mp first with scan | removal
        · rcases List.mem_append.mp scan with metadata | survivor
          · obtain ⟨row,_,same⟩ := List.mem_map.mp metadata
            exact .inl (scans same.symm)
          · exact .inl (scans (survivor_scans survivor))
        · obtain ⟨gone,rest,split,rfl⟩ := removalCalls_cases removal
          refine .inr (.inl ⟨gone,rfl,fun consistent => ?_,fun none_ => ?_⟩)
          · cases gone with
            | nil => rfl
            | cons key later =>
              have listed : key ∈ order.val (removed serde runIds s) := by simp [split]
              obtain ⟨row,stored,same⟩ := removed_stored ((order.property _).mem_iff.mp listed)
              exact absurd consistent.2 (removal_counts follows (rows_removing _ s) rfl stored (by simp [same]))
          · subst none_
            rw [List.append_nil,removing_nothing]
            exact ⟨.refl serde s,exact_⟩
      · split at last
        · cases last
        · rename_i some_
          obtain ⟨row,_,rfl⟩ := List.mem_map.mp last
          refine .inr (.inr ⟨_,rfl,fun consistent => ?_⟩)
          obtain ⟨key,listed⟩ := List.exists_mem_of_ne_nil _ fun none_ => some_ (List.isEmpty_iff.mpr none_)
          obtain ⟨row,stored,same⟩ := removed_stored ((order.property _).mem_iff.mp listed)
          exact removal_counts follows (rows_unreferenced _ s) rfl stored (same ▸ listed) consistent.2

end deleted

section stored
variable {base : Base J} {s : Saver} {config : PutConfig J} {checkpoint : Checkpoint J} {call : Call}

theorem putCalls_cases {done versions : List (String × Version)} (member : call ∈ putCalls base s config checkpoint done versions) :
    ∃ first rest, versions = first ++ rest ∧ (call = (.stored (done ++ first),storing base s config checkpoint (done ++ first)) ∨
      ∃ checkpoints, (storing base s config checkpoint (done ++ first)).bucket config.threadId config.checkpointNs = some checkpoints ∧
        call = (.stored (done ++ first),
          (storing base s config checkpoint (done ++ first)).setBucket config.threadId config.checkpointNs checkpoints)) := by
  induction versions generalizing done with
  | nil =>
    unfold putCalls at member
    dsimp only at member
    split at member
    · cases member
    · rename_i checkpoints bucket
      refine ⟨[],[],rfl,.inr ⟨checkpoints,by rwa [List.append_nil],?_⟩⟩
      rw [List.append_nil]
      exact List.eq_of_mem_replicate member
  | cons row rest ih =>
    unfold putCalls at member
    rcases List.mem_append.mp member with here | later
    · split at here
      · exact ⟨[],row :: rest,rfl,.inl (by rw [List.append_nil]; exact List.mem_singleton.mp here)⟩
      · cases here
    · obtain ⟨first,last,split,same⟩ := ih later
      exact ⟨row :: first,last,by rw [split]; rfl,by simpa using same⟩

theorem refers_congr {serde : Serde} {key : CheckpointKey} {blob blob' : BlobKey} (equal : (blob == blob') = true)
    (refers : Refers serde s key blob') : Refers serde s key blob := by
  obtain ⟨entry,version,found,versioned,thread,ns,same⟩ := refers
  obtain ⟨thread',ns',channel,version'⟩ := blobKey_beq.mp equal
  exact ⟨entry,version,found,channel ▸ versioned,thread.trans thread'.symm,ns.trans ns'.symm,BEq.trans version' same⟩

theorem storeBlobs_untouched {threadId ns : String} {blob : String → Typed} {rows : List (String × Version)} {key : BlobKey}
    (others : ∀ row ∈ rows, ((⟨threadId,ns,row.1,row.2⟩ : BlobKey) == key) = false) (blobs : Dict BlobKey Typed) :
    (storeBlobs threadId ns blob blobs rows).get? key = blobs.get? key := by
  unfold storeBlobs
  induction rows generalizing blobs with
  | nil => rfl
  | cons head rest ih =>
    obtain ⟨here,later⟩ := List.forall_mem_cons.mp others
    rw [List.foldl_cons,ih later]
    exact Dict.get?_insert_other here

-- What a saver is that holds the blobs stored so far.
theorem stored_consistent (exact_ : SizesExact s) {versions : List (String × Version)} {s' : Saver}
    (apart : versions.Pairwise fun a b => (a.1 == b.1) = false) (size : s'.sizeState = s.sizeState)
    (entries : ∀ threadId ns, s'.checkpointsAt threadId ns = s.checkpointsAt threadId ns) (writes : s'.writes = s.writes)
    (blobs : s'.blobs = (storing base s config checkpoint versions).blobs)
    (weighs : ∀ sel, contents s' sel = contents (storing base s config checkpoint versions) sel) :
    Consistent base.toSerde s s' ↔ Neutral base s config checkpoint versions := by
  have follows : Follows s := exact_follows exact_
  have moves : ∀ sel, contents s' sel = contents s sel + selected sel config.threadId
      ((versions.map fun row => blobEntrySize row.1 row.2 (blobFor base checkpoint row.1)).sum -
        (versions.map fun row => blobSizeAt s.blobs config.threadId config.checkpointNs row.1 row.2).sum,0) := by
    intro sel
    rw [weighs]
    unfold contents storing
    dsimp only
    rw [storeBlobs_weight apart]
    abel
  have same : ∀ key : CheckpointKey, ∀ entry, s'.entryAt key.threadId key.checkpointNs key.checkpointId = some entry ↔
      s.entryAt key.threadId key.checkpointNs key.checkpointId = some entry := by
    intro key entry
    unfold Saver.entryAt
    rw [entries]
  have here : ∀ row ∈ versions, s'.blobs.get? ⟨config.threadId,config.checkpointNs,row.1,row.2⟩ =
      some (blobFor base checkpoint row.1) := fun row member => by rw [blobs]; exact storeBlobs_get? apart s.blobs member
  constructor
  · rintro ⟨intact,sizes⟩
    refine ⟨?_,fun row member key refers value held => ?_⟩
    · have total := (moves fun _ => true).symm.trans (total_kept follows sizes size)
      have nothing := congrArg Prod.fst (add_eq_left.mp total)
      exact sub_eq_zero.mp nothing
    · have refers' : Refers base.toSerde s' key ⟨config.threadId,config.checkpointNs,row.1,row.2⟩ :=
        refers_back (fun key entry => (same key entry).mpr) refers
      exact Option.some.inj ((intact.blobs key _ refers' value held).symm.trans (here row member))
  · intro neutral
    refine ⟨⟨fun key entry => (same key entry).mp,fun _ _ _ _ held => writes ▸ held,fun key blob refers value held => ?_⟩,?_⟩
    · by_cases listed : ∃ row ∈ versions, ((⟨config.threadId,config.checkpointNs,row.1,row.2⟩ : BlobKey) == blob) = true
      · obtain ⟨row,member,equal⟩ := listed
        have refers' : Refers base.toSerde s key blob := refers_back (fun key entry => (same key entry).mp) refers
        rw [← Dict.get?_congr equal] at held
        rw [← Dict.get?_congr equal,here row member,neutral.values row member key (refers_congr equal refers') value held]
      · have others : ∀ row ∈ versions, ((⟨config.threadId,config.checkpointNs,row.1,row.2⟩ : BlobKey) == blob) = false :=
          fun row member => Bool.eq_false_iff.mpr fun equal => listed ⟨row,member,equal⟩
        rw [blobs]
        exact (storeBlobs_untouched others s.blobs).trans held
    · refine still_follows follows size fun sel => ?_
      rw [moves,neutral.weight,sub_self]
      exact (congrArg (contents s sel + ·) selected_zero).trans (add_zero _)

-- Asking for a namespace leaves it there, which no lookup can tell.
theorem touched_checkpointsAt {threadId ns : String} {checkpoints : Checkpoints} (found : s.bucket threadId ns = some checkpoints)
    (threadId' ns' : String) : (s.setBucket threadId ns checkpoints).checkpointsAt threadId' ns' = s.checkpointsAt threadId' ns' := by
  by_cases own : threadId = threadId'
  · subst own
    by_cases here : ns = ns'
    · subst here
      rw [setBucket_checkpointsAt]
      exact bucket_checkpointsAt found
    · unfold Saver.checkpointsAt Saver.setBucket Saver.namespaces
      rw [Dict.get?_insert_self,Option.bind_some]
      dsimp only
      rw [Dict.get?_insert_other (by simpa using here)]
      cases s.storage.get? threadId <;> rfl
  · unfold Saver.checkpointsAt Saver.setBucket
    dsimp only
    rw [Dict.get?_insert_other (by simpa using own)]

theorem putCalls_consistent {newVersions : Dict String Version} (exact_ : SizesExact s)
    (member : call ∈ putCalls base s config checkpoint [] newVersions.entries) : ∃ versions, call.1 = .stored versions ∧
      (Consistent base.toSerde s call.2 ↔ Neutral base s config checkpoint versions) := by
  obtain ⟨first,rest,split,shape⟩ := putCalls_cases member
  have apart : first.Pairwise fun a b => (a.1 == b.1) = false :=
    (List.pairwise_append.mp (split ▸ newVersions.distinct)).1
  rcases shape with rfl | ⟨checkpoints,bucket,rfl⟩
  · exact ⟨first,rfl,stored_consistent exact_ apart rfl (fun _ _ => rfl) rfl rfl fun _ => rfl⟩
  · exact ⟨first,rfl,stored_consistent exact_ apart rfl (fun threadId ns => touched_checkpointsAt bucket threadId ns) rfl rfl
      (setBucket_same checkpoints bucket)⟩

end stored

-- Any call of any operation, from a saver whose sizes are right.
theorem failures_consistent (base : Base J) (s : Saver) (operation : Maintenance J) (call : Call) (exact_ : SizesExact s)
    (made : call ∈ calls base s operation) : Consistent base.toSerde s call.2 ↔ Harmless base s operation call.1 := by
  cases operation with
  | prune threadIds =>
    obtain ⟨before,threadId,namespaces,stage,whole⟩ := pruneCalls_consistent exact_ made
    rw [stage]
    exact whole
  | deleteForRuns runIds order =>
    rcases deleteCalls_consistent exact_ made with ⟨stage,fine⟩ | ⟨gone,stage,whole⟩ | ⟨gone,stage,wrong⟩
    · rw [stage]
      exact iff_of_true fine trivial
    · rw [stage]
      exact whole
    · rw [stage]
      exact iff_of_false wrong id
  | put config checkpoint newVersions =>
    obtain ⟨versions,stage,whole⟩ := putCalls_consistent exact_ made
    rw [stage]
    exact whole

def toyBase : Base (List UInt8) := {SizeExact.toyBase with toSerde := toySerde}

-- Checkpoints in one namespace and one in another.
def loaded (main : List CheckpointId) : Saver :=
  let entry : Entry := ⟨⟨"msgpack",[]⟩,⟨"msgpack",[]⟩,none⟩
  let checkpoints : Checkpoints := main.foldl (fun checkpoints id => checkpoints.insert id entry) Dict.empty
  {storage := Dict.empty.insert "t" ⟨(Dict.empty.insert "" checkpoints).insert "sub" (Dict.empty.insert (.text "a") entry),true⟩
   writes := Dict.empty
   blobs := Dict.empty
   sizeState := .clear}

def tracked (main : List CheckpointId) : Saver := rebuildSizeTracking (max 0) (loaded main)

theorem tracked_exact (main : List CheckpointId) : SizesExact (tracked main) := follows_exact (rebuild_follows (loaded main)).1

def toySaver : Saver := tracked [.text "a",.text "b"]

-- The decoder raises on the second namespace, after the first lost nothing.
theorem failures_consistent_toy : ∃ call ∈ calls toyBase (tracked [.text "a"]) (.prune ["t"]), call.1 = .rewritten [] "t" [""] ∧
    Consistent toyBase.toSerde (tracked [.text "a"]) call.2 := by
  have made := List.mem_of_getElem? (rfl : (calls toyBase (tracked [.text "a"]) (.prune ["t"]))[3]? = some _)
  refine ⟨_,made,rfl,(failures_consistent toyBase (tracked [.text "a"]) (.prune ["t"]) _ (tracked_exact _) made).mpr ?_⟩
  refine .inr fun ns member id entry found => ?_
  cases List.mem_singleton.mp member
  have stored : (tracked [.text "a"]).entryAt "t" "" id = if CheckpointId.text "a" == id then some ⟨⟨"msgpack",[]⟩,⟨"msgpack",[]⟩,none⟩ else none :=
    (Dict.get?_insert Dict.empty (CheckpointId.text "a") id _).trans (by rfl)
  rw [stored] at found
  split at found
  · rename_i same
    rw [← eq_of_beq same,retained_iff]
    decide +kernel
  · cases found

-- The decoder raises on the second namespace, after the first lost `a`.
theorem failure_leaves_size : SizesExact toySaver ∧ ∃ call ∈ calls toyBase toySaver (.prune ["t"]),
    (toySaver.entryAt "t" "" (.text "a")).isSome = true ∧ call.2.entryAt "t" "" (.text "a") = none ∧
      ¬ Consistent toyBase.toSerde toySaver call.2 := by
  refine ⟨tracked_exact _,_,List.mem_of_getElem? (rfl : (calls toyBase toySaver (.prune ["t"]))[3]? = some _),by decide +kernel,
    by decide +kernel,fun consistent => ?_⟩
  exact absurd consistent.2.checkpoints (by decide +kernel)

end InmemRuntime.DecodeFailures
