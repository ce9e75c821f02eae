import InmemRuntime.SizeOperations
import InmemRuntime.SizeCopy

namespace InmemRuntime.SizeExact
open OrderedDict CheckpointData CheckpointSaver SizeTracking SizeAccounting SizeOperations SizeCopy
open DeltaWalk Prune DeleteForRuns ThreadCopy

inductive Operation (J : Type) where
  | put (config : PutConfig J) (checkpoint : Checkpoint J) (metadata : Dict String J) (newVersions : Dict String Version)
  | putWrites (key : WriteKey) (writes : List (String × J)) (taskId taskPath : String)
  | getTuple (threadId ns : String) (checkpointId : Option CheckpointId)
  | deleteThread (threadId : String)
  | deleteForRuns (runIds : List String)
  | prune (threadIds : List String) (strategy : String)
  | clear
  | copy (sub : IdSubstitution) (source target : String)

variable {J : Type} {base : Base J}

-- `none` is an exception of the operation.
def execute (clamp : Int → Int) (base : Base J) (s : Saver) : Operation J → Option Saver
  | .put config checkpoint metadata newVersions => put clamp base s config checkpoint metadata newVersions
  | .putWrites key writes taskId taskPath => some (putWrites clamp base s key writes taskId taskPath)
  | .getTuple threadId ns checkpointId => (getTuple s threadId ns checkpointId).map Prod.fst
  | .deleteThread threadId => some (deleteThread s threadId)
  | .deleteForRuns runIds => some (deleteForRuns clamp base.toSerde runIds s)
  | .prune threadIds strategy => (prune clamp base.toSerde s threadIds strategy).toOption
  | .clear => some clear
  | .copy sub source target => copyThread sub s source target

-- Only a copy needs anything of the state: its target id is new.
def Allowed (s : Saver) : Operation J → Prop
  | .copy sub source target => FreshTarget sub s source target
  | _ => True

inductive Runs (clamp : Int → Int) (base : Base J) : Saver → List (Operation J) → Saver → Prop where
  | nil : Runs clamp base s [] s
  | step : Allowed s operation → execute clamp base s operation = some middle → Runs clamp base middle rest next →
      Runs clamp base s (operation :: rest) next

-- The tracker agrees with a recomputation from the three stores.
structure SizesExact (s : Saver) : Prop where
  threads : ∀ threadId, s.sizeState.byThread.get? threadId =
    (rebuildSizeTracking (max 0) s).sizeState.byThread.get? threadId
  bytes : s.sizeState.totalBytes = (rebuildSizeTracking (max 0) s).sizeState.totalBytes
  checkpoints : s.sizeState.totalCheckpoints = (rebuildSizeTracking (max 0) s).sizeState.totalCheckpoints

def Follows (s : Saver) : Prop := Tracks s.sizeState (contents s)

theorem follows_exact {s : Saver} (follows : Follows s) : SizesExact s := by
  obtain ⟨threads,bytes,checkpoints⟩ := tracks_unique follows (rebuild_follows s).1
  exact ⟨threads,bytes,checkpoints⟩

theorem exact_follows {s : Saver} (exact_ : SizesExact s) : Follows s := by
  obtain ⟨each,bytes,checkpoints⟩ := (rebuild_follows s).1
  exact ⟨fun threadId => (exact_.threads threadId).trans (each threadId),exact_.bytes.trans bytes,exact_.checkpoints.trans checkpoints⟩

theorem put_step {s next : Saver} (follows : Follows s) {config : PutConfig J} {checkpoint : Checkpoint J}
    {metadata : Dict String J} {newVersions : Dict String Version}
    (stepped : put (max 0) base s config checkpoint metadata newVersions = some next) :
    Follows next ∧ put id base s config checkpoint metadata newVersions = some next := by
  unfold put at stepped ⊢
  dsimp only at stepped ⊢
  split at stepped
  · cases stepped
  · rename_i after stored
    obtain ⟨_,_,_,_,size⟩ := basePut_parts stored
    obtain ⟨tracks,agrees⟩ := adjust_follows follows (basePut_moves stored)
    cases Option.some.inj stepped
    simp only [size]
    exact ⟨tracks,by rw [agrees]⟩

theorem putWrites_step {s : Saver} (follows : Follows s) {key : WriteKey} {writes : List (String × J)}
    {taskId taskPath : String} : Follows (putWrites (max 0) base s key writes taskId taskPath) ∧
      putWrites id base s key writes taskId taskPath = putWrites (max 0) base s key writes taskId taskPath := by
  obtain ⟨tracks,agrees⟩ := adjust_follows follows
    (basePutWrites_moves : ∀ sel, contents (basePutWrites base s key writes taskId taskPath) sel = _)
  refine ⟨tracks,?_⟩
  unfold putWrites
  exact congrArg (fun sizeState => {basePutWrites base s key writes taskId taskPath with sizeState}) agrees.symm

theorem deleteThread_step {s : Saver} (follows : Follows s) (threadId : String) : Follows (deleteThread s threadId) :=
  (remove_tracks follows threadId).congr fun sel => (deleteThread_moves threadId sel).symm

theorem deleteForRuns_step {s : Saver} (follows : Follows s) (serde : Serde) (runIds : List String) :
    Follows (deleteForRuns (max 0) serde runIds s) ∧ deleteForRuns id serde runIds s = deleteForRuns (max 0) serde runIds s := by
  obtain ⟨tracks,agrees⟩ := rebuild_follows (withoutKeys serde s (removed serde runIds s))
  unfold deleteForRuns
  refine ⟨?_,by rw [agrees]⟩
  split
  · exact follows
  · split
    · exact follows
    · split
      · exact follows
      · exact tracks

theorem pruneThread_step {s : Saver} (follows : Follows s) (serde : Serde) (threadId : String) :
    Follows (pruneThread (max 0) serde s threadId) ∧ pruneThread id serde s threadId = pruneThread (max 0) serde s threadId := by
  rcases pruneThread_parts serde s threadId with same | ⟨namespaces,found,applied⟩
  · rw [same,same]
    exact ⟨follows,rfl⟩
  · rw [applied,applied]
    obtain ⟨tracks,agrees⟩ := adjust_follows follows (applySweep_moves found (sweepOf_weight namespaces.dict))
    refine ⟨tracks,?_⟩
    unfold applySweep
    rw [← agrees]

theorem prune_step {s next : Saver} (follows : Follows s) {serde : Serde} {threadIds : List String} {strategy : String}
    (stepped : (prune (max 0) serde s threadIds strategy).toOption = some next) :
    Follows next ∧ (prune id serde s threadIds strategy).toOption = some next := by
  unfold prune at stepped ⊢
  split
  · rename_i drop
    rw [if_pos drop] at stepped
    cases Option.some.inj stepped
    refine ⟨?_,rfl⟩
    clear stepped
    induction threadIds generalizing s with
    | nil => exact follows
    | cons threadId rest ih => exact ih (deleteThread_step follows threadId)
  · rename_i drop
    rw [if_neg drop] at stepped
    split
    · rename_i unknown
      rw [if_pos unknown] at stepped
      cases stepped
    · rename_i known
      rw [if_neg known] at stepped
      cases Option.some.inj stepped
      clear stepped
      have both : ∀ (threadIds : List String) (s : Saver), Follows s →
          Follows (threadIds.foldl (pruneThread (max 0) serde) s) ∧
            threadIds.foldl (pruneThread id serde) s = threadIds.foldl (pruneThread (max 0) serde) s := by
        intro threadIds
        induction threadIds with
        | nil => exact fun _ follows => ⟨follows,rfl⟩
        | cons threadId rest ih =>
          intro s follows
          obtain ⟨tracks,agrees⟩ := pruneThread_step follows serde threadId
          rw [List.foldl_cons,List.foldl_cons,agrees]
          exact ih _ tracks
      obtain ⟨tracks,agrees⟩ := both threadIds s follows
      exact ⟨tracks,congrArg some agrees⟩

theorem copy_step {s next : Saver} (follows : Follows s) {sub : IdSubstitution} {source target : String}
    (fresh : FreshTarget sub s source target) (stepped : copyThread sub s source target = some next) : Follows next := by
  obtain ⟨size,moves⟩ := copyThread_moves fresh stepped
  unfold Follows
  rw [size]
  exact (copy_tracks follows source target).congr fun sel => (moves sel).symm

-- One step of any operation: the tracker goes on following the contents, and
-- without its clamps it takes the same step.
theorem execute_step {s next : Saver} (follows : Follows s) {operation : Operation J} (allowed : Allowed s operation)
    (stepped : execute (max 0) base s operation = some next) :
    Follows next ∧ execute id base s operation = some next := by
  cases operation with
  | put config checkpoint metadata newVersions => exact put_step follows stepped
  | putWrites key writes taskId taskPath =>
    obtain ⟨tracks,agrees⟩ := putWrites_step follows
    cases Option.some.inj stepped
    exact ⟨tracks,congrArg some agrees⟩
  | getTuple threadId ns checkpointId =>
    obtain ⟨⟨after,answer⟩,read,rfl⟩ := Option.map_eq_some_iff.mp stepped
    obtain ⟨size,same⟩ := getTuple_parts read
    refine ⟨?_,stepped⟩
    unfold Follows
    rw [size]
    exact Tracks.congr follows fun sel => (same sel).symm
  | deleteThread threadId =>
    cases Option.some.inj stepped
    exact ⟨deleteThread_step follows threadId,rfl⟩
  | deleteForRuns runIds =>
    obtain ⟨tracks,agrees⟩ := deleteForRuns_step follows base.toSerde runIds
    cases Option.some.inj stepped
    exact ⟨tracks,congrArg some agrees⟩
  | prune threadIds strategy => exact prune_step follows stepped
  | clear =>
    cases Option.some.inj stepped
    exact ⟨clear_tracks,rfl⟩
  | copy sub source target => exact ⟨copy_step follows allowed stepped,stepped⟩

theorem runs_follow {s next : Saver} {operations : List (Operation J)} (follows : Follows s)
    (runs : Runs (max 0) base s operations next) : Follows next ∧ Runs id base s operations next := by
  induction runs with
  | nil => exact ⟨follows,.nil⟩
  | step allowed stepped _ ih =>
    obtain ⟨tracks,agrees⟩ := execute_step follows allowed stepped
    obtain ⟨final,plain⟩ := ih tracks
    exact ⟨final,.step allowed agrees plain⟩

-- The saver counts what it loaded once; from then on the counters stay exact,
-- and the run without clamps is the same run.
theorem runs_sizes_exact (loaded : Saver) (operations : List (Operation J)) (s : Saver)
    (runs : Runs (max 0) base (rebuildSizeTracking (max 0) loaded) operations s) :
    SizesExact s ∧ Runs id base (rebuildSizeTracking id loaded) operations s := by
  obtain ⟨tracks,agrees⟩ := rebuild_follows loaded
  obtain ⟨follows,plain⟩ := runs_follow tracks runs
  exact ⟨follows_exact follows,agrees ▸ plain⟩

-- Values stand for their own bytes, and no text of the run holds the id `t`.
def toyBase : Base (List UInt8) :=
  {loadsCheckpoint := fun _ => ⟨.empty⟩
   loadsMetadata := fun _ => ⟨none,none⟩
   dumpsCheckpoint := fun _ body => ⟨"msgpack",body⟩
   dumpsMetadata := fun metadata => ⟨"json",metadata.entries.flatMap Prod.snd⟩
   dumpsValue := fun value => ⟨"msgpack",value⟩
   checkpointMetadata := fun _ _ metadata => metadata
   writesIdx := fun channel => if channel = "__error__" then some (-1) else none}

def toySubstitution : IdSubstitution := ⟨id,id,fun _ => rfl,fun _ => rfl⟩

def toyPut (value : List UInt8) : Operation (List UInt8) :=
  .put ⟨"t","",none,.empty,.empty⟩ ⟨.text "a",Dict.empty.insert "messages" value,[1,2]⟩ .empty
    (Dict.empty.insert "messages" (.int 1))

def toyRun : List (Operation (List UInt8)) :=
  [toyPut [1,2,3],toyPut [4],.getTuple "t" "" none,.copy toySubstitution "t" "u",.deleteThread "t"]

theorem runs_sizes_exact_toy : ∃ s, SizesExact s ∧ Runs id toyBase (rebuildSizeTracking id clear) toyRun s :=
  ⟨_,runs_sizes_exact clear toyRun _ (.step trivial rfl (.step trivial rfl (.step trivial rfl (.step
    ⟨by decide,by decide,by decide,by decide,by decide,by decide⟩ rfl (.step trivial rfl .nil)))))⟩

end InmemRuntime.SizeExact
