import InmemRuntime.DanglingReferences
import InmemRuntime.SaverEffects
import InmemRuntime.ThreadFrames

namespace InmemRuntime.LatestStates
open OrderedDict CheckpointData CheckpointSaver UuidTexts DeltaWalk Prune DeleteForRuns PruneHistory Mutations SaverEffects
open PruneExactness (own_write own_blob untouched_unlisted)
open RunDeletion (ownWrites ownBlobs Untouched)

variable {J : Type} {serde : Serde} {s s' s'' : Saver} {threadId ns : String} {latest : CheckpointId} {entry : Entry}

-- Nothing of the thread is written.
structure SameCheckpoints (threadId : String) (s s' : Saver) : Prop where
  checkpoints : ∀ ns, s'.checkpointsAt threadId ns = s.checkpointsAt threadId ns
  writes : ownWrites s' threadId = ownWrites s threadId
  blobs : ownBlobs s' threadId = ownBlobs s threadId

theorem untouched_same (untouched : Untouched threadId s s') : SameCheckpoints threadId s s' := by
  refine ⟨fun ns => ?_,untouched.writes,untouched.blobs⟩
  unfold Saver.checkpointsAt
  rw [untouched.storage]

theorem copiedCheckpoints_same (packages : Packages J) {source target : String} (apart : target ≠ threadId) :
    SameCheckpoints threadId s (copiedCheckpoints packages s source target) := by
  have kept : ThreadFrames.SaverKept threadId s (copiedCheckpoints packages s source target) :=
    ThreadFrames.copiedCheckpoints_kept packages apart
  exact ⟨fun ns => (CopiedThreads.copied_copiesTo _ s source target).checkpoints threadId ns apart,kept.writes,kept.blobs⟩

-- A resume reads the same, and no checkpoint has come to the namespace.
structure Trimmed (serde : Serde) (threadId ns : String) (latest : CheckpointId) (entry : Entry) (s s' : Saver) : Prop where
  resumable : Resumable serde s s' threadId ns latest entry
  fewer : ∀ id, (s'.entryAt threadId ns id).isSome → (s.entryAt threadId ns id).isSome

theorem trimmed_refl (newest_ : newest (s.checkpointsAt threadId ns).keys = some latest) (found : s.entryAt threadId ns latest = some entry) :
    Trimmed serde threadId ns latest entry s s := ⟨⟨found,newest_,fun _ _ _ => rfl,rfl,fun _ _ _ _ => rfl⟩,fun _ => id⟩

-- What is open for a channel is a matter of its own blob.
theorem own_same (resumable : Resumable serde s s' threadId ns latest entry) (channel : String) :
    (scopeAt serde s' threadId ns).ownBlob entry channel = (scopeAt serde s threadId ns).ownBlob entry channel := by
  unfold Scope.ownBlob
  change (((scopeAt serde s threadId ns).versions entry).get? channel).bind _ = _
  cases versioned : ((scopeAt serde s threadId ns).versions entry).get? channel with
  | none => rfl
  | some version => exact resumable.blobs channel version versioned

theorem trimmed_trans (first : Trimmed serde threadId ns latest entry s s') (later : Trimmed serde threadId ns latest entry s' s'') :
    Trimmed serde threadId ns latest entry s s'' := by
  refine ⟨⟨later.resumable.stored,later.resumable.newest,fun channel version versioned => ?_,
    later.resumable.writes.trans first.resumable.writes,fun channel counted versioned open_ => ?_⟩,fun id here => first.fewer id (later.fewer id here)⟩
  · exact (later.resumable.blobs channel version versioned).trans (first.resumable.blobs channel version versioned)
  · have still : materialised ((scopeAt serde s' threadId ns).ownBlob entry channel) = false := by
      rw [own_same first.resumable]
      exact open_
    exact (later.resumable.history channel counted versioned still).trans (first.resumable.history channel counted versioned open_)

theorem apart_later (apart : TextApart s threadId ns) (trimmed : Trimmed serde threadId ns latest entry s s') : TextApart s' threadId ns :=
  fun id id' here here' => apart id id' (trimmed.fewer id here) (trimmed.fewer id' here')

section steps
variable (newest_ : newest (s.checkpointsAt threadId ns).keys = some latest) (found : s.entryAt threadId ns latest = some entry)
include newest_ found

theorem same_trimmed (same : SameCheckpoints threadId s s') : Trimmed serde threadId ns latest entry s s' := by
  have writes : ∀ id, s'.writes.get? ⟨threadId,ns,id⟩ = s.writes.get? ⟨threadId,ns,id⟩ := by
    intro id
    have mine : (⟨threadId,ns,id⟩ : WriteKey).threadId = threadId := rfl
    rw [← own_write mine,← own_write mine,same.writes]
  have blobs : ∀ channel version, s'.blobs.get? ⟨threadId,ns,channel,version⟩ = s.blobs.get? ⟨threadId,ns,channel,version⟩ := by
    intro channel version
    have mine : (⟨threadId,ns,channel,version⟩ : BlobKey).threadId = threadId := rfl
    rw [← own_blob mine,← own_blob mine,same.blobs]
  have entries : ∀ id, s'.entryAt threadId ns id = s.entryAt threadId ns id := by
    intro id
    unfold Saver.entryAt
    rw [same.checkpoints]
  have keeps : ∀ id, Keeps (scopeAt serde s threadId ns) (scopeAt serde s' threadId ns) id := by
    refine fun id => ⟨entries id,fun stored _ channel => ?_⟩
    unfold Scope.ownBlob
    change (((scopeAt serde s threadId ns).versions stored).get? channel).bind _ = _
    cases ((scopeAt serde s threadId ns).versions stored).get? channel with
    | none => rfl
    | some version => exact blobs channel version
  refine ⟨⟨(entries latest).trans found,?_,fun channel version _ => blobs channel version,writes latest,?_⟩,fun id here => entries id ▸ here⟩
  · rw [same.checkpoints]
    exact newest_
  · intro channel counted versioned open_
    have names : (scopeAt serde s' threadId ns).threadId = (scopeAt serde s threadId ns).threadId := rfl
    have smaller : (scopeAt serde s' threadId ns).checkpoints.size ≤ (scopeAt serde s threadId ns).checkpoints.size := by
      change (s'.checkpointsAt threadId ns).size ≤ _
      rw [same.checkpoints]
      exact Nat.le_refl _
    have fewer : ∀ id, (scopeAt serde s threadId ns).checkpoints.get? id = none → (scopeAt serde s' threadId ns).checkpoints.get? id = none :=
      fun id absent => (show s'.entryAt threadId ns id = s.entryAt threadId ns id from entries id).trans absent
    exact history_preserved fewer smaller ⟨names,rfl⟩
      (Scope.mem_neededChannels.mpr ⟨counted,versioned,open_⟩) fun id _ => ⟨keeps id,writes id⟩

theorem pruneThread_trimmed {clamp : Int → Int} : Trimmed serde threadId ns latest entry s (pruneThread clamp serde s threadId) := by
  refine ⟨prune_resumable newest_ found,fun id here => ?_⟩
  by_contra absent
  have none_ : s.entryAt threadId ns id = none := by simpa using absent
  rw [Saver.entryAt,show (Saver.checkpointsAt _ threadId ns).get? id = none from pruned_fewer id none_] at here
  cases here

omit newest_ found in
theorem prunedThreads_trimmed {packages : Packages J} (threadIds : List String)
    (newest_ : newest (s.checkpointsAt threadId ns).keys = some latest) (found : s.entryAt threadId ns latest = some entry) :
    Trimmed packages.serde threadId ns latest entry s (prunedThreads packages s threadIds) := by
  unfold prunedThreads
  induction threadIds generalizing s with
  | nil => exact trimmed_refl newest_ found
  | cons other rest ih =>
    have first : Trimmed packages.serde threadId ns latest entry s (pruneThread (max 0) packages.serde s other) := by
      by_cases same : threadId = other
      · subst same
        exact pruneThread_trimmed newest_ found
      · exact same_trimmed newest_ found (untouched_same (PruneExactness.pruneThread_untouched same))
    exact trimmed_trans first (ih first.resumable.newest first.resumable.stored)

-- The run that wrote the newest checkpoint is another one.
theorem deleteForRuns_trimmed {clamp : Int → Int} {runIds : List String} (apart : TextApart s threadId ns)
    (free : targeted serde runIds entry = false) : Trimmed serde threadId ns latest entry s (deleteForRuns clamp serde runIds s) := by
  have dropped := deleteForRuns_dropped clamp serde runIds s
  have stored : ∀ key ∈ removed serde runIds s, (s.entryAt key.threadId key.checkpointNs key.checkpointId).isSome := by
    intro key member
    obtain ⟨⟨entry,found,_⟩,_⟩ := mem_removed.mp member
    simp [found]
  have stays : (⟨threadId,ns,latest⟩ : CheckpointKey) ∉ removed serde runIds s := by
    intro member
    obtain ⟨⟨other,here,target⟩,_⟩ := mem_removed.mp member
    cases Option.some.inj (found.symm.trans here)
    rw [free] at target
    cases target
  have here : (deleteForRuns clamp serde runIds s).entryAt threadId ns latest = some entry := (dropped.staying stays).trans found
  refine ⟨⟨here,?_,fun channel version versioned => ?_,?_,?_⟩,fun id present => ?_⟩
  · have keys : ((deleteForRuns clamp serde runIds s).checkpointsAt threadId ns).keys =
        (s.checkpointsAt threadId ns).keys.filter fun id => !(removed serde runIds s).contains ⟨threadId,ns,id⟩ := by
      simp only [dropped.checkpoints,Dict.keys,Dict.entries_filter,List.filter_map]
      rfl
    rw [keys]
    exact newest_filter newest_ (by simpa using stays)
  · exact dropped.held _ (.inr ⟨⟨threadId,ns,latest⟩,entry,version,here,versioned,rfl,rfl,BEq.rfl⟩)
  · exact dropped.writes_kept stored apart (by simp [found]) stays
  · intro channel counted versioned open_
    have names : (scopeAt serde (deleteForRuns clamp serde runIds s) threadId ns).threadId = (scopeAt serde s threadId ns).threadId := rfl
    refine history_preserved (fun id absent => ?_) ?_ ⟨names,rfl⟩ (Scope.mem_neededChannels.mpr ⟨counted,versioned,open_⟩) fun id chain => ?_
    · change Saver.entryAt _ threadId ns id = none
      rw [dropped.entry,show s.entryAt threadId ns id = none from absent,ite_self]
    · change (Saver.checkpointsAt _ threadId ns).size ≤ (s.checkpointsAt threadId ns).size
      rw [dropped.checkpoints]
      exact List.length_filter_le _ _
    · -- An ancestor on the chain of a checkpoint that stays is needed.
      have needed : (⟨threadId,ns,id⟩ : CheckpointKey) ∉ removed serde runIds s := fun member =>
        (mem_removed.mp member).2 ⟨latest,entry,found,free,chain⟩
      obtain ⟨kept,there⟩ := Scope.deltaChain_stored chain
      have present : (s.entryAt threadId ns id).isSome := Option.isSome_iff_exists.mpr ⟨kept,there⟩
      exact ⟨dropped.keeps needed,dropped.writes_kept stored apart present needed⟩
  · obtain ⟨kept,there⟩ := Option.isSome_iff_exists.mp present
    exact Option.isSome_iff_exists.mpr ⟨kept,dropped.before there⟩

end steps

section runs
variable {packages : Packages J}

-- All but a deletion of the thread or of the run that wrote its newest
-- checkpoint, and what writes to the thread.
def Trims (packages : Packages J) (threadId ns : String) (latest : CheckpointId) (s : Saver) : Effect J → Prop
  | .nothing | .prune _ => True
  | .deleteThread other => other ≠ threadId
  | .copyThread _ target => target ≠ threadId
  | .deleteForRuns runId => ∀ entry, s.entryAt threadId ns latest = some entry → targeted packages.serde [runId] entry = false
  | .update call => call.threadId ≠ threadId
  | .other saver => SameCheckpoints threadId s saver

theorem effect_trimmed (newest_ : newest (s.checkpointsAt threadId ns).keys = some latest) (found : s.entryAt threadId ns latest = some entry)
    (apart : TextApart s threadId ns)
    (confined : ∀ call saver, call.threadId ≠ threadId → SameCheckpoints threadId saver (packages.updated call saver))
    {effect : Effect J} (trims : Trims packages threadId ns latest s effect) :
    Trimmed packages.serde threadId ns latest entry s (effect.apply packages s) := by
  cases effect with
  | nothing => exact trimmed_refl newest_ found
  | deleteThread other =>
    exact same_trimmed newest_ found (untouched_same (SweepExactness.deleteThread_untouched s (Ne.symm trims)))
  | prune threadIds => exact prunedThreads_trimmed threadIds newest_ found
  | copyThread source target => exact same_trimmed newest_ found (copiedCheckpoints_same packages trims)
  | deleteForRuns runId => exact deleteForRuns_trimmed newest_ found apart (trims entry found)
  | update call => exact same_trimmed newest_ found (confined call s trims)
  | other saver => exact same_trimmed newest_ found trims

variable [DecidableEq J]

def Careful (packages : Packages J) (threadId ns : String) (latest : CheckpointId) : Pool J × Event J → Prop :=
  TaskPool.Meets (fun _ => True) fun w s task => Trims packages threadId ns latest s.saver (effect w s task)

theorem advance_trimmed {start : Saver} {p next : Pool J} {event : Event J} (apart : TextApart start threadId ns)
    (confined : ∀ call saver, call.threadId ≠ threadId → SameCheckpoints threadId saver (packages.updated call saver))
    (trimmed : Trimmed packages.serde threadId ns latest entry start p.shared.saver)
    (careful : Careful packages threadId ns latest (p,event))
    (step : TaskPool.advance (Mutations.resume packages) p event = some next) :
    Trimmed packages.serde threadId ns latest entry start next.shared.saver := by
  cases event with
  | call task =>
    cases Option.some.inj step
    exact trimmed
  | resume index w =>
    obtain ⟨before,task,after,split,found,rfl⟩ := TaskPool.resume_parts step
    have stepped : Trimmed packages.serde threadId ns latest entry p.shared.saver (Mutations.resume packages w p.shared task).1.saver := by
      rw [resume_saver]
      exact effect_trimmed trimmed.resumable.newest trimmed.resumable.stored (apart_later apart trimmed) confined (careful task found)
    exact trimmed_trans trimmed stepped

-- Whatever is pruned, swept, copied and deleted around it, in any order of the
-- steps, a thread goes on from the same state.
theorem latest_state_stays (packages : Packages J) (threadId ns : String) (latest : CheckpointId) (start : World J) (p : Pool J)
    (taken : List (Pool J × Event J)) (newest_ : newest (start.saver.checkpointsAt threadId ns).keys = some latest)
    (apart : TextApart start.saver threadId ns)
    (confined : ∀ call saver, call.threadId ≠ threadId → SameCheckpoints threadId saver (packages.updated call saver))
    (runs : Mutations.Runs packages ⟨start,[]⟩ taken p) (careful : ∀ step ∈ taken, Careful packages threadId ns latest step) :
    ∃ entry, start.saver.entryAt threadId ns latest = some entry ∧ ∀ s ∈ p.shared :: taken.map (·.1.shared),
      Resumable packages.serde start.saver s.saver threadId ns latest entry := by
  obtain ⟨⟨_,entry⟩,member,rfl⟩ := List.mem_map.mp (newest_mem newest_)
  have found : start.saver.entryAt threadId ns _ = some entry := Dict.get?_of_mem member BEq.rfl
  obtain ⟨last,earlier⟩ : Trimmed packages.serde threadId ns _ entry start.saver p.shared.saver ∧
      ∀ step ∈ taken, Trimmed packages.serde threadId ns _ entry start.saver step.1.shared.saver :=
    TaskPool.runs_invariant runs (trimmed_refl newest_ found)
      (fun _ _ _ here careful step => advance_trimmed apart confined here careful step) careful
  refine ⟨entry,found,List.forall_mem_cons.mpr ⟨last.resumable,fun s listed => ?_⟩⟩
  obtain ⟨step,taken_,rfl⟩ := List.mem_map.mp listed
  exact (earlier step taken_).resumable

end runs

theorem texts_apart (texts : ∀ id ∈ (s.checkpointsAt threadId ns).keys, id = .text id.str) : TextApart s threadId ns := by
  have listed : ∀ {id}, (s.entryAt threadId ns id).isSome → id ∈ (s.checkpointsAt threadId ns).keys := by
    intro id here
    obtain ⟨entry,found⟩ := Option.isSome_iff_exists.mp here
    exact List.mem_map_of_mem (Dict.mem_iff.mpr found)
  intro id id' here here' same
  rw [texts id (listed here),texts id' (listed here'),same]

def toyPackages : Packages String := {DeniedMutations.toyPackages with serde := toySerde}

def toyWorld : World String := {DanglingReferences.toyWorld with saver := toySaver [2]}

def prunes : List (Event String) :=
  .call (.prune (.called ⟨["t"],"keep_latest",1⟩)) :: List.replicate 4 (.resume 0 DeniedMutations.waking)

-- An old branch goes, and the base of the newest checkpoint stays.
theorem latest_state_stays_toy : ∃ taken p, Mutations.Runs toyPackages ⟨toyWorld,[]⟩ taken p ∧ p.tasks = [] ∧
    p.shared.saver.entryAt "t" "" (.text "b") = none ∧
    ∃ entry, Resumable toySerde (toySaver [2]) p.shared.saver "t" "" (.text "c") entry := by
  have runs := TaskPool.perform_runs .nil (rfl : TaskPool.perform (Mutations.resume toyPackages) ⟨toyWorld,[]⟩ prunes = some _)
  refine ⟨_,_,runs,rfl,by decide,(latest_state_stays toyPackages "t" "" (.text "c") toyWorld _ _ (by decide) (texts_apart (by decide))
    (fun _ _ _ => ⟨fun _ => rfl,rfl,rfl⟩) runs ?_).imp fun entry stays => stays.2 _ List.mem_cons_self⟩
  refine List.forall_mem_cons.mpr ⟨trivial,?_⟩
  iterate 4 refine List.forall_mem_cons.mpr ⟨fun task found => by cases found; trivial,?_⟩
  exact fun _ none_ => (List.not_mem_nil none_).elim

end InmemRuntime.LatestStates
