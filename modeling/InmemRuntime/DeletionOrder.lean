import InmemRuntime.Survivors

namespace InmemRuntime.DeletionOrder
open OrderedDict CheckpointData CheckpointSaver DeltaWalk Prune DeleteForRuns

structure SameContents (s s' : Saver) : Prop where
  checkpoints : ∀ threadId ns, s.checkpointsAt threadId ns = s'.checkpointsAt threadId ns
  writes : ∀ key, s.writes.get? key = s'.writes.get? key
  blobs : ∀ key, s.blobs.get? key = s'.blobs.get? key

-- One call for each run, in the order given.
def deleteEach (clamp : Int → Int) (serde : Serde) (s : Saver) (order : List String) : Saver :=
  order.foldl (fun s runId => deleteForRuns clamp serde [runId] s) s

-- No call retains a checkpoint of its run that nothing outside of the runs needs.
def Undisturbed (clamp : Int → Int) (serde : Serde) (runIds : List String) : List String → Saver → Prop
  | [],_ => True
  | runId :: rest,s =>
    (∀ threadId ns id entry, s.entryAt threadId ns id = some entry → targeted serde [runId] entry = true →
      Needed serde [runId] s threadId ns id → Needed serde runIds s threadId ns id) ∧
    Undisturbed clamp serde runIds rest (deleteForRuns clamp serde [runId] s)

-- Of what a thread held nothing is left: no checkpoint, no pending write of
-- one, no blob that one referred to.
structure Emptied (serde : Serde) (threadId : String) (s s' : Saver) : Prop where
  checkpoints : ∀ ns id, s'.entryAt threadId ns id = none
  writes : ∀ ns id, (s.entryAt threadId ns id).isSome → s'.writes.get? ⟨threadId,ns,id⟩ = none
  blobs : ∀ key blob, Refers serde s key blob → blob.threadId = threadId → s'.blobs.get? blob = none

section composing
variable {serde : Serde} {s middle s' : Saver} {gone more : List CheckpointKey}

theorem dropped_trans (first : Dropped serde s middle gone) (second : Dropped serde middle s' more) :
    Dropped serde s s' (gone ++ more) := by
  refine ⟨fun threadId ns => ?_,fun key => ?_,fun blob referenced orphan => ?_,fun blob reason => ?_⟩
  · rw [second.checkpoints,first.checkpoints]
    refine Dict.ext ?_
    simp only [Dict.entries_filter,List.filter_filter]
    refine List.filter_congr fun row _ => ?_
    rw [Bool.eq_iff_iff]
    simp [and_comm]
  · rw [second.writes,first.writes,List.map_append]
    by_cases early : normalized key ∈ gone.map normalized <;> by_cases late : normalized key ∈ more.map normalized <;>
      simp only [List.mem_append,early,late,or_true,true_or,or_self,↓reduceIte]
  · by_cases between : ∃ key, Refers serde middle key blob
    · obtain ⟨key,refers⟩ := between
      refine second.lost blob ⟨key,?_,refers⟩ orphan
      by_contra stays
      exact orphan ⟨key,second.refers.mpr ⟨stays,refers⟩⟩
    · obtain ⟨key,listed,refers⟩ := referenced
      have early : key ∈ gone := by
        by_contra stays
        exact between ⟨key,first.refers.mpr ⟨stays,refers⟩⟩
      have spared : ¬ ∃ other ∈ more, Refers serde middle other blob := by
        rintro ⟨other,_,later⟩
        exact between ⟨other,later⟩
      rw [second.held blob (.inl spared)]
      exact first.lost blob ⟨key,early,refers⟩ between
  · rcases reason with untouched | ⟨key,refers⟩
    · have late : ¬ ∃ key ∈ more, Refers serde middle key blob := by
        rintro ⟨key,late,refers⟩
        exact untouched ⟨key,List.mem_append_right _ late,(first.refers.mp refers).2⟩
      have early : ¬ ∃ key ∈ gone, Refers serde s key blob := by
        rintro ⟨key,early,refers⟩
        exact untouched ⟨key,List.mem_append_left _ early,refers⟩
      rw [second.held blob (.inl late)]
      exact first.held blob (.inl early)
    · rw [second.held blob (.inr ⟨key,refers⟩)]
      exact first.held blob (.inr ⟨key,(second.refers.mp refers).2⟩)

-- What is left depends on which checkpoints went, not on when each of them did.
theorem dropped_same (left : Dropped serde s middle gone) (right : Dropped serde s s' more)
    (same : ∀ key, key ∈ gone ↔ key ∈ more) : SameContents middle s' := by
  have refers : ∀ key blob, Refers serde middle key blob ↔ Refers serde s' key blob := by
    intro key blob
    rw [left.refers,right.refers,same]
  refine ⟨fun threadId ns => ?_,fun key => ?_,fun blob => ?_⟩
  · rw [left.checkpoints,right.checkpoints]
    refine Dict.ext (List.filter_congr fun row _ => ?_)
    rw [Bool.eq_iff_iff]
    simp [same]
  · have texts : normalized key ∈ gone.map normalized ↔ normalized key ∈ more.map normalized := by
      simp only [List.mem_map,same]
    rw [left.writes,right.writes]
    simp only [texts]
  · by_cases held : ∃ key, Refers serde middle key blob
    · obtain ⟨key,mine⟩ := held
      rw [left.held blob (.inr ⟨key,mine⟩),right.held blob (.inr ⟨key,(refers key blob).mp mine⟩)]
    · have orphan : ¬∃ key, Refers serde s' key blob := fun ⟨key,mine⟩ => held ⟨key,(refers key blob).mpr mine⟩
      by_cases dropped : ∃ key ∈ gone, Refers serde s key blob
      · obtain ⟨key,listed,mine⟩ := dropped
        rw [left.lost blob ⟨key,listed,mine⟩ held,right.lost blob ⟨key,(same key).mp listed,mine⟩ orphan]
      · rw [left.held blob (.inl dropped),
          right.held blob (.inl fun ⟨key,listed,mine⟩ => dropped ⟨key,(same key).mpr listed,mine⟩)]

end composing

section partial_deletion
variable {clamp : Int → Int} {serde : Serde} {runIds : List String} {s s' : Saver} {gone : List CheckpointKey}

theorem targeted_iff {entry : Entry} : targeted serde runIds entry = true ↔
    ∃ runId ∈ runIds, (serde.loadsMetadata entry.metadata).runId = some runId := by
  unfold targeted
  cases (serde.loadsMetadata entry.metadata).runId with
  | none => simp
  | some runId => simp

theorem free_stays (within : ∀ key ∈ gone, key ∈ removed serde runIds s) {threadId ns : String} {id : CheckpointId}
    {entry : Entry} (found : s.entryAt threadId ns id = some entry) (free : targeted serde runIds entry = false) :
    (⟨threadId,ns,id⟩ : CheckpointKey) ∉ gone := by
  intro listed
  obtain ⟨⟨stored,held,target⟩,_⟩ := mem_removed.mp (within _ listed)
  cases Option.some.inj (found.symm.trans held)
  rw [free] at target
  cases target

-- While only what the single call removes is gone, every checkpoint outside of
-- the runs still walks its whole chain.
theorem chain_kept (dropped : Dropped serde s s' gone) (within : ∀ key ∈ gone, key ∈ removed serde runIds s)
    {threadId ns : String} {id : CheckpointId} {entry : Entry} (found : s.entryAt threadId ns id = some entry)
    (free : targeted serde runIds entry = false) :
    (scopeAt serde s' threadId ns).deltaChain entry = (scopeAt serde s threadId ns).deltaChain entry := by
  have stays := free_stays within found free
  refine deltaChain_preserved (fun other absent => ?_) ?_ rfl ((dropped.keeps stays).blobs entry found) fun ancestor chain => ?_
  · change s'.entryAt threadId ns other = none
    rw [dropped.entry,show s.entryAt threadId ns other = none from absent,ite_self]
  · change (s'.checkpointsAt threadId ns).size ≤ (s.checkpointsAt threadId ns).size
    rw [dropped.checkpoints]
    exact List.length_filter_le _ _
  · exact dropped.keeps fun listed => (mem_removed.mp (within _ listed)).2 ⟨id,entry,found,free,chain⟩

theorem needed_kept (dropped : Dropped serde s s' gone) (within : ∀ key ∈ gone, key ∈ removed serde runIds s)
    (threadId ns : String) (id : CheckpointId) :
    Needed serde runIds s' threadId ns id ↔ Needed serde runIds s threadId ns id := by
  constructor
  · rintro ⟨survivor,entry,found,free,chain⟩
    have before := dropped.before found
    rw [chain_kept dropped within before free] at chain
    exact ⟨survivor,entry,before,free,chain⟩
  · rintro ⟨survivor,entry,found,free,chain⟩
    have stays := free_stays within found free
    rw [← chain_kept dropped within found free] at chain
    exact ⟨survivor,entry,(dropped.staying stays).trans found,free,chain⟩

-- A call for some of the runs removes nothing that the call for all keeps.
theorem removed_within (dropped : Dropped serde s s' gone) (within : ∀ key ∈ gone, key ∈ removed serde runIds s)
    {some_ : List String} (known : ∀ runId ∈ some_, runId ∈ runIds) {key : CheckpointKey}
    (member : key ∈ removed serde some_ s') : key ∈ removed serde runIds s := by
  obtain ⟨⟨entry,found,target⟩,free⟩ := mem_removed.mp member
  have widen : ∀ entry, targeted serde some_ entry = true → targeted serde runIds entry = true := by
    intro entry target
    obtain ⟨runId,listed,own⟩ := targeted_iff.mp target
    exact targeted_iff.mpr ⟨runId,known runId listed,own⟩
  refine mem_removed.mpr ⟨⟨entry,dropped.before found,widen entry target⟩,fun needed => ?_⟩
  obtain ⟨survivor,other,here,outside,chain⟩ := (needed_kept dropped within _ _ _).mpr needed
  refine free ⟨survivor,other,here,Bool.eq_false_iff.mpr fun target => ?_,chain⟩
  rw [widen other target] at outside
  cases outside

variable (clamp) in
theorem step_dropped (dropped : Dropped serde s s' gone) (within : ∀ key ∈ gone, key ∈ removed serde runIds s)
    (some_ : List String) (known : ∀ runId ∈ some_, runId ∈ runIds) :
    Dropped serde s (deleteForRuns clamp serde some_ s') (gone ++ removed serde some_ s') ∧
      ∀ key ∈ gone ++ removed serde some_ s', key ∈ removed serde runIds s := by
  refine ⟨dropped_trans dropped (deleteForRuns_dropped clamp serde some_ s'),fun key member => ?_⟩
  rcases List.mem_append.mp member with early | late
  · exact within key early
  · exact removed_within dropped within known late

variable (clamp) in
theorem deleteEach_dropped (dropped : Dropped serde s s' gone) (within : ∀ key ∈ gone, key ∈ removed serde runIds s)
    {order : List String} (known : ∀ runId ∈ order, runId ∈ runIds) :
    ∃ gone, Dropped serde s (deleteEach clamp serde s' order) gone ∧ ∀ key ∈ gone, key ∈ removed serde runIds s := by
  induction order generalizing s' gone with
  | nil => exact ⟨gone,dropped,within⟩
  | cons runId rest ih =>
    have parts := List.forall_mem_cons.mp known
    obtain ⟨later,bound⟩ := step_dropped clamp dropped within [runId] fun other listed => by
      rw [List.mem_singleton.mp listed]
      exact parts.1
    exact ih later bound parts.2

-- Where no call is disturbed, each removes all that the single call removes of
-- its run.
theorem undisturbed_complete (dropped : Dropped serde s s' gone) (within : ∀ key ∈ gone, key ∈ removed serde runIds s)
    {order : List String} (known : ∀ runId ∈ order, runId ∈ runIds)
    (undisturbed : Undisturbed clamp serde runIds order s') :
    ∃ later, Dropped serde s (deleteEach clamp serde s' order) later ∧ (∀ key ∈ later, key ∈ removed serde runIds s) ∧
      (∀ key ∈ gone, key ∈ later) ∧ ∀ key ∈ removed serde runIds s,
        (∃ entry, s.entryAt key.threadId key.checkpointNs key.checkpointId = some entry ∧ targeted serde order entry = true) →
          key ∈ later := by
  induction order generalizing s' gone with
  | nil =>
    refine ⟨gone,dropped,within,fun _ listed => listed,fun key _ ⟨entry,_,target⟩ => ?_⟩
    obtain ⟨_,listed,_⟩ := targeted_iff.mp target
    cases listed
  | cons runId rest ih =>
    have parts := List.forall_mem_cons.mp known
    obtain ⟨after,bound⟩ := step_dropped clamp dropped within [runId] fun other listed => by
      rw [List.mem_singleton.mp listed]
      exact parts.1
    obtain ⟨later,final,small,grows,complete⟩ := ih after bound parts.2 undisturbed.2
    refine ⟨later,final,small,fun key listed => grows key (List.mem_append_left _ listed),fun key member ⟨entry,found,target⟩ => ?_⟩
    obtain ⟨own,listed,owner⟩ := targeted_iff.mp target
    rcases List.mem_cons.mp listed with rfl | remaining
    · refine grows key ?_
      by_cases early : key ∈ gone
      · exact List.mem_append_left _ early
      · have here : s'.entryAt key.threadId key.checkpointNs key.checkpointId = some entry :=
          (dropped.staying early).trans found
        have mine : targeted serde [own] entry = true := targeted_iff.mpr ⟨own,by simp,owner⟩
        refine List.mem_append_right _ (mem_removed.mpr ⟨⟨entry,here,mine⟩,fun needed => ?_⟩)
        have outside := undisturbed.1 _ _ _ _ here mine needed
        exact (mem_removed.mp member).2 ((needed_kept dropped within _ _ _).mp outside)
    · exact complete key member ⟨entry,found,targeted_iff.mpr ⟨own,remaining,owner⟩⟩

-- Calls for other runs leave a checkpoint where it is.
theorem deleteEach_keeps {order : List String} {threadId ns : String} {id : CheckpointId} {entry : Entry}
    (found : s.entryAt threadId ns id = some entry) (other : targeted serde order entry = false) :
    (deleteEach clamp serde s order).entryAt threadId ns id = some entry := by
  induction order generalizing s with
  | nil => exact found
  | cons runId rest ih =>
    have spared : ∀ own ∈ runId :: rest, (serde.loadsMetadata entry.metadata).runId ≠ some own := by
      intro own listed owner
      rw [targeted_iff.mpr ⟨own,listed,owner⟩] at other
      cases other
    refine ih ?_ (Bool.eq_false_iff.mpr fun target => ?_)
    · rw [(deleteForRuns_dropped clamp serde [runId] s).staying,found]
      intro member
      obtain ⟨⟨stored,held,target⟩,_⟩ := mem_removed.mp member
      cases Option.some.inj (found.symm.trans held)
      obtain ⟨own,listed,owner⟩ := targeted_iff.mp target
      rw [List.mem_singleton.mp listed] at owner
      exact spared runId (by simp) owner
    · obtain ⟨own,listed,owner⟩ := targeted_iff.mp target
      exact spared own (List.mem_cons_of_mem _ listed) owner

-- A checkpoint that its own call retained stays for good, so the same result
-- means that no call was disturbed.
theorem same_undisturbed (dropped : Dropped serde s s' gone) (within : ∀ key ∈ gone, key ∈ removed serde runIds s)
    {order : List String} (known : ∀ runId ∈ order, runId ∈ runIds) (distinct : order.Nodup)
    (same : SameContents (deleteEach clamp serde s' order) (deleteForRuns clamp serde runIds s)) :
    Undisturbed clamp serde runIds order s' := by
  induction order generalizing s' gone with
  | nil => trivial
  | cons runId rest ih =>
    have parts := List.forall_mem_cons.mp known
    have apart := List.nodup_cons.mp distinct
    obtain ⟨after,bound⟩ := step_dropped clamp dropped within [runId] fun other listed => by
      rw [List.mem_singleton.mp listed]
      exact parts.1
    refine ⟨fun threadId ns id entry found target needed => ?_,ih after bound parts.2 apart.2 same⟩
    have owner : (serde.loadsMetadata entry.metadata).runId = some runId := by
      obtain ⟨own,listed,owner⟩ := targeted_iff.mp target
      rw [List.mem_singleton.mp listed] at owner
      exact owner
    have retained : (deleteForRuns clamp serde [runId] s').entryAt threadId ns id = some entry := by
      rw [(deleteForRuns_dropped clamp serde [runId] s').staying fun member => (mem_removed.mp member).2 needed]
      exact found
    have last : (deleteEach clamp serde (deleteForRuns clamp serde [runId] s') rest).entryAt threadId ns id = some entry := by
      refine deleteEach_keeps retained (Bool.eq_false_iff.mpr fun again => ?_)
      obtain ⟨other,present,owner'⟩ := targeted_iff.mp again
      cases Option.some.inj (owner.symm.trans owner')
      exact apart.1 present
    have whole : (deleteForRuns clamp serde runIds s).entryAt threadId ns id = some entry := by
      unfold Saver.entryAt at last ⊢
      rw [← same.checkpoints]
      exact last
    have start := dropped.before found
    rw [needed_kept dropped within]
    by_contra free
    rw [(deleteForRuns_dropped clamp serde runIds s).entry,if_pos] at whole
    · cases whole
    · exact mem_removed.mpr ⟨⟨entry,start,targeted_iff.mpr ⟨runId,parts.1,owner⟩⟩,free⟩

variable (clamp) in
-- Whatever was deleted before, one call for all of the runs ends as if it had
-- been the only one.
theorem deleteForRuns_reclaims (dropped : Dropped serde s s' gone) (within : ∀ key ∈ gone, key ∈ removed serde runIds s) :
    SameContents (deleteForRuns clamp serde runIds s') (deleteForRuns clamp serde runIds s) := by
  obtain ⟨final,bound⟩ := step_dropped clamp dropped within runIds fun _ listed => listed
  refine dropped_same final (deleteForRuns_dropped clamp serde runIds s) fun key => ⟨bound key,fun member => ?_⟩
  by_cases early : key ∈ gone
  · exact List.mem_append_left _ early
  · obtain ⟨⟨entry,found,target⟩,free⟩ := mem_removed.mp member
    exact List.mem_append_right _ (mem_removed.mpr ⟨⟨entry,(dropped.staying early).trans found,target⟩,
      fun needed => free ((needed_kept dropped within _ _ _).mp needed)⟩)

variable (clamp) in
-- In a thread that the runs own as a whole nothing is needed by anything else.
theorem deleteForRuns_empties {threadId : String} (owned : ∀ ns id entry, s.entryAt threadId ns id = some entry →
    targeted serde runIds entry = true) : Emptied serde threadId s (deleteForRuns clamp serde runIds s) := by
  have dropped := deleteForRuns_dropped clamp serde runIds s
  have listed : ∀ ns id entry, s.entryAt threadId ns id = some entry →
      (⟨threadId,ns,id⟩ : CheckpointKey) ∈ removed serde runIds s := by
    intro ns id entry found
    refine mem_removed.mpr ⟨⟨entry,found,owned ns id entry found⟩,fun ⟨survivor,other,here,outside,_⟩ => ?_⟩
    rw [owned ns survivor other here] at outside
    cases outside
  have absent : ∀ ns id, (deleteForRuns clamp serde runIds s).entryAt threadId ns id = none := by
    intro ns id
    rw [dropped.entry]
    split
    · rfl
    · rename_i stays
      cases found : s.entryAt threadId ns id with
      | none => rfl
      | some entry => exact absurd (listed ns id entry found) stays
  refine ⟨absent,fun ns id here => ?_,fun key blob refers mine => ?_⟩
  · obtain ⟨entry,found⟩ := Option.isSome_iff_exists.mp here
    rw [dropped.writes,if_pos (List.mem_map_of_mem (listed ns id entry found))]
  · obtain ⟨entry,version,found,versioned,thread,rest⟩ := id refers
    obtain ⟨keyThread,ns,id⟩ := key
    cases thread.trans mine
    refine dropped.lost blob ⟨_,listed ns id entry found,refers⟩ ?_
    rintro ⟨other,stored,_,here,_,sameThread,_⟩
    rw [sameThread.trans mine,absent] at here
    cases here

end partial_deletion

-- What deletion one run at a time shares with the single call, and where it
-- differs: a checkpoint stays while a run that is deleted later needs it.
structure OneAtATime (clamp : Int → Int) (serde : Serde) (runIds order : List String) (s : Saver) : Prop where
  kept : ∀ threadId ns id entry, (deleteForRuns clamp serde runIds s).entryAt threadId ns id = some entry →
    (deleteEach clamp serde s order).entryAt threadId ns id = some entry
  same : SameContents (deleteEach clamp serde s order) (deleteForRuns clamp serde runIds s) ↔
    Undisturbed clamp serde runIds order s
  reclaimed : SameContents (deleteForRuns clamp serde runIds (deleteEach clamp serde s order))
    (deleteForRuns clamp serde runIds s)
  emptied : ∀ threadId, (∀ ns id entry, s.entryAt threadId ns id = some entry → targeted serde runIds entry = true) →
    Emptied serde threadId s (deleteForRuns clamp serde runIds (deleteEach clamp serde s order))

theorem deletion_order (clamp : Int → Int) (serde : Serde) (runIds order : List String) (s : Saver)
    (distinct : runIds.Nodup) (permuted : order.Perm runIds) : OneAtATime clamp serde runIds order s := by
  have start := dropped_nothing serde s
  have within : ∀ key ∈ ([] : List CheckpointKey), key ∈ removed serde runIds s := fun _ listed => by cases listed
  have known : ∀ runId ∈ order, runId ∈ runIds := fun _ listed => permuted.mem_iff.mp listed
  have whole := deleteForRuns_dropped clamp serde runIds s
  obtain ⟨gone,dropped,bound⟩ := deleteEach_dropped clamp start within known
  have reclaimed := deleteForRuns_reclaims clamp dropped bound
  refine ⟨fun threadId ns id entry found => ?_,⟨fun same => ?_,fun undisturbed => ?_⟩,reclaimed,fun threadId owned => ?_⟩
  · rw [whole.entry] at found
    split at found
    · cases found
    · rename_i stays
      rw [dropped.staying fun listed => stays (bound _ listed),found]
  · exact same_undisturbed start within known (permuted.symm.nodup distinct) same
  · obtain ⟨later,final,small,_,complete⟩ := undisturbed_complete start within known undisturbed
    refine dropped_same final whole fun key => ⟨small key,fun member => complete key member ?_⟩
    obtain ⟨⟨entry,found,target⟩,_⟩ := mem_removed.mp member
    obtain ⟨runId,listed,owner⟩ := targeted_iff.mp target
    exact ⟨entry,found,targeted_iff.mpr ⟨runId,permuted.mem_iff.mpr listed,owner⟩⟩
  · obtain ⟨checkpoints,writes,blobs⟩ := deleteForRuns_empties clamp owned
    refine ⟨fun ns id => ?_,fun ns id here => ?_,fun key blob refers mine => ?_⟩
    · unfold Saver.entryAt
      rw [reclaimed.checkpoints]
      exact checkpoints ns id
    · rw [reclaimed.writes,writes ns id here]
    · rw [reclaimed.blobs,blobs key blob refers mine]

-- Metadata holds 9 for run `r`, 8 for run `q` and 1 if it counts deltas. The
-- checkpoint of `q` has no value of its own and builds on that of `r`.
def pairSerde : Serde :=
  ⟨PruneHistory.toySerde.loadsCheckpoint,fun value =>
    ⟨if value.data.contains 9 then some "r" else if value.data.contains 8 then some "q" else none,
      if value.data.contains 1 then some ["messages"] else none⟩⟩

def pairSaver : Saver :=
  let rows : Checkpoints := (Dict.empty.insert (.text "a") ⟨⟨"msgpack",[1]⟩,⟨"msgpack",[9]⟩,none⟩).insert (.text "b")
    ⟨⟨"msgpack",[2]⟩,⟨"msgpack",[8,1]⟩,some (.text "a")⟩
  {storage := Dict.empty.insert "t" ⟨Dict.empty.insert "" rows,true⟩
   writes := .empty
   blobs := (Dict.empty.insert ⟨"t","","messages",.int 1⟩ ⟨"msgpack",[7]⟩).insert ⟨"t","","messages",.int 2⟩ ⟨"empty",[]⟩
   sizeState := .clear}

theorem deletion_order_toy : OneAtATime (max 0) pairSerde ["r","q"] ["q","r"] pairSaver :=
  deletion_order (max 0) pairSerde ["r","q"] ["q","r"] pairSaver (by decide) (by decide)

-- `r` before `q`: its checkpoint is still needed then, and nobody comes back for it.
theorem ancestor_stays : ["r","q"].Nodup ∧
    ¬SameContents (deleteEach (max 0) pairSerde pairSaver ["r","q"]) (deleteForRuns (max 0) pairSerde ["r","q"] pairSaver) ∧
    ((deleteEach (max 0) pairSerde pairSaver ["r","q"]).entryAt "t" "" (.text "a")).isSome := by
  refine ⟨by decide,fun same => ?_,by decide⟩
  have sizes := congrArg Dict.size (same.checkpoints "t" "")
  exact absurd sizes (by decide)

end InmemRuntime.DeletionOrder
