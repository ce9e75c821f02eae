import InmemRuntime.DeleteForRuns
import InmemRuntime.PruneHistory

namespace InmemRuntime.Survivors
open OrderedDict AncestorChain CheckpointData CheckpointSaver SizeTracking DeltaWalk Prune DeleteForRuns PruneHistory

structure RunsDeleted (serde : Serde) (runIds : List String) (s s' : Saver) : Prop where
  removed : ∀ threadId ns id entry, s.entryAt threadId ns id = some entry →
    (s'.entryAt threadId ns id = none ↔ targeted serde runIds entry = true ∧ ¬ Needed serde runIds s threadId ns id)
  entries : ∀ threadId ns id entry, s'.entryAt threadId ns id = some entry → s.entryAt threadId ns id = some entry
  writes : ∀ threadId ns id, TextApart s threadId ns → (s'.entryAt threadId ns id).isSome →
    s'.writes.get? ⟨threadId,ns,id⟩ = s.writes.get? ⟨threadId,ns,id⟩
  blobs : ∀ key blob, Refers serde s' key blob → s'.blobs.get? blob = s.blobs.get? blob
  history : ∀ threadId ns id entry channel, TextApart s threadId ns → s.entryAt threadId ns id = some entry →
    targeted serde runIds entry = false → channel ∈ (scopeAt serde s threadId ns).counters entry →
    (((scopeAt serde s threadId ns).versions entry).get? channel).isSome →
    materialised ((scopeAt serde s threadId ns).ownBlob entry channel) = false →
    (scopeAt serde s' threadId ns).deltaHistory s'.writes entry channel =
      (scopeAt serde s threadId ns).deltaHistory s.writes entry channel
  noWrites : ∀ threadId ns id, (s.entryAt threadId ns id).isSome → s'.entryAt threadId ns id = none →
    s'.writes.get? ⟨threadId,ns,id⟩ = none
  noBlobs : ∀ blob, (∃ key, Refers serde s key blob) → (¬ ∃ key, Refers serde s' key blob) →
    s'.blobs.get? blob = none

theorem deleteForRuns_survivors (clamp : Int → Int) (serde : Serde) (runIds : List String) (s : Saver) :
    RunsDeleted serde runIds s (deleteForRuns clamp serde runIds s) := by
  have dropped := deleteForRuns_dropped clamp serde runIds s
  have stored : ∀ key ∈ removed serde runIds s,
      (s.entryAt key.threadId key.checkpointNs key.checkpointId).isSome := by
    intro key member
    obtain ⟨⟨entry,found,_⟩,_⟩ := mem_removed.mp member
    simp [found]
  have remains : ∀ {threadId ns id}, ((deleteForRuns clamp serde runIds s).entryAt threadId ns id).isSome →
      (⟨threadId,ns,id⟩ : CheckpointKey) ∉ removed serde runIds s ∧ (s.entryAt threadId ns id).isSome := by
    intro threadId ns id present
    rw [dropped.entry] at present
    by_cases member : (⟨threadId,ns,id⟩ : CheckpointKey) ∈ removed serde runIds s
    · rw [if_pos member] at present; cases present
    · rw [if_neg member] at present; exact ⟨member,present⟩
  refine ⟨?_,?_,?_,?_,?_,?_,?_⟩
  · intro threadId ns id entry found
    have membership : (⟨threadId,ns,id⟩ : CheckpointKey) ∈ removed serde runIds s ↔
        targeted serde runIds entry = true ∧ ¬ Needed serde runIds s threadId ns id := by
      rw [mem_removed]
      simp [found]
    rw [← membership,dropped.entry,found]
    by_cases member : (⟨threadId,ns,id⟩ : CheckpointKey) ∈ removed serde runIds s <;> simp [member]
  · exact fun threadId ns id entry found => dropped.before found
  · intro threadId ns id apart present
    obtain ⟨stays,here⟩ := remains present
    exact dropped.writes_kept stored apart here stays
  · intro key blob refers
    exact dropped.held blob (.inr ⟨key,refers⟩)
  · intro threadId ns id entry channel apart found free counted versioned open_
    have names : (scopeAt serde (deleteForRuns clamp serde runIds s) threadId ns).threadId =
        (scopeAt serde s threadId ns).threadId := rfl
    refine history_preserved ?_ ?_ ⟨names,rfl⟩
      (Scope.mem_neededChannels.mpr ⟨counted,versioned,open_⟩) ?_
    · intro other absent
      change Saver.entryAt _ threadId ns other = none
      rw [dropped.entry,show s.entryAt threadId ns other = none from absent,ite_self]
    · change (Saver.checkpointsAt _ threadId ns).size ≤ (s.checkpointsAt threadId ns).size
      rw [dropped.checkpoints]
      exact List.length_filter_le _ _
    · intro ancestor chain
      have stays : (⟨threadId,ns,ancestor⟩ : CheckpointKey) ∉ removed serde runIds s := fun member =>
        (mem_removed.mp member).2 ⟨id,entry,found,free,chain⟩
      obtain ⟨kept,here⟩ := Scope.deltaChain_stored chain
      have present : (s.entryAt threadId ns ancestor).isSome := Option.isSome_iff_exists.mpr ⟨kept,here⟩
      exact ⟨dropped.keeps stays,dropped.writes_kept stored apart present stays⟩
  · intro threadId ns id here absent
    rw [dropped.writes,if_pos]
    rw [dropped.entry] at absent
    by_cases member : (⟨threadId,ns,id⟩ : CheckpointKey) ∈ removed serde runIds s
    · exact List.mem_map.mpr ⟨_,member,rfl⟩
    · rw [if_neg member] at absent
      rw [absent] at here
      cases here
  · intro blob referenced orphan
    refine dropped.lost blob ?_ orphan
    obtain ⟨key,refers⟩ := referenced
    refine ⟨key,?_,refers⟩
    by_contra stays
    exact orphan ⟨key,dropped.refers.mpr ⟨stays,refers⟩⟩

-- `a` belongs to run `r`; `c` has its own value of `messages` and none of
-- `draft`, although it counts deltas of both. A `UUID` prints as `a` too.
def sharedText : Saver :=
  let entry := fun payload metadata parentId => (⟨⟨"msgpack",payload⟩,⟨"msgpack",metadata⟩,parentId⟩ : Entry)
  let rows : Checkpoints := ((Dict.empty.insert (.text "a") (entry [1] [9] none)).insert (.uuid "a")
    (entry [1] [] none)).insert (.text "c") (entry [2] [1] (some (.text "a")))
  {storage := Dict.empty.insert "t" ⟨Dict.empty.insert "" rows,true⟩
   writes := Dict.empty.insert ⟨"t","",.uuid "a"⟩ (Dict.empty.insert ("task",0) ⟨"task","messages",⟨"msgpack",[5]⟩,""⟩)
   blobs := (Dict.empty.insert ⟨"t","","messages",.int 1⟩ ⟨"msgpack",[7]⟩).insert ⟨"t","","messages",.int 2⟩ ⟨"msgpack",[8]⟩
   sizeState := .clear}

-- The three ways in which a survivor sees a difference: the history of a
-- channel that it holds itself, of one without a version, and shared text.
theorem deleteForRuns_beyond_chain :
    let s := sharedText
    let s' := deleteForRuns (max 0) toySerde ["r"] s
    let entry : Entry := ⟨⟨"msgpack",[2]⟩,⟨"msgpack",[1]⟩,some (.text "a")⟩
    s.entryAt "t" "" (.text "c") = some entry ∧ targeted toySerde ["r"] entry = false ∧
      "messages" ∈ (scopeAt toySerde s "t" "").counters entry ∧ "draft" ∈ (scopeAt toySerde s "t" "").counters entry ∧
      (scopeAt toySerde s "t" "").deltaHistory s.writes entry "messages" = [(.text "a",none,some ⟨"msgpack",[7]⟩)] ∧
      (scopeAt toySerde s' "t" "").deltaHistory s'.writes entry "messages" = [] ∧
      (scopeAt toySerde s "t" "").deltaHistory s.writes entry "draft" = [(.text "a",none,none)] ∧
      (scopeAt toySerde s' "t" "").deltaHistory s'.writes entry "draft" = [] ∧
      (s'.entryAt "t" "" (.uuid "a")).isSome = true ∧ (s.writes.get? ⟨"t","",.uuid "a"⟩).isSome = true ∧
      s'.writes.get? ⟨"t","",.uuid "a"⟩ = none :=
  ⟨rfl,rfl,by decide,by decide,by decide,by decide,by decide,by decide,by decide,by decide,by decide⟩

end InmemRuntime.Survivors
