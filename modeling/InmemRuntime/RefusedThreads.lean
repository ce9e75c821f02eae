import InmemRuntime.Refusals

namespace InmemRuntime.RefusedThreads
open OrderedDict CheckpointSaver DeleteForRuns Streams StreamUpkeep RunDeletion
open ThreadTtl RuntimeStore Serving ThreadOps RunOps AssistantOps Mutations RecordFrames Refusals
open RecordCreation (CopyTask stepCopy)

variable {J : Type} {check : Metadata J → Bool} {threadId : String} {packages : Packages J} {w : Wake J} {s : World J}

theorem bars {metadata : Metadata J} (failed : check metadata = false) : (!passes (some check) metadata) = true := by
  simpa [passes] using failed

theorem gated_same {τ ρ : Type} {server : Server J} {id : String} {again : τ} {value : ρ} :
    gated server id again (server,.returned value) = (server,.suspended again) ∨
      gated server id again (server,.returned value) = (server,.returned value) := by
  unfold gated
  split
  · exact .inl rfl
  · exact .inr rfl

theorem patch_quiet {task : PatchTask J} (denied : Denied check s (.thread threadId) (.patch task))
    (answers : Answers check (.thread threadId) w (.patch task)) (guarded : Guarded packages check (.thread threadId) w s (.patch task)) :
    Quiet check (.thread threadId) s (served s .patch (stepPatch w s.records.server task)) := by
  have refused : ∀ {call : PatchCall J} {list : Nat}, (∀ ref, capturedThread s.store list call.threadId = some ref →
      check (s.store.thread ref).metadata = false) →
      patchThread s.records.server w.now call list (some check) = (s.records.server,.returned []) := by
    intro call list fails
    unfold patchThread
    split
    · rfl
    · rename_i ref found
      exact if_pos (bars (fails ref found))
  have waits : ∀ {call : PatchCall J} {list : Nat}, call.threadId = threadId →
      (∀ ref, capturedThread s.store list call.threadId = some ref → check (s.store.thread ref).metadata = false) →
      Quiet check (.thread threadId) s (served s .patch (gated s.records.server call.threadId (.waiting call list (some check))
        (patchThread s.records.server w.now call list (some check)))) := by
    intro call list own fails
    rw [refused fails]
    rcases gated_same with held | free
    · rw [held]
      refine served_quiet rfl fun later suspends => ?_
      cases suspends
      exact ⟨own,rfl⟩
    · rw [free]
      exact ended_quiet rfl rfl
  cases task with
  | called call =>
    unfold stepPatch
    dsimp only
    split
    · exact ended_quiet rfl rfl
    · refine served_quiet rfl fun later suspends => ?_
      cases suspends
      exact denied
  | authorizing call list =>
    unfold stepPatch authorized
    cases auth : w.auth with
    | error fault => exact ended_quiet rfl rfl
    | ok filters =>
      cases answers filters auth
      exact waits denied guarded
  | waiting call list filters =>
    obtain ⟨own,rfl⟩ := denied
    exact waits own guarded

theorem delete_quiet {task : DeleteTask} (denied : Denied check s (.thread threadId) (.delete task))
    (answers : Answers check (.thread threadId) w (.delete task)) (guarded : Guarded packages check (.thread threadId) w s (.delete task)) :
    Quiet check (.thread threadId) s (went .delete (stepDeleteWhole packages w s task)) := by
  cases task with
  | called other =>
    refine goes_quiet (s := s) fun later suspends => ?_
    cases suspends
    exact denied
  | authorizing other matching =>
    have refused : ∃ fault, stepDelete w s.records.server (.authorizing other matching) = (s.records.server,.raised fault) := by
      unfold stepDelete authorized
      cases auth : w.auth with
      | error fault => exact ⟨fault,rfl⟩
      | ok filters =>
        cases answers filters auth
        cases matching with
        | none => exact ⟨_,rfl⟩
        | some ref => exact ⟨_,if_pos (bars guarded)⟩
    obtain ⟨fault,raises⟩ := refused
    have same : stepDeleteWhole packages w s (.authorizing other matching) = (s,.raised fault) := by
      change (s.withServer (stepDelete w s.records.server (.authorizing other matching)).1,
        (stepDelete w s.records.server (.authorizing other matching)).2) = _
      rw [raises]
      rfl
    rw [same]
    exact ended_quiet rfl rfl
  | checkpoints other matching => exact denied.elim
  | streams other matching => exact denied.elim

theorem copy_quiet (fails : Fails check s.store threadId) {task : CopyTask J} (denied : Denied check s (.thread threadId) (.copy task))
    (answers : Answers check (.thread threadId) w (.copy task)) :
    Quiet check (.thread threadId) s
      (served {s with saver := copiedSaver packages w s task} .copy (stepCopy w s.records.server task)) := by
  cases task with
  | called call =>
    refine served_quiet (s := s) rfl fun later suspends => ?_
    cases suspends
    exact denied
  | authorizingRead call newId =>
    unfold stepCopy authorized copiedSaver
    cases auth : w.auth with
    | error fault => exact ended_quiet rfl rfl
    | ok filters =>
      cases answers filters auth
      refine served_quiet (s := s) rfl fun later suspends => ?_
      cases suspends
      exact ⟨denied,rfl⟩
  | authorizingCreate call newId filters =>
    obtain ⟨rfl,rfl⟩ := denied
    obtain ⟨ref,found,failed⟩ := fails_found fails
    have saver : copiedSaver packages w s (.authorizingCreate call newId (some check)) = s.saver := by
      unfold copiedSaver
      cases w.auth with
      | error fault => rfl
      | ok filters =>
        simp only [found,bars failed,Bool.true_or,↓reduceIte]
    rw [saver]
    unfold stepCopy authorized
    cases auth : w.auth with
    | error fault => exact ended_quiet rfl rfl
    | ok filters =>
      have found : s.records.server.store.findThread call.threadId = some ref := found
      have barred : (!passes (some check) (s.records.server.store.thread ref).metadata) = true := bars failed
      simp only [found,barred,↓reduceIte]
      exact ended_quiet rfl rfl
  | checkpointer ref => exact denied.elim

-- Filling in a field of a record that the filter matches.
theorem consult_spares {store : Store J} (fails : Fails check store threadId) (other : String) :
    Spares threadId store (consult (some check) store other) := by
  unfold consult getWithFilters
  cases found : store.findThread other with
  | none => exact .refl _ _
  | some ref =>
    dsimp only
    split
    · exact .refl _ _
    · rename_i passed
      have apart : (store.thread ref).threadId ≠ threadId := by
        intro own
        obtain ⟨live,_⟩ := Store.findThread_some found
        exact passed (bars (fails.2 _ (List.mem_map_of_mem (List.mem_filter.mpr ⟨live,by simpa [Store.isThread] using own⟩))))
      exact spares_updateThread apart fun _ => rfl

theorem consult_other {store : Store J} {other : String} (apart : other ≠ threadId) (filters : Filters J) :
    Spares threadId store (consult filters store other) := by
  unfold consult getWithFilters
  cases found : store.findThread other with
  | none => exact .refl _ _
  | some ref =>
    dsimp only
    split
    · exact .refl _ _
    · have foreign : (store.thread ref).threadId ≠ threadId := (Store.findThread_some found).2.trans_ne apart
      exact spares_updateThread foreign fun _ => rfl

theorem consults_spare {store : Store J} (fails : Fails check store threadId) (others : List String) :
    Spares threadId store (others.foldl (consult (some check)) store) := by
  induction others generalizing store with
  | nil => exact .refl _ _
  | cons other rest ih =>
    have first := consult_spares fails other
    exact first.trans (ih (spares_fails first fails))

theorem prune_quiet (fails : Fails check s.store threadId) {task : PruneTask}
    (denied : Denied check s (.thread threadId) (.prune task)) (answers : Answers check (.thread threadId) w (.prune task)) :
    Quiet check (.thread threadId) s (went .prune (stepPrune packages w s task)) := by
  cases task with
  | called call =>
    unfold stepPrune
    dsimp only
    split
    · exact ended_quiet rfl rfl
    · refine goes_quiet fun later suspends => ?_
      cases suspends
      exact denied
  | authorizing call =>
    unfold stepPrune
    dsimp only
    cases auth : w.auth with
    | error fault => exact ended_quiet rfl rfl
    | ok filters =>
      cases answers filters auth
      obtain ⟨ref,found,failed⟩ := fails_found fails
      have missing : (getWithFilters s.store threadId (some check)).2.isNone = true := by
        unfold getWithFilters
        simp only [found,bars failed,↓reduceIte,Option.isNone_none]
      have refused : (call.threadIds.any fun other => (getWithFilters s.store other (some check)).2.isNone) = true :=
        List.any_eq_true.mpr ⟨threadId,denied,missing⟩
      simp only [refused,↓reduceIte]
      exact server_quiet (consults_spare fails call.threadIds) fun u member => (List.not_mem_nil member).elim
  | deleting inner rest pruned => exact denied.elim
  | checkpointer orderedIds batchSize => exact denied.elim
  | pruning batch rest batchSize pruned => exact denied.elim

theorem got_complete {store : Store J} {filters : Filters J} {ref : Nat} {filled : Store J}
    (complete : ∀ ref, store.findThread threadId = some ref → passes filters (store.thread ref).metadata = true →
      (store.thread ref).stateUpdatedAt.isSome = true)
    (got : getWithFilters store threadId filters = (filled,some ref)) :
    filled = store ∧ store.findThread threadId = some ref := by
  refine ⟨(congrArg Prod.fst got).symm.trans (consult_complete complete),?_⟩
  unfold getWithFilters at got
  split at got
  · cases got
  · rename_i found
    split at got
    · cases got
    · cases got
      exact found

theorem update_quiet [DecidableEq J] (fails : Fails check s.store threadId) {task : UpdateTask J}
    (denied : Denied check s (.thread threadId) (.update task)) (answers : Answers check (.thread threadId) w (.update task))
    (guarded : Guarded packages check (.thread threadId) w s (.update task)) :
    Quiet check (.thread threadId) s (Mutations.resume packages w s (.update task)) := by
  cases task with
  | called call =>
    refine quiet_same fun u member => ?_
    cases List.mem_singleton.mp member
    exact denied
  | authorizing call =>
    unfold Mutations.resume stepUpdate
    dsimp only
    cases auth : w.auth with
    | error fault => exact ended_quiet rfl rfl
    | ok filters =>
      cases answers filters auth
      refine quiet_same fun u member => ?_
      cases List.mem_singleton.mp member
      exact ⟨denied,rfl⟩
  | reading call filters =>
    obtain ⟨rfl,rfl⟩ := denied
    unfold Mutations.resume stepUpdate
    dsimp only
    cases auth : w.auth with
    | error fault => exact ended_quiet rfl rfl
    | ok readFilters =>
      dsimp only
      split
      · exact ended_quiet rfl rfl
      · rename_i store ref got
        obtain ⟨rfl,found⟩ := got_complete (guarded readFilters auth) got
        obtain ⟨first,here,failed⟩ := fails_found fails
        obtain rfl := Option.some.inj (here.symm.trans found)
        have refused : admitUpdate packages s.store call (some check) first = some forbidden := if_pos (bars failed)
        rw [refused]
        exact ended_quiet rfl rfl
  | updating call => exact denied.elim
  | readingAgain call => exact denied.elim
  | finishing call => exact denied.elim

end InmemRuntime.RefusedThreads
