import InmemRuntime.RefusedThreads

namespace InmemRuntime.RefusedRuns
open OrderedDict CheckpointSaver DeleteForRuns Streams StreamUpkeep RunDeletion
open ThreadTtl RuntimeStore Serving ThreadOps RunOps AssistantOps Mutations RecordFrames Refusals RefusedThreads

variable {J : Type} {check : Metadata J → Bool} {threadId : String} {packages : Packages J} {w : Wake J} {s : World J}

theorem putRun_quiet (fails : Fails check s.store threadId) {text : String → J} {task : PutRunTask J}
    (denied : Denied check s (.thread threadId) (.putRun task)) (answers : Answers check (.thread threadId) w (.putRun task)) :
    Quiet check (.thread threadId) s (served s .putRun (stepPutRun text w s.records.server task)) := by
  have waits : ∀ {call : PutRunCall J} {assistant : Assistant J}, call.threadId = some threadId →
      Quiet check (.thread threadId) s (served s .putRun (gatedPutRun text w s.records.server call assistant (some check))) := by
    intro call assistant own
    obtain ⟨ref,found,failed⟩ := fails_found fails
    have refused : putRun text w s.records.server call assistant (some check) = (s.records.server,.returned []) := by
      have found : s.records.server.store.findThread threadId = some ref := found
      have barred : (!passes (some check) (s.records.server.store.thread ref).metadata) = true := bars failed
      unfold putRun
      simp only [own,found,barred,↓reduceIte]
    unfold gatedPutRun
    simp only [own,refused]
    rcases gated_same with held | free
    · rw [held]
      refine served_quiet rfl fun later suspends => ?_
      cases suspends
      exact ⟨own,rfl⟩
    · rw [free]
      exact ended_quiet rfl rfl
  cases task with
  | called call =>
    unfold stepPutRun
    dsimp only
    split
    · exact ended_quiet rfl rfl
    · refine served_quiet rfl fun later suspends => ?_
      cases suspends
      exact denied
  | authorizing call assistant =>
    unfold stepPutRun authorized
    cases auth : w.auth with
    | error fault => exact ended_quiet rfl rfl
    | ok filters =>
      cases answers filters auth
      dsimp only
      split
      · exact waits denied
      · refine served_quiet rfl fun later suspends => ?_
        cases suspends
        exact ⟨denied,rfl⟩
  | authorizingAssistant call assistant filters =>
    obtain ⟨own,rfl⟩ := denied
    unfold stepPutRun authorized
    cases w.auth with
    | error fault => exact ended_quiet rfl rfl
    | ok assistantFilters =>
      dsimp only
      split
      · exact ended_quiet rfl rfl
      · exact waits own
  | waiting call assistant filters =>
    obtain ⟨own,rfl⟩ := denied
    exact waits own
  | logging call assistant other createdAt => exact denied.elim

theorem invisible {store : Store J} (fails : Fails check store threadId) : visible store threadId (some check) = false := by
  obtain ⟨ref,found,failed⟩ := fails_found fails
  unfold visible
  simp only [found,failed]

-- What a step of `Runs.delete` does besides, where it does anything.
theorem cleanedRun_refused {runId : Option String} {other : String} {fault : Fault} (auth : w.auth = .error fault) :
    cleanedRun packages w s (.authorizing runId other) = s := by
  unfold cleanedRun
  rw [auth]

theorem cleanedRun_failed {task : DeleteRunTask} {fault : Fault} (failure : w.failure = some fault)
    (past : ∀ runId other, task ≠ .authorizing runId other) : cleanedRun packages w s task = s := by
  unfold cleanedRun
  rw [failure]
  cases task with
  | called runId other => rfl
  | authorizing runId other => exact absurd rfl (past runId other)
  | checkpoints runId other => cases runId <;> rfl
  | streams runId other => cases runId <;> rfl

theorem cleanedRun_consults (fails : Fails check s.store threadId) {runId : Option String} {other : String} {filters : Filters J}
    (auth : w.auth = .ok filters) (own : other = threadId → filters = some check) :
    ∃ store, cleanedRun packages w s (.authorizing runId other) = s.withStore store ∧ Spares threadId s.store store := by
  unfold cleanedRun
  rw [auth]
  cases filters with
  | none => exact ⟨s.store,rfl,.refl _ _⟩
  | some check' =>
    refine ⟨_,rfl,?_⟩
    by_cases same : other = threadId
    · subst same
      cases own rfl
      exact consult_spares fails other
    · exact consult_other same _

-- The checkpoints of a run go that has none of this thread.
theorem deleteForRuns_quiet {runId : String} (none_ : ¬ Removes packages.serde runId threadId s.saver) {later : Mutation J}
    (denied : Denied check s (.thread threadId) later) :
    Quiet check (.thread threadId) s ({s with saver := deleteForRuns (max 0) packages.serde [runId] s.saver},[later]) := by
  obtain ⟨checkpoints,writes,blobs⟩ := deleteForRuns_kept packages.serde runId threadId s.saver none_
  refine ⟨⟨rfl,rfl,rfl,fun _ _ _ => ⟨rfl,rfl⟩,rfl,checkpoints,writes,blobs,fun _ => SameRun.refl _ _,rfl,fun _ _ => rfl⟩,
    ⟨Nat.le_refl _,fun _ _ => rfl,id,Nat.le_refl _,fun _ _ member _ => member⟩,fun u member => ?_⟩
  cases List.mem_singleton.mp member
  exact denied

-- The streams of a run of another thread go, and then its record.
theorem deleteStreams_quiet {runId other : String} (apart : other ≠ threadId) :
    Quiet check (.thread threadId) s
      (({s with streams := (s.streams.operate packages (.deleteRun ⟨some other,runId⟩)).1} : World J).withStore
        (removeRun s.store (some runId) other),[]) := by
  have spares : Spares threadId s.store (removeRun s.store (some runId) other) := spares_removeRun apart
  obtain ⟨next,fewer⟩ := deleteRun_places packages.codec packages.streams.clock s.streams.val ⟨some other,runId⟩
  have kept : ThreadKept threadId s (s.withStore (removeRun s.store (some runId) other)) := spares_kept spares
  have keeps : Keeps s (s.withStore (removeRun s.store (some runId) other)) := spares_keeps spares
  refine ⟨⟨kept.records,kept.runs,kept.crons,fun _ _ _ => ⟨rfl,rfl⟩,kept.ttl,fun _ _ => rfl,rfl,rfl,fun own => ?_,
    deleteRun_threads s.streams.property threadId⟩,⟨keeps.nextRun,keeps.threads,keeps.stored,next,fun holder queue member _ =>
      fewer holder member⟩,fun u member => (List.not_mem_nil member).elim⟩
  exact deleteRun_others s.streams.property fun equal => apart (Option.some.inj (congrArg RunKey.threadId equal)).symm

-- A step of `Runs.delete` that its checks let go on, for another thread.
theorem deleteRun_quiet (fails : Fails check s.store threadId) {task : DeleteRunTask}
    (denied : Denied check s (.thread threadId) (.deleteRun task)) (answers : Answers check (.thread threadId) w (.deleteRun task))
    (guarded : Guarded packages check (.thread threadId) w s (.deleteRun task)) :
    Quiet check (.thread threadId) s
      (served (cleanedRun packages w s task) .deleteRun (stepDeleteRun w (cleanedRun packages w s task).records.server task)) := by
  cases task with
  | called runId other =>
    refine served_quiet (s := s) rfl fun later suspends => ?_
    cases suspends
    trivial
  | authorizing runId other =>
    unfold stepDeleteRun authorized
    cases auth : w.auth with
    | error fault =>
      rw [cleanedRun_refused auth]
      exact ended_quiet rfl rfl
    | ok filters =>
      have own : other = threadId → filters = some check := fun same => answers (congrArg Target.thread same.symm) filters auth
      have consults : ∃ store, cleanedRun packages w s (.authorizing runId other) = s.withStore store ∧ Spares threadId s.store store :=
        cleanedRun_consults fails auth own
      obtain ⟨store,same,spares⟩ := consults
      rw [same]
      dsimp only
      split
      · exact server_quiet spares fun u member => (List.not_mem_nil member).elim
      · rename_i seen
        split
        · exact server_quiet spares fun u member => (List.not_mem_nil member).elim
        · refine server_quiet spares fun u member => ?_
          cases List.mem_singleton.mp member
          intro aimed
          have hidden : visible store threadId (some check) = false := invisible (spares_fails spares fails)
          rw [aimed,own aimed] at seen
          exact seen (congrArg not hidden)
  | checkpoints runId other =>
    unfold stepDeleteRun external
    cases failure : w.failure with
    | some fault =>
      rw [cleanedRun_failed failure fun _ _ same => by cases same]
      exact ended_quiet rfl rfl
    | none =>
      cases runId with
      | none =>
        refine served_quiet (s := s) rfl fun later suspends => ?_
        cases suspends
        exact denied
      | some runId =>
        have cleaned : cleanedRun packages w s (.checkpoints (some runId) other) =
            {s with saver := deleteForRuns (max 0) packages.serde [runId] s.saver} := by
          unfold cleanedRun
          rw [failure]
        rw [cleaned]
        exact deleteForRuns_quiet (guarded threadId rfl failure) denied
  | streams runId other =>
    unfold stepDeleteRun external
    cases failure : w.failure with
    | some fault =>
      rw [cleanedRun_failed failure fun _ _ same => by cases same]
      exact ended_quiet rfl rfl
    | none =>
      have apart : other ≠ threadId := denied
      cases runId with
      | none => exact server_quiet (spares_removeRun apart) fun u member => (List.not_mem_nil member).elim
      | some runId =>
        have cleaned : cleanedRun packages w s (.streams (some runId) other) =
            {s with streams := (s.streams.operate packages (.deleteRun ⟨some other,runId⟩)).1} := by
          unfold cleanedRun
          rw [failure]
        rw [cleaned]
        exact deleteStreams_quiet apart

theorem signal_quiet {key : RunKey} {action : Action} (apart : key.threadId ≠ some threadId) :
    Quiet check (.thread threadId) s ((sendSignal packages s key action).1,deliveries (sendSignal packages s key action).2) := by
  refine ⟨⟨rfl,rfl,rfl,fun _ _ _ => ⟨rfl,rfl⟩,rfl,fun _ _ => rfl,rfl,rfl,fun own => ?_,put_watchers _ _ _⟩,
    ⟨Nat.le_refl _,fun _ _ => rfl,id,?_,fun holder queue member _ => ?_⟩,fun u member => ?_⟩
  · exact put_others _ _ fun equal => apart (congrArg RunKey.threadId equal).symm
  · exact le_of_eq (congrArg ObjectHeap.Heap.next (put_next _ _ _)).symm
  · exact put_places _ _ _ holder ▸ member
  · obtain ⟨⟨queue,message⟩,chosen,rfl⟩ := List.mem_map.mp member
    obtain ⟨holder,registered,here⟩ := put_chosen _ _ _ chosen
    have owned := s.streams.property.owned
    refine ⟨?_,fun other there => ?_⟩
    · exact lt_of_lt_of_eq (owned.used holder queue registered) (congrArg ObjectHeap.Heap.next (put_next _ _ _)).symm
    · have same : holder = other := owned.apart holder other queue registered (put_places _ _ _ other ▸ there)
      rw [← same,here]
      exact apart

theorem delivering_quiet {queue : Nat} {message : Message} (denied : Denied check s (.thread threadId) (.delivering queue message)) :
    Quiet check (.thread threadId) s ({s with streams := s.streams.deliver queue message},[]) := by
  have touched := deliver_touched s.streams.val queue message
  have owned := s.streams.property.owned
  have foreign : ∀ holder, place holder = some threadId → ∀ other ∈ registered s.streams.val holder, other ∉ [queue] := by
    intro holder mine other member here
    cases List.mem_singleton.mp here
    exact denied.2 holder member mine
  refine ⟨⟨rfl,rfl,rfl,fun _ _ _ => ⟨rfl,rfl⟩,rfl,fun _ _ => rfl,rfl,rfl,fun runId => ?_,?_⟩,
    ⟨Nat.le_refl _,fun _ _ => rfl,id,touched.next,fun holder other member _ => ?_⟩,fun u member => (List.not_mem_nil member).elim⟩
  · refine touched.sameRun owned fun other member => ?_
    rcases List.mem_append.mp member with mine | mine
    · exact foreign (.subscriber ⟨some threadId,runId⟩) rfl other mine
    · exact foreign (.listener ⟨some threadId,runId⟩) rfl other mine
  · exact touched.sameThread owned (foreign (.watcher threadId) rfl)
  · exact touched.registered holder ▸ member

-- The runs that a cancellation picks are of other threads.
theorem candidates_away (fails : Fails check s.store threadId) (stored : ∀ ref ∈ s.store.boundRuns, ref < s.store.runs.next)
    {call : CancelCall} (wide : call.threadId = none ∨ call.threadId = some threadId) :
    ∀ ref ∈ candidateRuns s.store call (some check), Away threadId s ref := by
  intro ref member
  have hidden := invisible fails
  unfold candidateRuns at member
  rcases wide with none_ | own
  · simp only [none_,List.mem_filter] at member
    obtain ⟨⟨bound,_⟩,seen⟩ := member
    refine ⟨stored ref bound,fun same => ?_⟩
    rw [same,hidden] at seen
    cases seen
  · simp only [own,hidden,Bool.false_eq_true,↓reduceIte,List.not_mem_nil] at member

-- What the loop over such runs leaves, and with what it goes on.
theorem cancelLoop_spares (call : CancelCall) (refs : List Nat) (server : Server J) (deletes : List (Option String × String))
    (cancelable : Bool) (apart : ∀ ref ∈ refs, (server.store.run ref).threadId ≠ threadId) (others : ∀ key ∈ deletes, key.2 ≠ threadId) :
    Spares threadId server.store (cancelLoop w server call refs deletes cancelable).1.store ∧
      (∀ task, (cancelLoop w server call refs deletes cancelable).2 = .suspended task →
        ∃ rest deletes' cancelable', task = .looping call rest deletes' cancelable' ∧ rest ⊆ refs ∧ ∀ key ∈ deletes', key.2 ≠ threadId) ∧
      ∀ deletes', (cancelLoop w server call refs deletes cancelable).2 = .returned deletes' → ∀ key ∈ deletes', key.2 ≠ threadId := by
  induction refs generalizing server deletes cancelable with
  | nil =>
    unfold cancelLoop
    split
    · refine ⟨.refl _ _,(fun task same => by cases same),fun deletes' same => ?_⟩
      cases same
      exact others
    · split
      · refine ⟨.refl _ _,(fun task same => by cases same),fun deletes' same => ?_⟩
        cases same
        exact fun key none_ => (List.not_mem_nil none_).elim
      · exact ⟨.refl _ _,(fun task same => by cases same),fun deletes' same => by cases same⟩
  | cons ref rest ih =>
    have here := apart ref List.mem_cons_self
    unfold cancelLoop
    dsimp only
    split
    · split
      · have first : Spares threadId server.store (interruptRun server.store w.now ref) := spares_interrupt here
        obtain ⟨spares,suspends,returns⟩ := ih (server.withStore (interruptRun server.store w.now ref)) deletes true
          (fun later member => by
            rw [Server.store_withStore,first.threads]
            exact apart later (List.mem_cons_of_mem _ member)) others
        refine ⟨first.trans spares,fun task same => ?_,returns⟩
        obtain ⟨rest',deletes',cancelable',shape,fewer,away⟩ := suspends task same
        exact ⟨rest',deletes',cancelable',shape,List.Subset.trans fewer (List.subset_cons_self _ _),away⟩
      · refine ⟨.refl _ _,fun task same => ?_,fun deletes' same => by cases same⟩
        cases same
        refine ⟨_,_,_,rfl,List.subset_cons_self _ _,fun key member => ?_⟩
        rcases List.mem_append.mp member with old | new
        · exact others key old
        · rw [List.mem_singleton.mp new]
          exact here
    · refine ⟨.refl _ _,fun task same => ?_,fun deletes' same => by cases same⟩
      cases same
      exact ⟨_,_,_,rfl,List.subset_cons_self _ _,others⟩

theorem gathered_denied {action : Action} {told : List RunKey} {deletes : List (Option String × String)}
    (away : ∀ key ∈ told, key.threadId ≠ some threadId) :
    ∀ u ∈ gathered action told deletes, Denied check s (.thread threadId) u := by
  intro u member
  rcases List.mem_append.mp member with signal | delete
  · obtain ⟨key,listed,rfl⟩ := List.mem_map.mp signal
    exact away key listed
  · obtain ⟨key,_,rfl⟩ := List.mem_map.mp delete
    trivial

theorem loop_quiet {call : CancelCall} {refs : List Nat} {server : Server J} {deletes : List (Option String × String)}
    {cancelable : Bool} {told : List RunKey} (task : CancelTask) (first : Spares threadId s.store server.store)
    (away : ∀ ref ∈ refs, Away threadId (s.withServer server) ref) (toldAway : ∀ key ∈ told, key.threadId ≠ some threadId)
    (others : ∀ key ∈ deletes, key.2 ≠ threadId) :
    Quiet check (.thread threadId) s (wentCancel task (s.withServer (cancelLoop w server call refs deletes cancelable).1,told,
      (cancelLoop w server call refs deletes cancelable).2)) := by
  obtain ⟨later,suspends,_⟩ := cancelLoop_spares (w := w) call refs server deletes cancelable (fun ref member => (away ref member).2) others
  have spares := first.trans later
  generalize ran : cancelLoop w server call refs deletes cancelable = result at *
  obtain ⟨ended,outcome⟩ := result
  cases outcome with
  | suspended next =>
    obtain ⟨rest,deletes',cancelable',rfl,fewer,gone⟩ := suspends next rfl
    refine server_quiet spares fun u member => ?_
    cases List.mem_singleton.mp member
    refine ⟨toldAway,fun ref listed => ?_,gone⟩
    obtain ⟨bound,apart⟩ := away ref (fewer listed)
    exact ⟨lt_of_lt_of_eq bound later.nextRun.symm,fun same => apart ((later.threads ref).symm.trans same)⟩
  | returned deletes' => exact server_quiet spares (gathered_denied toldAway)
  | raised fault => exact server_quiet spares fun u member => (List.not_mem_nil member).elim

theorem cancel_quiet (fails : Fails check s.store threadId) (stored : ∀ ref ∈ s.store.boundRuns, ref < s.store.runs.next)
    {told : List RunKey} {task : CancelTask} (denied : Denied check s (.thread threadId) (.cancel told task))
    (answers : Answers check (.thread threadId) w (.cancel told task)) :
    Quiet check (.thread threadId) s (wentCancel task (stepCancelWhole w s told task)) := by
  cases task with
  | called call =>
    unfold stepCancelWhole stepCancel
    dsimp only
    cases validateCancel call with
    | some fault => exact ended_quiet rfl rfl
    | none =>
      refine quiet_same fun u member => ?_
      cases List.mem_singleton.mp member
      exact denied
  | authorizing call =>
    unfold stepCancelWhole
    dsimp only
    cases auth : w.auth with
    | error fault =>
      unfold stepCancel authorized
      dsimp only
      exact ended_quiet rfl rfl
    | ok filters =>
      cases answers filters auth
      have spares : Spares threadId s.store (consultRuns s.store call (some check)) := by
        unfold consultRuns
        rcases denied with none_ | own
        · rw [none_]
          exact consults_spare fails _
        · rw [own]
          exact consult_spares fails _
      have toldAway : ∀ key ∈ (candidateRuns s.store call (some check)).map (fun ref => runKey (s.store.run ref)),
          key.threadId ≠ some threadId := by
        intro key member
        obtain ⟨ref,candidate,rfl⟩ := List.mem_map.mp member
        exact fun same => (candidates_away fails stored denied ref candidate).2 (Option.some.inj same)
      have storedLater : ∀ ref ∈ (s.withStore (consultRuns s.store call (some check))).store.boundRuns,
          ref < (s.withStore (consultRuns s.store call (some check))).store.runs.next := (spares_keeps spares).stored stored
      have away := candidates_away (s := s.withStore (consultRuns s.store call (some check))) (spares_fails spares fails) storedLater denied
      unfold stepCancel authorized
      dsimp only
      split
      · split
        · exact server_quiet spares (gathered_denied toldAway)
        · exact server_quiet spares fun u member => (List.not_mem_nil member).elim
      · rename_i ref rest candidates
        refine loop_quiet _ spares (fun other member => ?_) toldAway (fun key none_ => (List.not_mem_nil none_).elim)
        exact away other (candidates ▸ member)
  | looping call rest deletes cancelable =>
    obtain ⟨toldAway,away,others⟩ := denied
    exact loop_quiet (s := s) (.looping call rest deletes cancelable) (.refl _ _) away toldAway others

end InmemRuntime.RefusedRuns
