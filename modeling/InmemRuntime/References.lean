import InmemRuntime.RecordIds
import InmemRuntime.ThreadDeletion
import InmemRuntime.Mutations

namespace InmemRuntime.References
open OrderedDict ObjectHeap ThreadTtl RuntimeStore Serving ThreadOps RunOps TtlSweep ThreadRecords ThreadDeletion RecordIds
open StoreWrites (Write sweepLoop_store)
open RecordCreation (cronThread CopyTask stepCopy copiedTtl copiedThread)
open Mutations (consult consultRuns getWithFilters filledIn)

variable {J : Type}

-- Runs, crons with a thread and the TTL sidecar name threads that exist.
structure Consistent (s : Store J) : Prop where
  runs : ∀ ref ∈ s.boundRuns, (s.run ref).threadId ∈ threadIds s
  crons : ∀ cron ∈ s.crons, cron.threadId ≠ cronThread none → cron.threadId ∈ threadIds s
  ttls : ∀ threadId, (s.ttls.get? threadId).isSome = true → threadId ∈ threadIds s

structure Upholds (s s' : Store J) : Prop where
  grows : Extends s s'
  crons : s'.crons ⊆ s.crons
  consistent : Consistent s → Consistent s'

section store
variable {s s' s'' : Store J} {threadId : String}

theorem Upholds.refl (s : Store J) : Upholds s s := ⟨.refl s,List.Subset.refl _,id⟩

theorem Upholds.trans (first : Upholds s s') (second : Upholds s' s'') : Upholds s s'' :=
  ⟨first.grows.trans second.grows,List.Subset.trans second.crons first.crons,second.consistent ∘ first.consistent⟩

-- No thread goes, and what comes names a thread that is there.
theorem upholds_kept (grows : Extends s s') (crons : s'.crons ⊆ s.crons) (ids : threadIds s ⊆ threadIds s')
    (runs : ∀ ref ∈ s'.boundRuns, (s'.run ref).threadId ∈ threadIds s' ∨
      ref ∈ s.boundRuns ∧ (s'.run ref).threadId = (s.run ref).threadId)
    (ttls : ∀ threadId, (s'.ttls.get? threadId).isSome = true → threadId ∈ threadIds s' ∨ (s.ttls.get? threadId).isSome = true) :
    Upholds s s' := by
  refine ⟨grows,crons,fun consistent => ⟨fun ref member => ?_,fun cron member named => ?_,fun other listed => ?_⟩⟩
  · rcases runs ref member with here | ⟨old,same⟩
    · exact here
    · rw [same]
      exact ids (consistent.runs ref old)
  · exact ids (consistent.crons cron (crons member) named)
  · rcases ttls other listed with here | old
    · exact here
    · exact ids (consistent.ttls other old)

theorem upholds_updateThread {ref : Nat} {f : Thread J → Thread J} (same : ∀ t, (f t).threadId = t.threadId) :
    Upholds s (s.updateThread ref f) := by
  have write : Write anything s (s.updateThread ref f) := .thread same
  have ids : threadIds (s.updateThread ref f) = threadIds s := threadIds_updateThread same
  exact upholds_kept (write_extends write) (List.Subset.refl _) (ids ▸ List.Subset.refl _) (fun _ member => .inr ⟨member,rfl⟩)
    fun _ listed => .inr listed

theorem upholds_append (used : LiveUsed s) (thread : Thread J) : Upholds s (s.appendThread thread) := by
  refine upholds_kept (appendThread_extends s thread) (List.Subset.refl _) ?_ (fun _ member => .inr ⟨member,rfl⟩)
    fun _ listed => .inr listed
  rw [threadIds_append used]
  exact List.subset_append_left _ _

theorem upholds_replace (used : LiveUsed s) (list : Nat) {thread : Thread J} (same : thread.threadId = threadId) :
    Upholds s (replaceThread s list threadId thread) := by
  have write : Write anything s (replaceThread s list threadId thread) := .replaced
  refine upholds_kept (write_extends write) (List.Subset.refl _) ?_ (fun _ member => .inr ⟨member,rfl⟩) fun _ listed => .inr listed
  rw [threadIds_replace used list same]
  exact List.Subset.refl _

theorem upholds_ttls {ttls : Dict String TtlState}
    (named : ∀ other, (ttls.get? other).isSome = true → other ∈ threadIds s ∨ (s.ttls.get? other).isSome = true) :
    Upholds s {s with ttls} :=
  upholds_kept (extends_same rfl rfl) (List.Subset.refl _) (List.Subset.refl _) (fun _ member => .inr ⟨member,rfl⟩) named

theorem upholds_insert (exists_ : threadId ∈ threadIds s) (state : TtlState) :
    Upholds s {s with ttls := s.ttls.insert threadId state} := by
  refine upholds_ttls fun other listed => ?_
  by_cases same : threadId = other
  · exact .inl (same ▸ exists_)
  · rw [Dict.get?_insert_other (by simpa using same)] at listed
    exact .inr listed

theorem upholds_appendRun {run : Run} (exists_ : run.threadId ∈ threadIds s) : Upholds s (s.appendRun run) := by
  refine upholds_kept (extends_same rfl rfl) (List.Subset.refl _) (List.Subset.refl _) (fun ref member => ?_) fun _ listed => .inr listed
  by_cases new : ref = s.runs.next
  · have read : (s.appendRun run).run ref = run := by
      rw [new]
      exact Heap.read_alloc_new s.runs run
    rw [read]
    exact .inl exists_
  · have read : (s.appendRun run).run ref = s.run ref := Function.update_of_ne new _ _
    rcases List.mem_append.mp member with old | last
    · exact .inr ⟨old,congrArg Run.threadId read⟩
    · exact absurd (List.mem_singleton.mp last) new

theorem upholds_updateRun {ref : Nat} {f : Run → Run} (same : ∀ r, (f r).threadId = r.threadId) :
    Upholds s (s.updateRun ref f) :=
  upholds_kept (extends_same rfl rfl) (List.Subset.refl _) (List.Subset.refl _)
    (fun other member => .inr ⟨member,Heap.read_write_field Run.threadId (same _) other⟩) fun _ listed => .inr listed

theorem upholds_removeRun {runId : Option String} : Upholds s (removeRun s runId threadId) :=
  upholds_kept (extends_same rfl rfl) (List.Subset.refl _) (List.Subset.refl _)
    (fun _ member => .inr ⟨(List.mem_filter.mp member).1,rfl⟩) fun _ listed => .inr listed

-- The record that goes has the id that the cascade goes by.
theorem upholds_removeThread {matching : Nat} (named : (s.thread matching).threadId = threadId) :
    Upholds s (removeThread s threadId matching) := by
  have live : (removeThread s threadId matching).liveThreads = s.liveThreads.filter fun ref => ref != matching :=
    Store.liveThreads_rebind _ _
  have stays : ∀ other, other ≠ threadId → other ∈ threadIds s → other ∈ threadIds (removeThread s threadId matching) := by
    intro other apart member
    obtain ⟨ref,listed,rfl⟩ := List.mem_map.mp member
    refine List.mem_map.mpr ⟨ref,?_,rfl⟩
    rw [live]
    refine List.mem_filter.mpr ⟨listed,bne_iff_ne.mpr ?_⟩
    rintro rfl
    exact apart named
  have write : Write anything s (removeThread s threadId matching) := .removed fun _ _ _ => trivial
  refine ⟨write_extends write,List.filter_subset_self _,fun consistent => ⟨fun ref member => ?_,fun cron member with_ => ?_,
    fun other listed => ?_⟩⟩
  · obtain ⟨old,foreign⟩ := List.mem_filter.mp member
    have apart : (s.run ref).threadId ≠ threadId := by simpa using foreign
    exact stays _ apart (consistent.runs ref old)
  · obtain ⟨old,apart⟩ := List.mem_filter.mp member
    exact stays _ (by simpa using apart) (consistent.crons cron old with_)
  · have erased : (s.ttls.erase threadId).get? other = if threadId = other then none else s.ttls.get? other := by
      rw [Dict.get?_erase]
      simp
    change ((s.ttls.erase threadId).get? other).isSome = true at listed
    rw [erased] at listed
    split at listed
    · cases listed
    · rename_i apart
      exact stays other (Ne.symm apart) (consistent.ttls other listed)

theorem upholds_crons (keep : Cron → Bool) : Upholds s {s with crons := s.crons.filter keep} := by
  refine ⟨extends_same rfl rfl,List.filter_subset_self _,fun consistent => ⟨consistent.runs,fun cron member named => ?_,consistent.ttls⟩⟩
  exact consistent.crons cron (List.mem_filter.mp member).1 named

end store

section steps
variable {τ ρ : Type} {w : Wake J} {s : Server J}

theorem external_upholds {go : Server J × Outcome τ ρ} (goes : Upholds s.store go.1.store) :
    Upholds s.store (external w s go).1.store := by
  unfold external
  split
  · exact .refl _
  · exact goes

theorem answered_upholds {go : Filters J → Server J × Outcome τ ρ}
    (goes : ∀ filters, w.auth = .ok filters → Upholds s.store (go filters).1.store) : Upholds s.store (authorized w s go).1.store := by
  unfold authorized
  split
  · exact .refl _
  · exact goes _ ‹_›

theorem authorized_upholds {go : Filters J → Server J × Outcome τ ρ} (goes : ∀ filters, Upholds s.store (go filters).1.store) :
    Upholds s.store (authorized w s go).1.store := answered_upholds fun filters _ => goes filters

theorem open_upholds {threadId : String} {again : τ} {go : Server J × Outcome τ ρ}
    (goes : s.maintenance.contains threadId = false → Upholds s.store go.1.store) : Upholds s.store (gated s threadId again go).1.store := by
  unfold gated
  split
  · exact .refl _
  · exact goes (Bool.eq_false_iff.mpr ‹_›)

theorem gated_upholds {threadId : String} {again : τ} {go : Server J × Outcome τ ρ} (goes : Upholds s.store go.1.store) :
    Upholds s.store (gated s threadId again go).1.store := open_upholds fun _ => goes

-- The override is set after the list changed, and only its own key is new.
theorem override_upholds {base : Store J} (first : Upholds base s.store) (now : Int) {threadId : String} {ttl : Option TtlConfig}
    (exists_ : ttl.isSome = true → threadId ∈ threadIds s.store) (value : List Nat) :
    Upholds base (overrideTtl s now threadId ttl value : Server J × Outcome τ (List Nat)).1.store := by
  unfold overrideTtl
  split
  · exact first
  · rename_i policy
    split
    · exact first
    · rename_i ttls stored
      refine first.trans (upholds_ttls fun other listed => ?_)
      unfold setThreadTtlOverride at stored
      split at stored
      · cases stored
      · cases Except.ok.inj stored
        have erased : (s.store.ttls.erase threadId).get? other = if threadId = other then none else s.store.ttls.get? other := by
          rw [Dict.get?_erase]
          simp
        rw [erased] at listed
        split at listed
        · cases listed
        · exact .inr listed
      · cases Except.ok.inj stored
        by_cases same : threadId = other
        · exact .inl (same ▸ exists_ rfl)
        · rw [Dict.get?_insert_other (by simpa using same)] at listed
          exact .inr listed

theorem new_exists {store : Store J} (used : LiveUsed store) (thread : Thread J) :
    thread.threadId ∈ threadIds (store.appendThread thread) := by
  rw [threadIds_append used]
  exact List.mem_append_right _ (List.mem_singleton.mpr rfl)

theorem found_exists {store : Store J} {threadId : String} {ref : Nat} (found : store.findThread threadId = some ref) :
    threadId ∈ threadIds store := by
  obtain ⟨live,same⟩ := Store.findThread_some found
  exact List.mem_map.mpr ⟨ref,live,same⟩

theorem put_upholds (used : LiveUsed s.store) (task : PutTask J) : Upholds s.store (stepPut w s task).1.store := by
  have puts : ∀ call filters, Upholds s.store (putThread s w.now call filters).1.store := by
    intro call filters
    unfold putThread
    split
    · exact override_upholds (upholds_append used _) w.now (fun _ => new_exists used _) _
    · split
      · exact .refl _
      · split <;> exact .refl _
  cases task with
  | called call => exact .refl _
  | authorizing call => exact authorized_upholds fun filters => gated_upholds (puts call filters)
  | waiting call filters => exact gated_upholds (puts call filters)

theorem copy_upholds (used : LiveUsed s.store) (task : CopyTask J) : Upholds s.store (stepCopy w s task).1.store := by
  cases task with
  | called call => exact .refl _
  | authorizingRead call newId => exact authorized_upholds fun _ => .refl _
  | authorizingCreate call newId filters =>
    refine authorized_upholds fun _ => ?_
    dsimp only
    split
    · exact .refl _
    · rename_i ref found
      split
      · exact .refl _
      · have appended := upholds_append used (copiedThread (s.store.thread ref) newId w.now)
        refine appended.trans (upholds_ttls fun other listed => ?_)
        unfold copiedTtl at listed
        split at listed
        · exact .inr listed
        · split at listed
          · by_cases same : newId = other
            · exact .inl (same ▸ new_exists used (copiedThread (s.store.thread ref) newId w.now))
            · rw [Dict.get?_insert_other (by simpa using same)] at listed
              exact .inr listed
          · exact .inr listed
  | checkpointer ref => exact external_upholds (.refl _)

-- What a patch that is let through may write to: its captured list may be out of
-- date, but a TTL goes to a thread that exists.
def Writable (s : Server J) (call : PatchCall J) (list : Nat) (filters : Filters J) : Prop :=
  s.maintenance.contains call.threadId = false → ∀ ref, capturedThread s.store list call.threadId = some ref →
    passes filters (s.store.thread ref).metadata = true → call.ttl.isSome = true → call.threadId ∈ threadIds s.store

def Patchable (w : Wake J) (s : Server J) : PatchTask J → Prop
  | .called _ => True
  | .authorizing call list => ∀ filters, w.auth = .ok filters → Writable s call list filters
  | .waiting call list filters => Writable s call list filters

theorem patch_upholds (used : LiveUsed s.store) (task : PatchTask J) (patchable : Patchable w s task) :
    Upholds s.store (stepPatch w s task).1.store := by
  have patches : ∀ call list filters, (∀ ref, capturedThread s.store list call.threadId = some ref →
      passes filters (s.store.thread ref).metadata = true → call.ttl.isSome = true → call.threadId ∈ threadIds s.store) →
      Upholds s.store (patchThread s w.now call list filters).1.store := by
    intro call list filters fine
    unfold patchThread
    split
    · exact .refl _
    · rename_i ref found
      split
      · exact .refl _
      · rename_i passed
        have own : (s.store.thread ref).threadId = call.threadId := by
          simpa [capturedThread,Store.isThread] using List.find?_some found
        have named : (patched (s.store.thread ref) call.metadata w.now).threadId = call.threadId := own
        refine override_upholds (upholds_replace used list named) w.now (fun given => ?_) _
        rw [Server.store_withStore,threadIds_replace used list named]
        exact fine ref found (by simpa using passed) given
  cases task with
  | called call =>
    unfold stepPatch
    dsimp only
    split <;> exact .refl _
  | authorizing call list => exact answered_upholds fun filters allowed => open_upholds fun free => patches call list filters (patchable filters allowed free)
  | waiting call list filters => exact open_upholds fun free => patches call list filters (patchable free)

theorem delete_upholds (task : DeleteTask) (names : Names s.store task) : Upholds s.store (stepDelete w s task).1.store := by
  cases task with
  | called threadId => exact .refl _
  | authorizing threadId matching =>
    refine authorized_upholds fun filters => ?_
    split
    · exact .refl _
    · split <;> exact .refl _
  | checkpoints threadId ref => exact external_upholds (.refl _)
  | streams threadId ref => exact external_upholds (upholds_removeThread names.2)

theorem insertRun_upholds {store base : Store J} (first : Upholds base store) (now : Int) (call : PutRunCall J) {threadId : String}
    (exists_ : threadId ∈ threadIds store) : Upholds base (insertRun store now call threadId).1 := by
  unfold insertRun
  dsimp only
  split
  · exact first
  · exact first.trans (upholds_appendRun exists_)

theorem putRun_upholds {text : String → J} (used : LiveUsed s.store) (task : PutRunTask J) :
    Upholds s.store (stepPutRun text w s task).1.store := by
  have puts : ∀ call assistant filters, Upholds s.store (gatedPutRun text w s call assistant filters).1.store := by
    intro call assistant filters
    have whole : Upholds s.store (putRun text w s call assistant filters).1.store := by
      unfold putRun
      split
      · exact .refl _
      · split
        · rename_i ref found
          split
          · exact .refl _
          · have busy : ∀ t, (markBusy text w.now assistant t).threadId = t.threadId := markBusy_threadId text w.now assistant
            have first : Upholds s.store (s.store.updateThread ref (markBusy text w.now assistant)) := upholds_updateThread busy
            refine insertRun_upholds first w.now call ?_
            rw [threadIds_updateThread busy]
            exact found_exists found
        · split <;> exact .refl _
    unfold gatedPutRun
    split
    · exact whole
    · exact gated_upholds whole
  cases task with
  | called call =>
    unfold stepPutRun
    dsimp only
    split <;> exact .refl _
  | authorizing call assistant =>
    refine authorized_upholds fun filters => ?_
    split
    · exact puts call assistant filters
    · exact .refl _
  | authorizingAssistant call assistant filters =>
    refine authorized_upholds fun assistantFilters => ?_
    split
    · exact .refl _
    · exact puts call assistant filters
  | waiting call assistant filters => exact puts call assistant filters
  | logging call assistant threadId createdAt =>
    exact insertRun_upholds (upholds_append used _) w.now call (new_exists used _)

-- A sweep marks the thread that it has pruned.
def Sweepable (w : Wake J) (s : Store J) : SweepTask → Prop
  | .pruning threadId _ _ _ => w.failure = none → threadId ∈ threadIds s
  | _ => True

def SweepNames (s : Store J) : SweepTask → Prop
  | .deleting _ inner => Names s inner
  | _ => True

theorem sweep_upholds {globalTtl : Option TtlConfig} (task : SweepTask) (names : SweepNames s.store task)
    (sweepable : Sweepable w s.store task) : Upholds s.store (stepSweep globalTtl w s task).1.store := by
  cases task with
  | called call =>
    unfold stepSweep
    dsimp only
    split
    · split
      · exact .refl _
      · rw [sweepLoop_store]
        exact .refl _
    · rw [sweepLoop_store]
      exact .refl _
  | deleting rest inner =>
    have deletes : Upholds s.store (stepDelete w s inner).1.store := delete_upholds inner names
    unfold stepSweep
    dsimp only
    generalize stepDelete w s inner = result at deletes
    obtain ⟨later,outcome⟩ := result
    cases outcome with
    | suspended again => exact deletes
    | returned value =>
      dsimp only
      rw [sweepLoop_store]
      exact deletes
    | raised fault =>
      cases fault with
      | http exception =>
        dsimp only
        split
        · rw [sweepLoop_store]
          exact deletes
        · exact deletes
      | external => exact deletes
  | checkpointer threadId rest state updatedAt =>
    unfold stepSweep
    dsimp only
    split <;> exact .refl _
  | pruning threadId rest state updatedAt =>
    unfold stepSweep
    dsimp only
    cases failure : w.failure with
    | some fault => exact .refl _
    | none =>
      dsimp only
      rw [sweepLoop_store]
      exact upholds_insert (sweepable failure) _

theorem consult_upholds (store : Store J) (filters : Filters J) (threadId : String) : Upholds store (consult filters store threadId) := by
  unfold consult getWithFilters
  split
  · exact .refl _
  · split
    · exact .refl _
    · exact upholds_updateThread fun _ => rfl

theorem consults_uphold (store : Store J) (filters : Filters J) (threadIds : List String) :
    Upholds store (threadIds.foldl (consult filters) store) := by
  induction threadIds generalizing store with
  | nil => exact .refl _
  | cons threadId rest ih => exact (consult_upholds store filters threadId).trans (ih _)

theorem deleteRun_upholds (task : DeleteRunTask) : Upholds s.store (stepDeleteRun w s task).1.store := by
  cases task with
  | called runId threadId => exact .refl _
  | authorizing runId threadId =>
    refine authorized_upholds fun filters => ?_
    split
    · exact .refl _
    · split <;> exact .refl _
  | checkpoints runId threadId => exact external_upholds (.refl _)
  | streams runId threadId => exact external_upholds upholds_removeRun

theorem interrupt_upholds (store : Store J) (now : Int) (ref : Nat) : Upholds store (interruptRun store now ref) := by
  have marks : ∀ {m : Store J}, Upholds store m →
      Upholds store (m.updateRun ref fun run => {run with status := .interrupted, updatedAt := now}) :=
    fun first => first.trans (upholds_updateRun fun _ => rfl)
  unfold interruptRun
  dsimp only
  split
  · split
    · exact marks (upholds_updateThread fun _ => rfl)
    · exact marks (.refl _)
  · exact marks (.refl _)

theorem cancelLoop_upholds (call : CancelCall) (refs : List Nat) (server : Server J) (deletes : List (Option String × String))
    (cancelable : Bool) : Upholds server.store (cancelLoop w server call refs deletes cancelable).1.store := by
  induction refs generalizing server deletes cancelable with
  | nil =>
    unfold cancelLoop
    split
    · exact .refl _
    · split <;> exact .refl _
  | cons ref rest ih =>
    unfold cancelLoop
    dsimp only
    split
    · split
      · exact (interrupt_upholds server.store w.now ref).trans (ih (server.withStore (interruptRun server.store w.now ref)) deletes true)
      · exact .refl _
    · exact .refl _

theorem cancel_upholds (task : CancelTask) : Upholds s.store (stepCancel w s task).1.store := by
  cases task with
  | called call =>
    unfold stepCancel
    dsimp only
    split <;> exact .refl _
  | authorizing call =>
    refine authorized_upholds fun filters => ?_
    split
    · split <;> exact .refl _
    · exact cancelLoop_upholds _ _ _ _ _
  | looping call rest deletes cancelable => exact cancelLoop_upholds _ _ _ _ _

theorem setStatus_upholds {store store' : Store J} {now : Int} {call : StatusCall J} (set : setStatus store now call = .ok store') :
    Upholds store store' := by
  unfold setStatus at set
  split at set
  · cases set
  · cases Except.ok.inj set
    exact upholds_updateThread fun _ => rfl

end steps

end InmemRuntime.References
