import InmemRuntime.DeniedMutations
import InmemRuntime.PruneExactness
import InmemRuntime.SizeExact

namespace InmemRuntime.SaverEffects
open OrderedDict CheckpointData CheckpointSaver UuidTexts CopiedCheckpoints CopiedThreads SizeExact Streams ThreadTtl
open RuntimeStore Serving ThreadOps RunOps TtlSweep AssistantOps Mutations
open RecordCreation (CopyTask stepCopy)

variable {J K : Type}

-- What one step of a call asks of the saver. A prune of the API keeps what is
-- newest; a copy has found its source.
inductive Effect (J : Type) where
  | nothing
  | deleteThread (threadId : String)
  | prune (threadIds : List String)
  | copyThread (source target : String)
  | deleteForRuns (runId : String)
  | update (call : UpdateCall J)
  | other (saver : Saver)

section effects
variable (packages : Packages J) (w : Wake J)

def Effect.apply (s : Saver) : Effect J → Saver
  | .nothing => s
  | .deleteThread threadId => CheckpointSaver.deleteThread s threadId
  | .prune threadIds => prunedThreads packages s threadIds
  | .copyThread source target => copiedCheckpoints packages s source target
  | .deleteForRuns runId => DeleteForRuns.deleteForRuns (max 0) packages.serde [runId] s
  | .update call => packages.updated call s
  | .other saver => saver

def deleteEffect (task : DeleteTask) : Effect J :=
  match task,w.failure with
  | .checkpoints threadId _,none => .deleteThread threadId
  | _,_ => .nothing

def copyEffect (s : World J) : CopyTask J → Effect J
  | .authorizingCreate call newId filters =>
    match w.auth,s.store.findThread call.threadId with
    | .ok _,some ref =>
      if !passes filters (s.store.thread ref).metadata || call.custom then .nothing else .copyThread call.threadId newId
    | _,_ => .nothing
  | _ => .nothing

def effect (s : World J) (task : Mutation J) : Effect J :=
  match task,w.failure with
  | .delete task,_ | .prune (.deleting task _ _),_ | .sweep (.deleting _ task),_ | .deleteAssistant (.threads _ task _),_ =>
    deleteEffect w task
  | .prune (.pruning batch _ _ _),none => .prune batch
  | .sweep (.pruning threadId _ _ _),none => .prune [threadId]
  | .copy task,_ => copyEffect w s task
  | .update (.updating call),none => .update call
  | .deleteRun (.checkpoints (some runId) _),none => .deleteForRuns runId
  | .other change,_ => .other (change.apply s).saver
  | _,_ => .nothing

end effects

section steps
variable {packages : Packages J} {w : Wake J} {s : World J}

theorem cleaned_saver (task : DeleteTask) : (cleaned packages w s task).saver = (deleteEffect w task).apply packages s.saver := by
  unfold cleaned deleteEffect
  cases task with
  | checkpoints threadId matching => cases w.failure <;> rfl
  | streams threadId matching => cases w.failure <;> rfl
  | _ => rfl

theorem copied_saver (task : CopyTask J) : copiedSaver packages w s task = (copyEffect w s task).apply packages s.saver := by
  unfold copiedSaver copyEffect
  cases task with
  | authorizingCreate call newId filters =>
    dsimp only
    cases w.auth with
    | error fault => rfl
    | ok _ =>
      cases s.store.findThread call.threadId with
      | none => rfl
      | some ref =>
        dsimp only
        split <;> rfl
  | _ => rfl

theorem copiedSaver_admitted {call : RecordCreation.CopyCall} {newId : String} {filters read : Filters J} {ref : Nat}
    (auth : w.auth = .ok read) (found : s.store.findThread call.threadId = some ref)
    (passed : passes filters (s.store.thread ref).metadata = true) (plain : call.custom = false) :
    copiedSaver packages w s (.authorizingCreate call newId filters) = copiedCheckpoints packages s.saver call.threadId newId := by
  unfold copiedSaver
  simp only [auth,found,passed,plain,Bool.not_true,Bool.or_self,Bool.false_eq_true,↓reduceIte]

theorem update_saver (task : UpdateTask J) :
    (stepUpdate packages w s task).1.saver = (effect w s (.update task)).apply packages s.saver := by
  cases task with
  | called call => rfl
  | authorizing call =>
    unfold stepUpdate
    dsimp only
    split <;> rfl
  | reading call filters =>
    unfold stepUpdate
    dsimp only
    split
    · rfl
    · split
      · rfl
      · split <;> rfl
  | updating call =>
    unfold stepUpdate effect
    dsimp only
    split <;> rename_i failure <;> rw [failure] <;> rfl
  | readingAgain call =>
    unfold stepUpdate
    dsimp only
    split
    · rfl
    · split <;> rfl
  | finishing call =>
    unfold stepUpdate
    dsimp only
    split
    · rfl
    · split <;> rfl

theorem prune_saver (task : PruneTask) :
    (stepPrune packages w s task).1.saver = (effect w s (.prune task)).apply packages s.saver := by
  cases task with
  | called call =>
    unfold stepPrune
    dsimp only
    split <;> rfl
  | authorizing call =>
    unfold stepPrune
    dsimp only
    split
    · rfl
    · rfl
    · split <;> rfl
  | deleting inner rest pruned =>
    have whole : (stepDeleteWhole packages w s inner).1.saver = (deleteEffect w inner).apply packages s.saver := cleaned_saver inner
    unfold stepPrune
    dsimp only
    split <;> rename_i stepped <;> rw [stepped] at whole <;> exact whole
  | checkpointer orderedIds batchSize =>
    unfold stepPrune
    dsimp only
    split <;> rfl
  | pruning batch rest batchSize pruned =>
    unfold stepPrune effect
    dsimp only
    split <;> rename_i failure <;> rw [failure] <;> rfl

theorem sweep_saver (task : SweepTask) : (sweptSaver packages w s task).saver = (effect w s (.sweep task)).apply packages s.saver := by
  cases task with
  | deleting rest inner => exact cleaned_saver inner
  | pruning threadId rest state updatedAt =>
    unfold sweptSaver effect
    cases w.failure <;> rfl
  | _ => rfl

theorem deleteRun_saver (task : DeleteRunTask) :
    (cleanedRun packages w s task).saver = (effect w s (.deleteRun task)).apply packages s.saver := by
  unfold cleanedRun effect
  cases task with
  | authorizing runId threadId => cases w.auth with
    | error fault => rfl
    | ok filters => cases filters <;> rfl
  | checkpoints runId threadId => cases runId <;> cases w.failure <;> rfl
  | streams runId threadId => cases runId <;> cases w.failure <;> rfl
  | called runId threadId => rfl

theorem cancel_saver (told : List RunKey) (task : CancelTask) : (stepCancelWhole w s told task).1.saver = s.saver := by
  unfold stepCancelWhole
  dsimp only
  split <;> rfl

theorem asking_saver {α ρ : Type} (go : α → Filters J → World J × Except Fault ρ)
    (goes_ : ∀ call filters, (go call filters).1.saver = s.saver) (task : Asking α) : (asking w s go task).1.saver = s.saver := by
  cases task with
  | called call => rfl
  | authorizing call =>
    unfold asking
    dsimp only
    split
    · rfl
    · rename_i filters _
      have same := goes_ call filters
      split <;> rename_i gone <;> rw [gone] at same <;> exact same

theorem updateCron_saver (call : UpdateCronCall J) (filters : Filters J) : (updateCron packages w s call filters).1.saver = s.saver := by
  unfold updateCron
  split
  · rfl
  · split
    · dsimp only
      split
      · rfl
      · split <;> rfl
    · rfl

variable [DecidableEq J]

theorem deleteAssistant_saver (task : DeleteAssistantTask) :
    (stepDeleteAssistant packages w s task).1.saver = (effect w s (.deleteAssistant task)).apply packages s.saver := by
  cases task with
  | called assistantId deleteThreads => rfl
  | authorizing assistantId deleteThreads =>
    unfold stepDeleteAssistant
    dsimp only
    split
    · rfl
    · split
      · rfl
      · split <;> rfl
  | threads assistantId inner rest =>
    have whole : (stepDeleteWhole packages w s inner).1.saver = (deleteEffect w inner).apply packages s.saver := cleaned_saver inner
    unfold stepDeleteAssistant
    dsimp only
    split <;> rename_i stepped <;> rw [stepped] at whole <;> exact whole
  | warning assistantId rest => rfl
  | cancelling assistantId told inner =>
    have same := cancel_saver (w:=w) (s:=s) told inner
    unfold stepDeleteAssistant
    dsimp only
    split <;> rename_i stepped <;> rw [stepped] at same <;> exact same
  | signalling assistantId action told => cases told <;> rfl

-- The API changes the checkpoints by the effects of its steps only.
theorem resume_saver (task : Mutation J) : (Mutations.resume packages w s task).1.saver = (effect w s task).apply packages s.saver := by
  unfold Mutations.resume
  cases task with
  | delete task => exact cleaned_saver task
  | prune task => exact prune_saver task
  | copy task => exact copied_saver task
  | update task => exact update_saver task
  | sweep task => exact sweep_saver task
  | deleteRun task => exact deleteRun_saver task
  | cancel told task =>
    have same := cancel_saver (w:=w) (s:=s) told task
    dsimp only
    unfold wentCancel
    split <;> rename_i stepped <;> rw [stepped] at same <;> exact same
  | patchAssistant task => exact asking_saver (patchAssistantWhole packages w s) (fun _ _ => rfl) task
  | setLatest task => exact asking_saver (setLatestWhole packages w s) (fun _ _ => rfl) task
  | putAssistant task => rfl
  | deleteAssistant task => exact deleteAssistant_saver task
  | updateCron task => exact asking_saver (updateCron packages w s) updateCron_saver task
  | deleteCron task => exact asking_saver (Mutations.deleteCron s) (fun _ _ => rfl) task
  | _ => rfl

end steps

-- The saver has run some of its own operations.
section refinement
variable {base : Base K} {s s' s'' : Saver}

def Performs (base : Base K) (s s' : Saver) : Prop := ∃ operations, SizeExact.Runs (max 0) base s operations s'

theorem runs_append {first later : List (SizeExact.Operation K)} (runs : SizeExact.Runs (max 0) base s first s')
    (more : SizeExact.Runs (max 0) base s' later s'') : SizeExact.Runs (max 0) base s (first ++ later) s'' := by
  induction runs with
  | nil => exact more
  | step allowed stepped _ ih => exact .step allowed stepped (ih more)

theorem performs_refl (base : Base K) (s : Saver) : Performs base s s := ⟨[],.nil⟩

theorem performs_trans (first : Performs base s s') (later : Performs base s' s'') : Performs base s s'' := by
  obtain ⟨operations,runs⟩ := first
  obtain ⟨more,rest⟩ := later
  exact ⟨operations ++ more,runs_append runs rest⟩

theorem performs_one (operation : SizeExact.Operation K) (allowed : SizeExact.Allowed s operation)
    (stepped : execute (max 0) base s operation = some s') : Performs base s s' := ⟨[operation],.step allowed stepped .nil⟩

-- A copy needs an id that nothing has yet, and texts in which the new id is put
-- as it should. What other code does to the saver, it does by the saver's operations.
structure Copyable (s : Saver) (source target : UuidText) : Prop where
  unused : UnusedTarget s source.str target.str
  storage : s.storage.get? target.str = none
  substituted : Substituted s source target

def Lawful (base : Base K) (s : Saver) : Effect J → Prop
  | .copyThread threadId newThreadId => ∀ source target : UuidText, source.str = threadId → target.str = newThreadId → Copyable s source target
  | .other saver => Performs base s saver
  | _ => True

theorem copiedCheckpoints_performs (packages : Packages J) {threadId newThreadId : String}
    (lawful : ∀ source target : UuidText, source.str = threadId → target.str = newThreadId → Copyable s source target) :
    Performs base s (copiedCheckpoints packages s threadId newThreadId) := by
  unfold copiedCheckpoints
  by_cases drawn : ∃ source target : UuidText, source.str = threadId ∧ target.str = newThreadId
  · obtain ⟨source,target,rfl,rfl⟩ := drawn
    obtain ⟨unused,storage,substituted⟩ := lawful source target rfl rfl
    rw [copied_substituted _ substituted]
    cases made : ThreadCopy.copyThread (substitution target source) s source.str target.str with
    | none => exact performs_refl base s
    | some copy =>
      exact performs_one (.copy (substitution target source) source.str target.str)
        (substituted_fresh unused storage substituted made) made
  · unfold copied
    split
    · rename_i source target read read'
      exact (drawn ⟨source,target,uuidText_some read,uuidText_some read'⟩).elim
    · exact performs_refl base s

theorem effect_performs {packages : Packages J} (same : packages.serde = base.toSerde)
    (updates : ∀ call saver, Performs base saver (packages.updated call saver)) {effect : Effect J} (lawful : Lawful base s effect) :
    Performs base s (effect.apply packages s) := by
  cases effect with
  | nothing => exact performs_refl base s
  | deleteThread threadId => exact performs_one (.deleteThread threadId) trivial rfl
  | prune threadIds =>
    refine performs_one (.prune threadIds "keep_latest") trivial ?_
    change (Prune.prune (max 0) base.toSerde s threadIds "keep_latest").toOption = some (prunedThreads packages s threadIds)
    rw [PruneExactness.prune_keepLatest,← same]
    rfl
  | copyThread threadId newThreadId => exact copiedCheckpoints_performs packages lawful
  | deleteForRuns runId =>
    refine performs_one (.deleteForRuns [runId]) trivial ?_
    unfold Effect.apply execute
    rw [same]
  | update call => exact updates call s
  | other saver => exact lawful

variable [DecidableEq J]

def Careful (base : Base K) : Pool J × Event J → Prop :=
  TaskPool.Meets (fun _ => True) fun w s task => Lawful base s.saver (effect w s task)

theorem advance_performs {packages : Packages J} {start : Saver} {p next : Pool J} {event : Event J} (same : packages.serde = base.toSerde)
    (updates : ∀ call saver, Performs base saver (packages.updated call saver)) (performs : Performs base start p.shared.saver)
    (careful : Careful base (p,event)) (step : TaskPool.advance (Mutations.resume packages) p event = some next) :
    Performs base start next.shared.saver := by
  cases event with
  | call task =>
    cases Option.some.inj step
    exact performs
  | resume index w =>
    obtain ⟨before,task,after,split,found,rfl⟩ := TaskPool.resume_parts step
    have stepped : Performs base p.shared.saver (Mutations.resume packages w p.shared task).1.saver := by
      rw [resume_saver]
      exact effect_performs same updates (careful task found)
    exact performs_trans performs stepped

-- However the calls of the API interleave, the saver only runs its own
-- operations one after another, so its sizes stay exact.
theorem api_refines_saver (packages : Packages J) (base : Base K) (start : World J) (p : Pool J) (taken : List (Pool J × Event J))
    (same : packages.serde = base.toSerde) (updates : ∀ call saver, Performs base saver (packages.updated call saver))
    (runs : Mutations.Runs packages ⟨start,[]⟩ taken p) (careful : ∀ step ∈ taken, Careful base step) :
    ∀ s ∈ p.shared :: taken.map (·.1.shared), Performs base start.saver s.saver ∧ (SizesExact start.saver → SizesExact s.saver) := by
  have sizes : ∀ {s : Saver}, Performs base start.saver s → SizesExact start.saver → SizesExact s := by
    intro s performs exact_
    obtain ⟨operations,ran⟩ := performs
    exact follows_exact (runs_follow (exact_follows exact_) ran).1
  obtain ⟨last,earlier⟩ : Performs base start.saver p.shared.saver ∧ ∀ step ∈ taken, Performs base start.saver step.1.shared.saver :=
    TaskPool.runs_invariant runs (performs_refl base start.saver)
      (fun _ _ _ here careful step => advance_performs same updates here careful step) careful
  refine List.forall_mem_cons.mpr ⟨⟨last,sizes last⟩,fun s member => ?_⟩
  obtain ⟨step,listed,rfl⟩ := List.mem_map.mp member
  exact ⟨earlier step listed,sizes (earlier step listed)⟩

end refinement

def toyId : String := "00e90000-0000-4000-8000-000000000000"

def toyCopyId : String := "3f2b0000-0000-4000-8000-00000000001a"

def toySaver : Saver :=
  clear.setBucket toyId "" (Dict.empty.insert (.text "1") ⟨⟨"json",encode toyThread.text⟩,⟨"json",[9]⟩,none⟩)

def toyWorld : World String :=
  {DeniedMutations.toyWorld with
    records := ⟨.start ((Store.empty.appendThread (DeniedMutations.owned toyId "bob")).appendThread (DeniedMutations.owned "U" "alice")),
      .empty,.empty⟩
    saver := toySaver}

theorem toy_copyable : Copyable toySaver toyThread toyCopy := by
  refine ⟨⟨by decide +kernel,by decide +kernel,by decide +kernel⟩,by decide +kernel,⟨fun data stored => ?_,by decide +kernel⟩⟩
  have same : some data = some ((storedNamespaces (toySaver.namespaces toyThread.str).dict).getD .none) := by rw [← stored,stored]; rfl
  rw [Option.some.inj same]
  decide +kernel

theorem toy_lawful (source target : UuidText) (named : source.str = toyId) (named' : target.str = toyCopyId) :
    Copyable toySaver source target := by
  have sources : source = toyThread := UuidText.str_inj.mp (named.trans (by decide +kernel))
  have targets : target = toyCopy := UuidText.str_inj.mp (named'.trans (by decide +kernel))
  subst sources targets
  exact toy_copyable

def copiesOne : List (Event String) :=
  .call (.copy (.called ⟨toyId,false⟩)) :: List.replicate 3 (.resume 0 {DeniedMutations.waking with newId := toyCopyId})

-- The id in the checkpoint of the copy is its own.
theorem api_refines_saver_toy : ∃ taken p, Mutations.Runs DeniedMutations.toyPackages ⟨toyWorld,[]⟩ taken p ∧
    p.tasks = [] ∧ (p.shared.saver.entryAt toyCopyId "" (.text "1")).map Entry.checkpoint = some ⟨"json",encode toyCopy.text⟩ ∧
    Performs RunDeletion.toyBase toyWorld.saver p.shared.saver := by
  have runs := TaskPool.perform_runs .nil (rfl : TaskPool.perform (Mutations.resume DeniedMutations.toyPackages)
    ⟨toyWorld,[]⟩ copiesOne = some _)
  refine ⟨_,_,runs,rfl,?_,(api_refines_saver DeniedMutations.toyPackages RunDeletion.toyBase toyWorld _ _ rfl
    (fun _ saver => performs_refl _ saver) runs ?_ _ List.mem_cons_self).1⟩
  · have made : copiedCheckpoints DeniedMutations.toyPackages toyWorld.saver toyId toyCopyId =
        (ThreadCopy.copyThread (substitution toyCopy toyThread) toySaver toyThread.str toyCopy.str).getD toySaver := by
      rw [← copied_substituted _ toy_copyable.substituted]
      exact congrArg₂ (copied _ toySaver) (by decide +kernel) (by decide +kernel)
    dsimp only [World.withServer]
    rw [copiedSaver_admitted]
    case auth => rfl
    case found => rfl
    case passed => rfl
    case plain => rfl
    dsimp only [copiedSaver]
    rw [made]
    decide +kernel
  · refine List.forall_mem_cons.mpr ⟨trivial,?_⟩
    iterate 2 refine List.forall_mem_cons.mpr ⟨fun task found => by cases found; trivial,?_⟩
    refine List.forall_mem_cons.mpr ⟨fun task found => ?_,?_⟩
    · cases found
      exact toy_lawful
    · exact fun _ none_ => (List.not_mem_nil none_).elim

end InmemRuntime.SaverEffects
