import InmemRuntime.RecordFrames

namespace InmemRuntime.Refusals
open OrderedDict CheckpointSaver DeleteForRuns Streams StreamUpkeep RunDeletion
open ThreadTtl RuntimeStore Serving ThreadOps RunOps AssistantOps Mutations RecordFrames

variable {J : Type}

-- What an operation is called on. A run stands for its thread.
inductive Target where
  | thread (threadId : String)
  | assistant (assistantId : String)
  | cron (cronId : String)
deriving DecidableEq

def Unchanged : Target → World J → World J → Prop
  | .thread threadId => ThreadKept threadId
  | .assistant assistantId => AssistantKept assistantId
  | .cron cronId => CronKept cronId

def Fails (check : Metadata J → Bool) (s : Store J) (threadId : String) : Prop :=
  threadRecords s threadId ≠ [] ∧ ∀ thread ∈ threadRecords s threadId, check thread.metadata = false

-- The record exists, and the filter does not match it.
def Barred (check : Metadata J → Bool) (s : World J) : Target → Prop
  | .thread threadId => Fails check s.store threadId
  | .assistant assistantId => (s.records.tables.find assistantId).isSome = true ∧
      ∀ a ∈ s.records.tables.assistants, a.assistantId = assistantId → check a.metadata = false
  | .cron cronId => (findCron s cronId).isSome = true ∧ check (cronMetadata s cronId) = false

-- The calls that the target is an argument of. Without a thread id, a
-- cancellation is aimed at the runs of every thread.
def Aims : Target → Mutation J → Prop
  | .thread threadId,.patch (.called call) => call.threadId = threadId
  | .thread threadId,.delete (.called other) => other = threadId
  | .thread threadId,.prune (.called call) => threadId ∈ call.threadIds
  | .thread threadId,.copy (.called call) => call.threadId = threadId
  | .thread threadId,.update (.called call) => call.threadId = threadId
  | .thread threadId,.putRun (.called call) => call.threadId = some threadId
  | .thread threadId,.deleteRun (.called _ other) => other = threadId
  | .thread threadId,.cancel told (.called call) => told = [] ∧ (call.threadId = none ∨ call.threadId = some threadId)
  | .assistant assistantId,.putAssistant (.called call) => call.assistantId = assistantId
  | .assistant assistantId,.patchAssistant (.called call) => call.assistantId = assistantId
  | .assistant assistantId,.setLatest (.called call) => call.1 = assistantId
  | .assistant assistantId,.deleteAssistant (.called other _) => other = assistantId
  | .cron cronId,.updateCron (.called call) => call.cronId = cronId
  | .cron cronId,.deleteCron (.called other) => other = cronId
  | _,_ => False

-- The handler of the operation's own action answers with the filter, or raises.
def Answered (check : Metadata J → Bool) (w : Wake J) : Prop := ∀ filters, w.auth = .ok filters → filters = some check

def Answers (check : Metadata J → Bool) (target : Target) (w : Wake J) : Mutation J → Prop
  | .patch (.authorizing _ _) | .delete (.authorizing _ _) | .prune (.authorizing _) | .copy (.authorizingRead _ _) => Answered check w
  | .update (.authorizing _) | .putRun (.authorizing _ _) | .cancel _ (.authorizing _) | .putAssistant (.authorizing _) => Answered check w
  | .patchAssistant (.authorizing _) | .setLatest (.authorizing _) | .deleteAssistant (.authorizing _ _) => Answered check w
  | .updateCron (.authorizing _) | .deleteCron (.authorizing _) => Answered check w
  | .deleteRun (.authorizing _ threadId) => target = .thread threadId → Answered check w
  | _ => True

-- Where an operation looks elsewhere than at the target: a record that was
-- found before the handler answered fails as well; a record that may be read
-- has nothing to fill in; a deleted run has no checkpoint of the target.
def Guarded (packages : Packages J) (check : Metadata J → Bool) (target : Target) (w : Wake J) (s : World J) : Mutation J → Prop
  | .patch (.authorizing call list) | .patch (.waiting call list _) =>
    ∀ ref, capturedThread s.store list call.threadId = some ref → check (s.store.thread ref).metadata = false
  | .delete (.authorizing _ (some ref)) => check (s.store.thread ref).metadata = false
  | .update (.reading call _) => ∀ filters, w.auth = .ok filters → ∀ ref, s.store.findThread call.threadId = some ref →
      passes filters (s.store.thread ref).metadata = true → (s.store.thread ref).stateUpdatedAt.isSome = true
  | .deleteRun (.checkpoints (some runId) _) => ∀ threadId, target = .thread threadId → w.failure = none →
      ¬ Removes packages.serde runId threadId s.saver
  | _ => True

-- A suspended operation that has not got past its check, and what a
-- cancellation of other runs has started.
def Away (threadId : String) (s : World J) (ref : Nat) : Prop :=
  ref < s.store.runs.next ∧ (s.store.run ref).threadId ≠ threadId

def Denied (check : Metadata J → Bool) (s : World J) : Target → Mutation J → Prop
  | .thread threadId,.patch (.called call) | .thread threadId,.patch (.authorizing call _) => call.threadId = threadId
  | .thread threadId,.patch (.waiting call _ filters) => call.threadId = threadId ∧ filters = some check
  | .thread threadId,.delete (.called other) | .thread threadId,.delete (.authorizing other _) => other = threadId
  | .thread threadId,.prune (.called call) | .thread threadId,.prune (.authorizing call) => threadId ∈ call.threadIds
  | .thread threadId,.copy (.called call) | .thread threadId,.copy (.authorizingRead call _) => call.threadId = threadId
  | .thread threadId,.copy (.authorizingCreate call _ filters) => call.threadId = threadId ∧ filters = some check
  | .thread threadId,.update (.called call) | .thread threadId,.update (.authorizing call) => call.threadId = threadId
  | .thread threadId,.update (.reading call filters) => call.threadId = threadId ∧ filters = some check
  | .thread threadId,.putRun (.called call) | .thread threadId,.putRun (.authorizing call _) => call.threadId = some threadId
  | .thread threadId,.putRun (.authorizingAssistant call _ filters) | .thread threadId,.putRun (.waiting call _ filters) =>
    call.threadId = some threadId ∧ filters = some check
  | .thread _,.deleteRun (.called _ _) | .thread _,.deleteRun (.authorizing _ _) => True
  | .thread threadId,.deleteRun (.checkpoints _ other) | .thread threadId,.deleteRun (.streams _ other) => other ≠ threadId
  | .thread threadId,.cancel _ (.called call) | .thread threadId,.cancel _ (.authorizing call) =>
    call.threadId = none ∨ call.threadId = some threadId
  | .thread threadId,.cancel told (.looping _ rest deletes _) => (∀ key ∈ told, key.threadId ≠ some threadId) ∧
      (∀ ref ∈ rest, Away threadId s ref) ∧ ∀ key ∈ deletes, key.2 ≠ threadId
  | .thread threadId,.signal key _ => key.threadId ≠ some threadId
  | .thread threadId,.delivering queue _ => queue < s.streams.val.contents.next ∧
      ∀ holder, queue ∈ registered s.streams.val holder → place holder ≠ some threadId
  | .assistant assistantId,.putAssistant (.called call) | .assistant assistantId,.putAssistant (.authorizing call) =>
    call.assistantId = assistantId
  | .assistant assistantId,.patchAssistant (.called call) | .assistant assistantId,.patchAssistant (.authorizing call) =>
    call.assistantId = assistantId
  | .assistant assistantId,.setLatest (.called call) | .assistant assistantId,.setLatest (.authorizing call) => call.1 = assistantId
  | .assistant assistantId,.deleteAssistant (.called other _) | .assistant assistantId,.deleteAssistant (.authorizing other _) =>
    other = assistantId
  | .cron cronId,.updateCron (.called call) | .cron cronId,.updateCron (.authorizing call) => call.cronId = cronId
  | .cron cronId,.deleteCron (.called other) | .cron cronId,.deleteCron (.authorizing other) => other = cronId
  | _,.other _ => True
  | _,_ => False

structure Quiet (check : Metadata J → Bool) (target : Target) (s : World J) (result : World J × List (Mutation J)) : Prop where
  unchanged : Unchanged target s result.1
  keeps : Keeps s result.1
  denied : ∀ u ∈ result.2, Denied check result.1 target u

section quiet
variable {check : Metadata J → Bool} {target : Target} {s : World J}

theorem unchanged_refl (target : Target) (s : World J) : Unchanged target s s := by
  cases target with
  | thread threadId => exact ThreadKept.refl threadId s
  | assistant assistantId => exact ⟨rfl,rfl,rfl,fun _ _ _ => ⟨rfl,rfl⟩⟩
  | cron cronId => exact ⟨rfl,rfl,rfl⟩

theorem quiet_same {tasks : List (Mutation J)} (denied : ∀ u ∈ tasks, Denied check s target u) : Quiet check target s (s,tasks) :=
  ⟨unchanged_refl target s,Keeps.refl s,denied⟩

theorem ended_quiet {result : World J × List (Mutation J)} (same : result.1 = s) (ended : result.2 = []) :
    Quiet check target s result := by
  obtain ⟨world,tasks⟩ := result
  dsimp only at same ended
  subst same ended
  exact quiet_same fun u member => (List.not_mem_nil member).elim

-- The step leaves the world as it is.
theorem goes_quiet {τ ρ : Type} {wrap : τ → Mutation J} {outcome : Outcome τ ρ}
    (denied : ∀ task, outcome = .suspended task → Denied check s target (wrap task)) : Quiet check target s (s,goes wrap outcome) := by
  refine quiet_same fun u member => ?_
  obtain ⟨task,suspends,rfl⟩ := mem_goes member
  exact denied task suspends

theorem served_quiet {τ ρ : Type} {wrap : τ → Mutation J} {result : Server J × Outcome τ ρ} (same : result.1 = s.records.server)
    (denied : ∀ task, result.2 = .suspended task → Denied check s target (wrap task)) :
    Quiet check target s (served s wrap result) := by
  obtain ⟨server,outcome⟩ := result
  dsimp only at same
  subst same
  exact goes_quiet denied

theorem fails_found {s : Store J} {threadId : String} (fails : Fails check s threadId) :
    ∃ ref, s.findThread threadId = some ref ∧ check (s.thread ref).metadata = false := by
  cases found : s.findThread threadId with
  | none =>
    refine absurd ?_ fails.1
    have nowhere := Store.findThread_none.mp found
    simpa [threadRecords,Store.isThread] using nowhere
  | some ref =>
    obtain ⟨live,same⟩ := Store.findThread_some found
    refine ⟨ref,rfl,fails.2 _ (List.mem_map_of_mem (List.mem_filter.mpr ⟨live,?_⟩))⟩
    simpa [Store.isThread] using same

theorem spares_fails {s s' : Store J} {threadId : String} (spares : Spares threadId s s') (fails : Fails check s threadId) :
    Fails check s' threadId := by
  unfold Fails
  rw [spares.records]
  exact fails

theorem server_quiet {threadId : String} {server : Server J} {tasks : List (Mutation J)}
    (spares : Spares threadId s.store server.store)
    (denied : ∀ u ∈ tasks, Denied check (s.withServer server) (.thread threadId) u) :
    Quiet check (.thread threadId) s (s.withServer server,tasks) := ⟨spares_kept spares,spares_keeps spares,denied⟩

theorem away_later {s' : World J} {threadId : String} {ref : Nat} (keeps : Keeps s s') (away : Away threadId s ref) :
    Away threadId s' ref :=
  ⟨lt_of_lt_of_le away.1 keeps.nextRun,by rw [keeps.threads ref away.1]; exact away.2⟩

-- What a suspended task is known to be stays so while others act.
theorem denied_later {s' : World J} {task : Mutation J} (keeps : Keeps s s') (denied : Denied check s target task) :
    Denied check s' target task := by
  cases target with
  | thread threadId =>
    cases task with
    | cancel told task =>
      cases task with
      | looping call rest deletes cancelable =>
        exact ⟨denied.1,fun ref member => away_later keeps (denied.2.1 ref member),denied.2.2⟩
      | _ => exact denied
    | delivering queue message =>
      refine ⟨lt_of_lt_of_le denied.1 keeps.nextQueue,fun holder member => ?_⟩
      exact denied.2 holder (keeps.places holder queue member denied.1)
    | patch task => cases task <;> exact denied
    | delete task => cases task <;> exact denied
    | prune task => cases task <;> exact denied
    | copy task => cases task <;> exact denied
    | update task => cases task <;> exact denied
    | putRun task => cases task <;> exact denied
    | deleteRun task => cases task <;> exact denied
    | _ => exact denied
  | assistant assistantId =>
    cases task with
    | putAssistant task => cases task <;> exact denied
    | patchAssistant task => cases task <;> exact denied
    | setLatest task => cases task <;> exact denied
    | deleteAssistant task => cases task <;> exact denied
    | _ => exact denied
  | cron cronId =>
    cases task with
    | updateCron task => cases task <;> exact denied
    | deleteCron task => cases task <;> exact denied
    | _ => exact denied

theorem aims_denied {task : Mutation J} (aims : Aims target task) : Denied check s target task := by
  cases target with
  | thread threadId =>
    cases task with
    | patch task => cases task with
      | called call => exact aims
      | _ => exact aims.elim
    | delete task => cases task with
      | called other => exact aims
      | _ => exact aims.elim
    | prune task => cases task with
      | called call => exact aims
      | _ => exact aims.elim
    | copy task => cases task with
      | called call => exact aims
      | _ => exact aims.elim
    | update task => cases task with
      | called call => exact aims
      | _ => exact aims.elim
    | putRun task => cases task with
      | called call => exact aims
      | _ => exact aims.elim
    | deleteRun task => cases task with
      | called runId other => trivial
      | _ => exact aims.elim
    | cancel told task => cases task with
      | called call => exact aims.2
      | _ => exact aims.elim
    | _ => exact aims.elim
  | assistant assistantId =>
    cases task with
    | putAssistant task => cases task with
      | called call => exact aims
      | _ => exact aims.elim
    | patchAssistant task => cases task with
      | called call => exact aims
      | _ => exact aims.elim
    | setLatest task => cases task with
      | called call => exact aims
      | _ => exact aims.elim
    | deleteAssistant task => cases task with
      | called other deleteThreads => exact aims
      | _ => exact aims.elim
    | _ => exact aims.elim
  | cron cronId =>
    cases task with
    | updateCron task => cases task with
      | called call => exact aims
      | _ => exact aims.elim
    | deleteCron task => cases task with
      | called other => exact aims
      | _ => exact aims.elim
    | _ => exact aims.elim

end quiet

end InmemRuntime.Refusals
