import InmemRuntime.RecordCreation
import InmemRuntime.CopiedThreads
import InmemRuntime.RunDeletion
import InmemRuntime.StreamLifecycle

namespace InmemRuntime.Mutations
open OrderedDict CheckpointData CheckpointSaver Prune ThreadCopy Streams StreamUpkeep
open ThreadTtl RuntimeStore Serving ThreadOps RunOps TtlSweep AssistantOps RecordCreation

-- A stream manager in a state that its own methods leave.
abbrev Upkept := {m : StreamManager // Maintained m}

-- A cron without its id, its thread and its metadata.
structure CronFields (J : Type) where
  assistantId : String
  schedule : String
  timezone : Option String
  endTime : Option Int
  enabled : Bool
  onRunCompleted : Option String
  payload : Dict String J
  nextRunDate : Int
  updatedAt : Int

-- Everything that the calls of the API change: the store, the checkpoints and
-- the streams. The fields of a cron go by its id, as its metadata does.
structure World (J : Type) where
  records : Records J
  cronFields : Dict String (CronFields J)
  saver : Saver
  streams : Upkept

-- `None`, what a value that is a dictionary holds, and the value of one.
structure Objects (J : Type) extends Json J where
  null : J
  fields : J → Dict String J
  object : Dict String J → J

-- `State.post`, or `State.bulk`.
structure UpdateCall (J : Type) where
  threadId : String
  bulk : Bool
  values : J

-- What the calls use of other packages. `updated` is what a graph does to the
-- saver, `snapshot` the state that it reports and `event` the message about
-- it; `listed` is how an error prints runs.
structure Packages (J : Type) where
  objects : Objects J
  graphs : Graphs
  globalTtl : Option TtlConfig
  serde : Serde
  codec : List UInt8
  streams : StreamLifecycle.Wake
  unpaired : List Nat → String
  checkSchedule : String → Option Fault
  nextDate : String → Int → Option String → Except Fault Int
  updated : UpdateCall J → Saver → Saver
  snapshot : UpdateCall J → Saver → CheckpointPayload J
  event : CheckpointPayload J → List UInt8
  listed : List Run → String

variable {J : Type}

def World.store (s : World J) : Store J := s.records.server.store

def World.withServer (s : World J) (server : Server J) : World J := {s with records := {s.records with server}}

def World.withStore (s : World J) (store : Store J) : World J := s.withServer (s.records.server.withStore store)

@[simp] theorem World.store_withStore (s : World J) (store : Store J) : (s.withStore store).store = store := rfl

-- No code gives a run another thread, or registers a queue in a second place.
structure Keeps (s s' : World J) : Prop where
  nextRun : s.store.runs.next ≤ s'.store.runs.next
  threads : ∀ ref < s.store.runs.next, (s'.store.run ref).threadId = (s.store.run ref).threadId
  stored : (∀ ref ∈ s.store.boundRuns, ref < s.store.runs.next) → ∀ ref ∈ s'.store.boundRuns, ref < s'.store.runs.next
  nextQueue : s.streams.val.contents.next ≤ s'.streams.val.contents.next
  places : ∀ holder, ∀ queue ∈ registered s'.streams.val holder, queue < s.streams.val.contents.next →
    queue ∈ registered s.streams.val holder

-- Whatever other code does between two steps of a call.
structure Change (J : Type) where
  apply : World J → World J
  keeps : ∀ s, Keeps s (apply s)

def Upkept.operate (packages : Packages J) (m : Upkept) (call : StreamLifecycle.Operation) : Upkept × List (Nat × Message) :=
  let done := StreamLifecycle.operate packages.codec packages.streams m.val call
  (⟨done.1,StreamLifecycle.operate_maintained m.property call⟩,done.2)

theorem deliver_touched (m : StreamManager) (queue : Nat) (message : Message) : Touched m (m.deliver queue message) [queue] := by
  refine ⟨⟨_,_,_,rfl⟩,Nat.le_refl _,?_⟩
  intro other _ apart
  exact ObjectHeap.Heap.read_write_other (by simpa using apart)

def Upkept.deliver (m : Upkept) (queue : Nat) (message : Message) : Upkept :=
  ⟨m.val.deliver queue message,(deliver_touched m.val queue message).maintained m.property⟩

-- A call that has its say after one `await handle_event(...)`.
inductive Asking (α : Type) where
  | called (call : α)
  | authorizing (call : α)

structure PruneCall where
  threadIds : List String
  strategy : String
  batchSize : Int

inductive PruneTask where
  | called (call : PruneCall)
  | authorizing (call : PruneCall)
  | deleting (inner : DeleteTask) (rest : List String) (pruned : Nat)
  | checkpointer (orderedIds : List String) (batchSize : Nat)
  | pruning (batch : List String) (rest : List String) (batchSize : Nat) (pruned : Nat)

inductive UpdateTask (J : Type) where
  | called (call : UpdateCall J)
  | authorizing (call : UpdateCall J)
  | reading (call : UpdateCall J) (filters : Filters J)
  | updating (call : UpdateCall J)
  | readingAgain (call : UpdateCall J)
  | finishing (call : UpdateCall J)

inductive DeleteAssistantTask where
  | called (assistantId : String) (deleteThreads : Bool)
  | authorizing (assistantId : String) (deleteThreads : Bool)
  | threads (assistantId : String) (inner : DeleteTask) (rest : List String)
  | warning (assistantId : String) (rest : List String)
  | cancelling (assistantId : String) (told : List RunKey) (inner : CancelTask)
  | signalling (assistantId : String) (action : Action) (told : List RunKey)

structure UpdateCronCall (J : Type) where
  cronId : String
  schedule : Option String
  endTime : Option Int
  clearEndTime : Bool
  enabled : Option Bool
  onRunCompleted : Option String
  payload : Option (Dict String J)
  metadata : Option (Metadata J)
  timezone : Option String

-- `told` are the runs that a cancellation has a control message for.
inductive Mutation (J : Type) where
  | put (task : PutTask J)
  | patch (task : PatchTask J)
  | delete (task : DeleteTask)
  | prune (task : PruneTask)
  | copy (task : CopyTask J)
  | update (task : UpdateTask J)
  | sweep (task : SweepTask)
  | putRun (task : PutRunTask J)
  | deleteRun (task : DeleteRunTask)
  | cancel (told : List RunKey) (task : CancelTask)
  | signal (key : RunKey) (action : Action)
  | delivering (queue : Nat) (message : Message)
  | putAssistant (task : PutAssistantTask J)
  | patchAssistant (task : Asking (PatchAssistantCall J))
  | setLatest (task : Asking (String × Nat))
  | deleteAssistant (task : DeleteAssistantTask)
  | putCron (fields : CronFields J) (task : PutCronTask J)
  | updateCron (task : Asking (UpdateCronCall J))
  | deleteCron (task : Asking String)
  | other (change : Change J)

section threads
variable (packages : Packages J) (w : Wake J)

-- `setdefault("state_updated_at", ...)`.
def filledIn (thread : Thread J) : Thread J :=
  {thread with stateUpdatedAt := some (thread.stateUpdatedAt.getD thread.updatedAt)}

-- `Threads._get_with_filters`, which fills in what the record lacks.
def getWithFilters (s : Store J) (threadId : String) (filters : Filters J) : Store J × Option Nat :=
  match s.findThread threadId with
  | none => (s,none)
  | some ref =>
    if !passes filters (s.thread ref).metadata then (s,none)
    else (s.updateThread ref filledIn,some ref)

def consult (filters : Filters J) (s : Store J) (threadId : String) : Store J := (getWithFilters s threadId filters).1

-- Nothing is missing, so nothing is filled in.
theorem consult_complete {filters : Filters J} {s : Store J} {threadId : String} (complete : ∀ ref, s.findThread threadId = some ref →
    passes filters (s.thread ref).metadata = true → (s.thread ref).stateUpdatedAt.isSome = true) : consult filters s threadId = s := by
  unfold consult getWithFilters
  split
  · rfl
  · rename_i ref found
    split
    · rfl
    · rename_i passed
      obtain ⟨at_,known⟩ := Option.isSome_iff_exists.mp (complete ref found (by simpa using passed))
      refine Store.updateThread_same ?_
      unfold filledIn
      rw [known,Option.getD_some,← known]

-- What the awaited cleanup of `Threads.delete` has done when it is over.
def cleaned (s : World J) (task : DeleteTask) : World J :=
  match task,w.failure with
  | .checkpoints threadId _,none => {s with saver := deleteThread s.saver threadId}
  | .streams threadId _,none => {s with streams := (s.streams.operate packages (.deleteThread threadId)).1}
  | _,_ => s

theorem cleaned_records (s : World J) (task : DeleteTask) : (cleaned packages w s task).records = s.records ∧
    (cleaned packages w s task).cronFields = s.cronFields := by
  unfold cleaned
  split <;> exact ⟨rfl,rfl⟩

def stepDeleteWhole (s : World J) (task : DeleteTask) : World J × Outcome DeleteTask String :=
  let s := cleaned packages w s task
  let result := stepDelete w s.records.server task
  (s.withServer result.1,result.2)

-- A call of `Threads.delete` up to its first await.
def startDelete (s : World J) (threadId : String) : DeleteTask := .authorizing threadId (s.store.findThread threadId)

def prunedThreads (s : Saver) (threadIds : List String) : Saver := threadIds.foldl (pruneThread (max 0) packages.serde) s

-- The saver's part of `Threads.copy`.
def copiedCheckpoints (s : Saver) (threadId newThreadId : String) : Saver :=
  CopiedThreads.copied (fun value => some (packages.unpaired value)) s threadId newThreadId

-- It is done in the step that appends the record.
def copiedSaver (s : World J) : CopyTask J → Saver
  | .authorizingCreate call newId filters =>
    match w.auth,s.store.findThread call.threadId with
    | .ok _,some ref =>
      if !passes filters (s.store.thread ref).metadata || call.custom then s.saver
      else copiedCheckpoints packages s.saver call.threadId newId
    | _,_ => s.saver
  | _ => s.saver

def notAuthorized : Fault := notFound "At least one thread not found or not authorized"

def unsupported (strategy : String) : Fault := unprocessable ("Unsupported prune strategy: " ++ strategy)

def deleteNext (s : World J) (pruned : Nat) : List String → Outcome PruneTask Nat
  | [] => .returned pruned
  | threadId :: rest => .suspended (.deleting (startDelete s threadId) rest pruned)

def pruneNext (batchSize pruned : Nat) : List String → Outcome PruneTask Nat
  | [] => .returned pruned
  | threadIds => .suspended (.pruning (threadIds.take batchSize) (threadIds.drop batchSize) batchSize pruned)

-- From the check of the strategy on.
def startPrune (s : World J) (call : PruneCall) : Outcome PruneTask Nat :=
  if call.strategy = "delete" then deleteNext s 0 call.threadIds
  else if call.strategy = "keep_latest" then
    .suspended (.checkpointer (call.threadIds.filter fun threadId => (s.store.findThread threadId).isSome) (max 1 call.batchSize).toNat)
  else .raised (unsupported call.strategy)

-- `Threads.prune`.
def stepPrune (s : World J) : PruneTask → World J × Outcome PruneTask Nat
  | .called call => if call.threadIds.isEmpty then (s,.returned 0) else (s,.suspended (.authorizing call))
  | .authorizing call =>
    match w.auth with
    | .error fault => (s,.raised fault)
    | .ok none => (s,startPrune s call)
    | .ok (some check) =>
      let found := s.withStore (call.threadIds.foldl (consult (some check)) s.store)
      if call.threadIds.any fun threadId => (getWithFilters s.store threadId (some check)).2.isNone then (found,.raised notAuthorized)
      else (found,startPrune found call)
  | .deleting inner rest pruned =>
    match stepDeleteWhole packages w s inner with
    | (s,.suspended inner) => (s,.suspended (.deleting inner rest pruned))
    | (s,.returned _) => (s,deleteNext s (pruned+1) rest)
    | (s,.raised (.http _)) => (s,deleteNext s pruned rest)
    | (s,.raised .external) => (s,.raised .external)
  | .checkpointer orderedIds batchSize =>
    match w.failure with
    | some fault => (s,.raised fault)
    | none => (s,pruneNext batchSize 0 orderedIds)
  | .pruning batch rest batchSize pruned =>
    match w.failure with
    | some fault => (s,.raised fault)
    | none => ({s with saver := prunedThreads packages s.saver batch},pruneNext batchSize (pruned + batch.length) rest)

def forbidden : Fault := .http ⟨403,"Forbidden"⟩

def inFlight (threadId : String) (runs : List Run) : Fault :=
  conflict ("Thread " ++ threadId ++ " has in-flight runs: " ++ packages.listed runs)

def noGraph (threadId : String) : Fault := .http ⟨400,"Thread '" ++ threadId ++ "' has no assigned graph ID. This usually " ++
  "occurs when no runs have been made on this particular thread. This operation requires a graph ID. Please ensure a run " ++
  "has been made for the thread or manually update the thread metadata (by setting the 'graph_id' field) before running " ++
  "this operation."⟩

-- `State.post` falls back on a run of the thread, whose config names a graph.
def hasGraph (s : Store J) (call : UpdateCall J) (ref : Nat) : Bool :=
  ((s.thread ref).metadata.get? "graph_id").any packages.objects.truthy ||
    !call.bulk && s.boundRuns.any fun run => (s.run run).threadId == call.threadId

def admitUpdate (s : Store J) (call : UpdateCall J) (filters : Filters J) (ref : Nat) : Option Fault :=
  if !passes filters (s.thread ref).metadata then some forbidden
  else if !call.bulk && s.activeOn call.threadId then some (inFlight packages call.threadId ((inflight s call.threadId).map s.run))
  else if !hasGraph packages s call ref then some (noGraph call.threadId)
  else none

-- `State.post` and `State.bulk`. The graph is asked to update its state, then
-- `State.get` reads it back under a handler of its own.
def stepUpdate (s : World J) : UpdateTask J → World J × Outcome (UpdateTask J) Unit × List (Nat × Message)
  | .called call => (s,.suspended (.authorizing call),[])
  | .authorizing call =>
    match w.auth with
    | .error fault => (s,.raised fault,[])
    | .ok filters => (s,.suspended (.reading call filters),[])
  | .reading call filters =>
    match w.auth with
    | .error fault => (s,.raised fault,[])
    | .ok readFilters =>
      match getWithFilters s.store call.threadId readFilters with
      | (_,none) => (s,.raised (threadNotFound call.threadId),[])
      | (store,some ref) =>
        match admitUpdate packages store call filters ref with
        | some fault => (s.withStore store,.raised fault,[])
        | none => (s.withStore store,.suspended (.updating call),[])
  | .updating call =>
    match w.failure with
    | some fault => (s,.raised fault,[])
    | none => ({s with saver := packages.updated call s.saver},.suspended (.readingAgain call),[])
  | .readingAgain call =>
    match w.auth with
    | .error fault => (s,.raised fault,[])
    | .ok filters =>
      match getWithFilters s.store call.threadId filters with
      | (_,none) => (s,.raised (threadNotFound call.threadId),[])
      | (store,some _) => (s.withStore store,.suspended (.finishing call),[])
  | .finishing call =>
    match w.failure with
    | some fault => (s,.raised fault,[])
    | none =>
      let state := packages.snapshot call s.saver
      match setStatus s.store w.now ⟨call.threadId,some state,none⟩ with
      | .error fault => (s,.raised fault,[])
      | .ok store =>
        let published := s.streams.operate packages (.putThread call.threadId ⟨.thread call.threadId,packages.event state,none⟩)
        ({s.withStore store with streams := published.1},.returned (),published.2)

def sweptSaver (s : World J) (task : SweepTask) : World J :=
  match task,w.failure with
  | .deleting _ inner,_ => cleaned packages w s inner
  | .pruning threadId _ _ _,none => {s with saver := prunedThreads packages s.saver [threadId]}
  | _,_ => s

end threads

section runs
variable (packages : Packages J) (w : Wake J)

def cleanedRun (s : World J) (task : DeleteRunTask) : World J :=
  match task,w.failure,w.auth with
  | .authorizing _ threadId,_,.ok (some check) => s.withStore (consult (some check) s.store threadId)
  | .checkpoints (some runId) _,none,_ => {s with saver := DeleteForRuns.deleteForRuns (max 0) packages.serde [runId] s.saver}
  | .streams (some runId) threadId,none,_ => {s with streams := (s.streams.operate packages (.deleteRun ⟨some threadId,runId⟩)).1}
  | _,_,_ => s

-- A run without an id prints as `None`.
def runKey (run : Run) : RunKey := ⟨some run.threadId,run.runId.getD "None"⟩

def Action.text : Action → String
  | .interrupt => "interrupt"
  | .rollback => "rollback"

def consultRuns (s : Store J) (call : CancelCall) (filters : Filters J) : Store J :=
  match filters,call.threadId with
  | none,_ => s
  | some _,some threadId => consult filters s threadId
  | some _,none => ((s.boundRuns.filter fun ref => isRunMatch call (s.run ref)).map fun ref => (s.run ref).threadId).foldl (consult filters) s

def subscribed (s : World J) (runId : Option String) (threadId : String) : Bool :=
  !(s.streams.val.getQueues (runKey ⟨runId,threadId,"",.pending,0,0⟩)).isEmpty

-- `Runs.cancel` as it gathers control messages and deletions. By an assistant,
-- the first candidate is active, so what was gathered is awaited.
def stepCancelWhole (s : World J) (told : List RunKey) (task : CancelTask) :
    World J × List RunKey × Outcome CancelTask (List (Option String × String)) :=
  let wake := {w with queues := subscribed s}
  match task,w.auth with
  | .authorizing call,.ok filters =>
    let candidates := (candidateRuns s.store call filters).map fun ref => runKey (s.store.run ref)
    let s := s.withStore (consultRuns s.store call filters)
    let result := stepCancel wake s.records.server task
    (s.withServer result.1,candidates,result.2)
  | _,_ =>
    let result := stepCancel wake s.records.server task
    (s.withServer result.1,told,result.2)

def sendSignal (s : World J) (key : RunKey) (action : Action) : World J × List (Nat × Message) :=
  let sent := s.streams.operate packages (.put key (controlMessage key (Action.text action)) false)
  ({s with streams := sent.1},sent.2)

end runs

section assistants
variable [DecidableEq J] (packages : Packages J) (w : Wake J)

def World.withTables (s : World J) (tables : AssistantTables J) : World J :=
  {s with records := RecordCreation.withTables packages.objects.toJson s.records tables}

def asking {α ρ : Type} (s : World J) (go : α → Filters J → World J × Except Fault ρ) : Asking α → World J × Outcome (Asking α) ρ
  | .called call => (s,.suspended (.authorizing call))
  | .authorizing call =>
    match w.auth with
    | .error fault => (s,.raised fault)
    | .ok filters =>
      match go call filters with
      | (s,.error fault) => (s,.raised fault)
      | (s,.ok value) => (s,.returned value)

def patchAssistantWhole (s : World J) (call : PatchAssistantCall J) (filters : Filters J) : World J × Except Fault (AssistantRecord J) :=
  let result := patchAssistant packages.objects.toJson w.now w.failure s.records.tables call filters
  (s.withTables packages result.1,result.2)

def setLatestWhole (s : World J) (call : String × Nat) (filters : Filters J) : World J × Except Fault (AssistantRecord J) :=
  let result := setLatest w.now s.records.tables call.1 call.2 filters
  (s.withTables packages result.1,result.2)

def cronAssistant (s : World J) (cron : Cron) : Option String := (s.cronFields.get? cron.cronId).map CronFields.assistantId

-- The assistant goes with its versions and its crons.
def removeAssistantWhole (s : World J) (assistantId : String) : World J :=
  let removed := s.withTables packages (removeAssistant s.records.tables assistantId)
  removed.withStore {removed.store with crons := s.store.crons.filter fun cron => cronAssistant s cron != some assistantId}

def assistantGone (assistantId : String) : Fault := notFound ("Assistant with ID " ++ assistantId ++ " not found")

def threadsOf (s : World J) (assistantId : String) : List String :=
  (s.store.liveThreads.filter fun ref =>
    decide ((s.store.thread ref).metadata.get? "assistant_id" = some (packages.objects.text assistantId))).map fun ref =>
      (s.store.thread ref).threadId

def deleteThreadsNext (s : World J) (assistantId : String) : List String → Outcome DeleteAssistantTask String
  | [] => .suspended (.cancelling assistantId [] (.authorizing ⟨none,.interrupt,none,none,some assistantId⟩))
  | threadId :: rest => .suspended (.threads assistantId (startDelete s threadId) rest)

-- `Assistants.delete`: its threads one by one, a cancellation of its runs and
-- then the assistant.
def stepDeleteAssistant (s : World J) :
    DeleteAssistantTask → World J × Outcome DeleteAssistantTask String × List (Nat × Message)
  | .called assistantId deleteThreads => (s,.suspended (.authorizing assistantId deleteThreads),[])
  | .authorizing assistantId deleteThreads =>
    match w.auth with
    | .error fault => (s,.raised fault,[])
    | .ok filters =>
      match s.records.tables.find assistantId with
      | none => (s,.raised (assistantGone assistantId),[])
      | some a =>
        if !passes filters a.metadata then (s,.raised (assistantGone assistantId),[])
        else (s,deleteThreadsNext s assistantId (if deleteThreads then threadsOf packages s assistantId else []),[])
  | .threads assistantId inner rest =>
    match stepDeleteWhole packages w s inner with
    | (s,.suspended inner) => (s,.suspended (.threads assistantId inner rest),[])
    | (s,.returned _) => (s,deleteThreadsNext s assistantId rest,[])
    | (s,.raised (.http _)) => (s,.suspended (.warning assistantId rest),[])
    | (s,.raised .external) => (s,.raised .external,[])
  | .warning assistantId rest => (s,deleteThreadsNext s assistantId rest,[])
  | .cancelling assistantId told inner =>
    match stepCancelWhole w s told inner with
    | (s,told,.suspended inner) => (s,.suspended (.cancelling assistantId told inner),[])
    | (s,told,.returned _) => (s,.suspended (.signalling assistantId .interrupt told),[])
    | (s,_,.raised fault) => (s,.raised fault,[])
  | .signalling assistantId action (key :: rest) =>
    let sent := sendSignal packages s key action
    (sent.1,.suspended (.signalling assistantId action rest),sent.2)
  | .signalling assistantId _ [] => (removeAssistantWhole packages s assistantId,.returned assistantId,[])

end assistants

section crons
variable (packages : Packages J) (w : Wake J)

-- `config.configurable.cron_id` of a payload.
def withCronId (payload : Dict String J) (cronId : String) : Dict String J :=
  let fields := fun (value : Option J) => ((value.filter packages.objects.truthy).map packages.objects.fields).getD .empty
  let config := fields (payload.get? "config")
  let configurable := (fields (config.get? "configurable")).insert "cron_id" (packages.objects.text cronId)
  payload.insert "config" (packages.objects.object (config.insert "configurable" (packages.objects.object configurable)))

def PutCronTask.call : PutCronTask J → PutCronCall J
  | .called call | .authorizing call _ | .authorizingAssistant call _ _ _ | .authorizingThread call _ _ _ => call

-- `fields` has what the call says; the rest is filled in.
def newFields (fields : CronFields J) (call : PutCronCall J) (cronId : String) : CronFields J :=
  let assistantId := match packages.graphs.assistantId call.assistant with
    | .ok assistantId => assistantId
    | .error _ => call.assistant
  {fields with
    assistantId
    onRunCompleted := if call.threadId.isSome then none else some (fields.onRunCompleted.getD "delete")
    payload := (withCronId packages fields.payload cronId).insert "assistant_id" (packages.objects.text assistantId)
    nextRunDate := match packages.nextDate fields.schedule w.now fields.timezone with
      | .ok date => date
      | .error _ => w.now
    updatedAt := w.now}

-- `Crons.put`, with the fields of the cron that its step appends.
def stepPutCronWhole (s : World J) (fields : CronFields J) (task : PutCronTask J) :
    World J × Outcome (PutCronTask J) (List String) :=
  let result := stepPutCron packages.graphs w s.records task
  let cronFields := match result.1.server.store.crons.drop s.store.crons.length with
    | [] => s.cronFields
    | cron :: _ => s.cronFields.insert cron.cronId (newFields packages w fields (PutCronTask.call task) cron.cronId)
  ({s with records := result.1, cronFields},result.2)

def UpdateCronCall.empty (call : UpdateCronCall J) : Bool :=
  !(call.clearEndTime || call.schedule.isSome || call.endTime.isSome || call.enabled.isSome || call.onRunCompleted.isSome ||
    call.payload.isSome || call.metadata.isSome || call.timezone.isSome)

def nothingToUpdate : Fault := .http ⟨400,"No fields to update"⟩

def cronMissing (cronId : String) : Fault := notFound ("Cron '" ++ cronId ++ "' not found")

-- The fields are written one by one, so a bad schedule leaves the time zone.
def rescheduled (call : UpdateCronCall J) (fields : CronFields J) : CronFields J × Option Fault :=
  let zoned := {fields with timezone := call.timezone <|> fields.timezone}
  let dated := fun (fields : CronFields J) => match packages.nextDate fields.schedule w.now fields.timezone with
    | .ok nextRunDate => ({fields with nextRunDate},none)
    | .error fault => (fields,some fault)
  match call.schedule with
  | some schedule =>
    match packages.checkSchedule schedule with
    | some fault => (zoned,some fault)
    | none => dated {zoned with schedule}
  | none => if call.timezone.isSome then dated zoned else (zoned,none)

-- The assistant of a payload stays, and so does the id of its cron.
def mergedPayload (existing payload : Dict String J) (cronId : String) : Dict String J :=
  let merged := existing.update payload.entries
  let assistant := (existing.get? "assistant_id" <|> merged.get? "assistant_id").getD packages.objects.null
  withCronId packages (merged.insert "assistant_id" assistant) cronId

def updatedFields (call : UpdateCronCall J) (fields : CronFields J) : CronFields J :=
  {fields with
    endTime := if call.clearEndTime then none else call.endTime <|> fields.endTime
    enabled := call.enabled.getD fields.enabled
    onRunCompleted := call.onRunCompleted <|> fields.onRunCompleted
    payload := match call.payload with
      | none => fields.payload
      | some payload => mergedPayload packages fields.payload payload call.cronId
    updatedAt := w.now}

def findCron (s : World J) (cronId : String) : Option Cron := s.store.crons.find? fun cron => cron.cronId == cronId

def cronMetadata (s : World J) (cronId : String) : Metadata J := (s.records.cronMetadata.get? cronId).getD .empty

def writeCron (s : World J) (cronId : String) (fields : CronFields J) (metadata : Metadata J) : World J :=
  {s with
    records := {s.records with cronMetadata := s.records.cronMetadata.insert cronId metadata}
    cronFields := s.cronFields.insert cronId fields}

-- `Crons.update` after its auth handler has answered.
def updateCron (s : World J) (call : UpdateCronCall J) (filters : Filters J) : World J × Except Fault String :=
  if call.empty then (s,.error nothingToUpdate)
  else match findCron s call.cronId,s.cronFields.get? call.cronId with
    | some cron,some fields =>
      let metadata := cronMetadata s cron.cronId
      if !passes filters metadata then (s,.error (cronMissing call.cronId))
      else match rescheduled packages w call fields with
        | (fields,some fault) => (writeCron s cron.cronId fields metadata,.error fault)
        | (fields,none) =>
          (writeCron s cron.cronId (updatedFields packages w call fields)
            (metadata.update ((call.metadata.map Dict.entries).getD [])),.ok cron.cronId)
    | _,_ => (s,.error (cronMissing call.cronId))

-- `Crons.delete` after its auth handler has answered; `false` is no iterator.
def deleteCron (s : World J) (cronId : String) (filters : Filters J) : World J × Except Fault Bool :=
  let crons := s.store.crons.filter fun cron => !(cron.cronId == cronId && passes filters (cronMetadata s cron.cronId))
  (s.withStore {s.store with crons},.ok (decide (crons.length < s.store.crons.length)))

end crons

section pool
variable [DecidableEq J] (packages : Packages J)

def deliveries (chosen : List (Nat × Message)) : List (Mutation J) := chosen.map fun row => .delivering row.1 row.2

def goes {τ ρ : Type} (wrap : τ → Mutation J) : Outcome τ ρ → List (Mutation J)
  | .suspended task => [wrap task]
  | .returned _ => []
  | .raised _ => []

omit [DecidableEq J] in
theorem mem_goes {τ ρ : Type} {wrap : τ → Mutation J} {outcome : Outcome τ ρ} {u : Mutation J} (member : u ∈ goes wrap outcome) :
    ∃ task, outcome = .suspended task ∧ u = wrap task := by
  cases outcome with
  | suspended task => exact ⟨task,rfl,List.mem_singleton.mp member⟩
  | returned value => exact (List.not_mem_nil member).elim
  | raised fault => exact (List.not_mem_nil member).elim

def served {τ ρ : Type} (s : World J) (wrap : τ → Mutation J) (result : Server J × Outcome τ ρ) : World J × List (Mutation J) :=
  (s.withServer result.1,goes wrap result.2)

def went {τ ρ : Type} (wrap : τ → Mutation J) (result : World J × Outcome τ ρ) : World J × List (Mutation J) :=
  (result.1,goes wrap result.2)

-- The gathered coroutines of a cancellation become tasks of their own.
def gathered (action : Action) (told : List RunKey) (deletes : List (Option String × String)) : List (Mutation J) :=
  (told.map fun key => .signal key action) ++ deletes.map fun key => .deleteRun (.called key.1 key.2)

def CancelTask.call : CancelTask → CancelCall
  | .called call | .authorizing call | .looping call _ _ _ => call

def wentCancel (task : CancelTask) (result : World J × List RunKey × Outcome CancelTask (List (Option String × String))) :
    World J × List (Mutation J) :=
  match result with
  | (s,told,.suspended task) => (s,[.cancel told task])
  | (s,told,.returned deletes) => (s,gathered (CancelTask.call task).action told deletes)
  | (s,_,.raised _) => (s,[])

def resume (w : Wake J) (s : World J) : Mutation J → World J × List (Mutation J)
  | .put task => served s .put (stepPut w s.records.server task)
  | .patch task => served s .patch (stepPatch w s.records.server task)
  | .delete task => went .delete (stepDeleteWhole packages w s task)
  | .prune task => went .prune (stepPrune packages w s task)
  | .copy task => served {s with saver := copiedSaver packages w s task} .copy (stepCopy w s.records.server task)
  | .update task =>
    let result := stepUpdate packages w s task
    (result.1,goes .update result.2.1 ++ deliveries result.2.2)
  | .sweep task =>
    served (sweptSaver packages w s task) .sweep (stepSweep packages.globalTtl w s.records.server task)
  | .putRun task => served s .putRun (stepPutRun packages.objects.text w s.records.server task)
  | .deleteRun task =>
    let cleaned := cleanedRun packages w s task
    served cleaned .deleteRun (stepDeleteRun w cleaned.records.server task)
  | .cancel told task => wentCancel task (stepCancelWhole w s told task)
  | .signal key action =>
    let sent := sendSignal packages s key action
    (sent.1,deliveries sent.2)
  | .delivering queue message => ({s with streams := s.streams.deliver queue message},[])
  | .putAssistant task =>
    let result := stepPutAssistant packages.objects.toJson w s.records task
    ({s with records := result.1},result.2.toList.map .putAssistant)
  | .patchAssistant task => went .patchAssistant (asking w s (patchAssistantWhole packages w s) task)
  | .setLatest task => went .setLatest (asking w s (setLatestWhole packages w s) task)
  | .deleteAssistant task =>
    let result := stepDeleteAssistant packages w s task
    (result.1,goes .deleteAssistant result.2.1 ++ deliveries result.2.2)
  | .putCron fields task => went (.putCron fields) (stepPutCronWhole packages w s fields task)
  | .updateCron task => went .updateCron (asking w s (updateCron packages w s) task)
  | .deleteCron task => went .deleteCron (asking w s (deleteCron s) task)
  | .other change => (change.apply s,[])

abbrev Pool (J : Type) := TaskPool.Pool (World J) (Mutation J)

abbrev Event (J : Type) := TaskPool.Event (Mutation J) (Wake J)

abbrev Runs : Pool J → List (Pool J × Event J) → Pool J → Prop := TaskPool.Runs (resume packages)

end pool

end InmemRuntime.Mutations
