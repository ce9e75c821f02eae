import InmemRuntime.Tasks
import InmemRuntime.AssistantOps

namespace InmemRuntime.RecordCreation
open OrderedDict ThreadTtl RuntimeStore Serving ThreadOps RunOps AssistantOps

-- The server with its assistants. `Runs.put` reads them through the view that
-- the store has of them; a cron's metadata goes by its id.
structure Records (J : Type) where
  server : Server J
  tables : AssistantTables J
  cronMetadata : Dict String (Metadata J)

variable {J : Type}

section copying

-- `custom` is `USE_CUSTOM_CHECKPOINTER`.
structure CopyCall where
  threadId : String
  custom : Bool

inductive CopyTask (J : Type) where
  | called (call : CopyCall)
  | authorizingRead (call : CopyCall) (newId : String)
  | authorizingCreate (call : CopyCall) (newId : String) (filters : Filters J)
  | checkpointer (ref : Nat)

def copiedThread (original : Thread J) (newId : String) (now : Int) : Thread J :=
  ⟨newId,.idle,original.metadata,now,now,some now,none,none,none⟩

def copiedTtl (ttls : Dict String TtlState) (threadId newId : String) : Dict String TtlState :=
  match ttls.get? threadId with
  | none => ttls
  | some state =>
    if state.ttlMinutes.isSome then ttls.insert newId ⟨some (state.strategy.getD "delete"),state.ttlMinutes,none⟩ else ttls

-- `Threads.copy`, as far as the store goes. A custom checkpointer is awaited
-- when the thread is there already.
def stepCopy (w : Wake J) (s : Server J) : CopyTask J → Server J × Outcome (CopyTask J) (List Nat)
  | .called call => (s,.suspended (.authorizingRead call w.newId))
  | .authorizingRead call newId => authorized w s fun filters => (s,.suspended (.authorizingCreate call newId filters))
  | .authorizingCreate call newId filters => authorized w s fun _ =>
      match s.store.findThread call.threadId with
      | none => (s,.returned [])
      | some ref =>
        if !passes filters (s.store.thread ref).metadata then (s,.returned [])
        else
          let appended := s.store.appendThread (copiedThread (s.store.thread ref) newId w.now)
          let store := {appended with ttls := copiedTtl s.store.ttls call.threadId newId}
          (s.withStore store,if call.custom then .suspended (.checkpointer s.store.threads.next) else .returned [s.store.threads.next])
  | .checkpointer ref => external w s (s,.returned [ref])

end copying

section assistants
variable [DecidableEq J] (json : Json J)

inductive PutAssistantTask (J : Type) where
  | called (call : PutAssistantCall J)
  | authorizing (call : PutAssistantCall J)

def view (a : AssistantRecord J) : Assistant J := ⟨a.assistantId,a.graphId,a.isSystem json,a.metadata⟩

def withTables (s : Records J) (tables : AssistantTables J) : Records J :=
  {s with server := s.server.withStore {s.server.store with assistants := tables.assistants.map (view json)}, tables}

-- `Assistants.put`.
def stepPutAssistant (w : Wake J) (s : Records J) : PutAssistantTask J → Records J × Option (PutAssistantTask J)
  | .called call => (s,some (.authorizing call))
  | .authorizing call =>
    match w.auth with
    | .error _ => (s,none)
    | .ok filters => (withTables json s (putAssistant json w.now w.failure s.tables call filters).1,none)

end assistants

section crons

-- Of `langgraph_api`: the id behind what a payload calls its assistant, and the
-- ids of the system assistants.
structure Graphs where
  assistantId : String → Except Fault String
  system : List String

-- `assistant` is `payload["assistant_id"]`.
structure PutCronCall (J : Type) where
  cronId : Option String
  assistant : String
  threadId : Option String
  metadata : Metadata J

inductive PutCronTask (J : Type) where
  | called (call : PutCronCall J)
  | authorizing (call : PutCronCall J) (cronId : String)
  | authorizingAssistant (call : PutCronCall J) (cronId : String) (filters : Filters J) (assistantId : String)
  | authorizingThread (call : PutCronCall J) (cronId : String) (filters : Filters J) (threadId : String)

variable (graphs : Graphs)

def cronAssistantMissing (assistantId : String) : Fault := notFound ("Assistant '" ++ assistantId ++ "' not found")

def cronThreadMissing (threadId : String) : Fault := notFound ("Thread with ID '" ++ threadId ++
  "' not found. Please verify the ID is correct and the thread hasn't been deleted or expired.")

-- The text that a cron without a thread shows for it.
def cronThread (threadId : Option String) : String := threadId.getD "None"

-- From the look for an existing cron to the end. The date of the next run may
-- not be found.
def insertCron (w : Wake J) (s : Records J) (call : PutCronCall J) (cronId : String) (filters : Filters J) :
    Records J × Outcome (PutCronTask J) (List String) :=
  match s.server.store.crons.find? fun cron => cron.cronId == cronId with
  | some cron =>
    if !passes filters ((s.cronMetadata.get? cron.cronId).getD .empty) then (s,.returned []) else (s,.returned [cron.cronId])
  | none =>
    match w.failure with
    | some fault => (s,.raised fault)
    | none =>
      let store := {s.server.store with crons := s.server.store.crons ++ [⟨cronId,cronThread call.threadId⟩]}
      ({s with server := s.server.withStore store, cronMetadata := s.cronMetadata.insert cronId call.metadata},.returned [cronId])

def validateAssistant (w : Wake J) (s : Records J) (call : PutCronCall J) (cronId : String) (filters : Filters J)
    (assistantId : String) (assistantFilters : Filters J) : Records J × Outcome (PutCronTask J) (List String) :=
  match s.tables.find assistantId with
  | none => (s,.raised (cronAssistantMissing assistantId))
  | some a =>
    if !passes assistantFilters a.metadata then (s,.raised (cronAssistantMissing assistantId))
    else match call.threadId with
      | none => insertCron w s call cronId filters
      | some threadId => (s,.suspended (.authorizingThread call cronId filters threadId))

-- `Crons.put`; `failure` is also what the check of the schedule raises.
def stepPutCron (w : Wake J) (s : Records J) : PutCronTask J → Records J × Outcome (PutCronTask J) (List String)
  | .called call => (s,.suspended (.authorizing call (call.cronId.getD w.newId)))
  | .authorizing call cronId =>
    match w.auth,w.failure,graphs.assistantId call.assistant with
    | .error fault,_,_ => (s,.raised fault)
    | .ok _,some fault,_ => (s,.raised fault)
    | .ok _,none,.error fault => (s,.raised fault)
    | .ok filters,none,.ok assistantId =>
      if graphs.system.contains assistantId then validateAssistant w s call cronId filters assistantId none
      else (s,.suspended (.authorizingAssistant call cronId filters assistantId))
  | .authorizingAssistant call cronId filters assistantId =>
    match w.auth with
    | .error fault => (s,.raised fault)
    | .ok assistantFilters => validateAssistant w s call cronId filters assistantId assistantFilters
  | .authorizingThread call cronId filters threadId =>
    match w.auth with
    | .error fault => (s,.raised fault)
    | .ok threadFilters =>
      match s.server.store.findThread threadId with
      | none => (s,.raised (cronThreadMissing threadId))
      | some ref =>
        if !passes threadFilters (s.server.store.thread ref).metadata then (s,.raised (cronThreadMissing threadId))
        else insertCron w s call cronId filters

end crons

section pool

inductive Creator (J : Type) where
  | put (task : PutTask J)
  | copy (task : CopyTask J)
  | patch (task : PatchTask J)
  | delete (task : DeleteTask)
  | putRun (task : PutRunTask J)
  | putAssistant (task : PutAssistantTask J)
  | putCron (task : PutCronTask J)

def suspended {τ ρ : Type} (wrap : τ → Creator J) : Outcome τ ρ → List (Creator J)
  | .suspended task => [wrap task]
  | .returned _ | .raised _ => []

def served {τ ρ : Type} (s : Records J) (wrap : τ → Creator J) (result : Server J × Outcome τ ρ) : Records J × List (Creator J) :=
  ({s with server := result.1},suspended wrap result.2)

def resume [DecidableEq J] (json : Json J) (graphs : Graphs) (w : Wake J) (s : Records J) : Creator J → Records J × List (Creator J)
  | .put task => served s .put (stepPut w s.server task)
  | .copy task => served s .copy (stepCopy w s.server task)
  | .patch task => served s .patch (stepPatch w s.server task)
  | .delete task => served s .delete (stepDelete w s.server task)
  | .putRun task => served s .putRun (stepPutRun json.text w s.server task)
  | .putAssistant task =>
    let result := stepPutAssistant json w s task
    (result.1,result.2.toList.map .putAssistant)
  | .putCron task =>
    let result := stepPutCron graphs w s task
    (result.1,suspended .putCron result.2)

abbrev Pool (J : Type) := TaskPool.Pool (Records J) (Creator J)

abbrev Event (J : Type) := TaskPool.Event (Creator J) (Wake J)

abbrev Runs [DecidableEq J] (json : Json J) (graphs : Graphs) : Pool J → List (Pool J × Event J) → Pool J → Prop :=
  TaskPool.Runs (resume json graphs)

-- Calls begin at their first line.
def Creator.fresh : Creator J → Bool
  | .put (.called _) | .copy (.called _) | .patch (.called _) | .delete (.called _) | .putRun (.called _) => true
  | .putAssistant (.called _) | .putCron (.called _) => true
  | _ => false

end pool

end InmemRuntime.RecordCreation
