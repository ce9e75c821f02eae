import InmemRuntime.ThreadOps
import InmemRuntime.SystemAssistants
import InmemRuntime.Histories

namespace InmemRuntime.AssistantOps
open OrderedDict ThreadTtl RuntimeStore Serving SystemAssistants

-- A context may be missing from a record, but not from a version.
structure AssistantRecord (J : Type) where
  assistantId : String
  graphId : String
  config : Dict String J
  context : Option J
  metadata : Metadata J
  name : String
  createdAt : Int
  updatedAt : Int
  version : Nat
  description : Option String
deriving DecidableEq

structure AssistantVersion (J : Type) where
  assistantId : String
  version : Nat
  graphId : String
  config : Dict String J
  context : J
  metadata : Metadata J
  createdAt : Int
  name : String
  description : Option String

-- `conn.store["assistants"]` and `conn.store["assistant_versions"]`.
structure AssistantTables (J : Type) where
  assistants : List (AssistantRecord J)
  versions : List (AssistantVersion J)

-- What the code asks of JSON values: whether one counts as true, which one is
-- `\x7b\x7d`, and which one is a text.
structure Json (J : Type) where
  truthy : J → Bool
  bare : J
  text : String → J

variable {J : Type}

def AssistantTables.empty : AssistantTables J := ⟨[],[]⟩

def AssistantTables.find (t : AssistantTables J) (assistantId : String) : Option (AssistantRecord J) :=
  t.assistants.find? fun a => a.assistantId == assistantId

section contexts
variable (json : Json J)

def configurable (config : Dict String J) : Option J := (config.get? "configurable").filter json.truthy

def bothGiven : Fault := .http ⟨400,"Cannot specify both configurable and context. Prefer setting context alone. " ++
  "Context was introduced in LangGraph 0.6.0 and is the long term planned replacement for configurable."⟩

-- The check that both `put` and `patch` begin with; `graph` is what
-- `assert_graph_exists` raises, when it is asked.
def checkContext (graph : Option Fault) (config : Dict String J) (context : Option J) : Except Fault Unit :=
  if (configurable json config).isSome && context.any json.truthy then .error bothGiven
  else match graph with
  | some fault => .error fault
  | none => .ok ()

-- "Keep config and context up to date with one another".
def reconciled (config : Dict String J) (context : Option J) : Dict String J × Option J :=
  match configurable json config with
  | some configured => (config,some configured)
  | none =>
    match context.filter json.truthy with
    | some context => (config.insert "configurable" context,some context)
    | none => (config,context)

end contexts

section putting
variable (json : Json J)

-- `None` metadata is `\x7b\x7d` already.
structure PutAssistantCall (J : Type) where
  assistantId : String
  graphId : String
  config : Dict String J
  context : Option J
  metadata : Metadata J
  ifExists : ThreadOps.OnConflict
  name : String
  description : Option String

def assistantExists (assistantId : String) : Fault := conflict ("Assistant " ++ assistantId ++ " already exists")

def newAssistant (now : Int) (call : PutAssistantCall J) : AssistantRecord J :=
  let (config,context) := reconciled json call.config call.context
  ⟨call.assistantId,call.graphId,config,some ((context.filter json.truthy).getD json.bare),call.metadata,call.name,now,now,1,
    call.description⟩

def newVersion (now : Int) (call : PutAssistantCall J) : AssistantVersion J :=
  let (config,context) := reconciled json call.config call.context
  ⟨call.assistantId,1,call.graphId,config,(context.filter json.truthy).getD json.bare,call.metadata,now,call.name,
    call.description⟩

-- `Assistants.put` after its auth handler has answered.
def putAssistant (now : Int) (graph : Option Fault) (t : AssistantTables J) (call : PutAssistantCall J) (filters : Filters J) :
    AssistantTables J × Except Fault (AssistantRecord J) :=
  match checkContext json graph call.config call.context with
  | .error fault => (t,.error fault)
  | .ok () =>
    match t.find call.assistantId with
    | some existing =>
      if !passes filters existing.metadata then (t,.error (assistantExists call.assistantId))
      else match call.ifExists with
        | .raise => (t,.error (assistantExists call.assistantId))
        | .doNothing => (t,.ok existing)
    | none =>
      let created := newAssistant json now call
      (⟨t.assistants ++ [created],t.versions ++ [newVersion json now call]⟩,.ok created)

end putting

section patching
variable (json : Json J)

structure PatchAssistantCall (J : Type) where
  assistantId : String
  config : Dict String J
  context : Option J
  graphId : Option String
  metadata : Metadata J
  name : Option String
  description : Option String

def assistantMissing (assistantId : String) : Fault := notFound ("Assistant " ++ assistantId ++ " not found")

-- `assistant.update(...)` of the record that `next(...)` finds.
def updateFirst (assistantId : String) (f : AssistantRecord J → AssistantRecord J) : List (AssistantRecord J) → List (AssistantRecord J)
  | [] => []
  | a :: rest => if a.assistantId == assistantId then f a :: rest else a :: updateFirst assistantId f rest

-- `max` of no versions raises.
def nextVersion (t : AssistantTables J) (assistantId : String) : Option Nat :=
  if t.versions.isEmpty then some 1
  else ((t.versions.filter fun v => v.assistantId == assistantId).map AssistantVersion.version).max?.map (· + 1)

def patchedVersion (now : Int) (call : PatchAssistantCall J) (a : AssistantRecord J) (version : Nat) : AssistantVersion J :=
  let (config,context) := reconciled json call.config call.context
  ⟨call.assistantId,version,call.graphId.getD a.graphId,if config.isEmpty then a.config else config,
    context.getD (a.context.getD json.bare),a.metadata.update call.metadata.entries,now,call.name.getD a.name,
    call.description <|> a.description⟩

def patchedAssistant (now : Int) (v : AssistantVersion J) (a : AssistantRecord J) : AssistantRecord J :=
  {a with
    graphId := v.graphId
    config := v.config
    context := some v.context
    metadata := v.metadata
    name := v.name
    description := v.description
    updatedAt := now
    version := v.version}

-- `Assistants.patch` after its auth handler has answered.
def patchAssistant (now : Int) (graph : Option Fault) (t : AssistantTables J) (call : PatchAssistantCall J) (filters : Filters J) :
    AssistantTables J × Except Fault (AssistantRecord J) :=
  match checkContext json (if call.graphId.isSome then graph else none) call.config call.context with
  | .error fault => (t,.error fault)
  | .ok () =>
    match t.find call.assistantId with
    | none => (t,.error (assistantMissing call.assistantId))
    | some a =>
      if !passes filters a.metadata then (t,.error (assistantMissing call.assistantId))
      else match nextVersion t call.assistantId with
        | none => (t,.error .external)
        | some version =>
          let entry := patchedVersion json now call a version
          (⟨updateFirst call.assistantId (patchedAssistant now entry) t.assistants,t.versions ++ [entry]⟩,
            .ok (patchedAssistant now entry a))

end patching

section choosing

def versionMissing (assistantId : String) (version : Nat) : Fault :=
  notFound ("Version " ++ toString version ++ " not found for assistant " ++ assistantId)

-- The assistant and the version that `set_latest` finds.
def chosenVersion (t : AssistantTables J) (assistantId : String) (version : Nat) (filters : Filters J) :
    Except Fault (AssistantRecord J × AssistantVersion J) :=
  match t.find assistantId with
  | none => .error (assistantMissing assistantId)
  | some a =>
    if !passes filters a.metadata then .error (assistantMissing assistantId)
    else match t.versions.find? fun v => v.assistantId == assistantId && v.version == version with
      | none => .error (versionMissing assistantId version)
      | some v => .ok (a,v)

-- The graph and the context stay as they are.
def latestAssistant (now : Int) (v : AssistantVersion J) (a : AssistantRecord J) : AssistantRecord J :=
  {a with
    config := v.config
    metadata := v.metadata
    version := v.version
    updatedAt := now
    name := v.name
    description := v.description}

-- `Assistants.set_latest` after its auth handler has answered.
def setLatest (now : Int) (t : AssistantTables J) (assistantId : String) (version : Nat) (filters : Filters J) :
    AssistantTables J × Except Fault (AssistantRecord J) :=
  match chosenVersion t assistantId version filters with
  | .error fault => (t,.error fault)
  | .ok (a,v) => ({t with assistants := updateFirst assistantId (latestAssistant now v) t.assistants},.ok (latestAssistant now v a))

end choosing

section deleting

def removeAssistant (t : AssistantTables J) (assistantId : String) : AssistantTables J :=
  ⟨t.assistants.filter fun a => a.assistantId != assistantId,t.versions.filter fun v => v.assistantId != assistantId⟩

-- `Assistants.delete` after its auth handler has answered. Deleting the threads
-- and cancelling the runs may raise, and nothing is removed then.
def deleteAssistant (cleanup : Option Fault) (t : AssistantTables J) (assistantId : String) (filters : Filters J) :
    AssistantTables J × Except Fault String :=
  match t.find assistantId with
  | none => (t,.error (notFound ("Assistant with ID " ++ assistantId ++ " not found")))
  | some a =>
    if !passes filters a.metadata then (t,.error (notFound ("Assistant with ID " ++ assistantId ++ " not found")))
    else match cleanup with
      | some fault => (t,.error fault)
      | none => (removeAssistant t assistantId,.ok assistantId)

end deleting

section starting
variable [DecidableEq J] (json : Json J)

def AssistantRecord.isSystem (a : AssistantRecord J) : Bool := a.metadata.get? "created_by" = some (json.text "system")

def AssistantRecord.filled (a : AssistantRecord J) : AssistantRecord J := {a with context := some (a.context.getD json.bare)}

-- What `start_pool` does to the tables that it has loaded.
def startPool (t : AssistantTables J) : AssistantTables J :=
  {t with assistants := removeSystem (AssistantRecord.isSystem json) (AssistantRecord.filled json) [] false t.assistants}

end starting

section histories
variable [DecidableEq J] (json : Json J)

-- The store, and what its file holds.
structure Storage (J : Type) where
  tables : AssistantTables J
  disk : AssistantTables J

inductive Operation (J : Type) where
  | put (call : PutAssistantCall J)
  | patch (call : PatchAssistantCall J)
  | setLatest (assistantId : String) (version : Nat)
  | delete (assistantId : String)
  | flush
  | restart

def answered {ρ : Type} (w : Wake J) (s : Storage J) (go : Filters J → AssistantTables J × Except Fault ρ) : Storage J :=
  match w.auth with
  | .error _ => s
  | .ok filters => {s with tables := (go filters).1}

-- One call, a write of the file (by the flush loop or by `stop_pool`), or a new
-- process on that file.
def step (s : Storage J) : Wake J × Operation J → Storage J
  | (w,.put call) => answered w s (putAssistant json w.now w.failure s.tables call)
  | (w,.patch call) => answered w s (patchAssistant json w.now w.failure s.tables call)
  | (w,.setLatest assistantId version) => answered w s (setLatest w.now s.tables assistantId version)
  | (w,.delete assistantId) => answered w s (deleteAssistant w.failure s.tables assistantId)
  | (_,.flush) => {s with disk := s.tables}
  | (_,.restart) => {s with tables := startPool json s.disk}

abbrev Runs (json : Json J) : List (Storage J × (Wake J × Operation J)) → Storage J → Prop :=
  Histories.Runs (step json) ⟨.empty,.empty⟩

end histories

end InmemRuntime.AssistantOps
