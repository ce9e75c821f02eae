import InmemRuntime.JsonbContainment
import InmemRuntime.AuthFilters
import InmemRuntime.Paging
import InmemRuntime.Store
import Mathlib.Data.List.Infix
import Mathlib.Data.String.Basic
import Mathlib.Order.WithBot

namespace InmemRuntime.Listings
open PythonJson JsonbContainment AuthFilters Paging
open RuntimeStore (ThreadStatus)

inductive Raised where
  | filter (error : FilterError)
  | typeError
  | http (status : Nat) (detail : String)

-- `str.upper` and `str.lower`, `uuid.UUID`, and which graphs are registered.
structure Environment where
  upper : String → String
  lower : String → String
  uuid : String → Option String
  assertGraphExists : String → Except Raised Unit

-- A record of each kind with the fields that listings read. A key that the
-- record lacks is `none`, a value that is `None` is null.
structure ThreadRow where
  threadId : String
  status : ThreadStatus
  metadata : Fields
  values : Option Json
  createdAt : Int
  updatedAt : Int
  stateUpdatedAt : Option Int

structure AssistantRow where
  assistantId : String
  graphId : String
  name : String
  metadata : Fields
  createdAt : Int
  updatedAt : Int

structure CronRow where
  cronId : String
  assistantId : String
  threadId : Option String
  enabled : Bool
  metadata : Fields
  nextRunDate : Option Int
  endTime : Option Int
  createdAt : Int
  updatedAt : Int

-- `filters` are those of the auth handler. Metadata and values that are not
-- given are empty.
structure ThreadQuery where
  filters : Option Filter
  metadata : Fields
  values : Fields
  status : Option ThreadStatus

structure AssistantQuery where
  filters : Option Filter
  graphId : Option String
  name : Option String
  metadata : Fields

structure CronQuery where
  filters : Option Filter
  threadFilters : Option Filter
  assistantId : Option String
  threadId : Option String
  enabled : Option Bool
  metadata : Fields

-- `not filters or _check_filter_match(metadata, filters)`.
def authorizes (filters : Option Filter) (metadata : Fields) : Except Raised Bool :=
  match filters with
  | none => .ok true
  | some filter => if filter.isEmpty then .ok true else (checkFilterMatch metadata 3 filter).mapError .filter

-- `is_jsonb_contained` of a superset that may be no dictionary: the loop asks
-- it for the first key, and a text or a list that has it cannot be indexed by it.
def contained : Json → Fields → Except Raised Bool
  | .obj held,subset => .ok (isJsonbContained held subset)
  | .str text,(key,_) :: _ => if key.toList <:+: text.toList then .error .typeError else .ok false
  | .arr items,(key,_) :: _ => if pyIn (.str key) items then .error .typeError else .ok false
  | _,_ :: _ => .error .typeError
  | _,[] => .ok true

def metadataFits (metadata subset : Fields) : Bool := subset.isEmpty || isJsonbContained metadata subset

def descending (env : Environment) (sortOrder : Option String) : Bool :=
  !(sortOrder.any fun order => order != "" && env.upper order == "ASC")

-- `sort_by.lower() if sort_by else None`.
def sortField (env : Environment) (sortBy : Option String) : Option String :=
  sortBy.bind fun field => if field = "" then none else some (env.lower field)

section threads
variable (env : Environment)

def valuesFit (thread : ThreadRow) (subset : Fields) : Except Raised Bool :=
  if subset.isEmpty then .ok true else
  match thread.values with
  | none => .ok true
  | some held => contained held subset

def ThreadQuery.test (query : ThreadQuery) (thread : ThreadRow) : Except Raised Bool :=
  authorizes query.filters thread.metadata <&&> .ok (metadataFits thread.metadata query.metadata) <&&>
    valuesFit thread query.values <&&> .ok (query.status.all fun status => thread.status == status)

-- `thread.setdefault("state_updated_at", thread.get("updated_at"))`.
def filled (thread : ThreadRow) : ThreadRow := {thread with stateUpdatedAt := some (thread.stateUpdatedAt.getD thread.updatedAt)}

-- The loop fills in the records that it finds, also when a later one raises.
def scan (test : ThreadRow → Except Raised Bool) : List ThreadRow → List ThreadRow × Except Raised (List ThreadRow)
  | [] => ([],.ok [])
  | thread :: rest =>
    match test thread with
    | .error raised => (thread :: rest,.error raised)
    | .ok answer =>
      let later := scan test rest
      let thread := if answer then filled thread else thread
      (thread :: later.1,later.2.map fun found => if answer then thread :: found else found)

def statusText : ThreadStatus → String
  | .idle => "idle"
  | .busy => "busy"
  | .interrupted => "interrupted"
  | .error => "error"

def threadLe (sortBy sortOrder : Option String) : ThreadRow → ThreadRow → Bool :=
  match sortBy with
  | some "thread_id" => leOn (descending env sortOrder) ThreadRow.threadId
  | some "created_at" => leOn (descending env sortOrder) ThreadRow.createdAt
  | some "updated_at" => leOn (descending env sortOrder) ThreadRow.updatedAt
  | some "state_updated_at" => leOn (descending env sortOrder) fun thread => thread.stateUpdatedAt.getD thread.updatedAt
  | some "status" => leOn (descending env sortOrder) fun thread => statusText thread.status
  | _ => leOn true ThreadRow.updatedAt

def uuidOf (id : String) : Except Raised String :=
  match env.uuid id with
  | some threadId => .ok threadId
  | none => .error (.http 400 ("Invalid thread ID " ++ id))

def idSet (ids : List String) : Except Raised (Option (List String)) :=
  if ids.isEmpty then .ok none else (ids.mapM (uuidOf env)).map some

-- `Threads.search` and `Threads.count`.
def searchThreads (query : ThreadQuery) (ids : List String) (sortBy sortOrder : Option String) (limit : Nat) :
    Search (List ThreadRow) Raised ThreadRow := fun threads offset =>
  match idSet env ids with
  | .error raised => (threads,.error raised)
  | .ok allowed =>
    let scanned := scan (fun thread => if allowed.all (·.contains thread.threadId) then query.test thread else .ok false) threads
    (scanned.1,scanned.2.map fun found => paginate (found.mergeSort (threadLe env sortBy sortOrder)) limit offset)

def countThreads (query : ThreadQuery) (threads : List ThreadRow) : Except Raised Nat := count query.test threads

end threads

section assistants
variable (env : Environment)

def AssistantQuery.test (query : AssistantQuery) (assistant : AssistantRow) : Except Raised Bool :=
  .ok (query.graphId.all fun graphId => graphId == "" || assistant.graphId == graphId) <&&>
    .ok (query.name.all fun name => name == "" || decide ((env.lower name).toList <:+: (env.lower assistant.name).toList)) <&&>
    .ok (metadataFits assistant.metadata query.metadata) <&&> authorizes query.filters assistant.metadata

-- `str(x.get(field, "")).lower() if x.get(field) else ""`.
def caseless (text : String) : String := if text = "" then "" else env.lower text

def assistantLe (sortBy sortOrder : Option String) : AssistantRow → AssistantRow → Bool :=
  match sortField env sortBy with
  | some "assistant_id" => leOn (descending env sortOrder) AssistantRow.assistantId
  | some "graph_id" => leOn (descending env sortOrder) fun assistant => caseless env assistant.graphId
  | some "name" => leOn (descending env sortOrder) fun assistant => caseless env assistant.name
  | some "created_at" => leOn (descending env sortOrder) AssistantRow.createdAt
  | some "updated_at" => leOn (descending env sortOrder) AssistantRow.updatedAt
  | _ => leOn true AssistantRow.createdAt

def knowsGraph (query : AssistantQuery) : Except Raised Unit :=
  match query.graphId with
  | none => .ok ()
  | some graphId => env.assertGraphExists graphId

-- `Assistants.search` and `Assistants.count`.
def searchAssistants (query : AssistantQuery) (sortBy sortOrder : Option String) (limit : Nat) :
    Search (List AssistantRow) Raised AssistantRow := fun assistants offset =>
  (assistants,knowsGraph env query >>= fun _ => (keep (query.test env) assistants).map fun found =>
    paginate (found.mergeSort (assistantLe env sortBy sortOrder)) limit offset)

def countAssistants (query : AssistantQuery) (assistants : List AssistantRow) : Except Raised Nat :=
  knowsGraph env query >>= fun _ => count (query.test env) assistants

end assistants

section crons
variable (env : Environment)

-- A cron without a thread prints its thread id as `None`.
def CronQuery.test (query : CronQuery) (cron : CronRow) : Except Raised Bool :=
  .ok (query.assistantId.all fun assistantId => cron.assistantId == assistantId) <&&>
    .ok (query.threadId.all fun threadId => cron.threadId.getD "None" == threadId) <&&>
    .ok (query.enabled.all fun enabled => cron.enabled == enabled) <&&>
    .ok (metadataFits cron.metadata query.metadata) <&&> authorizes query.filters cron.metadata

-- The loop of `Crons.count`, which is not asked for enabled crons.
def CronQuery.countTest (query : CronQuery) (cron : CronRow) : Except Raised Bool :=
  .ok (query.assistantId.all fun assistantId => cron.assistantId == assistantId) <&&>
    .ok (query.threadId.all fun threadId => cron.threadId.getD "None" == threadId) <&&>
    .ok (metadataFits cron.metadata query.metadata) <&&> authorizes query.filters cron.metadata

-- `threads_by_id.get(str(c["thread_id"]), {}).get("metadata", {})`, where the
-- last record of an id counts.
def threadMetadata (threads : List ThreadRow) (threadId : String) : Fields :=
  match threads.reverse.find? fun thread => thread.threadId == threadId with
  | some thread => thread.metadata
  | none => []

def CronQuery.threadTest (query : CronQuery) (threads : List ThreadRow) (cron : CronRow) : Except Raised Bool :=
  match cron.threadId with
  | none => .ok true
  | some threadId => authorizes query.threadFilters (threadMetadata threads threadId)

def caselessId (id : Option String) : String := env.lower (id.getD "None")

-- `x.get(field) or datetime.min`.
def orMin : Option Int → WithBot Int
  | none => ⊥
  | some date => date

def cronLe (sortBy sortOrder : Option String) : Option (CronRow → CronRow → Bool) :=
  match sortField env sortBy with
  | none => some (leOn true CronRow.createdAt)
  | some "cron_id" => some (leOn (descending env sortOrder) fun cron => caselessId env (some cron.cronId))
  | some "assistant_id" => some (leOn (descending env sortOrder) fun cron => caselessId env (some cron.assistantId))
  | some "thread_id" => some (leOn (descending env sortOrder) fun cron => caselessId env cron.threadId)
  | some "next_run_date" => some (leOn (descending env sortOrder) fun cron => orMin cron.nextRunDate)
  | some "end_time" => some (leOn (descending env sortOrder) fun cron => orMin cron.endTime)
  | some "created_at" => some (leOn (descending env sortOrder) CronRow.createdAt)
  | some "updated_at" => some (leOn (descending env sortOrder) CronRow.updatedAt)
  | some _ => none

def invalidSort (field : String) : Raised := .http 422 ("Invalid sort_by field: '" ++ field ++ "'. Valid options are: " ++
  "cron_id, assistant_id, thread_id, next_run_date, end_time, created_at, updated_at")

def foundCrons (test : CronRow → Except Raised Bool) (query : CronQuery) (threads : List ThreadRow) (crons : List CronRow) :
    Except Raised (List CronRow) := keep test crons >>= keep (query.threadTest threads)

-- `Crons.search` and `Crons.count`.
def searchCrons (threads : List ThreadRow) (query : CronQuery) (sortBy sortOrder : Option String) (limit : Nat) :
    Search (List CronRow) Raised CronRow := fun crons offset =>
  (crons,foundCrons query.test query threads crons >>= fun found =>
    match cronLe env sortBy sortOrder with
    | none => .error (invalidSort ((sortField env sortBy).getD ""))
    | some le => .ok (paginateAhead (found.mergeSort le) limit offset))

def countCrons (threads : List ThreadRow) (query : CronQuery) (crons : List CronRow) : Except Raised Nat :=
  (foundCrons query.countTest query threads crons).map List.length

end crons

end InmemRuntime.Listings
