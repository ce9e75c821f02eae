import InmemRuntime.RecordCreation
import InmemRuntime.PythonJson
import InmemRuntime.Histories

namespace InmemRuntime.CronRecords
open ThreadTtl PythonJson

inductive OnRunCompleted where
  | delete
  | keep
deriving DecidableEq

-- An id is given by its text. A payload is a value, or the dictionary object
-- that holds it.
structure CronRecordOf (P : Type) where
  cronId : String
  assistantId : String
  threadId : Option String
  userId : Option String
  endTime : Option Int
  schedule : String
  timezone : Option String
  payload : P
  nextRunDate : Int
  metadata : Fields
  onRunCompleted : Option OnRunCompleted
  enabled : Bool
  createdAt : Int
  updatedAt : Int

abbrev CronRecord := CronRecordOf Fields

variable {P : Type}

-- What the calls use of other packages: `croniter.is_valid`, `next_cron_date`,
-- the text of `UUID(...)`, `get_assistant_id` and `SYSTEM_ASSISTANT_IDS`.
structure Packages where
  isValid : String → Bool
  nextCronDate : String → Int → Option String → Except Fault Int
  uuid : String → Option String
  getAssistantId : Json → Except Fault String
  system : List String

abbrev Filters := Option (Fields → Bool)

def passes (filters : Filters) (metadata : Fields) : Bool := filters.all (· metadata)

-- What one call finds: the clock as it is read twice, the next `uuid7()`, the
-- user, what the handlers answer, and the assistants and the threads there are.
structure Wake where
  now : Int
  later : Int
  newId : String
  userId : Option String
  auth : Except Fault Filters
  assistantAuth : Except Fault Filters
  threadAuth : Except Fault Filters
  assistants : List (String × Fields)
  threads : List (String × Fields)

def invalidSchedule (schedule : String) : Fault := unprocessable ("Invalid cron schedule: '" ++ schedule ++
  "'. Reason: Invalid cron schedule. " ++
  "Ensure the schedule uses the standard cron format (minute hour day_of_month month day_of_week). " ++
  "Example: '*/5 * * * *' for every 5 minutes.")

def invalidThread (threadId : String) : Fault := unprocessable ("Invalid thread ID " ++ threadId ++ ". Expected a UUID.")

def nothingToUpdate : Fault := .http ⟨400,"No fields to update"⟩

def cronMissing (cronId : String) : Fault := notFound ("Cron '" ++ cronId ++ "' not found")

section payloads

def setKey {α : Type} (fields : List (String × α)) (key : String) (value : α) : List (String × α) := merge fields [(key,value)]

-- `fields[key]`, which raises if there is none.
def subscript (fields : Fields) (key : String) : Except Fault Json :=
  match fields.lookup key with
  | none => .error .external
  | some value => .ok value

-- `config if config is not None else \x7b\x7d`; what is no dictionary raises at
-- its first use.
def unlessNone : Option Json → Except Fault Fields
  | none | some .null => .ok []
  | some (.obj fields) => .ok fields
  | some _ => .error .external

-- `value or \x7b\x7d`, likewise.
def orEmpty (value : Option Json) : Except Fault Fields :=
  match value.filter truthy with
  | none => .ok []
  | some (.obj fields) => .ok fields
  | some _ => .error .external

-- `config.configurable.cron_id` of a payload.
def withCronId (read : Option Json → Except Fault Fields) (payload : Fields) (cronId : String) : Except Fault Fields := do
  let config ← read (payload.lookup "config")
  let configurable ← read (config.lookup "configurable")
  return setKey payload "config" (.obj (setKey config "configurable" (.obj (setKey configurable "cron_id" (.str cronId)))))

-- The assistant of a payload stays, and so does the id of its cron.
def mergedPayload (existing payload : Fields) (cronId : String) : Except Fault Fields :=
  let merged := merge existing payload
  let assistant := ((existing.lookup "assistant_id").or (merged.lookup "assistant_id")).getD .null
  withCronId orEmpty (setKey merged "assistant_id" assistant) cronId

end payloads

section putting
variable (packages : Packages) (w : Wake)

structure PutCallOf (P : Type) where
  payload : Option P
  schedule : String
  cronId : Option String
  threadId : Option String
  onRunCompleted : Option OnRunCompleted
  endTime : Option Int
  metadata : Option Fields
  enabled : Bool
  timezone : Option String

abbrev PutCall := PutCallOf Fields

-- `_validate_cron_schedule_or_throw`.
def validateSchedule (schedule : String) : Except Fault Unit :=
  if packages.isValid schedule then .ok () else .error (invalidSchedule schedule)

def threadOf (threadId : Option String) : Except Fault (Option String) :=
  match threadId.filter (· != "") with
  | none => .ok none
  | some threadId =>
    match packages.uuid threadId with
    | none => .error (invalidThread threadId)
    | some threadId => .ok (some threadId)

-- A record of that id whose metadata the filters accept.
def visible (rows : List (String × Fields)) (id : String) (filters : Filters) (missing : Fault) : Except Fault Unit :=
  match rows.find? fun row => row.1 == id with
  | none => .error missing
  | some row => if passes filters row.2 then .ok () else .error missing

def checkAssistant (assistantId : String) : Except Fault Unit := do
  let filters ← if packages.system.contains assistantId then .ok none else w.assistantAuth
  visible w.assistants assistantId filters (RecordCreation.cronAssistantMissing assistantId)

def checkThread : Option String → Except Fault Unit
  | none => .ok ()
  | some threadId => do
    let filters ← w.threadAuth
    visible w.threads threadId filters (RecordCreation.cronThreadMissing threadId)

-- What the call has in hand once it is allowed and everything it names is there.
structure Draft (P : Type) where
  cronId : String
  threadId : Option String
  payload : P
  assistantId : String
  filters : Filters

def draft (call : PutCall) : Except Fault (Draft Fields) := do
  let cronId := call.cronId.getD w.newId
  let threadId ← threadOf packages call.threadId
  let payload ← withCronId unlessNone (call.payload.getD []) cronId
  let filters ← w.auth
  validateSchedule packages call.schedule
  let named ← subscript payload "assistant_id"
  let assistantId ← packages.getAssistantId named
  checkAssistant packages w assistantId
  checkThread w threadId
  return ⟨cronId,threadId,setKey payload "assistant_id" (.str assistantId),assistantId,filters⟩

def newCron (call : PutCallOf P) (d : Draft P) (nextRunDate : Int) : CronRecordOf P :=
  ⟨d.cronId,d.assistantId,d.threadId,w.userId,call.endTime,call.schedule,call.timezone,d.payload,nextRunDate,call.metadata.getD [],
    if d.threadId.isSome then none else some (call.onRunCompleted.getD .delete),call.enabled,w.now,w.now⟩

-- `Crons.put`; what is answered is what the iterator yields.
def put (crons : List CronRecord) (call : PutCall) : List CronRecord × Except Fault (List CronRecord) :=
  match draft packages w call with
  | .error fault => (crons,.error fault)
  | .ok d =>
    match crons.find? fun c => c.cronId == d.cronId with
    | some existing => (crons,.ok (if passes d.filters existing.metadata then [existing] else []))
    | none =>
      match packages.nextCronDate call.schedule w.now call.timezone with
      | .error fault => (crons,.error fault)
      | .ok date => (crons ++ [newCron w call d date],.ok [newCron w call d date])

end putting

section updating
variable (packages : Packages) (w : Wake)

structure UpdateCallOf (P : Type) where
  cronId : String
  schedule : Option String
  endTime : Option Int
  clearEndTime : Bool
  enabled : Option Bool
  onRunCompleted : Option OnRunCompleted
  payload : Option P
  metadata : Option Fields
  timezone : Option String

abbrev UpdateCall := UpdateCallOf Fields

def UpdateCallOf.hasUpdates (call : UpdateCallOf P) : Bool :=
  call.clearEndTime || call.schedule.isSome || call.endTime.isSome || call.enabled.isSome || call.onRunCompleted.isSome ||
    call.payload.isSome || call.metadata.isSome || call.timezone.isSome

-- What is written of a record before something raises.
abbrev Writing (P : Type) := CronRecordOf P × Except Fault Unit

def dated (c : CronRecordOf P) : Writing P :=
  match packages.nextCronDate c.schedule w.now c.timezone with
  | .error fault => (c,.error fault)
  | .ok date => ({c with nextRunDate := date},.ok ())

-- The time zone is written first, then the schedule and then the date.
def reschedule (call : UpdateCallOf P) (c : CronRecordOf P) : Writing P :=
  let c := {c with timezone := call.timezone.or c.timezone}
  match call.schedule with
  | some schedule =>
    match validateSchedule packages schedule with
    | .error fault => (c,.error fault)
    | .ok () => dated packages w {c with schedule}
  | none => if call.timezone.isSome then dated packages w c else (c,.ok ())

def writeFields (call : UpdateCallOf P) (c : CronRecordOf P) : CronRecordOf P :=
  {c with
    endTime := if call.clearEndTime then none else call.endTime.or c.endTime
    enabled := call.enabled.getD c.enabled
    onRunCompleted := call.onRunCompleted.or c.onRunCompleted
    metadata := (call.metadata.map (merge c.metadata)).getD c.metadata}

def writePayload (call : UpdateCall) (c : CronRecord) : Writing Fields :=
  match call.payload with
  | none => ({c with updatedAt := w.later},.ok ())
  | some payload =>
    match mergedPayload c.payload payload call.cronId with
    | .error fault => (c,.error fault)
    | .ok payload => ({c with payload, updatedAt := w.later},.ok ())

def updateRecord (call : UpdateCall) (c : CronRecord) : Writing Fields :=
  match reschedule packages w call c with
  | (c,.error fault) => (c,.error fault)
  | (c,.ok ()) => writePayload w call (writeFields call c)

-- The record that `next(...)` finds is changed where it is.
def writeFirst (named : CronRecordOf P → Bool) (c' : CronRecordOf P) : List (CronRecordOf P) → List (CronRecordOf P)
  | [] => []
  | c :: rest => if named c then c' :: rest else c :: writeFirst named c' rest

def isCron (cronId : String) (c : CronRecordOf P) : Bool := c.cronId == cronId

-- The cron that an update goes to.
def found (crons : List (CronRecordOf P)) (call : UpdateCallOf P) (filters : Filters) : Except Fault (CronRecordOf P) :=
  if !call.hasUpdates then .error nothingToUpdate
  else match crons.find? (isCron call.cronId) with
    | none => .error (cronMissing call.cronId)
    | some c => if passes filters c.metadata then .ok c else .error (cronMissing call.cronId)

-- `Crons.update`.
def update (crons : List CronRecord) (call : UpdateCall) : List CronRecord × Except Fault CronRecord :=
  match w.auth with
  | .error fault => (crons,.error fault)
  | .ok filters =>
    match found crons call filters with
    | .error fault => (crons,.error fault)
    | .ok c =>
      let (c',outcome) := updateRecord packages w call c
      (writeFirst (isCron call.cronId) c' crons,outcome.map fun _ => c')

end updating

-- `Crons.set_next_run_date`.
def setNextRunDate (crons : List (CronRecordOf P)) (cronId : String) (nextRunDate : Int) : List (CronRecordOf P) :=
  match crons.find? (isCron cronId) with
  | none => crons
  | some c => writeFirst (isCron cronId) {c with nextRunDate} crons

-- `Crons.delete`, with the id if something was deleted.
def delete (w : Wake) (crons : List (CronRecordOf P)) (cronId : String) : List (CronRecordOf P) × Except Fault (List String) :=
  match w.auth with
  | .error fault => (crons,.error fault)
  | .ok filters =>
    let kept := crons.filter fun c => !(isCron cronId c && passes filters c.metadata)
    (kept,.ok (if kept.length < crons.length then [cronId] else []))

section histories

inductive Operation where
  | put (call : PutCall)
  | update (call : UpdateCall)
  | setNextRunDate (cronId : String) (nextRunDate : Int)
  | delete (cronId : String)

def step (packages : Packages) (crons : List CronRecord) : Wake × Operation → List CronRecord
  | (w,.put call) => (put packages w crons call).1
  | (w,.update call) => (update packages w crons call).1
  | (_,.setNextRunDate cronId nextRunDate) => setNextRunDate crons cronId nextRunDate
  | (w,.delete cronId) => (delete w crons cronId).1

abbrev Runs (packages : Packages) : List (List CronRecord × (Wake × Operation)) → List CronRecord → Prop :=
  Histories.Runs (step packages) []

end histories

section records

variable {crons : List (CronRecordOf P)} {cronId : String} {c c' : CronRecordOf P}

theorem mem_writeFirst {named : CronRecordOf P → Bool} {x : CronRecordOf P} (member : x ∈ writeFirst named c' crons) : x ∈ crons ∨ x = c' := by
  induction crons with
  | nil => cases member
  | cons first rest ih =>
    unfold writeFirst at member
    split at member
    · rcases List.mem_cons.mp member with rfl | later
      · exact .inr rfl
      · exact .inl (List.mem_cons_of_mem _ later)
    · rcases List.mem_cons.mp member with rfl | later
      · exact .inl List.mem_cons_self
      · exact (ih later).imp (List.mem_cons_of_mem _) id

-- A list changes with the record that is written over.
theorem writeFirst_same {named : CronRecordOf P → Bool} (stored : crons.find? named = some c) : writeFirst named c' crons = crons ↔ c' = c := by
  induction crons with
  | nil => cases stored
  | cons first rest ih =>
    rw [List.find?_cons] at stored
    unfold writeFirst
    cases here : named first with
    | true =>
      rw [here] at stored
      cases stored
      simp
    | false =>
      rw [here] at stored
      simpa using ih stored

theorem find_writeFirst {named : CronRecordOf P → Bool} (stored : crons.find? named = some c) (same : named c' = true) :
    (writeFirst named c' crons).find? named = some c' := by
  induction crons with
  | nil => cases stored
  | cons first rest ih =>
    rw [List.find?_cons] at stored
    unfold writeFirst
    cases here : named first with
    | true => simp [same]
    | false =>
      rw [here] at stored
      rw [if_neg Bool.false_ne_true,List.find?_cons_of_neg (by simp [here])]
      exact ih stored

theorem found_parts {call : UpdateCallOf P} {filters : Filters} (finds : found crons call filters = .ok c) :
    crons.find? (isCron call.cronId) = some c ∧ c ∈ crons ∧ c.cronId = call.cronId ∧ passes filters c.metadata = true := by
  unfold found at finds
  split at finds
  · cases finds
  · split at finds
    · cases finds
    · rename_i stored
      split at finds
      · rename_i allowed
        cases finds
        exact ⟨stored,List.mem_of_find?_eq_some stored,by simpa [isCron] using List.find?_some stored,allowed⟩
      · cases finds

end records
end InmemRuntime.CronRecords
