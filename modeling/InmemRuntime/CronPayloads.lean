import InmemRuntime.CronUpdates
import InmemRuntime.ObjectHeap
import InmemRuntime.Outcomes

namespace InmemRuntime.CronPayloads
open ThreadTtl PythonJson CronRecords CronUpdates

-- What `Crons.put` and `Crons.update` do with payloads of a kind `P`, the
-- dictionaries there are being `S`: the id of the cron is written into what the
-- caller gives, `payload["assistant_id"]` is read and written, and an update is
-- merged into what is stored.
structure Payloads (S P : Type) where
  named : S → Option P → String → S × Except Fault P
  assistant : S → P → Except Fault Json
  assigned : S → P → String → S × P
  merged : S → P → P → String → S × Except Fault P

structure State (S P : Type) where
  objects : S
  crons : List (CronRecordOf P)

variable {S P : Type}

section calls
variable (payloads : Payloads S P) (packages : Packages) (w : Wake)

-- What the caller may do and the assistant that is meant.
def resolve (objects : S) (payload : P) (schedule : String) : Except Fault (Filters × String) := do
  let filters ← w.auth
  validateSchedule packages schedule
  let named ← payloads.assistant objects payload
  let assistantId ← packages.getAssistantId named
  return (filters,assistantId)

-- The assistant and the thread that are named are there.
def refer (assistantId : String) (threadId : Option String) : Except Fault Unit := do
  checkAssistant packages w assistantId
  checkThread w threadId

def draft (objects : S) (call : PutCallOf P) : S × Except Fault (Draft P) :=
  let cronId := call.cronId.getD w.newId
  match threadOf packages call.threadId with
  | .error fault => (objects,.error fault)
  | .ok threadId =>
    match payloads.named objects call.payload cronId with
    | (objects,.error fault) => (objects,.error fault)
    | (objects,.ok payload) =>
      match resolve payloads packages w objects payload call.schedule with
      | .error fault => (objects,.error fault)
      | .ok (filters,assistantId) =>
        let (objects,payload) := payloads.assigned objects payload assistantId
        (objects,(refer packages w assistantId threadId).map fun _ => ⟨cronId,threadId,payload,assistantId,filters⟩)

def put (s : State S P) (call : PutCallOf P) : State S P × Except Fault (List (CronRecordOf P)) :=
  match draft payloads packages w s.objects call with
  | (objects,.error fault) => ({s with objects},.error fault)
  | (objects,.ok d) =>
    match s.crons.find? fun c => c.cronId == d.cronId with
    | some existing => ({s with objects},.ok (if passes d.filters existing.metadata then [existing] else []))
    | none =>
      match packages.nextCronDate call.schedule w.now call.timezone with
      | .error fault => ({s with objects},.error fault)
      | .ok date => (⟨objects,s.crons ++ [newCron w call d date]⟩,.ok [newCron w call d date])

def writePayload (objects : S) (call : UpdateCallOf P) (c : CronRecordOf P) : S × Writing P :=
  match call.payload with
  | none => (objects,{c with updatedAt := w.later},.ok ())
  | some payload =>
    match payloads.merged objects c.payload payload call.cronId with
    | (objects,.error fault) => (objects,c,.error fault)
    | (objects,.ok payload) => (objects,{c with payload, updatedAt := w.later},.ok ())

def updateRecord (objects : S) (call : UpdateCallOf P) (c : CronRecordOf P) : S × Writing P :=
  match reschedule packages w call c with
  | (c,.error fault) => (objects,c,.error fault)
  | (c,.ok ()) => writePayload payloads w objects call (writeFields call c)

def update (s : State S P) (call : UpdateCallOf P) : State S P × Except Fault (CronRecordOf P) :=
  match w.auth with
  | .error fault => (s,.error fault)
  | .ok filters =>
    match found s.crons call filters with
    | .error fault => (s,.error fault)
    | .ok c =>
      let (objects,c',outcome) := updateRecord payloads packages w s.objects call c
      (⟨objects,writeFirst (isCron call.cronId) c' s.crons⟩,outcome.map fun _ => c')

end calls

-- Payloads that no two calls share are values.
section values

def values : Payloads Unit Fields where
  named _ payload cronId := ((),withCronId unlessNone (payload.getD []) cronId)
  assistant _ payload := subscript payload "assistant_id"
  assigned _ payload assistantId := ((),setKey payload "assistant_id" (.str assistantId))
  merged _ existing payload cronId := ((),mergedPayload existing payload cronId)

theorem draft_values (packages : Packages) (w : Wake) (call : PutCall) :
    draft values packages w () call = ((),CronRecords.draft packages w call) := by
  unfold draft CronRecords.draft resolve refer values
  cases threadOf packages call.threadId with
  | error fault => rfl
  | ok threadId =>
    simp only [Bind.bind,Except.bind]
    cases withCronId unlessNone (call.payload.getD []) (call.cronId.getD w.newId) with
    | error fault => rfl
    | ok payload =>
      cases w.auth with
      | error fault => rfl
      | ok filters =>
        cases validateSchedule packages call.schedule with
        | error fault => rfl
        | ok _ =>
          dsimp only
          cases subscript payload "assistant_id" with
          | error fault => rfl
          | ok named =>
            dsimp only
            cases packages.getAssistantId named with
            | error fault => rfl
            | ok assistantId =>
              dsimp only [pure,Except.pure]
              cases checkAssistant packages w assistantId with
              | error fault => rfl
              | ok _ => cases checkThread w threadId <;> rfl

theorem put_values (packages : Packages) (w : Wake) (crons : List CronRecord) (call : PutCall) :
    put values packages w ⟨(),crons⟩ call =
      (⟨(),(CronRecords.put packages w crons call).1⟩,(CronRecords.put packages w crons call).2) := by
  unfold put CronRecords.put
  rw [draft_values]
  cases CronRecords.draft packages w call with
  | error fault => rfl
  | ok d =>
    dsimp only
    cases crons.find? fun c => c.cronId == d.cronId with
    | some existing => rfl
    | none => cases packages.nextCronDate call.schedule w.now call.timezone <;> rfl

theorem updateRecord_values (packages : Packages) (w : Wake) (call : UpdateCall) (c : CronRecord) :
    updateRecord values packages w () call c = ((),CronRecords.updateRecord packages w call c) := by
  unfold updateRecord CronRecords.updateRecord
  rcases reschedule packages w call c with ⟨c,fault | _⟩
  · rfl
  · dsimp only
    unfold writePayload CronRecords.writePayload values
    cases call.payload with
    | none => rfl
    | some payload =>
      dsimp only
      cases mergedPayload (writeFields call c).payload payload call.cronId <;> rfl

theorem update_values (packages : Packages) (w : Wake) (crons : List CronRecord) (call : UpdateCall) :
    update values packages w ⟨(),crons⟩ call =
      (⟨(),(CronRecords.update packages w crons call).1⟩,(CronRecords.update packages w crons call).2) := by
  unfold update CronRecords.update
  cases w.auth with
  | error fault => rfl
  | ok filters =>
    dsimp only
    cases found crons call filters with
    | error fault => rfl
    | ok c => simp only [updateRecord_values]

end values

-- Payloads as the dictionary objects that they are. What `put` is given is stored
-- and written into, and an update shares what is inside.
section objects

def isDict : Json → Bool
  | .obj _ => true
  | _ => false

inductive Slot where
  | dict (ref : Nat)
  | other (value : Json) (plain : isDict value = false)

abbrev Dictionary := List (String × Slot)
abbrev Objects := ObjectHeap.Heap Dictionary

def text (value : String) : Slot := .other (.str value) rfl
def none_ : Slot := .other .null rfl

variable (objects : Objects)

def slot (ref : Nat) (key : String) : Option Slot := (objects.read ref).lookup key
def setIn (ref : Nat) (key : String) (value : Slot) : Objects := objects.write ref (setKey (objects.read ref) key value)

-- `value = d.get(key)`, and if that is None, `d[key] = value = \x7b\x7d`.
def dictUnlessNone (ref : Nat) (key : String) : Objects × Except Fault Nat :=
  match slot objects ref key with
  | none | some (.other .null _) =>
    let (objects,fresh) := objects.alloc []
    (setIn objects ref key (.dict fresh),.ok fresh)
  | some (.dict inner) => (objects,.ok inner)
  | some (.other _ _) => (objects,.error .external)

-- `value or \x7b\x7d`.
def dictOrEmpty : Option Slot → Objects × Except Fault Nat
  | some (.dict inner) =>
    if (objects.read inner).isEmpty then ((objects.alloc []).1,.ok objects.next) else (objects,.ok inner)
  | some (.other value _) => if truthy value then (objects,.error .external) else ((objects.alloc []).1,.ok objects.next)
  | none => ((objects.alloc []).1,.ok objects.next)

-- `payload if payload is not None else \x7b\x7d`.
def opened : Option Nat → Objects × Nat
  | some payload => (objects,payload)
  | none => objects.alloc []

-- The payload that `put` goes on with, and its `configurable`.
def entered (given : Option Nat) : Objects × Except Fault (Nat × Nat) :=
  let (objects,payload) := opened objects given
  match dictUnlessNone objects payload "config" with
  | (objects,.error fault) => (objects,.error fault)
  | (objects,.ok config) =>
    match dictUnlessNone objects config "configurable" with
    | (objects,.error fault) => (objects,.error fault)
    | (objects,.ok configurable) => (objects,.ok (payload,configurable))

def named (given : Option Nat) (cronId : String) : Objects × Except Fault Nat :=
  match entered objects given with
  | (objects,.error fault) => (objects,.error fault)
  | (objects,.ok (payload,configurable)) => (setIn objects configurable "cron_id" (text cronId),.ok payload)

-- What `get_assistant_id` is called with; a dictionary does not hash.
def assistant (payload : Nat) : Except Fault Json :=
  match slot objects payload "assistant_id" with
  | none | some (.dict _) => .error .external
  | some (.other value _) => .ok value

def assigned (payload : Nat) (assistantId : String) : Objects × Nat := (setIn objects payload "assistant_id" (text assistantId),payload)

-- `\x7b**existing, **payload\x7d` with the assistant that there is.
def shallow (existing payload : Nat) : Dictionary :=
  let fields := PythonJson.merge (objects.read existing) (objects.read payload)
  setKey fields "assistant_id" (((slot objects existing "assistant_id").or (fields.lookup "assistant_id")).getD none_)

-- The new payload, its `config` and its `configurable`.
def joined (existing payload : Nat) : Objects × Except Fault (Nat × Nat × Nat) :=
  let (objects,merged) := objects.alloc (shallow objects existing payload)
  match dictOrEmpty objects (slot objects merged "config") with
  | (objects,.error fault) => (objects,.error fault)
  | (objects,.ok config) =>
    match dictOrEmpty objects (slot objects config "configurable") with
    | (objects,.error fault) => (objects,.error fault)
    | (objects,.ok configurable) => (objects,.ok (merged,config,configurable))

def merged (existing payload : Nat) (cronId : String) : Objects × Except Fault Nat :=
  match joined objects existing payload with
  | (objects,.error fault) => (objects,.error fault)
  | (objects,.ok (merged,config,configurable)) =>
    let objects := setIn objects configurable "cron_id" (text cronId)
    let objects := setIn objects config "configurable" (.dict configurable)
    (setIn objects merged "config" (.dict config),.ok merged)

def shared : Payloads Objects Nat := ⟨named,assistant,assigned,merged⟩

end objects

-- A history of calls, in which a caller makes dictionaries, of those that there
-- are already too, and hands them to any number of calls.
section histories

inductive Operation where
  | build (dictionary : Dictionary)
  | put (call : PutCallOf Nat)
  | update (call : UpdateCallOf Nat)
  | setNextRunDate (cronId : String) (nextRunDate : Int)
  | delete (cronId : String)

def step (packages : Packages) (s : State Objects Nat) : Wake × Operation → State Objects Nat
  | (_,.build dictionary) => {s with objects := (s.objects.alloc dictionary).1}
  | (w,.put call) => (put shared packages w s call).1
  | (w,.update call) => (update shared packages w s call).1
  | (_,.setNextRunDate cronId nextRunDate) => {s with crons := setNextRunDate s.crons cronId nextRunDate}
  | (w,.delete cronId) => {s with crons := (delete w s.crons cronId).1}

def empty : State Objects Nat := ⟨⟨fun _ => [],0⟩,[]⟩

abbrev Runs (packages : Packages) : List (State Objects Nat × (Wake × Operation)) → State Objects Nat → Prop :=
  Histories.Runs (step packages) empty

end histories
end InmemRuntime.CronPayloads
