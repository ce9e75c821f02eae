import InmemRuntime.PythonJson
import InmemRuntime.Sequential

namespace InmemRuntime.RunPayloads
open OrderedDict PythonJson RuntimeStore Serving RunOps

-- What Python raises for a value of another type than expected.
inductive Misuse where
  | attributeError
  | typeError
  | valueError
deriving DecidableEq,Repr

-- An assistant's `config` and `context`.
structure Blueprint where
  config : Fields
  context : Json

-- A run's `metadata` and `kwargs`.
structure Payload where
  metadata : Fields
  kwargs : Fields

-- `conn.store` and what its records hold besides: by assistant id, by thread
-- object and by run object.
structure Records where
  store : Store Json
  blueprints : String → Blueprint
  configs : Nat → Fields
  payloads : Nat → Payload

-- The arguments of `Runs.put`.
structure Request where
  assistantId : String
  kwargs : Fields
  threadId : Option String
  userId : Option String
  runId : Option String
  status : RunStatus
  metadata : Metadata Json
  preventInsertIfInflight : Bool
  ifNotExists : IfNotExists
  afterSeconds : Int

-- What its two handlers, `uuid4()` and the clock answer.
structure Answers where
  filters : Filters Json
  assistantFilters : Filters Json
  newId : String
  now : Int

-- `value.get`.
def asDict : Json → Except Misuse Fields
  | .obj fields => .ok fields
  | _ => .error .attributeError

-- `**value`.
def asMapping : Json → Except Misuse Fields
  | .obj fields => .ok fields
  | _ => .error .typeError

-- `str` of an id.
def idText (id : Option String) : String := id.getD "None"

namespace Request

-- `kwargs.get("config", {})`.
def config (request : Request) : Json := (request.kwargs.lookup "config").getD (.obj [])

-- `config.get("metadata") or {}`.
def configMetadata (request : Request) : Except Misuse Json := do
  let config ← asDict request.config
  let metadata := (config.lookup "metadata").getD .null
  return if truthy metadata then metadata else .obj []

-- The request as far as the records without config and kwargs tell it.
def plain (request : Request) : PutRunCall Json :=
  let planted := match request.configMetadata with
    | .ok (.obj fields) => fields
    | _ => []
  ⟨request.assistantId,request.threadId,request.runId,request.status,request.metadata,Dict.empty.update planted,
    request.preventInsertIfInflight,request.ifNotExists,request.afterSeconds⟩

end Request

-- `_get_configurable`.
def getConfigurable (config : Fields) : Json := (config.lookup "configurable").getD (.obj [])

-- `config.get("configurable", {}).get("user_id")`.
def configUser (config : Fields) : Except Misuse Json := do
  let configurable ← asDict (getConfigurable config)
  return (configurable.lookup "user_id").getD .null

section merging
-- What `dict.update` makes of a value that is neither a dictionary nor None.
variable (pairs : Json → Except Misuse Fields)

def update (result : Fields) : Json → Except Misuse Fields
  | .null => .ok result
  | .obj fields => .ok (merge result fields)
  | value => (pairs value).map (merge result)

-- `_merge_jsonb`.
def mergeJsonb (objects : List Json) : Except Misuse Fields := objects.foldlM (update pairs) []

-- The `config` of a thread that is created, after its metadata has been read.
def createdConfig (blueprint : Blueprint) (request : Request) : Except Misuse Fields := do
  let _ ← request.configMetadata >>= asMapping
  let configurable ← mergeJsonb pairs [getConfigurable blueprint.config]
  mergeJsonb pairs [.obj blueprint.config,request.config,.obj [("configurable",.obj configurable)]]

-- The `config` of a thread that is marked busy.
def updatedConfig (blueprint : Blueprint) (held : Fields) (request : Request) : Except Misuse Fields := do
  let configurable ← mergeJsonb pairs [getConfigurable blueprint.config,getConfigurable held]
  mergeJsonb pairs [.obj blueprint.config,.obj held,request.config,.obj [("configurable",.obj configurable)]]

-- The first user id that is given, in the request, the thread or the assistant.
def userOf (blueprint : Blueprint) (held : Option Fields) (request : Request) : Except Misuse Json := do
  let own ← asDict request.config >>= configUser
  if truthy own then return own
  let threads ← match held with
    | some config => configUser config
    | none => .ok .null
  if truthy threads then return threads
  let default ← configUser blueprint.config
  return if truthy default then default else (request.userId.map Json.str).getD .null

def configurable (blueprint : Blueprint) (assistant : Assistant Json) (held : Option Fields) (request : Request) (threadId : String) :
    Except Misuse Fields := do
  let config ← asDict request.config
  let user ← userOf blueprint held request
  mergeJsonb pairs [getConfigurable blueprint.config,(held.map getConfigurable).getD (.obj []),getConfigurable config,
    .obj [("run_id",.str (idText request.runId)),("thread_id",.str threadId),("graph_id",.str assistant.graphId),
      ("assistant_id",.str request.assistantId),("user_id",user)]]

-- `merged_metadata`, the assistant's id last.
def mergedMetadata (assistant : Assistant Json) (held : Option (Metadata Json)) (request : Request) : Except Misuse Fields := do
  let own ← request.configMetadata
  let merged ← mergeJsonb pairs [.obj assistant.metadata.entries,.obj ((held.map Dict.entries).getD []),own,.obj request.metadata.entries]
  return merge merged [("assistant_id",.str request.assistantId)]

-- The metadata and kwargs of the new run on a thread with `held`, its metadata
-- and config, unless the thread is new itself.
def newPayload (blueprint : Blueprint) (assistant : Assistant Json) (held : Option (Metadata Json × Fields)) (request : Request)
    (threadId : String) : Except Misuse Payload := do
  let configurable ← configurable pairs blueprint assistant (held.map Prod.snd) request threadId
  let metadata ← mergedMetadata pairs assistant (held.map Prod.fst) request
  let config ← mergeJsonb pairs [.obj blueprint.config,request.config,.obj [("configurable",.obj configurable)],.obj [("metadata",.obj metadata)]]
  let context ← mergeJsonb pairs [blueprint.context,(request.kwargs.lookup "context").getD (.obj [])]
  let kwargs ← mergeJsonb pairs [.obj request.kwargs,.obj [("config",.obj config),("context",.obj context)]]
  return ⟨metadata,kwargs⟩

-- From the inflight check to the end.
def insert (r : Records) (answers : Answers) (assistant : Assistant Json) (held : Option (Metadata Json × Fields)) (request : Request)
    (threadId : String) : Records × Except Misuse (List Nat) :=
  let running := inflight r.store threadId
  if request.preventInsertIfInflight && !running.isEmpty then (r,.ok running)
  else
    match newPayload pairs (r.blueprints assistant.assistantId) assistant held request threadId with
    | .error misuse => (r,.error misuse)
    | .ok payload =>
      let ref := r.store.runs.next
      let run : Run := ⟨request.runId,threadId,request.assistantId,request.status,answers.now + request.afterSeconds * 1000000,answers.now⟩
      ({r with store := r.store.appendRun run, payloads := Function.update r.payloads ref payload},.ok (ref :: running))

def createThread (r : Records) (answers : Answers) (assistant : Assistant Json) (request : Request) (threadId : String) :
    Records × Except Misuse (List Nat) :=
  match createdConfig pairs (r.blueprints assistant.assistantId) request with
  | .error misuse => (r,.error misuse)
  | .ok config =>
    let thread := newThread Json.str request.plain assistant threadId answers.now
    insert pairs {r with store := r.store.appendThread thread, configs := Function.update r.configs r.store.threads.next config} answers
      assistant none request threadId

-- The status and the metadata are written before the config is merged.
def useThread (r : Records) (answers : Answers) (assistant : Assistant Json) (request : Request) (threadId : String) (ref : Nat) :
    Records × Except Misuse (List Nat) :=
  if (r.store.thread ref).status = .busy then
    insert pairs r answers assistant (some ((r.store.thread ref).metadata,r.configs ref)) request threadId
  else
    match updatedConfig pairs (r.blueprints assistant.assistantId) (r.configs ref) request with
    | .error misuse =>
      let halfway := r.store.updateThread ref fun thread =>
        {thread with status := .busy, metadata := thread.metadata.update (owner Json.str assistant)}
      ({r with store := halfway},.error misuse)
    | .ok config =>
      let store := r.store.updateThread ref (markBusy Json.str answers.now assistant)
      insert pairs {r with store, configs := Function.update r.configs ref config} answers assistant
        (some ((store.thread ref).metadata,config)) request threadId

-- `Runs.put`, from its start to its end with nothing in between.
def putRun (r : Records) (request : Request) (answers : Answers) : Records × Except Misuse (List Nat) :=
  match r.store.assistants.find? fun assistant => assistant.assistantId == request.assistantId with
  | none => (r,.ok [])
  | some assistant =>
    if !assistant.system && !passes answers.assistantFilters assistant.metadata then (r,.ok [])
    else
      match request.threadId with
      | none => createThread pairs r answers assistant request answers.newId
      | some threadId =>
        match r.store.findThread threadId with
        | some ref =>
          if !passes answers.filters (r.store.thread ref).metadata then (r,.ok [])
          else useThread pairs r answers assistant request threadId ref
        | none =>
          match request.ifNotExists with
          | .create => createThread pairs r answers assistant request threadId
          | .reject => (r,.ok [])

-- Which thread a request creates.
def Creates (r : Records) (request : Request) (answers : Answers) (threadId : String) : Prop :=
  request.threadId = none ∧ threadId = answers.newId ∨
    request.threadId = some threadId ∧ r.store.findThread threadId = none ∧ request.ifNotExists = .create

-- Which thread a request finds and may use.
def Finds (r : Records) (request : Request) (answers : Answers) (threadId : String) (ref : Nat) : Prop :=
  request.threadId = some threadId ∧ r.store.findThread threadId = some ref ∧
    passes answers.filters (r.store.thread ref).metadata = true

-- The assistant that a request resolves to and may use.
def Resolves (r : Records) (request : Request) (answers : Answers) (assistant : Assistant Json) : Prop :=
  r.store.assistants.find? (fun assistant => assistant.assistantId == request.assistantId) = some assistant ∧
    (assistant.system = true ∨ passes answers.assistantFilters assistant.metadata = true)

def created (r : Records) (answers : Answers) (assistant : Assistant Json) (request : Request) (threadId : String) (config : Fields) : Records :=
  {r with
    store := r.store.appendThread (newThread Json.str request.plain assistant threadId answers.now)
    configs := Function.update r.configs r.store.threads.next config}

def woken (r : Records) (answers : Answers) (assistant : Assistant Json) (ref : Nat) (config : Fields) : Records :=
  {r with
    store := r.store.updateThread ref (markBusy Json.str answers.now assistant)
    configs := Function.update r.configs ref config}

def halfway (r : Records) (assistant : Assistant Json) (ref : Nat) : Records :=
  {r with store := r.store.updateThread ref fun thread =>
    {thread with status := .busy, metadata := thread.metadata.update (owner Json.str assistant)}}

end merging

section turns
variable {pairs : Json → Except Misuse Fields} {r : Records} {request : Request} {answers : Answers}

-- All that a request may come to, before the inflight check.
inductive Turn (pairs : Json → Except Misuse Fields) (r : Records) (request : Request) (answers : Answers) :
    Records × Except Misuse (List Nat) → Prop where
  | refused : Turn pairs r request answers (r,.ok [])
  | misused (misuse : Misuse) : Turn pairs r request answers (r,.error misuse)
  | halfway (assistant : Assistant Json) (threadId : String) (ref : Nat) (misuse : Misuse)
      (resolved : Resolves r request answers assistant) (found : Finds r request answers threadId ref)
      (calm : (r.store.thread ref).status ≠ .busy) : Turn pairs r request answers (halfway r assistant ref,.error misuse)
  | created (assistant : Assistant Json) (threadId : String) (config : Fields) (resolved : Resolves r request answers assistant)
      (creates : Creates r request answers threadId)
      (made : createdConfig pairs (r.blueprints assistant.assistantId) request = .ok config) :
      Turn pairs r request answers (insert pairs (created r answers assistant request threadId config) answers assistant none request threadId)
  | used (assistant : Assistant Json) (threadId : String) (ref : Nat) (resolved : Resolves r request answers assistant)
      (found : Finds r request answers threadId ref) (busy : (r.store.thread ref).status = .busy) :
      Turn pairs r request answers
        (insert pairs r answers assistant (some ((r.store.thread ref).metadata,r.configs ref)) request threadId)
  | woken (assistant : Assistant Json) (threadId : String) (ref : Nat) (config : Fields)
      (resolved : Resolves r request answers assistant) (found : Finds r request answers threadId ref)
      (calm : (r.store.thread ref).status ≠ .busy)
      (made : updatedConfig pairs (r.blueprints assistant.assistantId) (r.configs ref) request = .ok config) :
      Turn pairs r request answers (insert pairs (woken r answers assistant ref config) answers assistant
        (some (((woken r answers assistant ref config).store.thread ref).metadata,config)) request threadId)

theorem createThread_turn {assistant : Assistant Json} {threadId : String} (resolved : Resolves r request answers assistant)
    (creates : Creates r request answers threadId) : Turn pairs r request answers (createThread pairs r answers assistant request threadId) := by
  unfold createThread
  split
  · exact .misused _
  · rename_i config made
    exact .created assistant threadId config resolved creates made

theorem useThread_turn {assistant : Assistant Json} {threadId : String} {ref : Nat} (resolved : Resolves r request answers assistant)
    (found : Finds r request answers threadId ref) : Turn pairs r request answers (useThread pairs r answers assistant request threadId ref) := by
  unfold useThread
  split
  · rename_i busy
    exact .used assistant threadId ref resolved found busy
  · rename_i calm
    split
    · exact .halfway assistant threadId ref _ resolved found calm
    · rename_i config made
      exact .woken assistant threadId ref config resolved found calm made

theorem putRun_turn (pairs : Json → Except Misuse Fields) (r : Records) (request : Request) (answers : Answers) :
    Turn pairs r request answers (putRun pairs r request answers) := by
  unfold putRun
  split
  · exact .refused
  · rename_i assistant found
    split
    · exact .refused
    · rename_i admitted
      have resolved : Resolves r request answers assistant := by
        refine ⟨found,?_⟩
        by_cases system : assistant.system = true
        · exact .inl system
        · exact .inr (by simpa [system] using admitted)
      split
      · rename_i unnamed
        exact createThread_turn resolved (.inl ⟨unnamed,rfl⟩)
      · rename_i threadId named
        split
        · rename_i ref stored
          split
          · exact .refused
          · rename_i passing
            exact useThread_turn resolved ⟨named,stored,by simpa using passing⟩
        · rename_i missing
          split
          · rename_i create
            exact createThread_turn resolved (.inr ⟨named,missing,create⟩)
          · exact .refused

theorem resolves_admitted {assistant : Assistant Json} (resolved : Resolves r request answers assistant) :
    (!assistant.system && !passes answers.assistantFilters assistant.metadata) = false := by
  rcases resolved.2 with system | passing <;> simp [*]

theorem putRun_created {assistant : Assistant Json} {threadId : String} {config : Fields} (resolved : Resolves r request answers assistant)
    (creates : Creates r request answers threadId) (made : createdConfig pairs (r.blueprints assistant.assistantId) request = .ok config) :
    putRun pairs r request answers =
      insert pairs (created r answers assistant request threadId config) answers assistant none request threadId := by
  unfold putRun
  rw [resolved.1]
  simp only [resolves_admitted resolved,Bool.false_eq_true,↓reduceIte]
  rcases creates with ⟨unnamed,rfl⟩ | ⟨named,missing,create⟩
  · simp only [unnamed,createThread,made]
    rfl
  · simp only [named,missing,create,createThread,made]
    rfl

theorem putRun_woken {assistant : Assistant Json} {threadId : String} {ref : Nat} {config : Fields}
    (resolved : Resolves r request answers assistant) (found : Finds r request answers threadId ref)
    (calm : (r.store.thread ref).status ≠ .busy)
    (made : updatedConfig pairs (r.blueprints assistant.assistantId) (r.configs ref) request = .ok config) :
    putRun pairs r request answers = insert pairs (woken r answers assistant ref config) answers assistant
      (some (((woken r answers assistant ref config).store.thread ref).metadata,config)) request threadId := by
  obtain ⟨named,stored,passing⟩ := found
  unfold putRun
  rw [resolved.1]
  simp only [resolves_admitted resolved,Bool.false_eq_true,↓reduceIte,named,stored,passing,Bool.not_true,useThread,if_neg calm,made]
  rfl

theorem inflight_active (s : Store Json) (threadId : String) : (!(inflight s threadId).isEmpty) = s.activeOn threadId := by
  unfold inflight Store.activeOn
  rw [Bool.eq_iff_iff]
  simp [List.filter_eq_nil_iff]

-- The run with its payload, stored last.
def stored (r : Records) (answers : Answers) (request : Request) (threadId : String) (payload : Payload) : Records :=
  {r with
    store := r.store.appendRun ⟨request.runId,threadId,request.assistantId,request.status,
      answers.now + request.afterSeconds * 1000000,answers.now⟩
    payloads := Function.update r.payloads r.store.runs.next payload}

theorem insert_blocked {assistant : Assistant Json} {held : Option (Metadata Json × Fields)} {threadId : String}
    (prevents : request.preventInsertIfInflight = true) (active : r.store.activeOn threadId = true) :
    insert pairs r answers assistant held request threadId = (r,.ok (inflight r.store threadId)) := by
  unfold insert
  dsimp only
  rw [inflight_active,prevents,active]
  rfl

theorem insert_cases (pairs : Json → Except Misuse Fields) (r : Records) (answers : Answers) (assistant : Assistant Json)
    (held : Option (Metadata Json × Fields)) (request : Request) (threadId : String) :
    (request.preventInsertIfInflight = true ∧ r.store.activeOn threadId = true ∧
      insert pairs r answers assistant held request threadId = (r,.ok (inflight r.store threadId))) ∨
    (∃ misuse, insert pairs r answers assistant held request threadId = (r,.error misuse)) ∨
    ¬ (request.preventInsertIfInflight = true ∧ r.store.activeOn threadId = true) ∧
      ∃ payload, newPayload pairs (r.blueprints assistant.assistantId) assistant held request threadId = .ok payload ∧
        insert pairs r answers assistant held request threadId =
          (stored r answers request threadId payload,.ok (r.store.runs.next :: inflight r.store threadId)) := by
  by_cases blocked : request.preventInsertIfInflight = true ∧ r.store.activeOn threadId = true
  · exact .inl ⟨blocked.1,blocked.2,insert_blocked blocked.1 blocked.2⟩
  · right
    unfold insert
    dsimp only
    rw [inflight_active,if_neg (by simpa using blocked)]
    cases made : newPayload pairs (r.blueprints assistant.assistantId) assistant held request threadId with
    | error misuse => exact .inl ⟨misuse,rfl⟩
    | ok payload => exact .inr ⟨blocked,payload,rfl,rfl⟩

end turns

-- Without config and kwargs, a request that returns does what `putRunWhole` says.
section plain
variable {pairs : Json → Except Misuse Fields} {r : Records} {request : Request} {answers : Answers} {refs : List Nat}

theorem insert_store {assistant : Assistant Json} {held : Option (Metadata Json × Fields)} {threadId : String}
    (returned : (insert pairs r answers assistant held request threadId).2 = .ok refs) :
    (insert pairs r answers assistant held request threadId).1.store = (insertRun r.store answers.now request.plain threadId).1 := by
  rcases insert_cases pairs r answers assistant held request threadId with ⟨prevents,active,same⟩ | ⟨misuse,same⟩ | ⟨free,payload,_,same⟩
  · have blocked : request.plain.preventInsertIfInflight = true := prevents
    simp [same,insertRun,inflight_active,blocked,active]
  · rw [same] at returned
    cases returned
  · have unblocked : (request.plain.preventInsertIfInflight && r.store.activeOn threadId) = false := by
      have flag : request.plain.preventInsertIfInflight = request.preventInsertIfInflight := rfl
      simpa [flag] using free
    have plain : (insertRun r.store answers.now request.plain threadId).1 = (stored r answers request threadId payload).store := by
      unfold insertRun
      dsimp only
      rw [inflight_active,unblocked]
      rfl
    rw [same,plain]

theorem resolves_plain {assistant : Assistant Json} (resolved : Resolves r request answers assistant) :
    r.store.assistants.find? (fun assistant => assistant.assistantId == request.plain.assistantId) = some assistant := resolved.1

theorem putRun_store (w : Wake Json) (now : w.now = answers.now) (newId : w.newId = answers.newId)
    (returned : (putRun pairs r request answers).2 = .ok refs) :
    (putRun pairs r request answers).1.store = r.store ∨
      (putRun pairs r request answers).1.store = Sequential.putRunWhole Json.str r.store request.plain answers.filters w := by
  have turn := putRun_turn pairs r request answers
  generalize putRun pairs r request answers = result at turn returned ⊢
  cases turn with
  | refused => exact .inl rfl
  | misused misuse => cases returned
  | halfway _ _ _ misuse _ _ _ => cases returned
  | created assistant threadId config resolved creates made =>
    right
    rw [insert_store returned]
    unfold Sequential.putRunWhole
    rw [resolves_plain resolved]
    rcases creates with ⟨unnamed,rfl⟩ | ⟨named,missing,create⟩
    · have open_ : request.plain.threadId = none := unnamed
      simp only [RunOps.putRun,open_,stepPutRun,Server.start,now,newId]
      rfl
    · have named : request.plain.threadId = some threadId := named
      have create : request.plain.ifNotExists = .create := create
      simp only [RunOps.putRun,named,Server.start,missing,create,stepPutRun,now]
      rfl
  | used assistant threadId ref resolved finds busy =>
    right
    obtain ⟨named,known,passing⟩ := finds
    have named : request.plain.threadId = some threadId := named
    have same : r.store.updateThread ref (markBusy Json.str answers.now assistant) = r.store := by
      unfold Store.updateThread
      rw [markBusy,if_pos busy]
      simp [Store.thread,ObjectHeap.Heap.write]
    rw [insert_store returned]
    unfold Sequential.putRunWhole
    rw [resolves_plain resolved]
    simp only [RunOps.putRun,named,Server.start,known,passing,Bool.not_true,Bool.false_eq_true,↓reduceIte,now,same]
    rfl
  | woken assistant threadId ref config resolved finds calm made =>
    right
    obtain ⟨named,known,passing⟩ := finds
    have named : request.plain.threadId = some threadId := named
    rw [insert_store returned]
    unfold Sequential.putRunWhole
    rw [resolves_plain resolved]
    simp only [RunOps.putRun,named,Server.start,known,passing,Bool.not_true,Bool.false_eq_true,↓reduceIte,now]
    rfl

end plain

end InmemRuntime.RunPayloads
