import InmemRuntime.Persistence
import InmemRuntime.SystemAssistants

namespace InmemRuntime.PoolCycles
open OrderedDict ObjectHeap Persistence SystemAssistants

-- `J` is what records are made of.
structure Assistant (J : Type) where
  createdBy : Option String
  context : Option J
  fields : J
deriving DecidableEq,Repr

structure GlobalStore (J : Type) where
  runs : List J
  threads : List J
  assistants : List (Assistant J)
  assistantVersions : List J
  crons : List J
  threadTtls : List (J × J)

-- What the files and their dicts hold: `GLOBAL_STORE`, the retry counters, or
-- the rows of one dict of the checkpointer or the Store.
inductive Content (J : Type) where
  | records (store : GlobalStore J)
  | counters (counts : Dict String Nat)
  | entries (rows : List (J × J))

section content
variable {J : Type}

def Assistant.isSystem (a : Assistant J) : Bool := a.createdBy = some "system"

def GlobalStore.new : GlobalStore J := ⟨[],[],[],[],[],[]⟩

def GlobalStore.clear (store : GlobalStore J) : GlobalStore J :=
  {GlobalStore.new with assistants := store.assistants.filter Assistant.isSystem}

def Content.store : Content J → GlobalStore J
  | .records store => store
  | _ => .new

def Content.counts : Content J → Dict String Nat
  | .counters counts => counts
  | _ => .empty

def Content.clear : Content J → Content J
  | .records store => .records store.clear
  | .counters _ => .counters .empty
  | .entries _ => .entries []

def clearing : Clearing (Content J) := ⟨.entries [],Content.clear⟩

end content

def OPS_FILENAME : String := ".langgraph_api/.langgraph_ops.pckl"
def RETRY_COUNTER_FILENAME : String := ".langgraph_api/.langgraph_retry_counter.pckl"
def checkpointFiles : List String :=
  [".langgraph_api/.langgraph_checkpoint.1.pckl",".langgraph_api/.langgraph_checkpoint.2.pckl",
    ".langgraph_api/.langgraph_checkpoint.3.pckl"]
def storeFiles : List String :=
  [".langgraph_api/store.pckl",".langgraph_api/store.vectors.pckl",".langgraph_api/store.ttl.pckl"]

-- `MEMORY` or `STORE`: its dicts, and `_persistence_closed` or `_closed`.
structure Component where
  dicts : List Nat
  closed : Bool
deriving DecidableEq,Repr

-- What the process starts with: the Store's configuration, if there is one,
-- by whether it has a path; `\x7b\x7d` as a context; and which expiry records
-- a new Store keeps.
structure Settings (J : Type) where
  storeConfig : Option Bool
  bare : J
  keepTtl : List (J × J) → List (J × J) → List (J × J)

structure Process (J : Type) where
  registry : Registry (Content J)
  memory : Option Component
  store : Option Component
  storeConfig : Option Bool

section process
variable {J : Type}

def retryCounter : Nat := 0
def globalStore : Nat := 1

def contentOf (r : Registry (Content J)) (d : Nat) : Content J := (r.dicts.read d).content

-- `load`: nothing happens when there is no file.
def load (r : Registry (Content J)) (d : Nat) : Registry (Content J) :=
  match r.file (r.dicts.read d).filename with
  | none => r
  | some content => r.setContent d content

def make (r : Registry (Content J)) (filename : String) (content : Content J) : Registry (Content J) × Nat :=
  (r.create filename content,r.dicts.next)

-- The import of `database` on a disk of that content.
def imported (disk : List (Write (Content J))) : Process J :=
  let bare : Registry (Content J) := {Persistence.start ⟨"",.entries [],none⟩ with disk}
  let counted := (make bare RETRY_COUNTER_FILENAME (.counters .empty)).1
  ⟨(make counted OPS_FILENAME (.records .new)).1,none,none,none⟩

def openEach (enter : Registry (Content J) → Nat → Registry (Content J)) (r : Registry (Content J)) :
    List String → Registry (Content J) × List Nat
  | [] => (r,[])
  | filename :: rest =>
    let made := make r filename (.entries [])
    let others := openEach enter (enter made.1 made.2) rest
    (others.1,made.2 :: others.2)

-- The `factory` of `InMemorySaver` registers and loads.
def openSaver (s : Process J) : Process J :=
  let opened := openEach (fun r d => load (r.registerPersistentDict d) d) s.registry checkpointFiles
  {s with registry := opened.1, memory := some ⟨opened.2,false⟩}

def Content.rows : Content J → List (J × J)
  | .entries rows => rows
  | _ => []

-- The `__init__` of `DiskBackedInMemStore` makes and registers its dicts before
-- it loads them, and drops the expiry records of items that are gone.
def openStore (settings : Settings J) (s : Process J) : Process J :=
  let made := openEach Registry.registerPersistentDict s.registry storeFiles
  let loaded := made.2.foldl load made.1
  let registry := match made.2 with
    | [data,_,ttl] => loaded.setContent ttl (.entries (settings.keepTtl (contentOf loaded data).rows (contentOf loaded ttl).rows))
    | _ => loaded
  {s with registry, store := some ⟨made.2,false⟩}

-- `_close_persistence` and `DiskBackedInMemStore.close`.
def closeComponent (r : Registry (Content J)) (component : Component) : Registry (Content J) × Component :=
  if component.closed then (r,component)
  else (component.dicts.foldl (fun r d => r.closePersistentDict clearing d false) r,{component with closed := true})

def closeStore (s : Process J) : Process J :=
  match s.store with
  | none => s
  | some component =>
    let done := closeComponent s.registry component
    {s with registry := done.1, store := some done.2}

def closeMemory (s : Process J) : Process J :=
  match s.memory with
  | none => s
  | some component =>
    let done := closeComponent s.registry component
    {s with registry := done.1, memory := some done.2}

def setStoreConfig (settings : Settings J) (s : Process J) (path : Bool) : Process J :=
  let s := {s with storeConfig := some path}
  if path then s else openStore settings (closeStore s)

variable [DecidableEq J]

def filled (bare : J) (a : Assistant J) : Assistant J := {a with context := some (a.context.getD bare)}

def dropSystem (bare : J) (assistants : List (Assistant J)) : List (Assistant J) :=
  removeSystem Assistant.isSystem (filled bare) [] false assistants

def startPool (settings : Settings J) (s : Process J) : Process J :=
  let s := match s.storeConfig,settings.storeConfig with
    | none,some path => setStoreConfig settings s path
    | _,_ => s
  let loaded := load s.registry globalStore
  let store := (contentOf loaded globalStore).store
  let kept := loaded.setContent globalStore (.records {store with assistants := dropSystem settings.bare store.assistants})
  {s with registry := (kept.registerPersistentDict globalStore).registerPersistentDict retryCounter}

def stopPool (s : Process J) : Process J :=
  let recorded := s.registry.closePersistentDict clearing globalStore false
  closeMemory (closeStore {s with registry := recorded.closePersistentDict clearing retryCounter false})

-- What a cycle may do between its start and its stop.
inductive Operation (J : Type) where
  | records (store : GlobalStore J)
  | next (runId : String)
  | checkpointer
  | checkpoint (place : Nat) (rows : List (J × J))
  | store
  | item (place : Nat) (rows : List (J × J))
  | flush

def attempts (r : Registry (Content J)) (runId : String) : Nat := ((contentOf r retryCounter).counts.get? runId).getD 0

def increment (r : Registry (Content J)) (runId : String) : Registry (Content J) :=
  r.setContent retryCounter (.counters ((contentOf r retryCounter).counts.insert runId (attempts r runId + 1)))

def writeRows (r : Registry (Content J)) (component : Option Component) (place : Nat) (rows : List (J × J)) :
    Registry (Content J) :=
  match component.bind fun component => component.dicts[place]? with
  | none => r
  | some d => r.setContent d (.entries rows)

-- `Runs.next` counts an attempt; the others set contents as they like.
def operate (settings : Settings J) (s : Process J) : Operation J → Process J
  | .records content => {s with registry := s.registry.setContent globalStore (.records content)}
  | .next runId => {s with registry := increment s.registry runId}
  | .checkpointer => if s.memory.isNone then openSaver s else s
  | .checkpoint place rows => {s with registry := writeRows s.registry s.memory place rows}
  | .store => if s.store.isNone then openStore settings s else s
  | .item place rows => {s with registry := writeRows s.registry s.store place rows}
  | .flush => {s with registry := s.registry.flushRegisteredOnce []}

def running (settings : Settings J) (s : Process J) (operations : List (Operation J)) : Process J :=
  operations.foldl (operate settings) (startPool settings s)

def cycle (settings : Settings J) (s : Process J) (operations : List (Operation J)) : Process J :=
  stopPool (running settings s operations)

abbrev Cycles (settings : Settings J) (disk : List (Write (Content J))) :
    List (Process J × List (Operation J)) → Process J → Prop := Histories.Runs (cycle settings) (imported disk)

end process

end InmemRuntime.PoolCycles
