import InmemRuntime.OrderedDict
import InmemRuntime.ObjectHeap
import Mathlib.Data.List.Dedup

namespace InmemRuntime.Streams
open OrderedDict ObjectHeap

-- `_thread_key` and the run id; no thread is `THREADLESS_KEY`.
structure RunKey where
  threadId : Option String
  runId : String
deriving DecidableEq,Repr

-- The topics that the runtime writes. `put` looks for `control` in the text of
-- a topic; an id in it has hexadecimal digits only.
inductive Topic where
  | control (runId : String)
  | stream (runId : String)
  | thread (threadId : String)
  | closed
deriving DecidableEq,Repr

def Topic.isControl : Topic → Bool
  | .control _ => true
  | _ => false

-- `topic.split("run:")[1].split(":")[0]`.
def Topic.runId : Topic → String
  | .control runId | .stream runId => runId
  | _ => ""

-- What `_generate_ms_seq_id` prints as `ms-seq`.
structure MessageId where
  ms : Int
  seq : Int
deriving DecidableEq,Repr

namespace MessageId

def text (id : MessageId) : String := toString id.ms ++ "-" ++ toString id.seq

-- How `_parse_ms_seq_id` compares: as tuples of numbers.
def Before (id other : MessageId) : Prop := id.ms < other.ms ∨ id.ms = other.ms ∧ id.seq < other.seq

instance (id other : MessageId) : Decidable (id.Before other) := inferInstanceAs (Decidable (_ ∨ _))

theorem Before.trans {id middle other : MessageId} (first : id.Before middle) (second : middle.Before other) :
    id.Before other := by
  unfold Before at *
  omega

theorem before_irrefl (id : MessageId) : ¬ id.Before id := by
  unfold Before
  omega

end MessageId

structure Message where
  topic : Topic
  data : List UInt8
  id : Option MessageId
deriving DecidableEq,Repr

-- The resume cursor of a client: an id, or the older index into the log.
inductive Cursor where
  | index (last : Nat)
  | after (last : MessageId)
deriving DecidableEq,Repr

def Cursor.precedes (cursor : Cursor) (message : Message) : Bool :=
  match cursor,message.id with
  | .index _,_ => true
  | .after _,none => false
  | .after last,some id => last.Before id

def bytes (text : String) : List UInt8 := text.toUTF8.data.toList

def controlMessage (key : RunKey) (data : String) : Message := ⟨.control key.runId,bytes data,none⟩

abbrev RunMap (α : Type) := Dict (Option String) (Dict String α)

namespace RunMap
variable {α : Type}

def find (m : RunMap α) (key : RunKey) : Option α := (m.get? key.threadId).bind fun runs => runs.get? key.runId

def set (m : RunMap α) (key : RunKey) (value : α) : RunMap α :=
  m.insert key.threadId (((m.get? key.threadId).getD .empty).insert key.runId value)

-- `del mapping[thread_id][run_id]`, and the thread with its last run.
def drop (m : RunMap α) (key : RunKey) : RunMap α :=
  match m.get? key.threadId with
  | none => m
  | some runs =>
    let rest := runs.erase key.runId
    if rest.isEmpty then m.erase key.threadId else m.insert key.threadId rest

-- `mapping.get(thread_id, {})`.
def runIds (m : RunMap α) (threadId : Option String) : List String := ((m.get? threadId).getD .empty).keys

def keys (m : RunMap α) : List RunKey := m.entries.flatMap fun row => row.2.keys.map fun runId => ⟨row.1,runId⟩

theorem find_set (m : RunMap α) (key other : RunKey) (value : α) :
    (set m key value).find other = if key = other then some value else m.find other := by
  obtain ⟨thread,run⟩ := key
  obtain ⟨thread',run'⟩ := other
  simp only [find,set,RunKey.mk.injEq,Dict.get?_insert,beq_iff_eq]
  by_cases threads : thread = thread'
  · subst thread'
    simp only [↓reduceIte,Option.bind_some,Dict.get?_insert,beq_iff_eq,true_and]
    split
    · rfl
    · cases m.get? thread <;> rfl
  · simp [threads]

theorem find_drop (m : RunMap α) (key other : RunKey) :
    (drop m key).find other = if key = other then none else m.find other := by
  obtain ⟨thread,run⟩ := key
  obtain ⟨thread',run'⟩ := other
  simp only [find,drop,RunKey.mk.injEq]
  cases found : m.get? thread with
  | none =>
    by_cases threads : thread = thread'
    · subst thread'
      simp [found]
    · simp [threads]
  | some runs =>
    by_cases threads : thread = thread'
    · subst thread'
      have here : ∀ run', (runs.erase run).get? run' = if run = run' then none else runs.get? run' := by
        intro run'
        rw [Dict.get?_erase]
        simp
      dsimp only
      split
      · rename_i bare
        have gone := here run'
        rw [Dict.isEmpty_iff.mp bare,Dict.get?_empty] at gone
        simp only [Dict.get?_erase,found,BEq.rfl,↓reduceIte,Option.bind_none,true_and,Option.bind_some]
        exact gone
      · simp [here,found]
    · dsimp only
      split <;> simp [threads,Dict.get?_erase,Dict.get?_insert]

-- `queues_by_run[run_id].remove(queue)`, and the buckets that it empties.
def discard (m : RunMap (List Nat)) (key : RunKey) (queue : Nat) : RunMap (List Nat) :=
  match m.find key with
  | none => m
  | some queues =>
    if !queues.contains queue then m
    else
      let rest := queues.erase queue
      if rest.isEmpty then m.drop key else m.set key rest

theorem find_erase (m : RunMap α) (threadId : Option String) (key : RunKey) :
    find (m.erase threadId) key = if threadId = key.threadId then none else m.find key := by
  unfold find
  rw [Dict.get?_erase]
  by_cases same : threadId = key.threadId
  · simp [same]
  · simp [same]

theorem find_discard_none {m : RunMap (List Nat)} {other : RunKey} (absent : m.find other = none) (queue : Nat) (key : RunKey) :
    (discard m key queue).find other = none := by
  unfold discard
  cases found : m.find key with
  | none => exact absent
  | some queues =>
    dsimp only
    split
    · exact absent
    · split
      · rw [find_drop,absent,ite_self]
      · have apart : key ≠ other := fun same => by simp [same,absent] at found
        rw [find_set,if_neg apart,absent]

theorem find_discard (m : RunMap (List Nat)) (key other : RunKey) (queue : Nat) :
    ((discard m key queue).find other).getD [] =
      if key = other then ((m.find other).getD []).erase queue else (m.find other).getD [] := by
  unfold discard
  cases found : m.find key with
  | none =>
    by_cases same : key = other
    · subst same
      simp [found]
    · simp [same]
  | some queues =>
    dsimp only
    split
    · rename_i absent
      by_cases same : key = other
      · subst same
        have missing : queue ∉ queues := by simpa using absent
        simp [found,List.erase_of_not_mem missing]
      · simp [same]
    · split
      · rename_i none_
        rw [find_drop]
        by_cases same : key = other
        · subst same
          simp [found,List.isEmpty_iff.mp none_]
        · simp [same]
      · rw [find_set]
        by_cases same : key = other
        · subst same
          simp [found]
        · simp [same]

end RunMap

-- The maps of a `StreamManager`, the queue objects they refer to, and the last
-- id that the process gave out.
structure StreamManager where
  queues : RunMap (List Nat)
  controlKeys : RunMap Message
  controlQueues : RunMap (List Nat)
  threadStreams : Dict String (List Nat)
  messageStores : RunMap (List Message)
  activeRuns : List RunKey
  pendingRunDeletes : List RunKey
  stopped : Bool
  contents : Heap (List Message)
  lastMs : Int
  lastSeq : Int

-- The wall clock as it reads when that id is the last one given out. No id
-- comes twice, so this is any clock at all.
abbrev Clock := MessageId → Int

-- What a loop over a Python set may do with the order of its keys.
structure SetOrder where
  arrange : List RunKey → List RunKey
  permutes : ∀ keys, (arrange keys).Perm keys

namespace StreamManager

def new : StreamManager := ⟨.empty,.empty,.empty,.empty,.empty,[],[],false,⟨fun _ => [],0⟩,-1,-1⟩

def getQueues (m : StreamManager) (key : RunKey) : List Nat := (m.queues.find key).getD []

def getControlQueues (m : StreamManager) (key : RunKey) : List Nat := (m.controlQueues.find key).getD []

def getControlKey (m : StreamManager) (key : RunKey) : Option Message := m.controlKeys.find key

def threadQueues (m : StreamManager) (threadId : String) : List Nat := (m.threadStreams.get? threadId).getD []

def stored (m : StreamManager) (key : RunKey) : List Message := (m.messageStores.find key).getD []

def restoreMessages (m : StreamManager) (key : RunKey) : Option Cursor → List Message
  | none => []
  | some (.index last) => (m.stored key).drop (last+1)
  | some (.after last) => (m.stored key).filter (Cursor.after last).precedes

-- `_generate_ms_seq_id`; the wall clock may go backwards.
def generateId (m : StreamManager) (currentMs : Int) : StreamManager × MessageId :=
  let ms := max currentMs m.lastMs
  let seq := if ms = m.lastMs then m.lastSeq + 1 else 0
  ({m with lastMs := ms, lastSeq := seq},⟨ms,seq⟩)

def stamped (m : StreamManager) (currentMs : Int) (message : Message) : Message :=
  {message with id := some (m.generateId currentMs).2}

def refuses (m : StreamManager) (key : RunKey) : Bool := m.stopped || m.pendingRunDeletes.contains key

-- What `put` does before it awaits: the queues it chose get the message in
-- tasks of their own.
def put (m : StreamManager) (currentMs : Int) (key : RunKey) (message : Message) (resumable : Bool) :
    StreamManager × List (Nat × Message) :=
  if m.refuses key then (m,[])
  else
    let message := m.stamped currentMs message
    let m := (m.generateId currentMs).1
    let m := if resumable then
      {m with messageStores := m.messageStores.set key ((m.messageStores.find key).getD [] ++ [message])} else m
    if message.topic.isControl then
      ({m with controlKeys := m.controlKeys.set key message},(m.getControlQueues key).map fun queue => (queue,message))
    else (m,(m.getQueues key).map fun queue => (queue,message))

def putThread (m : StreamManager) (currentMs : Int) (threadId : String) (message : Message) :
    StreamManager × List (Nat × Message) :=
  if m.stopped then (m,[])
  else
    let stampedMessage := m.stamped currentMs message
    ((m.generateId currentMs).1,(m.threadQueues threadId).map fun queue => (queue,stampedMessage))

-- `queue.put(message)`; the queues have no bound.
def deliver (m : StreamManager) (queue : Nat) (message : Message) : StreamManager :=
  {m with contents := m.contents.write queue (m.contents.read queue ++ [message])}

-- `_close_queue`, `_finish_control_queue` and `_finish_run_queue`.
def finish (m : StreamManager) (currentMs : Int) (queue : Nat) (message : Message) : StreamManager :=
  (m.generateId currentMs).1.deliver queue (m.stamped currentMs message)

def addQueue (m : StreamManager) (currentMs : Int) (key : RunKey) : StreamManager × Nat :=
  let made := m.contents.alloc []
  let grown := {m with contents := made.1}
  if m.refuses key then (grown.finish currentMs made.2 ⟨.closed,bytes "done",none⟩,made.2)
  else ({grown with queues := m.queues.set key (m.getQueues key ++ [made.2])},made.2)

def addControlQueue (m : StreamManager) (currentMs : Int) (key : RunKey) : StreamManager × Nat :=
  let made := m.contents.alloc []
  let grown := {m with contents := made.1}
  if m.refuses key then (grown.finish currentMs made.2 (controlMessage key "done"),made.2)
  else ({grown with controlQueues := m.controlQueues.set key (m.getControlQueues key ++ [made.2])},made.2)

def addThreadStream (m : StreamManager) (currentMs : Int) (threadId : String) : StreamManager × Nat :=
  let made := m.contents.alloc []
  let grown := {m with contents := made.1}
  if m.stopped then (grown.finish currentMs made.2 ⟨.closed,bytes "done",none⟩,made.2)
  else ({grown with threadStreams := m.threadStreams.insert threadId (m.threadQueues threadId ++ [made.2])},made.2)

def removeQueue (m : StreamManager) (key : RunKey) (queue : Nat) : StreamManager :=
  {m with queues := m.queues.discard key queue}

def removeControlQueue (m : StreamManager) (key : RunKey) (queue : Nat) : StreamManager :=
  match m.controlQueues.find key with
  | none => m
  | some queues =>
    if !queues.contains queue then m
    else
      let rest := queues.erase queue
      {m with controlQueues := if rest.isEmpty then m.controlQueues.drop key else m.controlQueues.set key rest}

theorem removeControlQueue_discards (m : StreamManager) (key : RunKey) (queue : Nat) :
    m.removeControlQueue key queue = {m with controlQueues := m.controlQueues.discard key queue} := by
  unfold removeControlQueue RunMap.discard
  cases m.controlQueues.find key with
  | none => rfl
  | some queues =>
    dsimp only
    split
    · rfl
    · rfl

def removeThreadStream (m : StreamManager) (threadId : String) (queue : Nat) : StreamManager :=
  match m.threadStreams.get? threadId with
  | none => m
  | some queues =>
    if !queues.contains queue then m
    else
      let rest := queues.erase queue
      {m with threadStreams := if rest.isEmpty then m.threadStreams.erase threadId
        else m.threadStreams.insert threadId rest}

def clearRunState (m : StreamManager) (key : RunKey) : StreamManager :=
  {m with
    queues := m.queues.drop key
    controlQueues := m.controlQueues.drop key
    controlKeys := m.controlKeys.drop key
    messageStores := m.messageStores.drop key}

def markRunActive (m : StreamManager) (key : RunKey) : StreamManager :=
  if m.refuses key || m.activeRuns.contains key then m else {m with activeRuns := m.activeRuns ++ [key]}

def markRunInactive (m : StreamManager) (key : RunKey) : StreamManager :=
  let m := {m with activeRuns := m.activeRuns.filter fun active => active != key}
  if m.pendingRunDeletes.contains key then
    {m.clearRunState key with pendingRunDeletes := m.pendingRunDeletes.filter fun pending => pending != key}
  else m

def reading (m : StreamManager) (clock : Clock) : Int := clock ⟨m.lastMs,m.lastSeq⟩

def finishAll (clock : Clock) (message : Message) (m : StreamManager) (queues : List Nat) : StreamManager :=
  queues.foldl (fun m queue => m.finish (m.reading clock) queue message) m

-- `codec` is `STREAM_CODEC.encode("control", b"done")`.
def signalRun (codec : List UInt8) (clock : Clock) (m : StreamManager) (key : RunKey) : StreamManager :=
  let served := finishAll clock ⟨.stream key.runId,codec,none⟩ m (m.getQueues key)
  finishAll clock (controlMessage key "done") served (served.getControlQueues key)

def deleteRun (codec : List UInt8) (clock : Clock) (m : StreamManager) (key : RunKey) : StreamManager :=
  let m := m.signalRun codec clock key
  let marked := if m.activeRuns.contains key && !m.pendingRunDeletes.contains key then
    {m with pendingRunDeletes := m.pendingRunDeletes ++ [key]} else m
  marked.clearRunState key

-- The runs of a thread that `delete_thread` releases one by one.
def threadRuns (m : StreamManager) (threadId : String) : List RunKey :=
  ((m.queues.runIds (some threadId) ++ m.controlQueues.runIds (some threadId) ++ m.controlKeys.runIds (some threadId) ++
    m.messageStores.runIds (some threadId)).map (RunKey.mk (some threadId)) ++
    m.activeRuns.filter fun key => key.threadId = some threadId).dedup

def deleteThread (codec : List UInt8) (clock : Clock) (order : SetOrder) (m : StreamManager) (threadId : String) :
    StreamManager :=
  let m := (order.arrange (m.threadRuns threadId)).foldl (deleteRun codec clock) m
  let bare := {m with
    queues := m.queues.erase (some threadId)
    controlQueues := m.controlQueues.erase (some threadId)
    controlKeys := m.controlKeys.erase (some threadId)
    messageStores := m.messageStores.erase (some threadId)}
  let told := finishAll clock ⟨.closed,bytes "done",none⟩ bare (bare.threadQueues threadId)
  {told with threadStreams := told.threadStreams.erase threadId}

def close (codec : List UInt8) (clock : Clock) (order : SetOrder) (m : StreamManager) : StreamManager :=
  let m := {m with stopped := true}
  let runs := (m.queues.keys ++ m.controlQueues.keys ++ m.controlKeys.keys ++ m.messageStores.keys).dedup
  let m := (order.arrange runs).foldl (signalRun codec clock) m
  let told := finishAll clock ⟨.closed,bytes "done",none⟩ m (m.threadStreams.entries.flatMap Prod.snd)
  {told with
    queues := .empty
    controlKeys := .empty
    controlQueues := .empty
    threadStreams := .empty
    messageStores := .empty
    activeRuns := []
    pendingRunDeletes := []}

-- The loop of `subscribe` over the control queues of its run.
def drain (m : StreamManager) (target : Nat) : List Nat → StreamManager
  | [] => m
  | queue :: rest =>
    let taken := m.contents.write queue []
    drain {m with contents := taken.write target (taken.read target ++ m.contents.read queue)} target rest

-- `Runs.Stream.subscribe`, which nothing interrupts.
def subscribe (m : StreamManager) (currentMs : Int) (key : RunKey) : StreamManager × Nat :=
  let added := m.addQueue currentMs key
  (added.1.drain added.2 (added.1.getControlQueues key),added.2)

end StreamManager

end InmemRuntime.Streams
