import InmemRuntime.Streams
import InmemRuntime.TaskPool
import Mathlib.Data.List.Sort

namespace InmemRuntime.StreamClients
open OrderedDict ObjectHeap Streams

-- `STREAM_CODEC` and `decode_stream_message`; whether `orjson` finds in a payload
-- what the `lifecycle` mode lets through; the payload of an unknown run.
structure Codec where
  encode : String → List UInt8 → List UInt8
  decode : List UInt8 → Option (String × List UInt8)
  decodes : ∀ event payload, decode (encode event payload) = some (event,payload)
  lifecycle : List UInt8 → Bool
  notFound : List UInt8

-- A codec to run clients with: each character of the event in three bytes.
def encodeText (payload : List UInt8) : List Char → List UInt8
  | [] => 0 :: payload
  | letter :: rest =>
    1 :: UInt8.ofNat letter.toNat :: UInt8.ofNat (letter.toNat / 256) :: UInt8.ofNat (letter.toNat / 65536) ::
      encodeText payload rest

def decodeText : List UInt8 → Option (List Char × List UInt8)
  | 0 :: rest => some ([],rest)
  | 1 :: low :: middle :: high :: rest => (decodeText rest).map fun done =>
      (Char.ofNat (low.toNat + 256 * middle.toNat + 65536 * high.toNat) :: done.1,done.2)
  | _ => none

theorem decodeText_encodeText (payload : List UInt8) (letters : List Char) :
    decodeText (encodeText payload letters) = some (letters,payload) := by
  induction letters with
  | nil => rfl
  | cons letter rest ih =>
    have bound : letter.toNat < 1114112 := by
      have valid := letter.valid
      have same : letter.toNat = letter.val.toNat := rfl
      rcases valid with low | high <;> omega
    have value : letter.toNat % 256 + 256 * (letter.toNat / 256 % 256) + 65536 * (letter.toNat / 65536 % 256) =
        letter.toNat := by omega
    simp [encodeText,decodeText,ih,value]

def plainCodec : Codec where
  encode event payload := encodeText payload event.toList
  decode data := (decodeText data).map fun done => (String.ofList done.1,done.2)
  decodes event payload := by simp [decodeText_encodeText]
  lifecycle _ := false
  notFound := []

-- What a client gets for one message.
structure Frame where
  event : String
  payload : List UInt8
  id : Option MessageId
deriving DecidableEq,Repr

-- The tasks that `put` gathers start in the order in which they were made.
structure Streaming where
  manager : StreamManager
  flying : List (Nat × Message)
  runs : List RunKey

-- `found` is what `Runs.get` says of the run: whether it is resumable, and
-- pending or running.
structure RunView where
  resumable : Bool
  active : Bool
deriving DecidableEq,Repr

structure Wake where
  currentMs : Int
  expired : Bool
  found : Option RunView

-- `_run_stream_mode_matches`.
def modeMatches (mode : String) (streamMode : List String) : Bool :=
  streamMode.isEmpty || streamMode.contains mode ||
    ((streamMode.contains "messages" || streamMode.contains "messages-tuple") && "messages".toList.isPrefixOf mode.toList) ||
    (mode.toList.contains '|' && streamMode.contains (String.ofList (mode.toList.takeWhile (· != '|'))))

inductive Ending where
  | done
  | closed
  | settled
  | missing
  | failed
deriving DecidableEq,Repr

-- Where a client of `Runs.Stream` is: its queue, and in the replay the list it
-- goes through, a copy or the log itself, with the next position. Once its wait
-- has timed out it looks at the run, and an unknown run is reported to it.
inductive RunPhase where
  | subscribing
  | joining (queue : Nat)
  | replaying (queue : Nat) (copy : Option (List Message)) (position : Nat)
  | waiting (queue : Nat)
  | looking (queue : Nat)
  | reporting (queue : Nat)
  | ended (ending : Ending)

structure RunClient where
  key : RunKey
  streamMode : List String
  cursor : Option Cursor
  ignore404 : Bool
  found : Option RunView
  phase : RunPhase
  yielded : List Frame

inductive Reading where
  | ends
  | skips
  | yields (frame : Frame)
  | fails

section run
variable (codec : Codec)

-- What `Runs.Stream.join` does with a message.
def RunClient.reading (c : RunClient) (message : Message) : Reading :=
  match codec.decode message.data with
  | none => .fails
  | some (mode,payload) =>
    if mode = "control" then if payload = bytes "done" then .ends else .skips
    else if modeMatches mode c.streamMode then .yields ⟨mode,payload,message.id⟩
    else .skips

def RunClient.restores (c : RunClient) (message : Message) : Bool :=
  match c.cursor with
  | none => false
  | some cursor => cursor.precedes message

inductive Replay where
  | yields (frame : Frame) (position : Nat)
  | exhausted
  | ended
  | failed

-- The replay up to its next yield, from a position and what follows it.
def RunClient.replay (c : RunClient) : Nat → List Message → Replay
  | _,[] => .exhausted
  | position,message :: rest =>
    if !c.restores message then c.replay (position+1) rest
    else
      match c.reading codec message with
      | .ends => .ended
      | .skips => c.replay (position+1) rest
      | .yields frame => .yields frame (position+1)
      | .fails => .failed

def leave (s : Streaming) (c : RunClient) (queue : Nat) (ending : Ending) : Streaming × RunClient :=
  ({s with manager := s.manager.removeQueue c.key queue},{c with phase := .ended ending})

def goReplay (s : Streaming) (c : RunClient) (queue : Nat) (copy : Option (List Message)) (position : Nat) :
    Streaming × RunClient :=
  match c.replay codec position ((copy.getD (s.manager.stored c.key)).drop position) with
  | .yields frame next => (s,{c with phase := .replaying queue copy next, yielded := c.yielded ++ [frame]})
  | .exhausted => (s,{c with phase := .waiting queue})
  | .ended => leave s c queue .done
  | .failed => leave s c queue .failed

-- What the generator of `restore_messages` goes through when it starts.
def RunClient.copied (s : Streaming) (c : RunClient) : Option (List Message) :=
  match c.cursor with
  | none => some []
  | some (.index last) => some ((s.manager.stored c.key).drop (last+1))
  | some (.after _) => if (s.manager.messageStores.find c.key).isNone then some [] else none

-- One message from the queue, or a timeout. The timeout can come first although
-- a message is there already: it stays in the queue.
def goLive (w : Wake) (s : Streaming) (c : RunClient) (queue : Nat) : Streaming × RunClient :=
  if w.expired then (s,{c with phase := .looking queue})
  else
    match s.manager.contents.read queue with
    | [] => (s,c)
    | message :: rest =>
      let s := {s with manager := {s.manager with contents := s.manager.contents.write queue rest}}
      if message.topic = .closed then leave s c queue .closed
      else
        match c.reading codec message with
        | .ends => leave s c queue .done
        | .skips => (s,c)
        | .fails => leave s c queue .failed
        | .yields frame =>
          match c.found with
          | none => leave s c queue .failed
          | some run => (s,{c with yielded := c.yielded ++ [{frame with id := if run.resumable then frame.id else none}]})

-- `Runs.get` after its handler: what was delivered meanwhile is in the queue.
def goLook (w : Wake) (s : Streaming) (c : RunClient) (queue : Nat) : Streaming × RunClient :=
  let c := {c with found := w.found}
  match w.found with
  | none =>
    if c.ignore404 then leave s c queue .missing
    else (s,{c with phase := .reporting queue, yielded := c.yielded ++ [⟨"error",codec.notFound,none⟩]})
  | some run => if run.active then (s,{c with phase := .waiting queue}) else leave s c queue .settled

-- `Runs.Stream.subscribe`, then `Runs.Stream.join` on the queue it returned.
def runClient (w : Wake) (s : Streaming) (c : RunClient) : Streaming × RunClient :=
  match c.phase with
  | .subscribing =>
    let added := s.manager.subscribe w.currentMs c.key
    ({s with manager := added.1},{c with phase := .joining added.2})
  | .joining queue => goReplay codec s {c with found := w.found} queue (c.copied s) 0
  | .replaying queue copy position => goReplay codec s c queue copy position
  | .waiting queue => goLive codec w s c queue
  | .looking queue => goLook codec w s c queue
  | .reporting queue => leave s c queue .missing
  | .ended _ => (s,c)

end run

-- Where a client of `Threads.Stream` is: at what is left of its sorted replay,
-- at the top of its loop, or at a yield within one pass over its queues. The
-- last yield for a run is that of its done message.
inductive ThreadPhase where
  | joining
  | replaying (left : List (Message × String))
  | polling
  | draining (pass retired : List (String × Nat))
  | finishing (pass retired : List (String × Nat))
  | ended (ending : Ending)

-- `seen` and `created` name the thread's own stream by the thread's id.
structure ThreadClient where
  threadId : String
  streamModes : List String
  cursor : Option Cursor
  phase : ThreadPhase
  seen : List String
  created : List (String × Nat)
  streamQueue : Option Nat
  yielded : List (Frame × String)

def runDone (runId : String) : List UInt8 :=
  bytes ("\x7b\"status\":\"run_done\",\"run_id\":\"" ++ runId ++ "\"\x7d")

section thread
variable (codec : Codec)

-- `should_filter_event`, the other way round.
def ThreadClient.keeps (c : ThreadClient) (event : String) (payload : List UInt8) : Bool :=
  (c.streamModes.contains "run_modes" && event != "state_update") ||
    (c.streamModes.contains "state_update" && event == "state_update") ||
    (c.streamModes.contains "lifecycle" && event == "metadata" && codec.lifecycle payload)

-- All messages of the thread after the cursor, with their runs, in the order
-- of the texts of their ids.
def ThreadClient.collected (s : Streaming) (c : ThreadClient) : List (Message × String) :=
  let events := (s.manager.messageStores.runIds (some c.threadId)).flatMap fun runId =>
    (s.manager.restoreMessages ⟨some c.threadId,runId⟩ c.cursor).map fun message => (message,runId)
  events.insertionSort fun one other => (one.1.id.map MessageId.text).getD "" ≤ (other.1.id.map MessageId.text).getD ""

-- A replayed message as the client sees it: a done message is metadata.
def ThreadClient.replayed (c : ThreadClient) (message : Message) (runId : String) : Reading :=
  match codec.decode message.data with
  | none => .fails
  | some (event,payload) =>
    let done : Bool := event = "control" ∧ payload = bytes "done"
    let event := if done then "metadata" else event
    let payload := if done then runDone runId else payload
    if c.keeps codec event payload then .yields ⟨event,payload,message.id⟩ else .skips

-- What one queue gives up to the next yield. A frame that does not decode is
-- passed over.
inductive Drained where
  | empty
  | yields (frame : Frame) (left : List Message)
  | finishes (told : Option (Frame × String)) (left : List Message)
  | closes (left : List Message)

def ThreadClient.drain (c : ThreadClient) : List Message → Drained
  | [] => .empty
  | message :: rest =>
    if message.topic = .closed then .closes rest
    else
      match codec.decode message.data with
      | none => c.drain rest
      | some (event,payload) =>
        if event = "control" ∧ payload = bytes "done" then
          let runId := message.topic.runId
          .finishes (if c.keeps codec "metadata" (runDone runId) then some (⟨"metadata",runDone runId,message.id⟩,runId)
            else none) rest
        else if c.keeps codec event payload then .yields ⟨event,payload,message.id⟩ rest
        else c.drain rest

def emptied (s : Streaming) (queue : Nat) (left : List Message) : Streaming :=
  {s with manager := {s.manager with contents := s.manager.contents.write queue left}}

-- The end of the generator gives all its queues back.
def ThreadClient.giveBack (s : Streaming) (c : ThreadClient) (ending : Ending) : Streaming × ThreadClient :=
  let released := c.created.foldl (fun m row => if c.streamQueue = some row.2 then m.removeThreadStream c.threadId row.2
    else m.removeQueue ⟨some c.threadId,row.1⟩ row.2) s.manager
  ({s with manager := released},{c with phase := .ended ending})

-- `retired_run_queues.append`.
def ThreadClient.retire (c : ThreadClient) (row : String × Nat) (retired : List (String × Nat)) : List (String × Nat) :=
  if c.streamQueue = some row.2 then retired else retired ++ [row]

-- The rest of a pass over the queues, up to the next yield or the next sleep.
def ThreadClient.goThrough (s : Streaming) (c : ThreadClient) (retired : List (String × Nat)) :
    List (String × Nat) → Streaming × ThreadClient
  | [] =>
    let removed := retired.foldl (fun m row => m.removeQueue ⟨some c.threadId,row.1⟩ row.2) s.manager
    ({s with manager := removed},{c with phase := .polling, created := retired.foldl List.erase c.created})
  | row :: rest =>
    match c.drain codec (s.manager.contents.read row.2) with
    | .empty => c.goThrough (emptied s row.2 []) retired rest
    | .yields frame left =>
      (emptied s row.2 left,{c with phase := .draining (row :: rest) retired, yielded := c.yielded ++ [(frame,row.1)]})
    | .finishes (some told) left =>
      (emptied s row.2 left,{c with phase := .finishing (row :: rest) retired, yielded := c.yielded ++ [told]})
    | .finishes none left => c.goThrough (emptied s row.2 left) (c.retire row retired) rest
    | .closes left => c.giveBack (emptied s row.2 left) .closed

-- `Threads.Stream.subscribe` and the bookkeeping of its new queues.
def ThreadClient.watch (now : Int) (s : Streaming) (c : ThreadClient) : Streaming × ThreadClient :=
  if c.seen.contains c.threadId then (s,c)
  else
    let added := s.manager.addThreadStream now c.threadId
    let streamQueue := if (added.1.threadQueues c.threadId).contains added.2 then some added.2 else c.streamQueue
    ({s with manager := added.1},
      {c with seen := c.seen ++ [c.threadId], created := c.created ++ [(c.threadId,added.2)], streamQueue})

def ThreadClient.follow (now : Int) (s : Streaming) (c : ThreadClient) : List RunKey → Streaming × ThreadClient
  | [] => (s,c)
  | key :: rest =>
    if key.threadId = some c.threadId ∧ key.runId ∉ c.seen then
      let added := s.manager.addQueue now key
      ThreadClient.follow now {s with manager := added.1}
        {c with seen := c.seen ++ [key.runId], created := c.created ++ [(key.runId,added.2)]} rest
    else c.follow now s rest

def ThreadClient.poll (w : Wake) (s : Streaming) (c : ThreadClient) : Streaming × ThreadClient :=
  let watched := c.watch w.currentMs s
  let followed := watched.2.follow w.currentMs watched.1 watched.1.runs
  followed.2.goThrough codec followed.1 [] followed.2.created

-- The replay up to its next yield.
def ThreadClient.replay (w : Wake) (s : Streaming) (c : ThreadClient) : List (Message × String) → Streaming × ThreadClient
  | [] => c.poll codec w s
  | row :: rest =>
    match c.replayed codec row.1 row.2 with
    | .yields frame => (s,{c with phase := .replaying rest, yielded := c.yielded ++ [(frame,row.2)]})
    | .fails => c.giveBack s .failed
    | _ => c.replay w s rest

-- `Threads.Stream.join_event_streaming`.
def threadClient (w : Wake) (s : Streaming) (c : ThreadClient) : Streaming × ThreadClient :=
  match c.phase with
  | .joining => c.replay codec w s (c.collected s)
  | .replaying left => c.replay codec w s left
  | .polling => c.poll codec w s
  | .draining pass retired => c.goThrough codec s retired pass
  | .finishing pass retired =>
    match pass with
    | [] => c.goThrough codec s retired []
    | row :: rest => c.goThrough codec s (c.retire row retired) rest
  | .ended _ => (s,c)

end thread

-- `deliveries` stands for the tasks in flight; the first of them is the next.
inductive StreamTask where
  | publish (key : RunKey) (event : String) (payload : List UInt8) (resumable : Bool)
  | create (key : RunKey)
  | deliveries
  | run (client : RunClient)
  | thread (client : ThreadClient)

def publish (codec : Codec) (now : Int) (s : Streaming) (key : RunKey) (event : String) (payload : List UInt8)
    (resumable : Bool) : Streaming :=
  let done := s.manager.put now key ⟨.stream key.runId,codec.encode event payload,none⟩ resumable
  {s with manager := done.1, flying := s.flying ++ done.2}

def deliverNext (s : Streaming) : Streaming :=
  match s.flying with
  | [] => s
  | (queue,message) :: rest => {s with manager := s.manager.deliver queue message, flying := rest}

def resume (codec : Codec) (w : Wake) (s : Streaming) : StreamTask → Streaming × List StreamTask
  | .publish key event payload resumable => (publish codec w.currentMs s key event payload resumable,[])
  | .create key => ({s with runs := s.runs ++ [key]},[])
  | .deliveries => (deliverNext s,[.deliveries])
  | .run client =>
    let done := runClient codec w s client
    (done.1,[.run done.2])
  | .thread client =>
    let done := threadClient codec w s client
    (done.1,[.thread done.2])

def subscriber (key : RunKey) (streamMode : List String) (cursor : Option Cursor) (ignore404 : Bool) : RunClient :=
  ⟨key,streamMode,cursor,ignore404,none,.subscribing,[]⟩

def watcher (threadId : String) (streamModes : List String) (cursor : Option Cursor) : ThreadClient :=
  ⟨threadId,streamModes,cursor,.joining,[],[],none,[]⟩

abbrev Pool := TaskPool.Pool Streaming StreamTask

abbrev Event := TaskPool.Event StreamTask Wake

abbrev Runs (codec : Codec) : Pool → List (Pool × Event) → Pool → Prop := TaskPool.Runs (resume codec)

def start : Pool := ⟨⟨.new,[],[]⟩,[.deliveries]⟩

end InmemRuntime.StreamClients
