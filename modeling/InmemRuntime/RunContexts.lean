import InmemRuntime.Streams
import InmemRuntime.TaskPool

namespace InmemRuntime.RunContexts
open ObjectHeap Streams

-- What the done event of a run was set with.
inductive Ending where
  | rollback
  | interrupt
  | finished
deriving DecidableEq,Repr

-- One `Runs.enter`: its control queue, whether the caller is inside, whether
-- the listener is alive and has looked at the control key, and the event.
structure Context where
  key : RunKey
  queue : Nat
  inside : Bool
  listening : Bool
  checked : Bool
  done : Option Ending
deriving DecidableEq,Repr

structure Process where
  manager : StreamManager
  contexts : Heap Context

-- The clock, and whether a wait that could time out has done so.
structure Wake where
  currentMs : Int
  expired : Bool

-- `delivering` is one of the tasks that `put` gathers. A context that has been
-- left still puts its two final messages.
inductive StreamTask where
  | put (key : RunKey) (message : Message) (resumable : Bool)
  | delivering (queue : Nat) (message : Message)
  | subscribe (key : RunKey)
  | enter (key : RunKey) (resumable : Bool)
  | inside (context : Nat) (resumable : Bool)
  | leaving (context : Nat) (resumable : Bool)
  | closing (context : Nat)
  | listen (context : Nat)
deriving DecidableEq

def cancellation (data : List UInt8) : Option Ending :=
  if data = bytes "rollback" then some .rollback
  else if data = bytes "interrupt" then some .interrupt
  else none

def ending (data : List UInt8) : Option Ending :=
  match cancellation data with
  | some reason => some reason
  | none => if data = bytes "done" then some .finished else none

def deliveries (chosen : List (Nat × Message)) : List StreamTask := chosen.map fun row => .delivering row.1 row.2

def enter (w : Wake) (s : Process) (key : RunKey) (resumable : Bool) : Process × List StreamTask :=
  let added := (s.manager.markRunActive key).addControlQueue w.currentMs key
  let made := s.contexts.alloc ⟨key,added.2,true,true,false,none⟩
  (⟨added.1,made.1⟩,[.listen made.2,.inside made.2 resumable])

-- The end of the caller's block: the control message for late subscribers.
def leave (w : Wake) (s : Process) (ref : Nat) (resumable : Bool) : Process × List StreamTask :=
  let context := s.contexts.read ref
  let published := s.manager.put w.currentMs context.key (controlMessage context.key "done") false
  (⟨published.1,s.contexts.write ref {context with inside := false}⟩,.leaving ref resumable :: deliveries published.2)

-- Then the stream message; `codec` is `STREAM_CODEC.encode("control", b"done")`.
def announce (codec : List UInt8) (w : Wake) (s : Process) (ref : Nat) (resumable : Bool) : Process × List StreamTask :=
  let context := s.contexts.read ref
  let published := s.manager.put w.currentMs context.key ⟨.stream context.key.runId,codec,none⟩ resumable
  ({s with manager := published.1},.closing ref :: deliveries published.2)

-- The task group cancels the listener, and the run gives back its queue.
def close (s : Process) (ref : Nat) : Process :=
  let context := s.contexts.read ref
  ⟨(s.manager.removeControlQueue context.key context.queue).markRunInactive context.key,
    s.contexts.write ref {context with listening := false}⟩

-- `listen_for_cancellation`: first the control key, then one message after the
-- other. A timeout can only end it while its queue is empty.
def listen (w : Wake) (s : Process) (ref : Nat) : Process × List StreamTask :=
  let context := s.contexts.read ref
  if !context.listening then (s,[])
  else if !context.checked then
    let done := (s.manager.getControlKey context.key).bind fun message => cancellation message.data
    ({s with contexts := s.contexts.write ref {context with checked := true, done, listening := done.isNone}},
      if done.isNone then [.listen ref] else [])
  else
    match s.manager.contents.read context.queue with
    | [] =>
      if w.expired then ({s with contexts := s.contexts.write ref {context with listening := false}},[])
      else (s,[.listen ref])
    | message :: rest =>
      let done := ending message.data
      (⟨{s.manager with contents := s.manager.contents.write context.queue rest},
        s.contexts.write ref {context with done, listening := done.isNone}⟩,if done.isNone then [.listen ref] else [])

def resume (codec : List UInt8) (w : Wake) (s : Process) : StreamTask → Process × List StreamTask
  | .put key message resumable =>
    let published := s.manager.put w.currentMs key message resumable
    ({s with manager := published.1},deliveries published.2)
  | .delivering queue message => ({s with manager := s.manager.deliver queue message},[])
  | .subscribe key => ({s with manager := (s.manager.subscribe w.currentMs key).1},[])
  | .enter key resumable => enter w s key resumable
  | .inside ref resumable => leave w s ref resumable
  | .leaving ref resumable => announce codec w s ref resumable
  | .closing ref => (close s ref,[])
  | .listen ref => listen w s ref

-- Calls from outside; the rest starts from them.
def StreamTask.fresh : StreamTask → Bool
  | .put _ _ _ | .subscribe _ | .enter _ _ => true
  | _ => false

abbrev Pool := TaskPool.Pool Process StreamTask

abbrev Event := TaskPool.Event StreamTask Wake

abbrev Runs (codec : List UInt8) : Pool → List (Pool × Event) → Pool → Prop := TaskPool.Runs (resume codec)

def start : Pool := ⟨⟨.new,⟨fun _ => ⟨⟨none,""⟩,0,false,false,false,none⟩,0⟩⟩,[]⟩

end InmemRuntime.RunContexts
