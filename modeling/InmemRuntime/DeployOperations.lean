import InmemRuntime.RingLog
import InmemRuntime.PythonJson
import InmemRuntime.Histories

namespace InmemRuntime.DeployOperations
open PythonJson RingLog

inductive Status where
  | running
  | succeeded
  | failed
deriving DecidableEq,Repr

-- The name and the payload of an event of the stream.
abbrev SseEvent := String × Fields

structure DeployOperation where
  operationId : String
  status : Status
  exitCode : Option Int
  startedAt : Int
  finishedAt : Option Int
  events : List SseEvent
  lastStatusUrlEvent : Option Fields
  lastResultEvent : Option Fields
  stderrTail : List String
  totalAppended : Nat

@[irreducible] def eventsMaxlen : Nat := 2000
@[irreducible] def stderrMaxlen : Nat := 50

namespace DeployOperation

def new (operationId : String) (startedAt : Int) : DeployOperation :=
  ⟨operationId,.running,none,startedAt,none,[],none,none,[],0⟩

def ring (op : DeployOperation) : RingLog.Ring SseEvent := ⟨op.events,op.totalAppended⟩

-- `op.events.append(event)` and `op._total_appended += 1`.
def append (op : DeployOperation) (event : SseEvent) : DeployOperation :=
  let ring := op.ring.push eventsMaxlen event
  {op with events := ring.items, totalAppended := ring.total}

end DeployOperation

-- A line of output as `decode(...).rstrip()` leaves it, or one that is too long
-- for the `StreamReader`, which raises then.
inductive Line where
  | text (line : String)
  | overlong
deriving DecidableEq

-- `json.loads`: a value, a `JSONDecodeError` or another `ValueError`, or
-- something else that is raised, such as a `RecursionError`.
inductive Loaded where
  | value (value : Json)
  | malformed
  | raises

inductive Reader where
  | reading
  | waiting
  | draining (final : Option Status)
  | finished
deriving DecidableEq

inductive Watchdog where
  | sleeping
  | terminating
  | finished
deriving DecidableEq

-- An operation with its subprocess and its three tasks. `stdout` and `stderr`
-- are what is left to read of the output, and `log` is every event that was
-- ever appended, which the code does not keep.
structure Deploy where
  op : DeployOperation
  stdout : List Line
  stderr : List Line
  returncode : Option Int
  reader : Reader
  stderrDone : Bool
  watchdog : Watchdog
  log : List SseEvent

def spawned (op : DeployOperation) (stdout stderr : List Line) : Deploy := ⟨op,stdout,stderr,none,.reading,false,.sleeping,[]⟩

def Deploy.append (d : Deploy) (event : SseEvent) : Deploy := {d with op := d.op.append event, log := d.log ++ [event]}

def logEvent (message level : Json) : SseEvent := ("log",[("message",message),("level",level)])

def stderrEvent (line : String) : SseEvent := logEvent (.str line) (.str "error")

section reading
variable (loads : String → Loaded)

def namedEventTypes : List String := ["step","result","upload_progress","heartbeat"]

def eventType (event : Fields) : Json := (event.lookup "event").getD .null

-- `evt_type in _NAMED_EVENT_TYPES` raises for what has no hash.
def hashable : Json → Bool
  | .arr _ | .obj _ => false
  | _ => true

def stash (op : DeployOperation) (event : Fields) : DeployOperation :=
  match eventType event with
  | .str "status_url" => {op with lastStatusUrlEvent := some event}
  | .str "result" => {op with lastResultEvent := some event}
  | _ => op

def collapsed (event : Fields) : Option SseEvent :=
  let message := (event.lookup "message").getD (.str "")
  let level := if truthy (eventType event) then eventType event else .str "log"
  if truthy message then some (logEvent message level) else none

-- What an object from the CLI becomes on the stream.
def forwarded (event : Fields) : Option SseEvent :=
  match eventType event with
  | .str name => if name ∈ namedEventTypes then some (name,event) else collapsed event
  | _ => collapsed event

def Deploy.appendAll (d : Deploy) (event : Option SseEvent) : Deploy := event.elim d d.append

def Deploy.stash (d : Deploy) (event : Fields) : Deploy := {d with op := DeployOperations.stash d.op event}

-- One turn of the loop over the output; `none` if it raises.
def readLine (d : Deploy) : Line → Option Deploy
  | .overlong => none
  | .text line =>
    match loads line with
    | .raises => none
    | .malformed => some (d.append (logEvent (.str line) (.str "log")))
    | .value (.obj event) => if hashable (eventType event) then some ((d.stash event).appendAll (forwarded event)) else none
    | .value _ => none

-- The end of `_read_subprocess`, from where the drain of stderr is over.
def finish (now : Int) (final : Option Status) (d : Deploy) : Deploy :=
  let d := if final = some .failed then (d.op.stderrTail.map stderrEvent).foldl Deploy.append d else d
  {d with
    op := {d.op with finishedAt := some now, status := final.getD d.op.status}
    reader := .finished
    watchdog := .finished}

def conclude (now : Int) (final : Option Status) (d : Deploy) : Deploy :=
  if d.stderrDone then finish now final d else {d with reader := .draining final}

def statusOf (code : Int) : Status := if code = 0 then .succeeded else .failed

-- `_read_subprocess` goes on after a line or the end of the output.
def readNext (now : Int) (d : Deploy) : Deploy :=
  match d.reader,d.stdout with
  | .reading,[] => {d with reader := .waiting}
  | .reading,line :: rest => (readLine loads {d with stdout := rest} line).getD (conclude now (some .failed) {d with stdout := rest})
  | _,_ => d

-- After `op._proc.wait()`.
def waited (now : Int) (d : Deploy) : Deploy :=
  match d.reader,d.returncode with
  | .waiting,some code => conclude now (some (statusOf code)) {d with op := {d.op with exitCode := some code}}
  | _,_ => d

-- After the bounded wait for the drain, which is over or cancelled then.
def drained (now : Int) (d : Deploy) : Deploy :=
  match d.reader with
  | .draining final => finish now final {d with stderrDone := true}
  | _ => d

def cancelReader (now : Int) (d : Deploy) : Deploy :=
  match d.reader with
  | .reading | .waiting => conclude now none d
  | .draining _ => {d with reader := .finished, stderrDone := true}
  | .finished => d

end reading

section besides

-- `_drain_stderr` goes on.
def drain (d : Deploy) : Deploy :=
  if d.stderrDone then d
  else match d.stderr with
    | [] => {d with stderrDone := true}
    | .overlong :: rest => {d with stderr := rest, stderrDone := true}
    | .text line :: rest =>
      if line.isEmpty then {d with stderr := rest}
      else {d with stderr := rest, op := {d.op with stderrTail := keepLast stderrMaxlen (d.op.stderrTail ++ [line])}}

def exit (code : Int) (d : Deploy) : Deploy := {d with returncode := some (d.returncode.getD code)}

def timedOut : SseEvent := logEvent (.str "Deploy timed out after 900s, terminating subprocess") (.str "error")
def notExited : SseEvent := logEvent (.str "Deploy did not exit within 5.0s after SIGTERM, killing") (.str "error")

-- `_timeout_watchdog` after its sleep.
def timeout (d : Deploy) : Deploy :=
  match d.watchdog with
  | .sleeping =>
    if d.op.status = .running ∧ d.returncode = none then {d.append timedOut with watchdog := .terminating}
    else {d with watchdog := .finished}
  | _ => d

-- And after the grace that it gives.
def grace (exited : Bool) (d : Deploy) : Deploy :=
  match d.watchdog with
  | .terminating => if exited then {d with watchdog := .finished} else {d.append notExited with watchdog := .finished}
  | _ => d

end besides

inductive Event where
  | read
  | waited
  | drained
  | cancelReader
  | drain
  | exit (code : Int)
  | timeout
  | grace (exited : Bool)
deriving DecidableEq

-- A task goes on, or the process exits; nothing happens where that cannot be.
def step (loads : String → Loaded) (d : Deploy) : Int × Event → Deploy
  | (now,.read) => readNext loads now d
  | (now,.waited) => waited now d
  | (now,.drained) => drained now d
  | (now,.cancelReader) => cancelReader now d
  | (_,.drain) => drain d
  | (_,.exit code) => exit code d
  | (_,.timeout) => timeout d
  | (_,.grace exited) => grace exited d

abbrev Runs (loads : String → Loaded) (start : Deploy) : List (Deploy × (Int × Event)) → Deploy → Prop :=
  Histories.Runs (step loads) start

section effects
variable {loads : String → Loaded} {d : Deploy}

theorem appends_eq (events : List SseEvent) (d : Deploy) : ∃ buffer total, events.foldl Deploy.append d =
    {d with op := {d.op with events := buffer, totalAppended := total}, log := d.log ++ events} := by
  induction events generalizing d with
  | nil => exact ⟨d.op.events,d.op.totalAppended,by simp⟩
  | cons event rest ih =>
    obtain ⟨buffer,total,same⟩ := ih (d.append event)
    refine ⟨buffer,total,?_⟩
    rw [List.foldl_cons,same]
    simp [Deploy.append,DeployOperation.append]

-- All that the end of the reader does.
theorem finish_eq (now : Int) (final : Option Status) (d : Deploy) : ∃ buffer total more, finish now final d =
    {d with
      op := {d.op with events := buffer, totalAppended := total, finishedAt := some now, status := final.getD d.op.status}
      reader := .finished
      watchdog := .finished
      log := d.log ++ more} := by
  unfold finish
  split
  · obtain ⟨buffer,total,same⟩ := appends_eq (d.op.stderrTail.map stderrEvent) d
    exact ⟨buffer,total,_,by rw [same]⟩
  · exact ⟨d.op.events,d.op.totalAppended,[],by simp⟩

-- The buffer is the end of the log.
def Buffered (d : Deploy) : Prop := Holds eventsMaxlen d.op.ring d.log

theorem append_ring (op : DeployOperation) (event : SseEvent) : (op.append event).ring = op.ring.push eventsMaxlen event := by
  unfold DeployOperation.append
  generalize op.ring.push eventsMaxlen event = ring
  rfl

theorem append_buffered (buffered : Buffered d) (event : SseEvent) : Buffered (d.append event) := by
  have ring : (d.append event).op.ring = d.op.ring.push eventsMaxlen event := append_ring d.op event
  have log : (d.append event).log = d.log ++ [event] := rfl
  unfold Buffered
  rw [ring,log]
  exact push_holds buffered event

-- The buffer only depends on what is in it.
theorem Buffered.of_same {d' : Deploy} (buffered : Buffered d) (ring : d'.op.ring = d.op.ring) (log : d'.log = d.log) : Buffered d' := by
  unfold Buffered
  rw [ring,log]
  exact buffered

theorem appends_buffered (buffered : Buffered d) (events : List SseEvent) : Buffered (events.foldl Deploy.append d) := by
  induction events generalizing d with
  | nil => exact buffered
  | cons event rest ih =>
    rw [List.foldl_cons]
    exact ih (append_buffered buffered event)

theorem finish_buffered (buffered : Buffered d) (now : Int) (final : Option Status) : Buffered (finish now final d) := by
  unfold finish
  split
  · exact (appends_buffered buffered (d.op.stderrTail.map stderrEvent)).of_same rfl rfl
  · exact buffered.of_same rfl rfl

theorem conclude_buffered (buffered : Buffered d) (now : Int) (final : Option Status) : Buffered (conclude now final d) := by
  unfold conclude
  split
  · exact finish_buffered buffered now final
  · exact buffered

@[simp] theorem stash_ring (op : DeployOperation) (event : Fields) : (stash op event).ring = op.ring := by
  unfold stash
  split <;> rfl

theorem readLine_buffered (buffered : Buffered d) {line : Line} {d' : Deploy} (went : readLine loads d line = some d') : Buffered d' := by
  unfold readLine at went
  split at went
  · cases went
  · split at went
    · cases went
    · cases went
      exact append_buffered buffered _
    · rename_i event _
      split at went
      · cases went
        have stashed : Buffered (d.stash event) := buffered.of_same (stash_ring d.op event) rfl
        cases forwarded event with
        | none => exact stashed
        | some sse => exact append_buffered stashed sse
      · cases went
    · cases went

theorem step_buffered (d : Deploy) (event : Int × Event) (buffered : Buffered d) : Buffered (step loads d event) := by
  obtain ⟨now,event⟩ := event
  cases event with
  | read =>
    dsimp only [step,readNext]
    split
    · exact buffered
    · rename_i line rest _ _
      have unread : Buffered {d with stdout := rest} := buffered.of_same rfl rfl
      cases went : readLine loads {d with stdout := rest} line with
      | none => exact conclude_buffered unread now _
      | some d' => exact readLine_buffered unread went
    · exact buffered
  | waited =>
    dsimp only [step,waited]
    split
    · refine conclude_buffered ?_ now _
      exact buffered.of_same rfl rfl
    · exact buffered
  | drained =>
    dsimp only [step,drained]
    split
    · refine finish_buffered ?_ now _
      exact buffered.of_same rfl rfl
    · exact buffered
  | cancelReader =>
    dsimp only [step,cancelReader]
    split
    · exact conclude_buffered buffered now _
    · exact conclude_buffered buffered now _
    · exact buffered
    · exact buffered
  | drain =>
    dsimp only [step,drain]
    split
    · exact buffered
    · split
      · exact buffered
      · exact buffered
      · split <;> exact buffered
  | exit code => exact buffered
  | timeout =>
    dsimp only [step,timeout]
    split
    · split
      · exact (append_buffered buffered timedOut).of_same rfl rfl
      · exact buffered.of_same rfl rfl
    · exact buffered
  | grace exited =>
    dsimp only [step,grace]
    split
    · split
      · exact buffered.of_same rfl rfl
      · exact (append_buffered buffered notExited).of_same rfl rfl
    · exact buffered

theorem spawned_buffered (operationId : String) (startedAt : Int) (stdout stderr : List Line) :
    Buffered (spawned (.new operationId startedAt) stdout stderr) := empty_holds

end effects
end InmemRuntime.DeployOperations
