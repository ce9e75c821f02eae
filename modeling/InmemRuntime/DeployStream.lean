import InmemRuntime.DeployReader

namespace InmemRuntime.DeployStream
open PythonJson RingLog DeployOperations DeployReader

-- What the generator yields: an event with its id, or the terminal marker.
inductive Yielded where
  | event (id : Nat) (event : SseEvent)
  | terminal (id : Nat) (name : String) (exitCode : Option Int)

namespace Yielded

def id : Yielded → Nat
  | .event number _ => number
  | .terminal number _ _ => number

def row : Yielded → Option (Nat × SseEvent)
  | .event number sse => some (number,sse)
  | .terminal _ _ _ => none

end Yielded

-- Where the generator is suspended: before its first look or in its sleep, in
-- the loop over a snapshot, in that over the last one, or after the end.
inductive Client where
  | sleeping (cursor : Nat)
  | yielding (rest : List (Nat × SseEvent)) (total : Nat)
  | closing (rest : List (Nat × SseEvent))
  | ended

-- What is left of the snapshot in hand.
def Client.owed : Client → List (Nat × SseEvent)
  | .yielding rest _ | .closing rest => rest
  | .sleeping _ | .ended => []

section generating
variable (op : DeployOperation)

def terminal : Yielded := .terminal (op.totalAppended + 1) (if op.status = .succeeded then "done" else "error") op.exitCode

def close : List (Nat × SseEvent) → Client × Option Yielded
  | [] => (.ended,some (terminal op))
  | (id,event) :: rest => (.closing rest,some (.event id event))

-- `cursor = total`, and what follows.
def check (cursor : Nat) : Client × Option Yielded :=
  if op.status ≠ .running then close op (op.ring.later cursor) else (.sleeping cursor,none)

def send (total : Nat) : List (Nat × SseEvent) → Client × Option Yielded
  | [] => check op total
  | (id,event) :: rest => (.yielding rest total,some (.event id event))

-- `stream_deploy_logs.generate` goes on.
def generate : Client → Client × Option Yielded
  | .sleeping cursor => send op op.totalAppended (op.ring.later cursor)
  | .yielding rest total => send op total rest
  | .closing rest => close op rest
  | .ended => (.ended,none)

-- The buffer as the generator copies it on the way. The second copy of one turn
-- is the same as the first.
def copied : Client → List (List (Nat × SseEvent))
  | .sleeping _ => [op.ring.rows]
  | .yielding [] _ => if op.status ≠ .running then [op.ring.rows] else []
  | .yielding (_ :: _) _ | .closing _ | .ended => []

end generating

-- A request from a cursor on, with what it was sent and the snapshots it took.
structure Session where
  initial : Nat
  client : Client
  given : List Yielded
  snapshots : List (List (Nat × SseEvent))

def Session.goOn (session : Session) (op : DeployOperation) : Session :=
  let (client,yielded) := generate op session.client
  ⟨session.initial,client,session.given ++ yielded.toList,session.snapshots ++ copied op session.client⟩

-- What it was sent and what is left of the snapshot in hand.
def Session.rows (session : Session) : List (Nat × SseEvent) := session.given.filterMap Yielded.row ++ session.client.owed

structure World where
  deploy : Deploy
  session : Option Session

inductive Move where
  | operation (now : Int) (event : Event)
  | connect (cursor : Nat)
  | resume

-- The operation goes on, a client comes with a cursor it may have, or its
-- generator is resumed.
def move (loads : String → Loaded) (w : World) : Move → World
  | .operation now event => {w with deploy := step loads w.deploy (now,event)}
  | .connect cursor =>
    if w.session.isNone ∧ cursor ≤ w.deploy.op.totalAppended then {w with session := some ⟨cursor,.sleeping cursor,[],[]⟩} else w
  | .resume => {w with session := w.session.map fun session => session.goOn w.deploy.op}

abbrev StreamRuns (loads : String → Loaded) (start : World) : List (World × Move) → World → Prop := Histories.Runs (move loads) start

-- What a client gets. The rows left of the snapshot in hand come next, one by one,
-- whatever becomes of the operation.
structure GapExact (d : Deploy) (session : Session) : Prop where
  increasing : (session.given.map Yielded.id).Pairwise (· < ·)
  numbered : ∀ id event, .event id event ∈ session.given → 0 < id ∧ d.log[id-1]? = some event
  once : (session.rows.map Prod.fst).Nodup ∧ ∀ snapshot ∈ session.snapshots, ∀ row ∈ snapshot, session.initial < row.1 → row ∈ session.rows
  next : ∀ op id event rest, session.client.owed = (id,event) :: rest →
    (generate op session.client).2 = some (.event id event) ∧ (generate op session.client).1.owed = rest
  terminal : ∀ id name exitCode, .terminal id name exitCode ∈ session.given →
    session.given.getLast? = some (.terminal id name exitCode) ∧ session.client = .ended ∧ id = d.log.length + 1
  ends : session.client = .ended → ∃ name exitCode, .terminal (d.log.length + 1) name exitCode ∈ session.given

section quiet
variable {loads : String → Loaded} {d : Deploy}

-- The reader and the watchdog have nothing left to do.
structure Quiet (d : Deploy) : Prop where
  reader : d.reader = .finished
  watchdog : d.watchdog = .finished

-- Whoever sees the end of an operation sees all of it.
def Settled (d : Deploy) : Prop := d.op.status ≠ .running → Quiet d

theorem finish_quiet (now : Int) (final : Option Status) (d : Deploy) : Quiet (finish now final d) := by
  obtain ⟨buffer,total,more,same⟩ := finish_eq now final d
  rw [same]
  exact ⟨rfl,rfl⟩

theorem conclude_settled {now : Int} {final : Option Status} (running : d.op.status = .running) : Settled (conclude now final d) := by
  unfold conclude
  split
  · exact fun _ => finish_quiet now final d
  · exact fun over_ => absurd running over_

-- After the end nothing is appended any more.
structure Stays (d d' : Deploy) : Prop where
  quiet : Quiet d'
  log : d'.log = d.log
  status : d'.op.status = d.op.status

theorem quiet_stays (quiet : Quiet d) (event : Int × Event) : Stays d (step loads d event) := by
  have still : Stays d d := ⟨quiet,rfl,rfl⟩
  obtain ⟨now,event⟩ := event
  cases event with
  | read =>
    have idle : step loads d (now,.read) = d := readNext_idle (by simp [quiet.reader])
    rw [idle]
    exact still
  | waited =>
    have idle : step loads d (now,.waited) = d := waited_idle (by simp [quiet.reader])
    rw [idle]
    exact still
  | drained =>
    have idle : step loads d (now,.drained) = d := drained_idle (by simp [quiet.reader])
    rw [idle]
    exact still
  | cancelReader =>
    dsimp only [step,cancelReader]
    rw [quiet.reader]
    exact still
  | drain =>
    dsimp only [step,drain]
    split
    · exact still
    · split
      · exact ⟨⟨quiet.reader,quiet.watchdog⟩,rfl,rfl⟩
      · exact ⟨⟨quiet.reader,quiet.watchdog⟩,rfl,rfl⟩
      · split <;> exact ⟨⟨quiet.reader,quiet.watchdog⟩,rfl,rfl⟩
  | exit code => exact ⟨⟨quiet.reader,quiet.watchdog⟩,rfl,rfl⟩
  | timeout =>
    dsimp only [step,timeout]
    rw [quiet.watchdog]
    exact still
  | grace exited =>
    dsimp only [step,grace]
    rw [quiet.watchdog]
    exact still

theorem readLine_running {line : Line} {d' : Deploy} (running : d.op.status = .running) (went : readLine loads d line = some d') :
    Settled d' := fun over_ => absurd ((readLine_turns went).status.trans running) over_

theorem step_settled (settled : Settled d) (event : Int × Event) : Settled (step loads d event) := by
  by_cases running : d.op.status = .running
  · obtain ⟨now,event⟩ := event
    have still : ∀ d' : Deploy, d'.op.status = d.op.status → Settled d' := fun d' same over_ => absurd (same.trans running) over_
    cases event with
    | read =>
      dsimp only [step,readNext]
      split
      · exact still _ rfl
      · rename_i line rest _ _
        cases went : readLine loads {d with stdout := rest} line with
        | none => exact conclude_settled running
        | some d' =>
          have unread : ({d with stdout := rest} : Deploy).op.status = .running := running
          exact readLine_running unread went
      · exact still _ rfl
    | waited =>
      dsimp only [step,waited]
      split
      · exact conclude_settled running
      · exact still _ rfl
    | drained =>
      dsimp only [step,drained]
      split
      · exact fun _ => finish_quiet now _ _
      · exact still _ rfl
    | cancelReader =>
      dsimp only [step,cancelReader]
      split
      · exact conclude_settled running
      · exact conclude_settled running
      · exact still _ rfl
      · exact still _ rfl
    | drain => exact still _ drain_beside.status
    | exit code => exact still _ rfl
    | timeout => exact still _ timeout_beside.status
    | grace exited => exact still _ grace_beside.status
  · exact fun _ => (quiet_stays (settled running) event).quiet

end quiet
section sessions
variable {d d' : Deploy} {session : Session}

-- How far the generator has looked.
def Looked (d : Deploy) (client : Client) (bound : Nat) : Prop :=
  match client with
  | .sleeping cursor => bound = cursor
  | .yielding _ total => bound = total
  | .closing _ | .ended => bound = d.log.length ∧ d.op.status ≠ .running

-- The marker comes at the end and nowhere else.
def Marked (d : Deploy) (client : Client) (given : List Yielded) : Prop :=
  match client with
  | .ended => ∃ events name exitCode, given = events ++ [.terminal (d.log.length + 1) name exitCode] ∧ ∀ y ∈ events, y.row.isSome = true
  | _ => ∀ y ∈ given, y.row.isSome = true

structure Keeps (d : Deploy) (session : Session) : Prop where
  follows : ∃ bound, Follows eventsMaxlen session.initial bound d.log session.rows ∧ Looked d session.client bound
  seen : ∀ snapshot ∈ session.snapshots, ∀ row ∈ snapshot, session.initial < row.1 → row ∈ session.rows
  marked : Marked d session.client session.given

-- A client that was sent `given` and has `rows` in hand goes on that way.
structure Sends (d : Deploy) (initial : Nat) (given : List Yielded) (rows : List (Nat × SseEvent)) (result : Client × Option Yielded) : Prop where
  rows : ∃ more, (given ++ result.2.toList).filterMap Yielded.row ++ result.1.owed = given.filterMap Yielded.row ++ rows ++ more
  follows : ∃ bound, Follows eventsMaxlen initial bound d.log ((given ++ result.2.toList).filterMap Yielded.row ++ result.1.owed) ∧
    Looked d result.1 bound
  marked : Marked d result.1 (given ++ result.2.toList)

theorem events_append {given : List Yielded} (events : ∀ y ∈ given, y.row.isSome = true) (id : Nat) (sse : SseEvent) :
    ∀ y ∈ given ++ [.event id sse], y.row.isSome = true := by
  intro y member
  rcases List.mem_append.mp member with old | new
  · exact events y old
  · rw [List.mem_singleton.mp new]
    rfl

-- The next row of the snapshot in hand is sent.
theorem event_sends (client : Client) {initial bound : Nat} {given : List Yielded} {row : Nat × SseEvent}
    (events : ∀ y ∈ given, y.row.isSome = true)
    (follows : Follows eventsMaxlen initial bound d.log (given.filterMap Yielded.row ++ row :: client.owed)) (looked : Looked d client bound)
    (marks : ∀ given, (∀ y ∈ given, y.row.isSome = true) → Marked d client given) :
    Sends d initial given (row :: client.owed) (client,some (.event row.1 row.2)) := by
  have same : (given ++ [Yielded.event row.1 row.2]).filterMap Yielded.row ++ client.owed = given.filterMap Yielded.row ++ row :: client.owed := by
    simp [Yielded.row]
  refine ⟨⟨[],same.trans (List.append_nil _).symm⟩,⟨bound,?_,looked⟩,marks _ (events_append events row.1 row.2)⟩
  exact same.symm ▸ follows

theorem close_sends {initial : Nat} {given : List Yielded} {rows : List (Nat × SseEvent)} (buffered : Buffered d) (over_ : d.op.status ≠ .running)
    (events : ∀ y ∈ given, y.row.isSome = true)
    (follows : Follows eventsMaxlen initial d.log.length d.log (given.filterMap Yielded.row ++ rows)) :
    Sends d initial given rows (close d.op rows) := by
  cases rows with
  | nil =>
    have same : (given ++ [terminal d.op]).filterMap Yielded.row ++ [] = given.filterMap Yielded.row ++ [] := by simp [terminal,Yielded.row]
    refine ⟨⟨[],?_⟩,⟨d.log.length,?_,rfl,over_⟩,given,if d.op.status = .succeeded then "done" else "error",d.op.exitCode,?_,events⟩
    · exact same.trans (List.append_nil _).symm
    · exact same.symm ▸ follows
    · have total : d.op.totalAppended = d.log.length := buffered.total
      simp [close,terminal,total]
  | cons row rest => exact event_sends (.closing rest) events follows ⟨rfl,over_⟩ fun _ shown => shown

theorem check_sends {initial cursor : Nat} {given : List Yielded} (buffered : Buffered d) (events : ∀ y ∈ given, y.row.isSome = true)
    (follows : Follows eventsMaxlen initial cursor d.log (given.filterMap Yielded.row)) : Sends d initial given [] (check d.op cursor) := by
  unfold check
  split
  · rename_i over_
    have sends := close_sends buffered over_ events (follows_look buffered follows)
    obtain ⟨more,same⟩ := sends.rows
    exact ⟨⟨d.op.ring.later cursor ++ more,by rw [same]; simp⟩,sends.follows,sends.marked⟩
  · refine ⟨⟨[],by simp [Client.owed]⟩,⟨cursor,?_,rfl⟩,?_⟩
    · simpa [Client.owed] using follows
    · simpa [Marked] using events

theorem send_sends {initial total : Nat} {given : List Yielded} {rows : List (Nat × SseEvent)} (buffered : Buffered d)
    (events : ∀ y ∈ given, y.row.isSome = true) (follows : Follows eventsMaxlen initial total d.log (given.filterMap Yielded.row ++ rows)) :
    Sends d initial given rows (send d.op total rows) := by
  cases rows with
  | nil =>
    rw [List.append_nil] at follows
    exact check_sends buffered events follows
  | cons row rest => exact event_sends (.yielding rest total) events follows rfl fun _ shown => shown

theorem generate_sends (buffered : Buffered d) (keeps : Keeps d session) :
    Sends d session.initial session.given session.client.owed (generate d.op session.client) := by
  obtain ⟨initial,client,given,snapshots⟩ := session
  obtain ⟨⟨bound,follows,looked⟩,_,marked⟩ := keeps
  cases client with
  | sleeping cursor =>
    cases looked
    have empty : (⟨initial,.sleeping bound,given,snapshots⟩ : Session).rows = given.filterMap Yielded.row := List.append_nil _
    rw [empty] at follows
    have sees := follows_look buffered follows
    rw [show d.log.length = d.op.totalAppended from buffered.total.symm] at sees
    obtain ⟨⟨more,same⟩,goes,marks⟩ := send_sends buffered marked sees
    exact ⟨⟨d.op.ring.later bound ++ more,by rw [generate,same]; simp [Client.owed]⟩,goes,marks⟩
  | yielding rest total =>
    cases looked
    exact send_sends buffered marked follows
  | closing rest =>
    obtain ⟨rfl,over_⟩ := looked
    exact close_sends buffered over_ marked follows
  | ended =>
    refine ⟨⟨[],by simp [generate,Client.owed]⟩,⟨bound,?_,looked⟩,?_⟩
    · simpa [generate,Client.owed,Session.rows] using follows
    · simpa [generate] using marked

theorem close_looked {rows : List (Nat × SseEvent)} {bound : Nat} (looked : Looked d (close d.op rows).1 bound) : bound = d.log.length := by
  cases rows with
  | nil => exact looked.1
  | cons row rest => exact looked.1

theorem check_looked {cursor bound : Nat} (reason : cursor = d.log.length ∨ d.op.status ≠ .running)
    (looked : Looked d (check d.op cursor).1 bound) : bound = d.log.length := by
  unfold check at looked
  split at looked
  · exact close_looked looked
  · rename_i running
    exact looked.trans (reason.resolve_right running)

-- Who copies the buffer has looked at all of it when the turn is over.
theorem copied_looked (buffered : Buffered d) {client : Client} {bound : Nat} {snapshot : List (Nat × SseEvent)}
    (copy : snapshot ∈ copied d.op client) (looked : Looked d (generate d.op client).1 bound) :
    snapshot = d.op.ring.rows ∧ bound = d.log.length := by
  have total : d.op.totalAppended = d.log.length := buffered.total
  cases client with
  | sleeping cursor =>
    refine ⟨List.mem_singleton.mp copy,?_⟩
    rw [generate] at looked
    cases later : d.op.ring.later cursor with
    | nil =>
      rw [later] at looked
      exact check_looked (.inl total) looked
    | cons row rest =>
      rw [later] at looked
      exact looked.trans total
  | yielding rest cursor =>
    cases rest with
    | nil =>
      dsimp only [copied] at copy
      split at copy
      · rename_i over_
        exact ⟨List.mem_singleton.mp copy,check_looked (.inr over_) looked⟩
      · cases copy
    | cons row rest => cases copy
  | closing rest => cases copy
  | ended => cases copy

theorem goOn_keeps (buffered : Buffered d) (keeps : Keeps d session) : Keeps d (session.goOn d.op) := by
  obtain ⟨⟨more,same⟩,⟨bound,follows,looked⟩,marked⟩ := generate_sends buffered keeps
  refine ⟨⟨bound,follows,looked⟩,fun snapshot member row among above => ?_,marked⟩
  rcases List.mem_append.mp member with old | new
  · have known : row ∈ session.rows := keeps.seen snapshot old row among above
    have kept : (session.goOn d.op).rows = session.rows ++ more := same
    rw [kept]
    exact List.mem_append_left _ known
  · obtain ⟨rfl,rfl⟩ := copied_looked buffered new looked
    exact follows_rows buffered follows among above

theorem step_keeps {loads : String → Loaded} (settled : Settled d) (keeps : Keeps d session) (event : Int × Event) :
    Keeps (step loads d event) session := by
  obtain ⟨initial,client,given,snapshots⟩ := session
  obtain ⟨⟨bound,follows,looked⟩,seen,marked⟩ := keeps
  by_cases running : d.op.status = .running
  · obtain ⟨more,grows⟩ := (step_persists loads d event).log
    have still := follows_grow follows more
    rw [← grows] at still
    cases client with
    | sleeping cursor => exact ⟨⟨bound,still,looked⟩,seen,marked⟩
    | yielding rest total => exact ⟨⟨bound,still,looked⟩,seen,marked⟩
    | closing rest => exact absurd running looked.2
    | ended => exact absurd running looked.2
  · have stays : Stays d (step loads d event) := quiet_stays (settled running) event
    obtain ⟨_,log,status⟩ := stays
    refine ⟨⟨bound,log.symm ▸ follows,?_⟩,seen,?_⟩
    · unfold Looked
      rw [log,status]
      exact looked
    · unfold Marked
      rw [log]
      exact marked

theorem given_ids {given : List Yielded} (events : ∀ y ∈ given, y.row.isSome = true) :
    given.map Yielded.id = (given.filterMap Yielded.row).map Prod.fst := by
  induction given with
  | nil => rfl
  | cons y rest ih =>
    have later := ih fun z member => events z (List.mem_cons_of_mem _ member)
    cases y with
    | event id sse => simp [Yielded.row,Yielded.id,later]
    | terminal id name exitCode => cases events _ List.mem_cons_self

theorem mem_rows {given : List Yielded} {id : Nat} {sse : SseEvent} (member : .event id sse ∈ given) :
    (id,sse) ∈ given.filterMap Yielded.row := List.mem_filterMap.mpr ⟨_,member,rfl⟩

-- Before the marker there are only rows, and it has the next number.
theorem keeps_increasing (keeps : Keeps d session) : (session.given.map Yielded.id).Pairwise (· < ·) := by
  obtain ⟨initial,client,given,snapshots⟩ := session
  obtain ⟨⟨bound,follows,looked⟩,_,marked⟩ := keeps
  have sorted : ((given.filterMap Yielded.row).map Prod.fst).Pairwise (· < ·) := by
    have all := follows.sorted
    rw [Session.rows,List.map_append] at all
    exact (List.pairwise_append.mp all).1
  cases client with
  | ended =>
    obtain ⟨events,name,exitCode,rfl,only⟩ := marked
    have shown : (events ++ [Yielded.terminal (d.log.length + 1) name exitCode]).filterMap Yielded.row = events.filterMap Yielded.row := by
      simp [Yielded.row]
    rw [shown] at sorted
    rw [List.map_append,List.pairwise_append,given_ids only]
    refine ⟨sorted,List.pairwise_singleton _ _,?_⟩
    intro i among j last
    obtain ⟨row,member,rfl⟩ := List.mem_map.mp among
    have within := follows.within row (List.mem_append_left _ (shown.symm ▸ member))
    rw [List.mem_singleton.mp last]
    have bounded := follows.bounded
    dsimp only [Yielded.id]
    omega
  | sleeping cursor => rwa [← given_ids marked] at sorted
  | yielding rest total => rwa [← given_ids marked] at sorted
  | closing rest => rwa [← given_ids marked] at sorted

theorem keeps_terminal (keeps : Keeps d session) {id : Nat} {name : String} {exitCode : Option Int}
    (member : .terminal id name exitCode ∈ session.given) :
    session.given.getLast? = some (.terminal id name exitCode) ∧ session.client = .ended ∧ id = d.log.length + 1 := by
  obtain ⟨initial,client,given,snapshots⟩ := session
  have marked := keeps.marked
  cases client with
  | ended =>
    obtain ⟨events,name',exitCode',rfl,only⟩ := marked
    rcases List.mem_append.mp member with earlier | last
    · cases only _ earlier
    · cases List.mem_singleton.mp last
      exact ⟨List.getLast?_concat,rfl,rfl⟩
  | sleeping cursor => cases marked _ member
  | yielding rest total => cases marked _ member
  | closing rest => cases marked _ member

theorem owed_next {op : DeployOperation} {client : Client} {id : Nat} {event : SseEvent} {rest : List (Nat × SseEvent)}
    (owed : client.owed = (id,event) :: rest) : (generate op client).2 = some (.event id event) ∧ (generate op client).1.owed = rest := by
  cases client with
  | yielding left total =>
    cases owed
    exact ⟨rfl,rfl⟩
  | closing left =>
    cases owed
    exact ⟨rfl,rfl⟩
  | sleeping cursor => cases owed
  | ended => cases owed

theorem keeps_ends (keeps : Keeps d session) (over_ : session.client = .ended) :
    ∃ name exitCode, .terminal (d.log.length + 1) name exitCode ∈ session.given := by
  have marked := keeps.marked
  rw [over_] at marked
  obtain ⟨events,name,exitCode,given,_⟩ := marked
  refine ⟨name,exitCode,?_⟩
  rw [given]
  exact List.mem_append_right _ List.mem_cons_self

theorem keeps_exact (keeps : Keeps d session) : GapExact d session := by
  refine ⟨keeps_increasing keeps,fun id event member => ?_,⟨?_,keeps.seen⟩,fun _ _ _ _ => owed_next,
    fun _ _ _ => keeps_terminal keeps,keeps_ends keeps⟩
  · obtain ⟨bound,follows,_⟩ := keeps.follows
    have listed : (id,event) ∈ session.rows := List.mem_append_left _ (mem_rows member)
    have above := (follows.within _ listed).1
    exact ⟨by omega,follows.exact_ _ listed⟩
  · obtain ⟨bound,follows,_⟩ := keeps.follows
    exact follows.sorted.imp Nat.ne_of_lt

end sessions
section runs
variable {loads : String → Loaded}

structure Streams (w : World) : Prop where
  buffered : Buffered w.deploy
  settled : Settled w.deploy
  keeps : ∀ session, w.session = some session → Keeps w.deploy session

theorem move_streams (w : World) (m : Move) (streams : Streams w) : Streams (move loads w m) := by
  obtain ⟨buffered,settled,keeps⟩ := streams
  cases m with
  | operation now event =>
    exact ⟨step_buffered _ _ buffered,step_settled settled _,fun session here => step_keeps settled (keeps session here) _⟩
  | connect cursor =>
    dsimp only [move]
    split
    · rename_i free
      refine ⟨buffered,settled,fun session here => ?_⟩
      cases here
      have known : cursor ≤ w.deploy.log.length := buffered.total ▸ free.2
      exact ⟨⟨cursor,follows_start known,rfl⟩,by simp,by simp [Marked]⟩
    · exact ⟨buffered,settled,keeps⟩
  | resume =>
    refine ⟨buffered,settled,fun session here => ?_⟩
    obtain ⟨before,found,rfl⟩ := Option.map_eq_some_iff.mp here
    exact goOn_keeps buffered (keeps before found)

-- A client that comes at any time with any cursor and is resumed at any time.
theorem stream_gap_exact (loads : String → Loaded) (operationId : String) (startedAt : Int) (lines stderr : List Line)
    (taken : List (World × Move)) (w : World) (runs : StreamRuns loads ⟨spawned (.new operationId startedAt) lines stderr,none⟩ taken w)
    (session : Session) (follows : w.session = some session) : GapExact w.deploy session := by
  have begins : Streams ⟨spawned (.new operationId startedAt) lines stderr,none⟩ :=
    ⟨spawned_buffered operationId startedAt lines stderr,fun over_ => absurd rfl over_,fun _ none_ => by cases none_⟩
  have streams := (Histories.runs_invariant runs begins (fun w m held (_ : True) => move_streams w m held) fun _ _ => trivial).1
  exact keeps_exact (streams.keeps session follows)

end runs
-- A client that comes early, sees a line of the output and then the end.
section toy

def toyWorld : World := ⟨toyStart [.text "hello"],none⟩

def toyMoves : List Move :=
  [.connect 0,.resume,.operation 0 .read,.resume,.operation 0 .read,.operation 0 (.exit 0),.operation 0 .waited,.operation 0 .drained,.resume]

theorem stream_gap_exact_toy : ∃ session, (toyMoves.foldl (move toyLoads) toyWorld).session = some session ∧
    session.given.map Yielded.id = [1,2] ∧ GapExact (toyMoves.foldl (move toyLoads) toyWorld).deploy session := by
  have sent : (toyMoves.foldl (move toyLoads) toyWorld).session.map (fun session => session.given.map Yielded.id) = some [1,2] := by
    decide +kernel
  obtain ⟨session,here,ids⟩ := Option.map_eq_some_iff.mp sent
  exact ⟨session,here,ids,stream_gap_exact toyLoads "op" 0 [.text "hello"] [] _ _ (Histories.runs_trace .nil toyMoves) session here⟩

end toy
end InmemRuntime.DeployStream
