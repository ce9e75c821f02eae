import InmemRuntime.Histories
import InmemRuntime.RunDispatch

namespace InmemRuntime.WorkerQueue
open RuntimeStore Serving RunOps

variable {J : Type}

section names

-- Where Python finds a name that `queue` reads: among the names that it
-- assigns, in its module, or among the builtins with the attributes they have.
inductive Binding where
  | ofFunction
  | ofModule
  | builtin (attributes : List String)
  | missing

def functionNames : List String := ["config","graph","webhook","worker","AsyncQueue","concurrency","loop","last_stats_secs",
  "last_sweep_secs","runners","WEBHOOKS","enable_blocking","bb","stack","executor","RUNNERS","r","_","expired_runners",
  "cleanup","run","runner","do_sweep","calc_stats","active","wait","attempt","graph_id","task_name","task","conn","stats",
  "exc","chain_future","futs"]

def moduleNames : List String := ["annotations","asyncio","concurrent","functools","os","Callable","Coroutine","ExitStack",
  "TYPE_CHECKING","cast","structlog","ls_env","database","ops","logger","WORKERS","SHUTDOWN_GRACE_PERIOD_SECS",
  "BgLoopRunner","get_num_workers","queue","_enable_blockbuster","_patch_blocking_error"]

-- `site` puts a `Quitter` there for interactive use.
def builtins : List (String × List String) := [("exit",["name","eof","__init__","__repr__","__call__"])]

def resolve (name : String) : Binding :=
  if name ∈ functionNames then .ofFunction
  else if name ∈ moduleNames then .ofModule
  else match builtins.lookup name with
    | some attributes => .builtin attributes
    | none => .missing

-- `await exit.aclose()` at the end of the handler: what it raises.
def closeExit : Option String :=
  match resolve "exit" with
  | .ofFunction | .ofModule => none
  | .builtin attributes => if "aclose" ∈ attributes then none else some "AttributeError"
  | .missing => some "NameError"

end names

section scheduling

structure Config where
  concurrency : Nat
  isolatedLoops : Bool
  heartbeatSecs : Rat
  statsIntervalSecs : Rat

-- A worker task with the runner it holds. It is `returning` once its cleanup
-- has asked the loop to put the runner back and the loop has not done so yet.
structure Flight where
  runner : Nat
  run : Nat × Nat
  returning : Bool
deriving DecidableEq,Repr

structure Duties where
  calcStats : Bool
  doSweep : Bool
deriving DecidableEq,Repr

inductive Ending where
  | cancelled
  | escaped (error : String)
deriving DecidableEq,Repr

-- Where the main loop is: at an iteration boundary, in `runners.wait()`, in
-- `Runs.next`, between the yield of a run and its task, in `Runs.stats`, in
-- `Runs.sweep`, or out of the loop.
inductive Phase where
  | boundary
  | waiting
  | fetching (generator : NextTask) (duties : Duties)
  | handling (run : Nat × Nat) (generator : NextTask) (duties : Duties)
  | stats (duties : Duties)
  | sweeping
  | ended (how : Ending)

-- `claimed` logs the runs that `Runs.next` has marked running and yielded here,
-- `started` the runs that have got a worker task.
structure Scheduler (J : Type) where
  server : Server J
  runners : List Nat
  expired : List Nat
  flights : List Flight
  claimed : List (Nat × Nat)
  started : List (Nat × Nat)
  lastStats : Option Rat
  lastSweep : Option Rat
  phase : Phase

-- The loop goes on, or what it is calling raises an `Exception`, or it is
-- cancelled; a worker's done callback runs, or the put that one has scheduled;
-- or other coroutines change the store.
inductive Event (J : Type) where
  | proceeds (time : Rat) (now : Int)
  | raises
  | cancels
  | finishes (index : Nat) (loopClosed : Bool)
  | lands (index : Nat)
  | elsewhere (server : Server J)

def Scheduler.start (config : Config) (server : Server J) : Scheduler J :=
  ⟨server,List.range config.concurrency,[],[],[],[],none,none,.boundary⟩

def overdue (last : Option Rat) (time interval : Rat) : Bool :=
  match last with
  | none => true
  | some last => decide (interval < time - last)

variable (config : Config)

-- `except Exception`: logging, then the attempt to close.
def handle (s : Scheduler J) : Scheduler J :=
  match closeExit with
  | none => {s with phase := .boundary}
  | some error => {s with phase := .ended (.escaped error)}

def report (s : Scheduler J) (time : Rat) (duties : Duties) : Scheduler J :=
  if duties.calcStats then {s with phase := .stats duties}
  else if duties.doSweep then {s with lastSweep := some time,phase := .sweeping}
  else {s with phase := .boundary}

-- `limit=runners.qsize()` at the call of `Runs.next`.
def beginFetch (s : Scheduler J) (time : Rat) : Scheduler J :=
  let duties : Duties :=
    ⟨overdue s.lastStats time config.statsIntervalSecs,overdue s.lastSweep time (config.heartbeatSecs * 2)⟩
  {s with
    lastStats := if duties.calcStats then some time else s.lastStats
    phase := .fetching (.called s.runners.length) duties}

def fetch (s : Scheduler J) (time : Rat) (now : Int) (generator : NextTask) (duties : Duties) : Scheduler J :=
  match stepNext (.quiet now) s.server generator with
  | (server,.suspended generator,some run) =>
    {s with server,claimed := s.claimed ++ [run],phase := .handling run generator duties}
  | (server,.suspended generator,none) => {s with server,phase := .fetching generator duties}
  | (server,.returned _,_) => report {s with server} time duties
  | (server,.raised _,_) => handle {s with server}

-- `runners.get_nowait()`, then the task; `QueueEmpty` is an `Exception` too.
def startTask (s : Scheduler J) (run : Nat × Nat) (generator : NextTask) (duties : Duties) : Scheduler J :=
  match s.runners with
  | [] => handle s
  | runner :: rest =>
    {s with
      runners := rest
      flights := s.flights ++ [⟨runner,run,false⟩]
      started := s.started ++ [run]
      phase := .fetching generator duties}

-- A `put` of an expired runner would wait for room in a full queue.
def proceed (s : Scheduler J) (time : Rat) (now : Int) : Scheduler J :=
  match s.phase with
  | .boundary =>
    if s.runners.length + s.expired.length ≤ config.concurrency then
      {s with runners := s.runners ++ s.expired,expired := [],phase := .waiting}
    else s
  | .waiting => if s.runners.isEmpty then s else beginFetch config s time
  | .fetching generator duties => fetch s time now generator duties
  | .handling run generator duties => startTask s run generator duties
  | .stats duties => report s time {duties with calcStats := false}
  | .sweeping => {s with phase := .boundary}
  | .ended _ => s

-- Whether a call that the claimed failures are about is under way.
def Phase.risky : Phase → Bool
  | .fetching _ _ | .handling _ _ _ | .stats _ | .sweeping => true
  | _ => false

-- The lock that a failing `Runs.next` lets go of.
def abandon (server : Server J) : NextTask → Server J
  | .warning _ | .yielded _ => {server with runLock := false}
  | _ => server

-- A run's runner has been taken from the queue by the time its handling fails.
def fail (s : Scheduler J) : Scheduler J :=
  match s.phase with
  | .fetching generator _ => handle {s with server := abandon s.server generator}
  | .handling _ _ _ => handle {s with runners := s.runners.tail}
  | .stats _ | .sweeping => handle s
  | .boundary | .waiting | .ended _ => s

-- `put_nowait`, which raises `QueueFull`.
def putNowait (runners : List Nat) (runner : Nat) : Option (List Nat) :=
  if runners.length < config.concurrency then some (runners ++ [runner]) else none

-- `cleanup`, as far as it is about the runner. With isolated loops it runs in
-- the worker's thread and asks the main loop to put the runner back.
def cleanup (s : Scheduler J) (index : Nat) (loopClosed : Bool) : Scheduler J :=
  match s.flights[index]? with
  | none => s
  | some flight =>
    if flight.returning then s
    else if config.isolatedLoops then
      if loopClosed then {s with expired := s.expired ++ [flight.runner],flights := s.flights.eraseIdx index}
      else {s with flights := s.flights.set index {flight with returning := true}}
    else match putNowait config s.runners flight.runner with
      | some runners => {s with runners,flights := s.flights.eraseIdx index}
      | none => {s with expired := s.expired ++ [flight.runner],flights := s.flights.eraseIdx index}

-- The scheduled put; there is nobody to catch what it raises.
def land (s : Scheduler J) (index : Nat) : Scheduler J :=
  match s.flights[index]? with
  | none => s
  | some flight =>
    if flight.returning then
      {s with runners := (putNowait config s.runners flight.runner).getD s.runners,flights := s.flights.eraseIdx index}
    else s

def step (s : Scheduler J) : Event J → Scheduler J
  | .proceeds time now => proceed config s time now
  | .raises => fail s
  | .cancels =>
    match s.phase with
    | .ended _ => s
    | _ => {s with phase := .ended .cancelled}
  | .finishes index loopClosed => cleanup config s index loopClosed
  | .lands index => land config s index
  | .elsewhere server => {s with server}

end scheduling

-- The loop has not been left by an exception; and at an iteration boundary each
-- runner is queued, expired or with a worker, and each claimed run has a task.
structure Fine (config : Config) (s : Scheduler J) : Prop where
  goes_on : ∀ error, s.phase ≠ .ended (.escaped error)
  slots : s.phase = .boundary → s.runners.length + s.expired.length + s.flights.length = config.concurrency
  tasks : s.phase = .boundary → s.claimed = s.started

-- An exception in one of the calls that may raise one.
def RaisesAt (s : Scheduler J) (event : Event J) : Prop :=
  match event with
  | .raises => s.phase.risky = true
  | _ => False

-- How many runs the generator may still yield.
def room : NextTask → Nat
  | .called limit | .sleeping limit _ | .locking limit _ => limit
  | .warning rest | .yielded rest => rest.length

-- The run that waits for its task, and how many runners this iteration may
-- still take.
def Phase.claimed : Phase → List (Nat × Nat)
  | .handling run _ _ => [run]
  | _ => []

def Phase.owed : Phase → Nat
  | .fetching generator _ => room generator
  | .handling _ generator _ => room generator + 1
  | _ => 0

structure Conserved (config : Config) (s : Scheduler J) : Prop where
  slots : s.runners.length + s.expired.length + s.flights.length = config.concurrency
  goes_on : ∀ error, s.phase ≠ .ended (.escaped error)
  tasks : s.phase ≠ .ended .cancelled → s.claimed = s.started ++ s.phase.claimed
  room : s.phase.owed ≤ s.runners.length

theorem conserved_fine {config : Config} {s : Scheduler J} (conserved : Conserved config s) : Fine config s := by
  refine ⟨conserved.goes_on,fun _ => conserved.slots,fun boundary => ?_⟩
  have tasks := conserved.tasks (by simp [boundary])
  simpa [boundary,Phase.claimed] using tasks

theorem start_conserved (config : Config) (server : Server J) : Conserved config (.start config server) :=
  ⟨by simp [Scheduler.start],fun _ ended => (nomatch ended),fun _ => rfl,Nat.zero_le _⟩

section steps
variable {config : Config} {s : Scheduler J}

-- The generator yields no more runs than it was asked for.
theorem stepNext_room (now : Int) (server : Server J) (generator : NextTask) {server' : Server J} {again : NextTask}
    {handed : Option (Nat × Nat)} (steps : stepNext (.quiet now) server generator = (server',.suspended again,handed)) :
    room again + handed.toList.length ≤ room generator := by
  have continues : ∀ (server : Server J) (rest : List Nat),
      continueNext server rest = (server',.suspended again,handed) → room again + handed.toList.length ≤ rest.length := by
    intro server rest steps
    unfold continueNext at steps
    cases found : scanPending server.store rest with
    | finished => simp [found] at steps
    | missing later =>
      have shorter := RunDispatch.scan_shorter (.inl found)
      simp only [found,Prod.mk.injEq,Outcome.suspended.injEq] at steps
      obtain ⟨_,rfl,rfl⟩ := steps
      simp only [room,Option.toList_none,List.length_nil]
      omega
    | claimed ref later =>
      have shorter := RunDispatch.scan_shorter (.inr ⟨ref,found⟩)
      simp only [found,Prod.mk.injEq,Outcome.suspended.injEq] at steps
      obtain ⟨_,rfl,rfl⟩ := steps
      simp only [room,Option.toList_some,List.length_singleton]
      omega
  have locks : ∀ limit time, lockNext server limit time = (server',.suspended again,handed) →
      room again + handed.toList.length ≤ limit := by
    intro limit time steps
    unfold lockNext at steps
    split at steps
    · cases steps
      exact le_rfl
    · exact (continues _ _ steps).trans (List.length_take_le _ _)
  cases generator with
  | called limit =>
    cases steps
    exact le_rfl
  | sleeping limit time => exact locks limit time steps
  | locking limit time => exact locks limit time steps
  | warning rest => exact continues server rest steps
  | yielded rest => exact continues server rest steps

theorem stepNext_raises (now : Int) (server : Server J) (generator : NextTask) {server' : Server J} {fault : ThreadTtl.Fault}
    {handed : Option (Nat × Nat)} : stepNext (.quiet now) server generator ≠ (server',.raised fault,handed) := by
  have continues : ∀ (server : Server J) (rest : List Nat), continueNext server rest ≠ (server',.raised fault,handed) := by
    intro server rest steps
    unfold continueNext at steps
    split at steps <;> cases steps
  have locks : ∀ limit time, lockNext server limit time ≠ (server',.raised fault,handed) := by
    intro limit time steps
    unfold lockNext at steps
    split at steps
    · cases steps
    · exact continues _ _ steps
  cases generator with
  | called limit => intro steps; cases steps
  | sleeping limit time => exact locks limit time
  | locking limit time => exact locks limit time
  | warning rest => exact continues server rest
  | yielded rest => exact continues server rest

theorem report_conserved {time : Rat} {duties : Duties} (conserved : Conserved config s)
    (settled : s.claimed = s.started) : Conserved config (report s time duties) := by
  unfold report
  split
  · exact ⟨conserved.slots,fun _ ended => (nomatch ended),fun _ => by simpa [Phase.claimed] using settled,Nat.zero_le _⟩
  · split
    · exact ⟨conserved.slots,fun _ ended => (nomatch ended),fun _ => by simpa [Phase.claimed] using settled,Nat.zero_le _⟩
    · exact ⟨conserved.slots,fun _ ended => (nomatch ended),fun _ => by simpa [Phase.claimed] using settled,Nat.zero_le _⟩

theorem fetch_conserved {time : Rat} {now : Int} {generator : NextTask} {duties : Duties} (conserved : Conserved config s)
    (settled : s.claimed = s.started) (enough : room generator ≤ s.runners.length) :
    Conserved config (fetch s time now generator duties) := by
  unfold fetch
  rcases steps : stepNext (.quiet now) s.server generator with ⟨server,again | _ | fault,_ | run⟩
  · have less := stepNext_room now s.server generator steps
    refine ⟨conserved.slots,fun _ ended => (nomatch ended),fun _ => by simpa [Phase.claimed] using settled,?_⟩
    simp only [Option.toList_none,List.length_nil,Nat.add_zero] at less
    exact less.trans enough
  · have less := stepNext_room now s.server generator steps
    refine ⟨conserved.slots,fun _ ended => (nomatch ended),fun _ => by simpa [Phase.claimed] using settled,?_⟩
    simp only [Option.toList_some,List.length_singleton] at less
    exact less.trans enough
  · exact @report_conserved J config {s with server} time duties
      ⟨conserved.slots,conserved.goes_on,conserved.tasks,conserved.room⟩ settled
  · exact @report_conserved J config {s with server} time duties
      ⟨conserved.slots,conserved.goes_on,conserved.tasks,conserved.room⟩ settled
  · exact absurd steps (stepNext_raises _ _ _)
  · exact absurd steps (stepNext_raises _ _ _)

theorem startTask_conserved {run : Nat × Nat} {generator : NextTask} {duties : Duties} (conserved : Conserved config s)
    (here : s.phase = .handling run generator duties) : Conserved config (startTask s run generator duties) := by
  have enough := conserved.room
  have tasks := conserved.tasks (by simp [here])
  simp only [here,Phase.owed,Phase.claimed] at enough tasks
  unfold startTask
  cases queued : s.runners with
  | nil => simp [queued] at enough
  | cons runner rest =>
    have slots := conserved.slots
    simp only [queued,List.length_cons] at slots enough
    refine ⟨?_,fun _ ended => (nomatch ended),fun _ => by simpa [Phase.claimed] using tasks,?_⟩
    · simp only [List.length_append,List.length_singleton]
      omega
    · exact Nat.le_of_succ_le_succ enough

theorem proceed_conserved {time : Rat} {now : Int} (conserved : Conserved config s) :
    Conserved config (proceed config s time now) := by
  have tasks := conserved.tasks
  have enough := conserved.room
  unfold proceed
  cases here : s.phase with
  | boundary =>
    dsimp only
    split
    · refine ⟨?_,fun _ ended => (nomatch ended),fun _ => by simpa [here,Phase.claimed] using tasks,Nat.zero_le _⟩
      have slots := conserved.slots
      simp only [List.length_append,List.length_nil]
      omega
    · exact conserved
  | waiting =>
    dsimp only
    split
    · exact conserved
    · have settled : s.claimed = s.started ++ [] := by simpa [here,Phase.claimed] using tasks
      exact ⟨conserved.slots,fun _ ended => (nomatch ended),fun _ => settled,le_rfl⟩
  | fetching generator duties =>
    simp only [here,Phase.owed,Phase.claimed,List.append_nil] at tasks enough
    exact fetch_conserved conserved (tasks (by simp)) enough
  | handling run generator duties => exact startTask_conserved conserved here
  | stats duties => exact report_conserved conserved (by simpa [here,Phase.claimed] using tasks)
  | sweeping =>
    exact ⟨conserved.slots,fun _ ended => (nomatch ended),fun _ => by simpa [here,Phase.claimed] using tasks,Nat.zero_le _⟩
  | ended how => exact conserved

theorem eraseIdx_some {α : Type} {items : List α} {index : Nat} {item : α} (found : items[index]? = some item) :
    (items.eraseIdx index).length + 1 = items.length := by
  obtain ⟨bound,_⟩ := List.getElem?_eq_some_iff.mp found
  rw [List.length_eraseIdx_of_lt bound]
  omega

theorem putNowait_some {runners later : List Nat} {runner : Nat} (fits : putNowait config runners runner = some later) :
    later.length = runners.length + 1 := by
  unfold putNowait at fits
  split at fits
  · cases fits
    simp
  · cases fits

theorem cleanup_conserved {index : Nat} {loopClosed : Bool} (conserved : Conserved config s) :
    Conserved config (cleanup config s index loopClosed) := by
  have slots := conserved.slots
  unfold cleanup
  cases found : s.flights[index]? with
  | none => exact conserved
  | some flight =>
    have fewer := eraseIdx_some found
    dsimp only
    split
    · exact conserved
    · split
      · split
        · refine ⟨?_,conserved.goes_on,conserved.tasks,conserved.room⟩
          simp only [List.length_append,List.length_singleton]
          omega
        · refine ⟨?_,conserved.goes_on,conserved.tasks,conserved.room⟩
          simpa using slots
      · cases fits : putNowait config s.runners flight.runner with
        | some runners =>
          have longer := putNowait_some fits
          refine ⟨?_,conserved.goes_on,conserved.tasks,conserved.room.trans (by dsimp only; omega)⟩
          dsimp only
          omega
        | none =>
          refine ⟨?_,conserved.goes_on,conserved.tasks,conserved.room⟩
          simp only [List.length_append,List.length_singleton]
          omega

theorem land_conserved {index : Nat} (conserved : Conserved config s) : Conserved config (land config s index) := by
  have slots := conserved.slots
  unfold land
  cases found : s.flights[index]? with
  | none => exact conserved
  | some flight =>
    have fewer := eraseIdx_some found
    dsimp only
    split
    · -- A runner that is in flight leaves room for itself in the queue.
      have fits : putNowait config s.runners flight.runner = some (s.runners ++ [flight.runner]) :=
        if_pos (by omega)
      rw [fits,Option.getD_some]
      refine ⟨?_,conserved.goes_on,conserved.tasks,conserved.room.trans (by simp)⟩
      simp only [List.length_append,List.length_singleton]
      omega
    · exact conserved

theorem step_conserved {event : Event J} (conserved : Conserved config s) (steady : ¬ RaisesAt s event) :
    Conserved config (step config s event) := by
  cases event with
  | proceeds time now => exact proceed_conserved conserved
  | raises =>
    have calm : s.phase.risky = false := by simpa [RaisesAt] using steady
    change Conserved config (fail s)
    unfold fail
    cases here : s.phase with
    | boundary => exact conserved
    | waiting => exact conserved
    | ended how => exact conserved
    | fetching generator duties => simp [here,Phase.risky] at calm
    | handling run generator duties => simp [here,Phase.risky] at calm
    | stats duties => simp [here,Phase.risky] at calm
    | sweeping => simp [here,Phase.risky] at calm
  | cancels =>
    change Conserved config (match s.phase with
      | .ended _ => s
      | _ => {s with phase := .ended .cancelled})
    split
    · exact conserved
    · exact ⟨conserved.slots,fun _ ended => (by cases ended),fun other => absurd rfl other,Nat.zero_le _⟩
  | finishes index loopClosed => exact cleanup_conserved conserved
  | lands index => exact land_conserved conserved
  | elsewhere server => exact ⟨conserved.slots,conserved.goes_on,conserved.tasks,conserved.room⟩

-- Nothing that `exit` is bound to can be closed.
theorem closeExit_raises : closeExit = some "AttributeError" := by decide

theorem step_escapes {event : Event J} (raises : RaisesAt s event) :
    (step config s event).phase = .ended (.escaped "AttributeError") := by
  cases event with
  | raises =>
    change (fail s).phase = _
    change s.phase.risky = true at raises
    unfold fail
    cases here : s.phase with
    | boundary => simp [here,Phase.risky] at raises
    | waiting => simp [here,Phase.risky] at raises
    | ended how => simp [here,Phase.risky] at raises
    | fetching generator duties => simp only [handle,closeExit_raises]
    | handling run generator duties => simp only [handle,closeExit_raises]
    | stats duties => simp only [handle,closeExit_raises]
    | sweeping => simp only [handle,closeExit_raises]
  | proceeds time now => cases raises
  | cancels => cases raises
  | finishes index loopClosed => cases raises
  | lands index => cases raises
  | elsewhere server => cases raises

end steps

-- The queue stays alive and keeps its slots in just those runs in which none of
-- the calls of an iteration raises an exception.
theorem scheduler_survives (config : Config) (server : Server J) (taken : List (Scheduler J × Event J)) (s : Scheduler J)
    (runs : Histories.Runs (step config) (.start config server) taken s) :
    ((∀ row ∈ taken, Fine config row.1) ∧ Fine config s) ↔ ∀ row ∈ taken, ¬ RaisesAt row.1 row.2 := by
  constructor
  · rintro ⟨before,last⟩ row member raises
    obtain ⟨front,back,split⟩ := List.append_of_mem member
    have next := Histories.runs_linked runs front row back split
    have escaped : (step config row.1 row.2).phase = _ := step_escapes raises
    rw [next] at escaped
    cases back with
    | nil => exact last.goes_on _ escaped
    | cons later back => exact (before later (by simp [split])).goes_on _ escaped
  · intro steady
    have keeps : ∀ (s : Scheduler J) (event : Event J), Conserved config s → ¬ RaisesAt s event →
        Conserved config (step config s event) := fun _ _ conserved calm => step_conserved conserved calm
    obtain ⟨conserved,earlier⟩ := Histories.runs_invariant runs (start_conserved config server) keeps steady
    exact ⟨fun row member => conserved_fine (earlier row member),conserved_fine conserved⟩

-- One worker, and a thread with one due run.
def oneWorker : Config := ⟨1,false,120,60⟩

def oneRun : Server Unit :=
  .start ((Store.empty.appendThread ⟨"t",.busy,.empty,0,0,none,none,none,none⟩).appendRun
    ⟨some "r","t","a",.pending,0,0⟩)

-- The run is handed out and worked on, and the iteration ends.
def oneIteration : List (Event Unit) :=
  [.proceeds 0 5,.proceeds 0 5,.proceeds 0 5,.proceeds 0 5,.proceeds 0 5,.proceeds 0 5,.proceeds 0 5,.proceeds 0 5]

theorem scheduler_survives_one : let s := oneIteration.foldl (step oneWorker) (.start oneWorker oneRun)
    s.phase = .boundary ∧ Fine oneWorker s := by
  refine ⟨rfl,((scheduler_survives oneWorker oneRun _ _ (Histories.runs_trace .nil oneIteration)).mpr ?_).2⟩
  intro row member
  simp only [oneIteration,Histories.trace,List.nil_append,List.mem_cons,List.not_mem_nil,or_false] at member
  rcases member with rfl | rfl | rfl | rfl | rfl | rfl | rfl | rfl
  all_goals exact fun raised => raised

example : (oneIteration.foldl (step oneWorker) (.start oneWorker oneRun)).flights = [⟨0,(0,1),false⟩] := rfl

-- The run has been marked running when its handling raises: its runner is lost,
-- it gets no task, and the handler's own exception ends the loop.
def handlingRaises : List (Event Unit) :=
  [.proceeds 0 5,.proceeds 0 5,.proceeds 0 5,.proceeds 0 5,.raises]

theorem handling_ends_queue : let s := handlingRaises.foldl (step oneWorker) (.start oneWorker oneRun)
    s.phase = .ended (.escaped "AttributeError") ∧ (s.server.store.run 0).status = .running ∧ s.claimed = [(0,1)] ∧
      s.started = [] ∧ s.runners = [] ∧ s.expired = [] ∧ s.flights = [] ∧
      ¬ ∀ (config : Config) (server : Server Unit) (taken : List (Scheduler Unit × Event Unit)) (s : Scheduler Unit),
        Histories.Runs (step config) (.start config server) taken s → Fine config s := by
  refine ⟨rfl,rfl,rfl,rfl,rfl,rfl,rfl,fun fine => ?_⟩
  exact (fine oneWorker oneRun _ _ (Histories.runs_trace .nil handlingRaises)).goes_on _ rfl

end InmemRuntime.WorkerQueue
