import InmemRuntime.DeployReader

namespace InmemRuntime.DeployGuard
open PythonJson DeployOperations DeployReader

section origins

def allowedDeployOrigins : List String :=
  ["https://smith.langchain.com","https://eu.smith.langchain.com","https://dev.smith.langchain.com","https://staging.smith.langchain.com"]

-- `$` stands before a last newline too.
def atEnd : List Char → Bool
  | [] | ['\n'] => true
  | _ => false

-- `(:\d+)?$`. A header is Latin-1, which has no further decimal digits.
def portEnds : List Char → Bool
  | ':' :: rest => (rest.head?.map Char.isDigit == some true) && atEnd (rest.dropWhile Char.isDigit)
  | rest => atEnd rest

def isLocal (origin : List Char) : Bool :=
  ["http://localhost","http://127.0.0.1"].any fun host => host.toList.isPrefixOf origin && portEnds (origin.drop host.toList.length)

def isAllowedDeployOrigin (origin : String) : Bool := origin.isEmpty || isLocal origin.toList || allowedDeployOrigins.contains origin

end origins

structure Answer where
  status : Nat
  payload : Fields

-- A request where it waits, or with its answer, or after an exception.
inductive Request where
  | readingBody
  | resolvingCwd (command : List String)
  | spawning (command : List String) (cwd : String)
  | answered (answer : Answer)
  | raised

-- Whether it still waits.
def Request.inFlight : Request → Prop
  | .readingBody | .resolvingCwd _ | .spawning _ _ => True
  | .answered _ | .raised => False

-- The operations that were ever started, the current one and the requests, as
-- they came.
structure Deploys where
  operations : List Deploy
  current : Option Nat
  requests : List Request

def Deploys.currentOp (s : Deploys) : Option Deploy := s.current.bind fun i => s.operations[i]?

def Deploys.answer (s : Deploys) (index : Nat) (request : Request) : Deploys := {s with requests := s.requests.set index request}

def statusName : Status → String
  | .running => "running"
  | .succeeded => "succeeded"
  | .failed => "failed"

def originNotAllowed : Answer := ⟨403,[("error",.str "origin not allowed")]⟩

def inProgress (op : DeployOperation) : Answer :=
  ⟨409,[("error",.str "Deploy already in progress"),("operation_id",.str op.operationId)]⟩

def started (op : DeployOperation) : Answer := ⟨200,[("operation_id",.str op.operationId),("status",.str (statusName op.status))]⟩

section serving
-- `sys.executable`, `str` and `json.loads` for a line.
variable (executable : String) (pyStr : Json → String) (loads : String → Loaded)

-- `start_deploy` up to `await request.json()`.
def startDeploy (s : Deploys) (origin : String) : Request :=
  if isAllowedDeployOrigin origin then
    match s.currentOp with
    | some d => if d.op.status = .running then .answered (inProgress d.op) else .readingBody
    | none => .readingBody
  else .answered originNotAllowed

-- The body is empty where it is no JSON.
def bodyName : Option Json → Json
  | some (.obj body) => (body.lookup "name").getD .null
  | _ => .null

def command (body : Option Json) : List String :=
  [executable,"-m","langgraph_cli","deploy","--json","--no-input"] ++
    if truthy (bodyName body) then ["--name",pyStr (bodyName body)] else []

-- The subprocess is there with all that it is going to print, and the
-- operation becomes the current one.
def begin (s : Deploys) (index : Nat) (now : Int) (operationId : String) (stdout stderr : List Line) : Deploys :=
  ⟨s.operations ++ [spawned (.new operationId now) stdout stderr],some s.operations.length,
    s.requests.set index (.answered (started (.new operationId now)))⟩

inductive Event where
  | request (origin : String)
  | body (index : Nat) (body : Option Json)
  | cwd (index : Nat) (cwd : String)
  | spawn (index : Nat) (now : Int) (operationId : String) (stdout stderr : List Line)
  | fail (index : Nat)
  | operation (index : Nat) (now : Int) (event : DeployOperations.Event)

-- A request comes, goes on after one of its awaits or fails there, or one of
-- the operations goes on.
def serve (s : Deploys) : Event → Deploys
  | .request origin => {s with requests := s.requests ++ [startDeploy s origin]}
  | .body index body =>
    match s.requests[index]? with
    | some .readingBody => s.answer index (.resolvingCwd (command executable pyStr body))
    | _ => s
  | .cwd index cwd =>
    match s.requests[index]? with
    | some (.resolvingCwd command) => s.answer index (.spawning command cwd)
    | _ => s
  | .spawn index now operationId stdout stderr =>
    match s.requests[index]? with
    | some (.spawning _ _) => begin s index now operationId stdout stderr
    | _ => s
  | .fail index =>
    match s.requests[index]? with
    | some .readingBody | some (.resolvingCwd _) | some (.spawning _ _) => s.answer index .raised
    | _ => s
  | .operation index now event => {s with operations := s.operations.modify index fun d => step loads d (now,event)}

abbrev ServerRuns : List (Deploys × Event) → Deploys → Prop := Histories.Runs (serve executable pyStr loads) ⟨[],none,[]⟩

end serving

-- The subprocess of an operation was started and has not exited.
def Unexited (s : Deploys) (i : Nat) (d : Deploy) : Prop := s.operations[i]? = some d ∧ d.returncode = none

-- A request is past the guard and has not set the current operation.
def Pending (s : Deploys) (i : Nat) : Prop := ∃ request, s.requests[i]? = some request ∧ request.inFlight

def AtMostOne (s : Deploys) : Prop := ∀ i j d d', Unexited s i d → Unexited s j d' → i = j

-- What has to hold of a step: a request only passes the guard while no other
-- is between it and the assignment, and no reader meets what it cannot take
-- before the exit. A request of another origin never comes to the guard.
def Permitted (loads : String → Loaded) (s : Deploys) : Event → Prop
  | .request origin => ((∃ i d, Unexited s i d) → isAllowedDeployOrigin origin = true) ∧
    (isAllowedDeployOrigin origin = true → (∀ d, s.currentOp = some d → d.op.status ≠ .running) → ∀ i, ¬ Pending s i)
  | .operation index _ .read => ∀ d line rest, s.operations[index]? = some d → d.reader = .reading → d.stdout = line :: rest →
    Readable loads line ∨ d.returncode.isSome = true
  | _ => True

section operations
variable {loads : String → Loaded} {d : Deploy}

-- The operation goes on as far as the guard can see, and its reader has no
-- other end before it.
structure Alive (d : Deploy) : Prop where
  status : d.op.status = .running
  reader : ∀ status, d.reader ≠ .draining (some status)

theorem alive_beside {d' : Deploy} (alive : Alive d) (beside : Beside d d') : Alive d' :=
  ⟨beside.status.trans alive.status,fun status => beside.reader ▸ alive.reader status⟩

theorem conclude_alive {now : Int} (running : d.op.status = .running) : Alive (conclude now none d) := by
  unfold conclude
  split
  · obtain ⟨reader,status,_⟩ := finish_reader now none d
    exact ⟨status.trans running,fun final => by simp [reader]⟩
  · exact ⟨running,fun final => by simp⟩

-- Only the exit leads to an end that the guard can see.
theorem step_alive {event : Int × DeployOperations.Event} (alive : Alive d) (unexited : d.returncode = none)
    (readable : event.2 = .read → ∀ line rest, d.reader = .reading → d.stdout = line :: rest → Readable loads line) :
    Alive (step loads d event) := by
  obtain ⟨now,event⟩ := event
  cases event with
  | read =>
    dsimp only [step,readNext]
    split
    · exact ⟨alive.status,fun status => by simp⟩
    · rename_i line rest at_ left
      cases went : readLine loads {d with stdout := rest} line with
      | none => exact absurd (readable rfl line rest at_ left) (readLine_raises went)
      | some d' =>
        have turns := readLine_turns went
        exact ⟨turns.status.trans alive.status,fun status => turns.reader ▸ alive.reader status⟩
    · exact alive
  | waited =>
    dsimp only [step,waited]
    split
    · rename_i code _ exited
      cases unexited.symm.trans exited
    · exact alive
  | drained =>
    dsimp only [step,drained]
    split
    · rename_i final at_
      cases final with
      | none =>
        obtain ⟨reader,status,_⟩ := finish_reader now none {d with stderrDone := true}
        exact ⟨status.trans alive.status,fun final => by simp [reader]⟩
      | some status => exact absurd at_ (alive.reader status)
    · exact alive
  | cancelReader =>
    dsimp only [step,cancelReader]
    split
    · exact conclude_alive alive.status
    · exact conclude_alive alive.status
    · exact ⟨alive.status,fun status => by simp⟩
    · exact alive
  | drain => exact alive_beside alive drain_beside
  | exit code => exact alive_beside alive exit_beside
  | timeout => exact alive_beside alive timeout_beside
  | grace over_ => exact alive_beside alive grace_beside

end operations
section guard
variable {executable : String} {pyStr : Json → String} {loads : String → Loaded} {s : Deploys} {index : Nat}

-- Whatever still runs is the current operation, and no request is on its way
-- past the guard then.
structure Guarded (s : Deploys) : Prop where
  alive : ∀ i d, Unexited s i d → Alive d
  current : ∀ i d, Unexited s i d → s.current = some i
  single : ∀ i j, Pending s i → Pending s j → i = j
  free : ∀ i, Pending s i → ∀ j d, ¬ Unexited s j d

theorem Guarded.atMostOne (guarded : Guarded s) : AtMostOne s := by
  intro i j d d' first second
  exact Option.some.inj ((guarded.current i d first).symm.trans (guarded.current j d' second))

theorem current_found {i : Nat} {d : Deploy} (guarded : Guarded s) (unexited : Unexited s i d) : s.currentOp = some d := by
  rw [Deploys.currentOp,guarded.current i d unexited]
  exact unexited.1

theorem startDeploy_conflict {origin : String} {i : Nat} {d : Deploy} (guarded : Guarded s) (unexited : Unexited s i d)
    (allowed : isAllowedDeployOrigin origin = true) : startDeploy s origin = .answered (inProgress d.op) := by
  have running : d.op.status = .running := (guarded.alive i d unexited).status
  simp [startDeploy,allowed,current_found guarded unexited,running]

theorem startDeploy_inFlight {origin : String} (goes : (startDeploy s origin).inFlight) :
    isAllowedDeployOrigin origin = true ∧ ∀ d, s.currentOp = some d → d.op.status ≠ .running := by
  unfold startDeploy at goes
  split at goes
  · rename_i allowed
    refine ⟨allowed,fun d here running => ?_⟩
    rw [here] at goes
    simp only [if_pos running] at goes
    exact goes
  · exact goes.elim

-- A new request that waits is the only one.
theorem request_guarded (guarded : Guarded s) {origin : String} (alone : (startDeploy s origin).inFlight → ∀ i, ¬ Pending s i) :
    Guarded {s with requests := s.requests ++ [startDeploy s origin]} := by
  have place : ∀ i, Pending {s with requests := s.requests ++ [startDeploy s origin]} i →
      Pending s i ∨ i = s.requests.length ∧ (startDeploy s origin).inFlight := by
    intro i ⟨request,found,waits⟩
    rcases Nat.lt_or_ge i s.requests.length with below | above
    · rw [List.getElem?_append_left below] at found
      exact .inl ⟨request,found,waits⟩
    · obtain ⟨bound,_⟩ := List.getElem?_eq_some_iff.mp found
      have here : i = s.requests.length := by
        rw [List.length_append,List.length_singleton] at bound
        omega
      subst here
      rw [List.getElem?_concat_length] at found
      cases found
      exact .inr ⟨rfl,waits⟩
  refine ⟨guarded.alive,guarded.current,fun i j first second => ?_,fun i waits j d unexited => ?_⟩
  · rcases place i first with old | ⟨last,goes⟩
    · rcases place j second with old' | ⟨last',goes⟩
      · exact guarded.single i j old old'
      · exact absurd old (alone goes i)
    · rcases place j second with old' | ⟨last',_⟩
      · exact absurd old' (alone goes j)
      · rw [last,last']
  · rcases place i waits with old | ⟨_,goes⟩
    · exact guarded.free i old j d unexited
    · exact (startDeploy_inFlight goes).2 d (current_found guarded unexited) (guarded.alive j d unexited).status

-- Whoever waits afterwards has waited before.
theorem pending_set {old new : Request} {requests : List Request} (found : requests[index]? = some old) (waited : old.inFlight) {i : Nat}
    {request : Request} (after : (requests.set index new)[i]? = some request) (waits : request.inFlight) :
    ∃ before, requests[i]? = some before ∧ before.inFlight := by
  by_cases here : index = i
  · subst here
    exact ⟨old,found,waited⟩
  · rw [List.getElem?_set_ne here] at after
    exact ⟨request,after,waits⟩

theorem answer_guarded (guarded : Guarded s) {old new : Request} (found : s.requests[index]? = some old) (waited : old.inFlight) :
    Guarded (s.answer index new) := by
  have before : ∀ i, Pending (s.answer index new) i → Pending s i := fun i ⟨_,after,waits⟩ => pending_set found waited after waits
  exact ⟨guarded.alive,guarded.current,fun i j first second => guarded.single i j (before i first) (before j second),
    fun i waits => guarded.free i (before i waits)⟩

theorem begin_guarded (guarded : Guarded s) {old : Request} (found : s.requests[index]? = some old) (waited : old.inFlight)
    (now : Int) (operationId : String) (stdout stderr : List Line) : Guarded (begin s index now operationId stdout stderr) := by
  have mine : Pending s index := ⟨old,found,waited⟩
  have last : ∀ i d, Unexited (begin s index now operationId stdout stderr) i d →
      i = s.operations.length ∧ d = spawned (.new operationId now) stdout stderr := by
    intro i d ⟨here,unexited⟩
    dsimp only [begin] at here
    rcases Nat.lt_or_ge i s.operations.length with below | above
    · rw [List.getElem?_append_left below] at here
      exact absurd ⟨here,unexited⟩ (guarded.free index mine i d)
    · obtain ⟨bound,_⟩ := List.getElem?_eq_some_iff.mp here
      have place : i = s.operations.length := by
        rw [List.length_append,List.length_singleton] at bound
        omega
      subst place
      rw [List.getElem?_concat_length] at here
      exact ⟨rfl,(Option.some.inj here).symm⟩
  -- The only one that waited has its answer.
  have nobody : ∀ i, ¬ Pending (begin s index now operationId stdout stderr) i := by
    intro i ⟨request,after,waits⟩
    have same : i = index := guarded.single i index (pending_set found waited after waits) mine
    subst same
    obtain ⟨bound,_⟩ := List.getElem?_eq_some_iff.mp found
    dsimp only [begin] at after
    rw [List.getElem?_set_self bound] at after
    cases after
    exact waits
  refine ⟨fun i d unexited => ?_,fun i d unexited => ?_,fun i j first => absurd first (nobody i),fun i waits => absurd waits (nobody i)⟩
  · obtain ⟨_,rfl⟩ := last i d unexited
    exact ⟨rfl,fun status => by simp [spawned]⟩
  · obtain ⟨rfl,_⟩ := last i d unexited
    rfl

theorem operation_guarded (guarded : Guarded s) {event : Int × DeployOperations.Event}
    (readable : event.2 = .read → ∀ d line rest, s.operations[index]? = some d → d.reader = .reading → d.stdout = line :: rest →
      Readable loads line ∨ d.returncode.isSome = true) :
    Guarded {s with operations := s.operations.modify index fun d => step loads d event} := by
  -- What has not exited afterwards had not exited before, in the same place.
  have before : ∀ i d, Unexited {s with operations := s.operations.modify index fun d => step loads d event} i d →
      ∃ old, Unexited s i old ∧ Alive d := by
    intro i d ⟨here,unexited⟩
    dsimp only at here
    rw [List.getElem?_modify] at here
    obtain ⟨old,found,same⟩ := Option.map_eq_some_iff.mp here
    have still : old.returncode = none := by
      cases was : old.returncode with
      | none => rfl
      | some code =>
        split at same
        · rw [← same,(step_persists loads old event).returncode code was] at unexited
          cases unexited
        · exact was.symm.trans (same ▸ unexited)
    have alive := guarded.alive i old ⟨found,still⟩
    refine ⟨old,⟨found,still⟩,?_⟩
    split at same
    · rename_i place
      subst place
      rw [← same]
      refine step_alive alive still fun reads line rest at_ left => ?_
      refine (readable reads old line rest found at_ left).resolve_right ?_
      simp [still]
    · exact same ▸ alive
  refine ⟨fun i d unexited => ?_,fun i d unexited => ?_,guarded.single,fun i waits j d unexited => ?_⟩
  · obtain ⟨_,_,alive⟩ := before i d unexited
    exact alive
  · obtain ⟨old,was,_⟩ := before i d unexited
    exact guarded.current i old was
  · obtain ⟨old,was,_⟩ := before j d unexited
    exact guarded.free i waits j old was

theorem serve_guarded (s : Deploys) (event : Event) (guarded : Guarded s) (permitted : Permitted loads s event) :
    Guarded (serve executable pyStr loads s event) := by
  cases event with
  | request origin =>
    refine request_guarded guarded fun goes => ?_
    obtain ⟨allowed,passes⟩ := startDeploy_inFlight goes
    exact permitted.2 allowed passes
  | body index body =>
    dsimp only [serve]
    split
    · rename_i found
      exact answer_guarded guarded found trivial
    · exact guarded
  | cwd index cwd =>
    dsimp only [serve]
    split
    · rename_i found
      exact answer_guarded guarded found trivial
    · exact guarded
  | spawn index now operationId stdout stderr =>
    dsimp only [serve]
    split
    · rename_i found
      exact begin_guarded guarded found trivial now operationId stdout stderr
    · exact guarded
  | fail index =>
    dsimp only [serve]
    split
    · rename_i found
      exact answer_guarded guarded found trivial
    · rename_i found
      exact answer_guarded guarded found trivial
    · rename_i found
      exact answer_guarded guarded found trivial
    · exact guarded
  | operation index now event =>
    apply operation_guarded guarded
    intro reads d line rest here at_ left
    dsimp only at reads
    subst reads
    exact permitted d line rest here at_ left

theorem empty_guarded : Guarded ⟨[],none,[]⟩ := by
  have idle : ∀ i d, ¬ Unexited ⟨[],none,[]⟩ i d := fun i d unexited => by cases unexited.1
  have nobody : ∀ i, ¬ Pending ⟨[],none,[]⟩ i := fun i ⟨request,found,_⟩ => by cases found
  exact ⟨fun i d unexited => absurd unexited (idle i d),fun i d unexited => absurd unexited (idle i d),
    fun i j first => absurd first (nobody i),fun i waits => absurd waits (nobody i)⟩

-- At any time at most one subprocess runs, and whoever asks for another
-- meanwhile is told so.
theorem one_deploy (executable : String) (pyStr : Json → String) (loads : String → Loaded) (taken : List (Deploys × Event)) (s : Deploys)
    (runs : ServerRuns executable pyStr loads taken s) (permits : ∀ row ∈ taken, Permitted loads row.1 row.2) :
    (∀ t, t = s ∨ t ∈ taken.map Prod.fst → AtMostOne t) ∧
    ∀ t origin, (t,Event.request origin) ∈ taken → ∀ i d, Unexited t i d → startDeploy t origin = .answered (inProgress d.op) := by
  obtain ⟨here,earlier⟩ := Histories.runs_invariant runs empty_guarded
    (fun t event guarded permitted => serve_guarded t event guarded permitted) permits
  refine ⟨fun t among => ?_,fun t origin member i d unexited => ?_⟩
  · rcases among with rfl | before
    · exact here.atMostOne
    · obtain ⟨row,member,rfl⟩ := List.mem_map.mp before
      exact (earlier row member).atMostOne
  · have guarded : Guarded t := earlier (t,.request origin) member
    have permitted := permits (t,.request origin) member
    exact startDeploy_conflict guarded unexited (permitted.1 ⟨i,d,unexited⟩)

end guard
section toy

def toyServe : Deploys → Event → Deploys := serve "python" (fun _ => "") toyLoads

def served (events : List Event) : Deploys := events.foldl toyServe ⟨[],none,[]⟩

def servedSteps (events : List Event) : List (Deploys × Event) := Histories.trace toyServe ⟨[],none,[]⟩ events

theorem served_runs (events : List Event) : ServerRuns "python" (fun _ => "") toyLoads (servedSteps events) (served events) :=
  Histories.runs_trace .nil events

theorem unexited_at {s : Deploys} {i : Nat} (exits : (s.operations.map Deploy.returncode)[i]? = some none) : ∃ d, Unexited s i d := by
  rw [List.getElem?_map] at exits
  obtain ⟨d,here,unexited⟩ := Option.map_eq_some_iff.mp exits
  exact ⟨d,here,unexited⟩

def toyLaunch : List Event := [.request "",.body 0 none,.cwd 0 "/",.spawn 0 0 "op" [.text "hello"] []]

def toyGuarded : List Event := toyLaunch ++ [.request ""]

theorem toyGuarded_permitted : ∀ row ∈ servedSteps toyGuarded, Permitted toyLoads row.1 row.2 := by
  have running : (served toyLaunch).currentOp.map (fun d => d.op.status) = some .running := by decide +kernel
  obtain ⟨d,here,status⟩ := Option.map_eq_some_iff.mp running
  have allowed : isAllowedDeployOrigin "" = true := by decide +kernel
  intro row member
  rcases List.mem_cons.mp member with rfl | member
  · exact ⟨fun _ => allowed,fun _ _ i ⟨request,found,_⟩ => by cases found⟩
  rcases List.mem_cons.mp member with rfl | member
  · exact trivial
  rcases List.mem_cons.mp member with rfl | member
  · exact trivial
  rcases List.mem_cons.mp member with rfl | member
  · exact trivial
  rw [List.mem_singleton.mp member]
  exact ⟨fun _ => allowed,fun _ passes => absurd status (passes d here)⟩

theorem one_deploy_toy : AtMostOne (served toyGuarded) ∧
    ∃ d, Unexited (served toyLaunch) 0 d ∧ startDeploy (served toyLaunch) "" = .answered (inProgress d.op) := by
  obtain ⟨most,conflicts⟩ := one_deploy "python" (fun _ => "") toyLoads _ _ (served_runs toyGuarded) toyGuarded_permitted
  obtain ⟨d,unexited⟩ := unexited_at (s:=served toyLaunch) (i:=0) (by decide +kernel)
  refine ⟨most _ (.inl rfl),d,unexited,conflicts _ "" ?_ 0 d unexited⟩
  exact List.mem_of_getElem? (i:=4) rfl

-- Two requests pass the guard one after the other, and both start a subprocess.
def toyRace : List Event :=
  [.request "",.request "",.body 0 none,.body 1 none,.cwd 0 "/",.cwd 1 "/",.spawn 0 0 "one" [] [],.spawn 1 0 "two" [] []]

-- A reader gives up on a number while its subprocess goes on.
def toyGivenUp : List Event := [.request "",.body 0 none,.cwd 0 "/",.spawn 0 0 "one" [.text "3"] [],.operation 0 0 .read,.operation 0 0 .drained]

theorem two_deploys : ServerRuns "python" (fun _ => "") toyLoads (servedSteps toyRace) (served toyRace) ∧ ¬ AtMostOne (served toyRace) ∧
    ServerRuns "python" (fun _ => "") toyLoads (servedSteps toyGivenUp) (served toyGivenUp) ∧
    (∃ d, Unexited (served toyGivenUp) 0 d) ∧ (startDeploy (served toyGivenUp) "").inFlight := by
  obtain ⟨d,first⟩ := unexited_at (s:=served toyRace) (i:=0) (by decide +kernel)
  obtain ⟨d',second⟩ := unexited_at (s:=served toyRace) (i:=1) (by decide +kernel)
  refine ⟨served_runs _,fun most => ?_,served_runs _,unexited_at (by decide +kernel),?_⟩
  · cases most 0 1 d d' first second
  · have failed : (served toyGivenUp).currentOp.map (fun d => d.op.status) = some .failed := by decide +kernel
    obtain ⟨d,here,status⟩ := Option.map_eq_some_iff.mp failed
    have allowed : isAllowedDeployOrigin "" = true := by decide +kernel
    simp [startDeploy,allowed,here,status,Request.inFlight]

end toy
end InmemRuntime.DeployGuard
