import InmemRuntime.BusyThreads
import Mathlib.Data.List.Find

namespace InmemRuntime.JointAgreement
open OrderedDict ObjectHeap ThreadTtl RuntimeStore Serving ThreadOps JointStatus BusyThreads

variable {J : Type}

-- What a worker reports of a run that ends with a status of its own.
structure Report (J : Type) where
  now : Int
  threadId : String
  runId : String
  status : RunStatus
  graphId : String
  checkpoint : Option (CheckpointPayload J)
  exception : Option (RaisedError J)

def Report.call (r : Report J) : JointCall J := ⟨r.threadId,r.runId,.status r.status,r.graphId,r.checkpoint,r.exception⟩

-- `Runs.set_status`: the first run of that id, whatever its thread.
def setRunStatus (s : Store J) (now : Int) (runId : String) (status : RunStatus) : Store J :=
  match s.boundRuns.find? fun ref => (s.run ref).runId == some runId with
  | none => s
  | some ref => s.updateRun ref fun run => {run with status, updatedAt := now}

-- The two calls that `Threads.set_joint_status` combines, one after the other.
def separately (s : Store J) (r : Report J) : Except Fault (Store J) :=
  setStatus (setRunStatus s r.now r.runId r.status) r.now ⟨r.threadId,r.checkpoint,r.exception.map RaisedError.value⟩

def separateHistory (s : Store J) (reports : List (Report J)) : Except Fault (Store J) := reports.foldlM separately s

variable (text : String → J)

-- The run of reports is none when a call does not return at once.
def jointHistory (s : Server J) : List (Report J) → Option (Server J)
  | [] => some s
  | r :: reports =>
    match stepJoint text (.quiet r.now) s (.called r.call) with
    | (s,.returned _) => jointHistory s reports
    | _ => none

-- Only `set_joint_status` writes the graph's id.
def withoutGraph (thread : Thread J) : Thread J := {thread with metadata := thread.metadata.erase "graph_id"}

structure Alike (s s' : Store J) : Prop where
  rest : {s' with threads := s.threads} = s
  next : s'.threads.next = s.threads.next
  records : ∀ ref, withoutGraph (s'.thread ref) = withoutGraph (s.thread ref)

-- The report is about a run of its thread, and run ids are not shared between
-- threads.
structure Fits (s : Store J) (r : Report J) : Prop where
  thread : (s.findThread r.threadId).isSome
  run : (s.findRun (some r.runId) r.threadId).isSome
  own : ∀ ref ∈ s.boundRuns, (s.run ref).runId = some r.runId → (s.run ref).threadId = r.threadId

-- A `UserInterrupt` or a `UserRollback` is an error for `set_status` only.
def Ordinary (r : Report J) : Prop := r.exception.any RaisedError.user = false

-- What the report raised does not count on a thread that stays busy.
def Settles (s : Store J) (r : Report J) : Prop :=
  (setRunStatus s r.now r.runId r.status).activeOn r.threadId = true ∨ Ordinary r

def SettledHistory : Store J → List (Report J) → Prop
  | _, [] => True
  | s, r :: reports => Settles s r ∧ ∀ s', separately s r = .ok s' → SettledHistory s' reports

def Agree (s : Store J) (server : Server J) (reports : List (Report J)) : Prop :=
  ∃ plain joint, separateHistory s reports = .ok plain ∧ jointHistory text server reports = some (server.withStore joint) ∧ Alike plain joint

variable {text} {s s' : Store J} {r : Report J}

section alike

theorem Alike.refl (s : Store J) : Alike s s := ⟨rfl,rfl,fun _ => rfl⟩

theorem Alike.reads (alike : Alike s s') {α : Type} (read : Store J → α)
    (same : read {s' with threads := s.threads} = read s') : read s' = read s := by
  rw [← same,alike.rest]

theorem Alike.ids (alike : Alike s s') : SameIds s s' := by
  refine ⟨alike.reads Store.liveThreads rfl,alike.next,fun ref => ?_⟩
  have same : (withoutGraph (s'.thread ref)).threadId = (withoutGraph (s.thread ref)).threadId := by rw [alike.records ref]
  exact same

theorem Alike.findRun (alike : Alike s s') (runId : Option String) (threadId : String) :
    s'.findRun runId threadId = s.findRun runId threadId := alike.reads (fun s => s.findRun runId threadId) rfl

theorem Alike.activeOn (alike : Alike s s') (threadId : String) : s'.activeOn threadId = s.activeOn threadId :=
  alike.reads (fun s => s.activeOn threadId) rfl

theorem Alike.updateRun (alike : Alike s s') (ref : Nat) (f : Run → Run) : Alike (s.updateRun ref f) (s'.updateRun ref f) := by
  refine ⟨?_,alike.next,alike.records⟩
  have rest : ({s' with threads := s.threads} : Store J).updateRun ref f = s.updateRun ref f := by rw [alike.rest]
  exact rest

theorem Alike.updateThread (alike : Alike s s') {ref : Nat} {f f' : Thread J → Thread J}
    (same : withoutGraph (f' (s'.thread ref)) = withoutGraph (f (s.thread ref))) :
    Alike (s.updateThread ref f) (s'.updateThread ref f') := by
  refine ⟨?_,alike.next,fun other => ?_⟩
  · have rest : ({s' with threads := s.threads} : Store J).updateThread ref f = s.updateThread ref f := by rw [alike.rest]
    exact rest
  · by_cases here : other = ref
    · subst here
      rw [Store.thread_updateThread_self,Store.thread_updateThread_self]
      exact same
    · rw [Store.thread_updateThread_other here,Store.thread_updateThread_other here]
      exact alike.records other

theorem withoutGraph_named (thread : Thread J) (value : J) :
    withoutGraph {thread with metadata := thread.metadata.insert "graph_id" value} = withoutGraph thread := by
  unfold withoutGraph Dict.erase
  rw [Dict.filter_insert]
  simp

-- What both functions write does not depend on the metadata.
theorem withoutGraph_statusUpdate {now : Int} {status : ThreadStatus} {checkpoint : Option (CheckpointPayload J)} {error : Option J}
    {thread thread' : Thread J} (same : withoutGraph thread' = withoutGraph thread) :
    withoutGraph (statusUpdate now status checkpoint error thread') = withoutGraph (statusUpdate now status checkpoint error thread) := by
  have updated : statusUpdate now status checkpoint error (withoutGraph thread') =
      statusUpdate now status checkpoint error (withoutGraph thread) := by rw [same]
  exact updated

end alike

-- The store once the run that was found has its status.
def reported (s : Store J) (r : Report J) (run : Nat) : Store J :=
  s.updateRun run fun run => {run with status := r.status, updatedAt := r.now}

theorem reported_field {α : Type} (read : Run → α) (same : ∀ run : Run, read {run with status := r.status, updatedAt := r.now} = read run)
    (run ref : Nat) : read ((reported s r run).run ref) = read (s.run ref) := Heap.read_write_field read (same _) ref

-- Looking for the id is looking for it on its thread.
theorem setRunStatus_found {run : Nat} (fits : Fits s r) (found : s.findRun (some r.runId) r.threadId = some run) :
    setRunStatus s r.now r.runId r.status = reported s r run := by
  have first : (s.boundRuns.find? fun ref => (s.run ref).runId == some r.runId) = some run := by
    refine Eq.trans (List.find?_congr fun ref bound => ?_) found
    unfold Store.isRun
    by_cases mine : (s.run ref).runId = some r.runId
    · simp [mine,fits.own ref bound mine]
    · simp [mine]
  unfold setRunStatus
  rw [first]
  rfl

-- A run that is pending or running makes its thread busy by itself.
theorem reported_active {run : Nat} (found : s.findRun (some r.runId) r.threadId = some run) :
    (r.status.active || (reported s r run).activeOn r.threadId) = (reported s r run).activeOn r.threadId := by
  cases active : r.status.active with
  | false => rfl
  | true =>
    obtain ⟨bound,_,named⟩ := Store.findRun_some found
    have busy : (reported s r run).activeOn r.threadId = true := by
      refine Store.activeOn_iff.mpr ⟨run,bound,?_⟩
      unfold reported
      rw [Store.run_updateRun_self]
      exact ⟨named,active⟩
    rw [busy]
    rfl

-- The status of `set_status`, before it looks for active runs.
def plainStatus (r : Report J) : ThreadStatus :=
  if r.exception.isSome then .error else if hasNext r.checkpoint then .interrupted else .idle

theorem baseStatus_ordinary (ordinary : Ordinary r) : baseStatus r.call = plainStatus r := by
  unfold Ordinary at ordinary
  unfold baseStatus plainStatus Report.call
  cases raised : r.exception with
  | none => rfl
  | some exception =>
    rw [raised] at ordinary
    have plain : exception.user = false := ordinary
    simp [plain]

theorem baseStatus_user (user : ¬ Ordinary r) : plainStatus r = .error ∧ baseStatus r.call ≠ .error := by
  unfold Ordinary at user
  unfold baseStatus plainStatus Report.call
  cases raised : r.exception with
  | none => simp [raised] at user
  | some exception =>
    rw [raised] at user
    have marked : exception.user = true := by simpa using user
    refine ⟨rfl,?_⟩
    simp only [marked,Bool.not_true,Bool.false_eq_true,if_false]
    split <;> simp

def plainEnd (s : Store J) (r : Report J) (thread run : Nat) : Store J :=
  (reported s r run).updateThread thread (statusUpdate r.now
    (if (reported s r run).activeOn r.threadId then .busy else plainStatus r) r.checkpoint (r.exception.map RaisedError.value))

variable (text) in
def jointEnd (s : Store J) (r : Report J) (thread run : Nat) : Store J :=
  finishThread text (reported s r run) r.now r.call thread
    (if (reported s r run).activeOn r.threadId then .busy else baseStatus r.call)

theorem separately_found {thread run : Nat} (fits : Fits s r) (stored : s.findThread r.threadId = some thread)
    (found : s.findRun (some r.runId) r.threadId = some run) : separately s r = .ok (plainEnd s r thread run) := by
  have same : (reported s r run).findThread r.threadId = some thread := stored
  unfold separately setStatus
  rw [setRunStatus_found fits found]
  simp only [same,Option.isSome_map]
  rfl

variable (text) in
theorem stepJoint_found {server : Server J} {thread run : Nat} (stored : server.store.findThread r.threadId = some thread)
    (found : server.store.findRun (some r.runId) r.threadId = some run) :
    stepJoint text (.quiet r.now) server (.called r.call) = (server.withStore (jointEnd text server.store r thread run),.returned ()) := by
  have stored' : server.store.findThread r.call.threadId = some thread := stored
  have found' : server.store.findRun (some r.call.runId) r.call.threadId = some run := found
  simp only [stepJoint,stored',found']
  have ended : finishStatus text server.store r.now r.call thread run r.status = jointEnd text server.store r thread run := by
    unfold jointEnd
    rw [← reported_active found]
    rfl
  exact congrArg (fun store => (server.withStore store,Outcome.returned ())) ended

variable (text) in
theorem ends_alike {run : Nat} (thread : Nat) (alike : Alike s s') (settles : (reported s r run).activeOn r.threadId = true ∨ Ordinary r) :
    Alike (plainEnd s r thread run) (jointEnd text s' r thread run) := by
  have marked : Alike (reported s r run) (reported s' r run) := alike.updateRun run _
  unfold plainEnd jointEnd finishThread
  rw [marked.activeOn]
  refine marked.updateThread ?_
  have status : (if (reported s r run).activeOn r.threadId then .busy else baseStatus r.call) =
      (if (reported s r run).activeOn r.threadId then .busy else plainStatus r) := by
    rcases settles with busy | ordinary
    · rw [if_pos busy,if_pos busy]
    · rw [baseStatus_ordinary ordinary]
  rw [status]
  exact withoutGraph_statusUpdate ((withoutGraph_named _ _).trans (marked.records thread))

-- A user's interrupt or rollback on a thread with no other active run is an
-- error to one function and none to the other.
theorem ends_settle {thread run : Nat} (alike : Alike s s')
    (same : Alike (plainEnd s r thread run) (jointEnd text s' r thread run)) :
    (reported s r run).activeOn r.threadId = true ∨ Ordinary r := by
  by_contra apart
  obtain ⟨idle,user⟩ := not_or.mp apart
  obtain ⟨plain,other⟩ := baseStatus_user user
  have marked : Alike (reported s r run) (reported s' r run) := alike.updateRun run _
  have statuses : ((jointEnd text s' r thread run).thread thread).status = ((plainEnd s r thread run).thread thread).status := by
    have kept : (withoutGraph ((jointEnd text s' r thread run).thread thread)).status =
        (withoutGraph ((plainEnd s r thread run).thread thread)).status := by rw [same.records thread]
    exact kept
  unfold plainEnd jointEnd finishThread at statuses
  rw [Store.thread_updateThread_self,Store.thread_updateThread_self,marked.activeOn,if_neg idle,if_neg idle,plain] at statuses
  exact other statuses

theorem fits_kept {r' : Report J} {thread run : Nat} (fits : Fits s r') : Fits (plainEnd s r thread run) r' := by
  have ids : SameIds (reported s r run) (plainEnd s r thread run) := sameIds_updateThread _ thread fun _ => rfl
  have runIds : ∀ ref, ((plainEnd s r thread run).run ref).runId = (s.run ref).runId :=
    reported_field Run.runId (fun _ => rfl) run
  have runThreads : ∀ ref, ((plainEnd s r thread run).run ref).threadId = (s.run ref).threadId :=
    reported_field Run.threadId (fun _ => rfl) run
  refine ⟨?_,?_,?_⟩
  · rw [findThread_sameIds ids]
    exact fits.thread
  · have same : (plainEnd s r thread run).isRun (some r'.runId) r'.threadId = s.isRun (some r'.runId) r'.threadId := by
      funext ref
      unfold Store.isRun
      rw [runIds,runThreads]
    unfold Store.findRun
    rw [same]
    exact fits.run
  · intro ref bound named
    rw [runIds] at named
    rw [runThreads]
    exact fits.own ref bound named

variable {server : Server J}

-- After a report the rest is told from what it left.
theorem agree_cons {reports : List (Report J)} {s' : Store J} {server' : Store J} (plain : separately s r = .ok s')
    (joint : stepJoint text (.quiet r.now) server (.called r.call) = (server.withStore server',.returned ())) :
    Agree text s server (r :: reports) ↔ Agree text s' (server.withStore server') reports := by
  have first : separateHistory s (r :: reports) = separateHistory s' reports := by
    unfold separateHistory
    rw [List.foldlM_cons,plain]
    rfl
  have second : jointHistory text server (r :: reports) = jointHistory text (server.withStore server') reports := by
    simp only [jointHistory,joint]
  unfold Agree
  rw [first,second]
  rfl

theorem agree_nil : Agree text s server [] ↔ Alike s server.store := by
  constructor
  · rintro ⟨plain,joint,told,ran,alike⟩
    cases told
    obtain rfl : server.store = joint := congrArg Server.store (Option.some.inj ran)
    exact alike
  · exact fun alike => ⟨s,server.store,rfl,rfl,alike⟩

-- By induction on the reports, from stores that are alike.
theorem agree_from {reports : List (Report J)} (alike : Alike s server.store) (fits : ∀ r ∈ reports, Fits s r) :
    (∀ n, Agree text s server (reports.take n)) ↔ SettledHistory s reports := by
  induction reports generalizing s server with
  | nil =>
    refine ⟨fun _ => trivial,fun _ n => ?_⟩
    rw [List.take_nil]
    exact agree_nil.mpr alike
  | cons r reports ih =>
    have fit := fits r List.mem_cons_self
    obtain ⟨thread,stored⟩ := Option.isSome_iff_exists.mp fit.thread
    obtain ⟨run,found⟩ := Option.isSome_iff_exists.mp fit.run
    have plain := separately_found fit stored found
    have joint := stepJoint_found text ((findThread_sameIds alike.ids _).trans stored) ((alike.findRun _ _).trans found)
    have later : ∀ r' ∈ reports, Fits (plainEnd s r thread run) r' := fun r' member => fits_kept (fits r' (List.mem_cons_of_mem r member))
    have settles : Settles s r ↔ (reported s r run).activeOn r.threadId = true ∨ Ordinary r := by
      unfold Settles
      rw [setRunStatus_found fit found]
    constructor
    · intro agree
      have same := agree_nil.mp ((agree_cons plain joint).mp (agree 1))
      refine ⟨settles.mpr (ends_settle alike same),fun s' told => ?_⟩
      obtain rfl : plainEnd s r thread run = s' := Except.ok.inj (plain.symm.trans told)
      exact (ih same later).mp fun n => (agree_cons plain joint).mp (agree (n + 1))
    · rintro ⟨settled,rest⟩ n
      have same := ends_alike text thread alike (settles.mp settled)
      cases n with
      | zero => exact agree_nil.mpr alike
      | succ n => exact (agree_cons plain joint).mpr ((ih same later).mpr (rest _ plain) n)

-- The combined call does what the two calls do, the graph's id apart, in a
-- history of reports just when no report raises a user's error on a thread that
-- it leaves without active runs.
theorem joint_agrees_iff {server : Server J} {reports : List (Report J)} (fits : ∀ r ∈ reports, Fits server.store r) :
    (∀ n, Agree text server.store server (reports.take n)) ↔ SettledHistory server.store reports := agree_from (Alike.refl _) fits

section toy

-- A thread with one run.
def oneRun : Server String :=
  .start ((Store.empty.appendThread ⟨"T",.busy,Dict.empty,0,0,none,none,none,none⟩).appendRun ⟨some "R","T","a",.running,0,0⟩)

def failed (user : Bool) : Report String := ⟨1,"T","R",.interrupted,"agent",none,some ⟨user,"boom"⟩⟩

theorem failed_fits (user : Bool) : ∀ r ∈ [failed user], Fits oneRun.store r := by
  intro r member
  obtain rfl := List.mem_singleton.mp member
  have thread : (oneRun.store.findThread "T").isSome = true := by decide
  have run : (oneRun.store.findRun (some "R") "T").isSome = true := by decide
  have own : ∀ ref ∈ oneRun.store.boundRuns, (oneRun.store.run ref).runId = some "R" → (oneRun.store.run ref).threadId = "T" := by decide
  exact ⟨thread,run,own⟩

-- An exception of the graph is an error to both, a user's interrupt is not.
theorem joint_agrees_toy : (∀ n, Agree id oneRun.store oneRun ([failed false].take n)) ∧
    ¬ ∀ n, Agree id oneRun.store oneRun ([failed true].take n) := by
  constructor
  · exact (joint_agrees_iff (failed_fits false)).mpr ⟨.inr rfl,fun _ _ => trivial⟩
  · intro agree
    obtain ⟨settles,_⟩ := (joint_agrees_iff (failed_fits true)).mp agree
    rcases settles with busy | ordinary
    · exact absurd busy (by decide)
    · have marked : true = false := ordinary
      exact absurd marked (by decide)

end toy
end InmemRuntime.JointAgreement
