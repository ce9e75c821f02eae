import InmemRuntime.ObjectHeap
import InmemRuntime.ThreadTtl

namespace InmemRuntime.RuntimeStore
open OrderedDict ObjectHeap ThreadTtl

inductive ThreadStatus where
  | idle
  | busy
  | interrupted
  | error
deriving DecidableEq,Repr

inductive RunStatus where
  | pending
  | running
  | success
  | error
  | interrupted
  | timeout
deriving DecidableEq,Repr

abbrev Metadata (J : Type) := Dict String J

-- What `handle_event` answers: nothing, or filters for `_check_filter_match`.
abbrev Filters (J : Type) := Option (Metadata J → Bool)

def passes {J : Type} (filters : Filters J) (metadata : Metadata J) : Bool :=
  match filters with
  | none => true
  | some check => check metadata

structure Thread (J : Type) where
  threadId : String
  status : ThreadStatus
  metadata : Metadata J
  createdAt : Int
  updatedAt : Int
  stateUpdatedAt : Option Int
  values : Option J
  interrupts : Option J
  error : Option J

structure Run where
  runId : Option String
  threadId : String
  assistantId : String
  status : RunStatus
  createdAt : Int
  updatedAt : Int
deriving DecidableEq,Repr

-- `threadId` is `str(c.get("thread_id"))`.
structure Cron where
  cronId : String
  threadId : String
deriving DecidableEq,Repr

-- `system` says whether `metadata["created_by"]` is `"system"`.
structure Assistant (J : Type) where
  assistantId : String
  graphId : String
  system : Bool
  metadata : Metadata J

-- `conn.store`. Threads and runs are shared objects, and so are the lists that
-- have been bound to `"threads"`: a caller may still hold a replaced one.
structure Store (J : Type) where
  threads : Heap (Thread J)
  threadLists : Heap (List Nat)
  boundThreads : Nat
  runs : Heap Run
  boundRuns : List Nat
  crons : List Cron
  ttls : Dict String TtlState
  assistants : List (Assistant J)
  attempts : Option String → Nat

def RunStatus.active : RunStatus → Bool
  | .pending | .running => true
  | _ => false

variable {J : Type}

namespace Store

def thread (s : Store J) (ref : Nat) : Thread J := s.threads.read ref

def run (s : Store J) (ref : Nat) : Run := s.runs.read ref

def liveThreads (s : Store J) : List Nat := s.threadLists.read s.boundThreads

def isThread (s : Store J) (threadId : String) (ref : Nat) : Bool := (s.thread ref).threadId == threadId

-- `next((t for t in conn.store["threads"] if t["thread_id"] == thread_id), None)`.
def findThread (s : Store J) (threadId : String) : Option Nat := s.liveThreads.find? (s.isThread threadId)

def isRun (s : Store J) (runId : Option String) (threadId : String) (ref : Nat) : Bool :=
  (s.run ref).runId == runId && (s.run ref).threadId == threadId

def findRun (s : Store J) (runId : Option String) (threadId : String) : Option Nat :=
  s.boundRuns.find? (s.isRun runId threadId)

def activeOn (s : Store J) (threadId : String) : Bool :=
  s.boundRuns.any fun ref => (s.run ref).threadId == threadId && (s.run ref).status.active

def updateThread (s : Store J) (ref : Nat) (f : Thread J → Thread J) : Store J :=
  {s with threads := s.threads.write ref (f (s.thread ref))}

def updateRun (s : Store J) (ref : Nat) (f : Run → Run) : Store J :=
  {s with runs := s.runs.write ref (f (s.run ref))}

def writeList (s : Store J) (list : Nat) (refs : List Nat) : Store J :=
  {s with threadLists := s.threadLists.write list refs}

-- `conn.store["threads"] = [...]`, which is a new list object.
def rebindThreads (s : Store J) (refs : List Nat) : Store J :=
  {s with threadLists := (s.threadLists.alloc refs).1, boundThreads := s.threadLists.next}

def allocThread (s : Store J) (thread : Thread J) : Store J := {s with threads := (s.threads.alloc thread).1}

def appendThread (s : Store J) (thread : Thread J) : Store J :=
  (s.allocThread thread).writeList s.boundThreads (s.liveThreads ++ [s.threads.next])

def appendRun (s : Store J) (run : Run) : Store J :=
  {s with runs := (s.runs.alloc run).1, boundRuns := s.boundRuns ++ [s.runs.next]}

def empty : Store J :=
  ⟨⟨fun _ => ⟨"",.idle,Dict.empty,0,0,none,none,none,none⟩,0⟩,⟨fun _ => [],1⟩,0,⟨fun _ => ⟨none,"","",.pending,0,0⟩,0⟩,
    [],[],Dict.empty,[],fun _ => 0⟩

@[simp] theorem run_updateThread (s : Store J) (ref other : Nat) (f : Thread J → Thread J) :
    (s.updateThread ref f).run other = s.run other := rfl
@[simp] theorem boundRuns_updateThread (s : Store J) (ref : Nat) (f : Thread J → Thread J) :
    (s.updateThread ref f).boundRuns = s.boundRuns := rfl
@[simp] theorem liveThreads_updateThread (s : Store J) (ref : Nat) (f : Thread J → Thread J) :
    (s.updateThread ref f).liveThreads = s.liveThreads := rfl
@[simp] theorem thread_updateRun (s : Store J) (ref other : Nat) (f : Run → Run) :
    (s.updateRun ref f).thread other = s.thread other := rfl
@[simp] theorem liveThreads_updateRun (s : Store J) (ref : Nat) (f : Run → Run) :
    (s.updateRun ref f).liveThreads = s.liveThreads := rfl
@[simp] theorem boundRuns_updateRun (s : Store J) (ref : Nat) (f : Run → Run) :
    (s.updateRun ref f).boundRuns = s.boundRuns := rfl
@[simp] theorem run_updateRun_self (s : Store J) (ref : Nat) (f : Run → Run) :
    (s.updateRun ref f).run ref = f (s.run ref) := by simp [run,updateRun]
@[simp] theorem thread_updateThread_self (s : Store J) (ref : Nat) (f : Thread J → Thread J) :
    (s.updateThread ref f).thread ref = f (s.thread ref) := by simp [thread,updateThread]
@[simp] theorem liveThreads_rebind (s : Store J) (refs : List Nat) : (s.rebindThreads refs).liveThreads = refs := by
  simp [liveThreads,rebindThreads]
@[simp] theorem thread_rebind (s : Store J) (refs : List Nat) (ref : Nat) :
    (s.rebindThreads refs).thread ref = s.thread ref := rfl

theorem threadId_updateThread {s : Store J} {ref : Nat} {f : Thread J → Thread J} (same : ∀ t, (f t).threadId = t.threadId)
    (other : Nat) : ((s.updateThread ref f).thread other).threadId = (s.thread other).threadId :=
  Heap.read_write_field Thread.threadId (same _) other

theorem updateThread_same {s : Store J} {ref : Nat} {f : Thread J → Thread J} (same : f (s.thread ref) = s.thread ref) :
    s.updateThread ref f = s := by
  unfold updateThread Heap.write
  rw [same]
  exact congrArg (fun read => {s with threads := {s.threads with read}}) (Function.update_eq_self ref s.threads.read)

theorem run_updateRun_other {s : Store J} {ref other : Nat} {f : Run → Run} (apart : other ≠ ref) :
    (s.updateRun ref f).run other = s.run other := Heap.read_write_other apart

theorem thread_updateThread_other {s : Store J} {ref other : Nat} {f : Thread J → Thread J} (apart : other ≠ ref) :
    (s.updateThread ref f).thread other = s.thread other := Heap.read_write_other apart

theorem thread_allocThread_old {s : Store J} {thread : Thread J} {ref : Nat} (used : ref < s.threads.next) :
    (s.allocThread thread).thread ref = s.thread ref := Heap.read_alloc_old used

theorem thread_allocThread_new (s : Store J) (thread : Thread J) :
    (s.allocThread thread).thread s.threads.next = thread := Heap.read_alloc_new _ _

theorem findThread_some {s : Store J} {threadId : String} {ref : Nat} (found : s.findThread threadId = some ref) :
    ref ∈ s.liveThreads ∧ (s.thread ref).threadId = threadId :=
  ⟨List.mem_of_find?_eq_some found,by simpa [isThread] using List.find?_some found⟩

theorem findThread_none {s : Store J} {threadId : String} :
    s.findThread threadId = none ↔ ∀ ref ∈ s.liveThreads, (s.thread ref).threadId ≠ threadId := by
  simp [findThread,isThread]

theorem findRun_some {s : Store J} {runId : Option String} {threadId : String} {ref : Nat}
    (found : s.findRun runId threadId = some ref) :
    ref ∈ s.boundRuns ∧ (s.run ref).runId = runId ∧ (s.run ref).threadId = threadId :=
  ⟨List.mem_of_find?_eq_some found,by simpa [isRun] using List.find?_some found⟩

theorem activeOn_iff {s : Store J} {threadId : String} : s.activeOn threadId = true ↔
    ∃ ref ∈ s.boundRuns, (s.run ref).threadId = threadId ∧ (s.run ref).status.active = true := by
  simp [activeOn]

end Store
end InmemRuntime.RuntimeStore
