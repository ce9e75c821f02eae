import InmemRuntime.ThreadRecords

namespace InmemRuntime.ThreadDeletion
open OrderedDict ObjectHeap ThreadTtl RuntimeStore Serving ThreadOps ThreadRecords Tasks

variable {J : Type}

-- Nothing of the thread is left, and nothing of another thread is touched.
structure Deletes (s : Store J) (threadId : String) (s' : Store J) : Prop where
  record : ∀ ref ∈ s'.liveThreads, (s'.thread ref).threadId ≠ threadId
  runs : ∀ ref ∈ s'.boundRuns, (s'.run ref).threadId ≠ threadId
  crons : ∀ cron ∈ s'.crons, cron.threadId ≠ threadId
  ttl : s'.ttls.get? threadId = none
  otherRecords : ∀ ref ∈ s.liveThreads, (s.thread ref).threadId ≠ threadId →
    ref ∈ s'.liveThreads ∧ s'.thread ref = s.thread ref
  otherRuns : ∀ ref ∈ s.boundRuns, (s.run ref).threadId ≠ threadId → ref ∈ s'.boundRuns ∧ s'.run ref = s.run ref
  otherCrons : ∀ cron ∈ s.crons, cron.threadId ≠ threadId → cron ∈ s'.crons
  otherTtls : ∀ other, other ≠ threadId → s'.ttls.get? other = s.ttls.get? other

-- The claim of a step that returns the id iterator.
def Removes (w : Wake J) (s : Server J) (task : DeleteTask) : Prop :=
  ∀ threadId, (stepDelete w s task).2 = .returned threadId → Deletes s.store threadId (stepDelete w s task).1.store

-- The record that was found at the start is still the only one of its thread.
def RecordCurrent (w : Wake J) (s : Server J) : DeleteTask → Prop
  | .streams threadId matching => w.failure = none →
    ∀ ref ∈ s.store.liveThreads, (s.store.thread ref).threadId = threadId → ref = matching
  | _ => True

-- What the capture at the start has found.
def Names (s : Store J) : DeleteTask → Prop
  | .called _ => True
  | .authorizing threadId matching => ∀ ref, matching = some ref → ref < s.threads.next ∧ (s.thread ref).threadId = threadId
  | .checkpoints threadId ref | .streams threadId ref => ref < s.threads.next ∧ (s.thread ref).threadId = threadId

theorem names_extends {s s' : Store J} (extends_ : Extends s s') {task : DeleteTask} (names : Names s task) :
    Names s' task := by
  have later : ∀ ref threadId, ref < s.threads.next ∧ (s.thread ref).threadId = threadId →
      ref < s'.threads.next ∧ (s'.thread ref).threadId = threadId :=
    fun ref threadId here => ⟨lt_of_lt_of_le here.1 extends_.used,(extends_.sameId ref here.1).trans here.2⟩
  cases task with
  | called threadId => trivial
  | authorizing threadId matching => exact fun ref same => later ref threadId (names ref same)
  | checkpoints threadId ref => exact later ref threadId names
  | streams threadId ref => exact later ref threadId names

theorem stepDelete_names {w : Wake J} {s : Server J} {task again : DeleteTask} (used : LiveUsed s.store)
    (names : Names s.store task) (suspends : (stepDelete w s task).2 = .suspended again) : Names s.store again := by
  cases task with
  | called threadId =>
    cases suspends
    intro ref found
    obtain ⟨member,same⟩ := Store.findThread_some found
    exact ⟨used ref member,same⟩
  | authorizing threadId matching =>
    dsimp only [stepDelete,authorized] at suspends
    split at suspends
    · cases suspends
    · split at suspends
      · cases suspends
      · split at suspends <;> cases suspends
        exact names _ rfl
  | checkpoints threadId ref =>
    dsimp only [stepDelete,external] at suspends
    split at suspends <;> cases suspends
    exact names
  | streams threadId ref =>
    dsimp only [stepDelete,external] at suspends
    split at suspends <;> cases suspends

theorem removeThread_deletes {s : Store J} {threadId : String} {matching : Nat}
    (named : (s.thread matching).threadId = threadId) : Deletes s threadId (removeThread s threadId matching) ↔
      ∀ ref ∈ s.liveThreads, (s.thread ref).threadId = threadId → ref = matching := by
  have live : (removeThread s threadId matching).liveThreads = s.liveThreads.filter fun ref => ref != matching :=
    Store.liveThreads_rebind _ _
  constructor
  · intro deletes ref member same
    by_contra other
    exact deletes.record ref (by simp [live,member,other]) same
  · intro only
    constructor
    · intro ref member same
      rw [live] at member
      obtain ⟨there,other⟩ := List.mem_filter.mp member
      exact absurd (only ref there same) (by simpa using other)
    · intro ref member
      have kept : ((s.run ref).threadId != threadId) = true := (List.mem_filter.mp member).2
      exact bne_iff_ne.mp kept
    · intro cron member
      simpa using (List.mem_filter.mp member).2
    · simp [removeThread,Dict.get?_erase]
    · intro ref member apart
      refine ⟨?_,rfl⟩
      rw [live]
      refine List.mem_filter.mpr ⟨member,?_⟩
      rw [bne_iff_ne]
      rintro rfl
      exact apart named
    · exact fun ref member apart => ⟨List.mem_filter.mpr ⟨member,by simpa using apart⟩,rfl⟩
    · exact fun cron member apart => List.mem_filter.mpr ⟨member,by simpa using apart⟩
    · intro other apart
      simp [removeThread,Dict.get?_erase,apart.symm]

theorem removes_iff {w : Wake J} {s : Server J} {task : DeleteTask} (names : Names s.store task) :
    Removes w s task ↔ RecordCurrent w s task := by
  cases task with
  | called threadId => exact iff_of_true (fun _ returned => by cases returned) trivial
  | authorizing threadId matching =>
    refine iff_of_true (fun other returned => ?_) trivial
    dsimp only [stepDelete,authorized] at returned
    split at returned
    · cases returned
    · split at returned
      · cases returned
      · split at returned <;> cases returned
  | checkpoints threadId ref =>
    refine iff_of_true (fun other returned => ?_) trivial
    dsimp only [stepDelete,external] at returned
    split at returned <;> cases returned
  | streams threadId ref =>
    cases failed : w.failure with
    | some fault =>
      refine iff_of_true (fun other returned => ?_) fun fine => by simp [failed] at fine
      simp [stepDelete,external,failed] at returned
    | none =>
      have goes : stepDelete w s (.streams threadId ref) =
          (s.withStore (removeThread s.store threadId ref),.returned threadId) := by
        simp only [stepDelete,external,failed]
      unfold Removes
      rw [goes]
      simp only [Outcome.returned.injEq,forall_eq',Server.store_withStore,removeThread_deletes names.2,RecordCurrent,failed,
        forall_const]

variable {text : String → J} {globalTtl : Option TtlConfig}

theorem resume_delete {w : Wake J} {s : Server J} {task : Coroutine J} {again : DeleteTask}
    (spawned : .delete again ∈ (resume text globalTtl w s task).2) :
    ∃ before, task = .delete before ∧ (stepDelete w s before).2 = .suspended again := by
  have kind := resume_kind spawned
  cases task with
  | delete task =>
    obtain ⟨later,suspends,same⟩ := mem_goOn.mp spawned
    cases same
    exact ⟨task,rfl,suspends⟩
  | _ => simp [Coroutine.kind] at kind

structure Captures (p : Pool J) : Prop where
  used : LiveUsed p.shared.store
  names : ∀ task, .delete task ∈ p.tasks → Names p.shared.store task

theorem advance_captures {p next : Pool J} {event : Event J} (captures : Captures p)
    (called : Called (fun task => task.fresh = true) (p,event))
    (step : TaskPool.advance (resume text globalTtl) p event = some next) : Captures next := by
  have extends_ := advance_extends step
  refine ⟨extends_.live captures.used,?_⟩
  intro task member
  cases event with
  | call new =>
    cases Option.some.inj step
    rcases List.mem_append.mp member with old | last
    · exact captures.names task old
    · rw [← List.mem_singleton.mp last] at called
      cases task with
      | called threadId => trivial
      | _ => exact absurd called (by simp [Called,TaskPool.Meets,Coroutine.fresh])
  | resume index wake =>
    obtain ⟨before,running,after,split,found,rfl⟩ := TaskPool.resume_parts step
    have old : ∀ other, .delete other ∈ p.tasks → Names (resume text globalTtl wake p.shared running).1.store other :=
      fun other member => names_extends extends_ (captures.names other member)
    rcases List.mem_append.mp member with first | later
    · rcases List.mem_append.mp first with earlier | new
      · exact old task (by simp [split,earlier])
      · obtain ⟨prior,rfl,suspends⟩ := resume_delete new
        have mine := captures.names prior (by simp [split])
        exact names_extends extends_ (stepDelete_names captures.used mine suspends)
    · exact old task (by simp [split,later])

-- A condition on every step of every `Threads.delete` in a run.
def OnDelete (condition : Wake J → Server J → DeleteTask → Prop) : Pool J × Event J → Prop :=
  TaskPool.Meets (fun _ => True) fun w s task => ∀ deletion, task = .delete deletion → condition w s deletion

theorem deletions_remove {start p : Pool J} {taken : List (Pool J × Event J)} (runs : Runs text globalTtl start taken p)
    (used : LiveUsed start.shared.store) (idle : start.tasks = [])
    (called : ∀ step ∈ taken, Called (fun task => task.fresh = true) step) :
    (∀ step ∈ taken, OnDelete Removes step) ↔ ∀ step ∈ taken, OnDelete RecordCurrent step := by
  have begins : Captures start := ⟨used,by simp [idle]⟩
  have captures := (TaskPool.runs_invariant runs begins
    (fun _ _ _ captures called step => advance_captures captures called step) called).2
  have each : ∀ step ∈ taken, OnDelete Removes step ↔ OnDelete RecordCurrent step := by
    rintro ⟨pool,event⟩ member
    cases event with
    | call task => exact Iff.rfl
    | resume index wake =>
      refine forall₄_congr fun task here deletion same => ?_
      subst same
      exact removes_iff ((captures _ member).names deletion (List.mem_of_getElem? here))
  exact forall₂_congr each

def toyServer : Server String := .start (ofThreads ["T","U"])

def deleteAlone : List (Event String) :=
  [.call (.delete (.called "T")),.resume 0 (.quiet 0),.resume 0 (.quiet 0),.resume 0 (.quiet 0),.resume 0 (.quiet 0)]

theorem deletions_remove_alone : ∃ taken p, Runs id none ⟨toyServer,[]⟩ taken p ∧ ∀ step ∈ taken, OnDelete Removes step := by
  have runs := TaskPool.perform_runs .nil (rfl : TaskPool.perform (resume id none) ⟨toyServer,[]⟩ deleteAlone = some _)
  refine ⟨_,_,runs,(deletions_remove runs (ofThreads_used _) rfl ?_).mpr ?_⟩
  · exact List.forall_mem_cons.mpr ⟨rfl,List.forall_mem_cons.mpr ⟨fun _ _ => trivial,List.forall_mem_cons.mpr
      ⟨fun _ _ => trivial,List.forall_mem_cons.mpr ⟨fun _ _ => trivial,List.forall_mem_cons.mpr ⟨fun _ _ => trivial,by simp⟩⟩⟩⟩⟩
  · refine List.forall_mem_cons.mpr ⟨trivial,List.forall_mem_cons.mpr ⟨?_,List.forall_mem_cons.mpr
      ⟨?_,List.forall_mem_cons.mpr ⟨?_,List.forall_mem_cons.mpr ⟨?_,by simp⟩⟩⟩⟩⟩
    all_goals
      intro task here deletion same
      cases here
      cases same
    · trivial
    · trivial
    · trivial
    · exact fun _ => (by decide : ∀ ref ∈ toyServer.store.liveThreads, (toyServer.store.thread ref).threadId = "T" → ref = 0)

-- The deletion of `T` awaits the stream cleanup while a patch replaces the
-- record by its copy.
def deleteAcrossPatch : List (Event String) :=
  deleteAlone.take 4 ++ [.call (.patch (.called ⟨"T",Dict.empty,none⟩)),.resume 1 (.quiet 0),.resume 1 (.quiet 0)]

theorem thread_survives_delete : ∃ taken p next, Runs id none ⟨toyServer,[]⟩ taken p ∧
    TaskPool.advance (resume id none) p (.resume 0 (.quiet 0)) = some next ∧
    ¬ OnDelete Removes (p,.resume 0 (.quiet 0)) := by
  refine ⟨_,_,_,TaskPool.perform_runs .nil (rfl : TaskPool.perform _ _ deleteAcrossPatch = some _),rfl,?_⟩
  intro removes
  have here := removes _ rfl _ rfl
  exact (here "T" rfl).record 2 (by decide) rfl

end InmemRuntime.ThreadDeletion
