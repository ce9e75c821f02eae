import InmemRuntime.RunExclusion

namespace InmemRuntime.RunClaims
open OrderedDict ObjectHeap ThreadTtl RuntimeStore Serving ThreadOps RunOps JointStatus StoreWrites Tasks RunExclusion

variable {J : Type}

-- The run that a step hands out, with its attempt number.
def handed (step : Pool J × Event J) : Option (Nat × Nat) :=
  match step.2 with
  | .call _ => none
  | .resume index wake =>
    match step.1.tasks[index]? with
    | some (.next task) => (stepNext wake step.1.shared task).2.2
    | _ => none

def hands (key : Option String) (step : Pool J × Event J) : Nat :=
  match handed step with
  | some (ref,_) => if (step.1.shared.store.run ref).runId = key then 1 else 0
  | none => 0

-- How often a run of this id has been handed out.
def yields (key : Option String) (taken : List (Pool J × Event J)) : Nat := (taken.map (hands key)).sum

-- A generator that has gone on alone since it was last asked for the lock.
inductive Alone (origin : Server J) : Server J → NextTask → Prop where
  | sleeping {limit : Nat} {now : Int} : Alone origin origin (.sleeping limit now)
  | locking {limit : Nat} {now : Int} : Alone origin origin (.locking limit now)
  | again {w : Wake J} {s s' : Server J} {task task' : NextTask} (prior : Alone origin s task)
      (step : (stepNext w s task).1 = s') (goes : (stepNext w s task).2.1 = .suspended task') : Alone origin s' task'

-- What holds when a run is handed out: it alone is running on its thread, it
-- was pending, its attempt counts the earlier ones under its id, and nothing
-- older waits on its thread unless somebody wrote meanwhile.
structure Claimed (w : Wake J) (s : Server J) (task : NextTask) (earlier : Nat) (ref attempt : Nat) : Prop where
  pending : (s.store.run ref).status = .pending
  running : ((stepNext w s task).1.store.run ref).status = .running
  alone : ∀ other ∈ (stepNext w s task).1.store.boundRuns, other ≠ ref →
    (((stepNext w s task).1.store.run other).threadId = (s.store.run ref).threadId) →
    ((stepNext w s task).1.store.run other).status ≠ .running
  attempt : attempt = earlier + 1
  oldest : ∀ origin, Alone origin s task → ∀ other ∈ (stepNext w s task).1.store.boundRuns,
    ((stepNext w s task).1.store.run other).threadId = (s.store.run ref).threadId →
    ((stepNext w s task).1.store.run other).status = .pending →
    (s.store.run ref).createdAt ≤ ((stepNext w s task).1.store.run other).createdAt

section order
variable {s : Store J}

def Blocked (s : Store J) (threadId : String) : Prop := s.findThread threadId = none ∨ runningOn s threadId = true

-- The selected runs come in order, and a pending run that is older than one of
-- them is among them or cannot be claimed.
structure Ordered (s : Store J) (rows : List Nat) : Prop where
  sorted : rows.Pairwise fun a b => (s.run a).createdAt ≤ (s.run b).createdAt
  older : ∀ ref ∈ rows, ∀ other ∈ s.boundRuns, (s.run other).status = .pending →
    (s.run other).createdAt < (s.run ref).createdAt → other ∈ rows ∨ Blocked s (s.run other).threadId

theorem pendingRuns_ordered (now : Int) (limit : Nat) : Ordered s ((pendingRuns s now).take limit) := by
  have sorted : (pendingRuns s now).Pairwise fun a b => (s.run a).createdAt ≤ (s.run b).createdAt := by
    have total : Std.Total fun a b => (s.run a).createdAt ≤ (s.run b).createdAt := ⟨fun a b => le_total _ _⟩
    have trans : IsTrans Nat fun a b => (s.run a).createdAt ≤ (s.run b).createdAt := ⟨fun _ _ _ => le_trans⟩
    exact List.pairwise_insertionSort _ _
  refine ⟨sorted.sublist (List.take_sublist _ _),fun ref listed other stored pending earlier => .inl ?_⟩
  have due : (s.run ref).createdAt < now := by
    have member := List.mem_of_mem_take listed
    rw [pendingRuns,List.mem_insertionSort] at member
    have both := (List.mem_filter.mp member).2
    simp only [Bool.and_eq_true,decide_eq_true_eq] at both
    exact both.2
  have member : other ∈ pendingRuns s now := by
    rw [pendingRuns,List.mem_insertionSort]
    exact List.mem_filter.mpr ⟨stored,by simp [pending,earlier.trans due]⟩
  rw [← List.take_append_drop limit (pendingRuns s now)] at member sorted
  rcases List.mem_append.mp member with here | beyond
  · exact here
  · exact absurd earlier (not_lt.mpr ((List.pairwise_append.mp sorted).2.2 ref listed other beyond))

theorem ordered_skip {first : Nat} {rows : List Nat} (ordered : Ordered s (first :: rows))
    (passed : (s.run first).status = .pending → Blocked s (s.run first).threadId) : Ordered s rows := by
  refine ⟨(List.pairwise_cons.mp ordered.sorted).2,fun ref listed other stored pending earlier => ?_⟩
  rcases ordered.older ref (List.mem_cons_of_mem _ listed) other stored pending earlier with here | blocked
  · rcases List.mem_cons.mp here with rfl | later
    · exact .inr (passed pending)
    · exact .inl later
  · exact .inr blocked

theorem ordered_scan {rows : List Nat} (ordered : Ordered s rows) :
    (∀ rest, scanPending s rows = .missing rest → Ordered s rest) ∧
      ∀ ref rest, scanPending s rows = .claimed ref rest →
        Ordered s (ref :: rest) ∧ (s.findThread (s.run ref).threadId).isSome := by
  induction rows with
  | nil => exact ⟨fun _ ends => (by cases ends),fun _ _ ends => (by cases ends)⟩
  | cons first rows ih =>
    rw [scanPending]
    split
    · rename_i other
      exact ih (ordered_skip ordered fun pending => absurd pending other)
    · cases found : s.findThread (s.run first).threadId with
      | none =>
        refine ⟨fun rest ends => ?_,fun _ _ ends => (by cases ends)⟩
        cases ends
        exact ordered_skip ordered fun _ => .inl found
      | some thread =>
        dsimp only
        split
        · rename_i busy
          exact ih (ordered_skip ordered fun _ => .inr busy)
        · refine ⟨fun _ ends => (by cases ends),fun ref rest ends => ?_⟩
          cases ends
          exact ⟨ordered,by simp [found]⟩

theorem run_claimRun (s : Store J) (ref other : Nat) : (claimRun s ref).run other =
    if other = ref then {s.run ref with status := .running} else s.run other := by
  split
  · rename_i same
    rw [same,run_claimRun_self]
  · exact run_claimRun_other ‹_›

theorem createdAt_claimRun (s : Store J) (ref other : Nat) : ((claimRun s ref).run other).createdAt = (s.run other).createdAt := by
  rw [run_claimRun]
  split
  · rename_i same
    rw [same]
  · rfl

theorem threadId_claimRun (s : Store J) (ref other : Nat) : ((claimRun s ref).run other).threadId = (s.run other).threadId := by
  rw [run_claimRun]
  split
  · rename_i same
    rw [same]
  · rfl

theorem pending_claimRun {ref other : Nat} (pending : ((claimRun s ref).run other).status = .pending) :
    other ≠ ref ∧ (s.run other).status = .pending := by
  rw [run_claimRun] at pending
  split at pending
  · cases pending
  · exact ⟨‹_›,pending⟩

theorem blocked_claimRun {ref : Nat} {threadId : String} (blocked : Blocked s threadId) : Blocked (claimRun s ref) threadId := by
  refine blocked.imp id fun busy => ?_
  obtain ⟨other,stored,here⟩ := List.any_eq_true.mp busy
  refine List.any_eq_true.mpr ⟨other,stored,?_⟩
  rw [threadId_claimRun,run_claimRun]
  split
  · simp only [Bool.and_eq_true] at here ⊢
    exact ⟨here.1,rfl⟩
  · exact here

theorem ordered_claimRun {ref : Nat} {rest : List Nat} (ordered : Ordered s (ref :: rest)) : Ordered (claimRun s ref) rest := by
  refine ⟨?_,fun listed member other stored pending earlier => ?_⟩
  · simpa only [createdAt_claimRun] using (List.pairwise_cons.mp ordered.sorted).2
  · obtain ⟨apart,before⟩ := pending_claimRun pending
    rw [createdAt_claimRun,createdAt_claimRun] at earlier
    rw [threadId_claimRun]
    rcases ordered.older listed (List.mem_cons_of_mem _ member) other stored before earlier with here | blocked
    · exact .inl ((List.mem_cons.mp here).resolve_left apart)
    · exact .inr (blocked_claimRun blocked)

end order

section claiming
variable {w : Wake J} {s : Server J} {task : NextTask} {rows : List Nat} {ref attempt : Nat}

-- A run is handed out by the scan of the selection, whoever held the lock.
theorem hands_continue (hands : (stepNext w s task).2.2 = some (ref,attempt)) : ∃ lock,
    stepNext w s task = continueNext {s with runLock := lock} (selected s.store task) := by
  have locks : ∀ limit now, (lockNext s limit now).2.2 = some (ref,attempt) →
      lockNext s limit now = continueNext {s with runLock := true} ((pendingRuns s.store now).take limit) := by
    intro limit now hands
    unfold lockNext at hands ⊢
    split at hands
    · cases hands
    · rename_i free
      rw [if_neg free]
  cases task with
  | called limit => cases hands
  | sleeping limit now => exact ⟨true,locks limit now hands⟩
  | locking limit now => exact ⟨true,locks limit now hands⟩
  | warning rest => exact ⟨s.runLock,rfl⟩
  | yielded rest =>
    refine ⟨s.runLock,?_⟩
    dsimp only [stepNext] at hands ⊢
    split at hands
    · cases hands
    · rfl

theorem continue_claims (hands : (continueNext s rows).2.2 = some (ref,attempt)) : ∃ rest,
    scanPending s.store rows = .claimed ref rest ∧ (continueNext s rows).1.store = claimRun s.store ref ∧
      attempt = s.store.attempts (s.store.run ref).runId + 1 := by
  unfold continueNext at hands ⊢
  split at hands
  · cases hands
  · cases hands
  · rename_i first rest found
    cases hands
    refine ⟨rest,found,rfl,?_⟩
    rw [run_claimRun_self]
    simp [claimRun]

theorem continue_idle (idle : (continueNext s rows).2.2 = none) : (continueNext s rows).1.store = s.store := by
  unfold continueNext at idle ⊢
  split at idle
  · rfl
  · rfl
  · cases idle

theorem stepNext_idle (idle : (stepNext w s task).2.2 = none) : (stepNext w s task).1.store = s.store := by
  have locks : ∀ limit now, (lockNext s limit now).2.2 = none → (lockNext s limit now).1.store = s.store := by
    intro limit now idle
    unfold lockNext at idle ⊢
    split at idle
    · rename_i held
      rw [if_pos held]
    · rename_i free
      rw [if_neg free]
      exact continue_idle idle
  cases task with
  | called limit => rfl
  | sleeping limit now => exact locks limit now idle
  | locking limit now => exact locks limit now idle
  | warning rest => exact continue_idle idle
  | yielded rest =>
    dsimp only [stepNext] at idle ⊢
    split at idle
    · rfl
    · exact continue_idle idle

theorem continue_ordered (ordered : Ordered s.store rows) {task' : NextTask}
    (goes : (continueNext s rows).2.1 = .suspended task') :
    Ordered (continueNext s rows).1.store (selected (continueNext s rows).1.store task') := by
  unfold continueNext at goes ⊢
  cases found : scanPending s.store rows with
  | finished => simp only [found,reduceCtorEq] at goes
  | missing rest =>
    simp only [found] at goes ⊢
    cases goes
    exact (ordered_scan ordered).1 rest found
  | claimed first rest =>
    simp only [found] at goes ⊢
    cases goes
    exact ordered_claimRun ((ordered_scan ordered).2 first rest found).1

theorem alone_ordered {origin : Server J} (alone : Alone origin s task) : Ordered s.store (selected s.store task) := by
  have locked : ∀ (s : Server J) limit now task', (lockNext s limit now).2.1 = .suspended task' →
      Ordered (lockNext s limit now).1.store (selected (lockNext s limit now).1.store task') := by
    intro s limit now task' goes
    unfold lockNext at goes ⊢
    split at goes
    · rename_i held
      rw [if_pos held]
      cases goes
      exact pendingRuns_ordered now limit
    · rename_i free
      rw [if_neg free]
      exact continue_ordered (pendingRuns_ordered now limit) goes
  induction alone with
  | sleeping => exact pendingRuns_ordered _ _
  | locking => exact pendingRuns_ordered _ _
  | @again w s s' task task' prior step goes ih =>
    subst step
    cases task with
    | called limit =>
      cases goes
      exact pendingRuns_ordered _ _
    | sleeping limit now => exact locked s limit now task' goes
    | locking limit now => exact locked s limit now task' goes
    | warning rest => exact continue_ordered ih goes
    | yielded rest =>
      dsimp only [stepNext] at goes ⊢
      split at goes
      · cases goes
      · exact continue_ordered ih goes

theorem step_claimed (hands : (stepNext w s task).2.2 = some (ref,attempt)) :
    Claimed w s task (s.store.attempts (s.store.run ref).runId) ref attempt := by
  obtain ⟨lock,step⟩ := hands_continue hands
  rw [step] at hands
  obtain ⟨rest,found,store,counted⟩ := continue_claims hands
  rw [← step] at store
  obtain ⟨pending,clear,_⟩ := scan_claimed found
  refine ⟨pending,?_,fun other stored apart same running => ?_,counted,fun origin alone other stored same waits => ?_⟩
  · rw [store,run_claimRun_self]
  · rw [store] at stored same running
    rw [run_claimRun_other apart] at same running
    have busy : runningOn s.store (s.store.run ref).threadId = true :=
      List.any_eq_true.mpr ⟨other,stored,by simp [same,running]⟩
    exact Bool.eq_false_iff.mp clear busy
  · rw [store] at stored same waits ⊢
    obtain ⟨apart,before⟩ := pending_claimRun waits
    rw [threadId_claimRun] at same
    rw [createdAt_claimRun]
    obtain ⟨ordered,known⟩ := (ordered_scan (alone_ordered alone)).2 ref rest found
    by_contra younger
    rcases ordered.older ref (by simp) other stored before (not_le.mp younger) with here | absent | busy
    · have later := (List.mem_cons.mp here).resolve_left apart
      exact younger ((List.pairwise_cons.mp ordered.sorted).1 other later)
    · rw [same] at absent
      rw [absent] at known
      cases known
    · rw [same] at busy
      exact Bool.eq_false_iff.mp clear busy

end claiming

section counting
variable {text : String → J} {globalTtl : Option TtlConfig}

theorem write_attempts {permit : Permit} {a b : Store J} (quiet : ∀ ref run, ¬ permit.sets ref run .running)
    (write : Write permit a b) : b.attempts = a.attempts := by
  cases write with
  | claimed ok => exact absurd ok (quiet _ _)
  | _ => rfl

theorem writes_attempts {permit : Permit} {a b : Store J} (quiet : ∀ ref run, ¬ permit.sets ref run .running)
    (writes : Writes permit a b) : b.attempts = a.attempts := by
  induction writes with
  | refl => rfl
  | tail _ write ih => exact (write_attempts quiet write).trans ih

-- A run that ends with the status `running` is given it without an attempt.
theorem joint_attempts (w : Wake J) (s : Server J) (task : JointTask J) :
    (stepJoint text w s task).1.store.attempts = s.store.attempts := by
  cases task with
  | called call =>
    dsimp only [stepJoint]
    split
    · rfl
    · split
      · rfl
      · split <;> rfl
  | rollingBack call thread now inner =>
    have steps : Steps ⟨fun _ => False,fun _ _ _ => False,fun _ _ => True⟩ s
        (stepJoint text w s (.rollingBack call thread now inner)).1 :=
      joint_steps w s _ (fun _ _ _ same => by cases same) fun _ _ _ _ _ _ _ _ _ => trivial
    exact writes_attempts (fun _ _ never => never) steps.writes

theorem resume_attempts (w : Wake J) (s : Server J) (task : Coroutine J) (other : task.kind ≠ .next) :
    (resume text globalTtl w s task).1.store.attempts = s.store.attempts := by
  cases task with
  | next task => exact absurd rfl other
  | joint task =>
    dsimp only [resume]
    rw [goOn_store]
    exact joint_attempts w s task
  | cancel task => exact writes_attempts (fun _ _ sets => by cases sets.2.2) (resume_writes w s _)
  | _ => exact writes_attempts (fun _ _ sets => sets) (resume_writes w s _)

theorem next_attempts (w : Wake J) (s : Server J) (task : NextTask) (key : Option String) :
    (resume text globalTtl w s (.next task)).1.store.attempts key = s.store.attempts key +
      match (stepNext w s task).2.2 with
      | some (ref,_) => if (s.store.run ref).runId = key then 1 else 0
      | none => 0 := by
  have same : (resume text globalTtl w s (.next task)).1 = (stepNext w s task).1 := by
    dsimp only [resume,goOnNext]
    rw [goOn_store]
    split <;> rfl
  rw [same]
  cases handsOut : (stepNext w s task).2.2 with
  | none => exact congrFun (congrArg Store.attempts (stepNext_idle handsOut)) key
  | some pair =>
    obtain ⟨ref,attempt⟩ := pair
    obtain ⟨lock,step⟩ := hands_continue handsOut
    rw [step] at handsOut
    obtain ⟨rest,found,store,_⟩ := continue_claims handsOut
    rw [step,store]
    simp only [claimRun]
    by_cases mine : (s.store.run ref).runId = key
    · simp [mine]
    · simp [mine,Ne.symm mine]

theorem advance_attempts {p next : Pool J} {event : Event J} (step : TaskPool.advance (resume text globalTtl) p event = some next)
    (key : Option String) : next.shared.store.attempts key = p.shared.store.attempts key + hands key (p,event) := by
  cases event with
  | call task =>
    cases step
    rfl
  | resume index wake =>
    obtain ⟨before,task,after,_,found,rfl⟩ := TaskPool.resume_parts step
    dsimp only
    by_cases generator : task.kind = .next
    · cases task with
      | next task =>
        rw [next_attempts]
        simp only [hands,handed,found]
      | _ => cases generator
    · rw [resume_attempts wake p.shared task generator]
      cases task with
      | next task => exact absurd rfl generator
      | _ => simp only [hands,handed,found,Nat.add_zero]

def Counts (start : Pool J) (key : Option String) (taken : List (Pool J × Event J)) (p : Pool J) : Prop :=
  p.shared.store.attempts key = start.shared.store.attempts key + yields key taken

theorem runs_count {start p : Pool J} {taken : List (Pool J × Event J)} (runs : Runs text globalTtl start taken p)
    (key : Option String) {before after : List (Pool J × Event J)} {step : Pool J × Event J}
    (split : taken = before ++ step :: after) : Counts start key before step.1 := by
  have begins : Counts start key [] start := rfl
  refine (TaskPool.runs_history (fun _ _ => True) runs begins ?_ fun _ _ _ _ => trivial).2 before step after split
  intro taken p event next here _ step
  unfold Counts at here ⊢
  rw [advance_attempts step,here]
  simp only [yields,List.map_append,List.map_cons,List.map_nil,List.sum_append,List.sum_cons,List.sum_nil]
  omega

-- Any number of generators, with whatever else the process does.
theorem runs_claim {start p : Pool J} {taken : List (Pool J × Event J)} (runs : Runs text globalTtl start taken p)
    {before after : List (Pool J × Event J)} {step : Pool J × Event J} (split : taken = before ++ step :: after)
    {index : Nat} {wake : Wake J} {task : NextTask} {ref attempt : Nat} (event : step.2 = .resume index wake)
    (generator : step.1.tasks[index]? = some (.next task)) (hands : handed step = some (ref,attempt)) :
    let runId := (step.1.shared.store.run ref).runId
    Claimed wake step.1.shared task (start.shared.store.attempts runId + yields runId before) ref attempt := by
  intro runId
  have counted : Counts start runId before step.1 := runs_count runs runId split
  simp only [handed,event,generator] at hands
  unfold Counts at counted
  rw [← counted]
  exact step_claimed hands


end counting

def claimOne : List (Event String) := [.call (.next (.called 1)),.resume 0 (.quiet 1),.resume 0 (.quiet 1)]

theorem runs_claim_first : ∃ (taken : List (Pool String × Event String)) (p : Pool String) (s : Server String)
    (task : NextTask), Runs id none ⟨toyServer,[]⟩ taken p ∧ taken.map handed = [none,none,some (0,1)] ∧
      Claimed (.quiet 1) s task (0 + yields (some "r1") (taken.take 2)) 0 1 := by
  have runs := TaskPool.perform_runs .nil (rfl : TaskPool.perform (resume id none) ⟨toyServer,[]⟩ claimOne = some _)
  exact ⟨_,_,_,_,runs,rfl,runs_claim runs (rfl : _ = [_,_] ++ _ :: []) rfl rfl rfl⟩

-- Two runs are put without an id, and handed out one after the other.
def withoutIds : List (Event String) :=
  let put := fun threadId => Coroutine.putRun (.called ⟨"a",some threadId,none,.pending,Dict.empty,Dict.empty,false,.reject,0⟩)
  [.call (put "T"),.call (put "U"),.resume 0 (.quiet 1),.resume 0 (.quiet 1),.resume 0 (.quiet 2),.resume 0 (.quiet 2),
    .call (.next (.called 2)),.resume 0 (.quiet 3),.resume 0 (.quiet 3),.resume 1 (.quiet 3)]

def twoThreads : Server String :=
  .start {(ThreadRecords.ofThreads ["T","U"] : Store String) with assistants := [⟨"a","graph",true,Dict.empty⟩]}

-- The second is handed out for the first time and as the second attempt: the
-- counter knows both by the id they do not have.
theorem shared_attempts : (twoThreads.store.attempts none = 0) ∧ ∃ taken p, Runs id none ⟨twoThreads,[]⟩ taken p ∧
    taken.map handed = [none,none,none,none,none,none,none,none,some (0,1),some (1,2)] :=
  ⟨rfl,_,_,TaskPool.perform_runs .nil (rfl : TaskPool.perform _ _ withoutIds = some _),rfl⟩

end InmemRuntime.RunClaims
