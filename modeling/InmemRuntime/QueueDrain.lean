import InmemRuntime.BusyThreads
import InmemRuntime.QueueStats
import InmemRuntime.Draining

namespace InmemRuntime.QueueDrain
open RuntimeStore Serving RunOps RunDispatch JointStatus BusyThreads InmemRuntime.Sequential
open QueueStats (pendingRuns_sorted)

variable {J : Type} (text : String → J)

section working

-- `Runs.next` with a number of free workers, taken to its end, or the report of
-- the worker of a run.
inductive Round where
  | claims (now : Int) (limit : Nat)
  | reports (now : Int) (ref : Nat)
deriving DecidableEq

def ending (worker : Nat → JointCall J) (now : Int) (ref : Nat) : Operation J := .joint (worker ref) now true

-- What is claimed has a worker until that reports.
def shift (worker : Nat → JointCall J) (s : Store J) : Round → Store J × List Nat
  | .claims now limit => (perform text (.next limit now) s,drain s ((pendingRuns s now).take limit))
  | .reports now ref =>
    if ref ∈ s.boundRuns ∧ (s.run ref).status = .running then (perform text (ending worker now ref) s,[]) else (s,[])

-- A report about a run that leaves it neither pending nor running.
def Ends (call : JointCall J) (run : Run) : Prop :=
  call.threadId = run.threadId ∧ some call.runId = run.runId ∧ ∀ status, call.runEnd = .status status → status.active = false

-- A claim that meets no running run and has room.
def opens (since : Int) (s : Store J) : Round → Bool
  | .claims now limit => decide (since ≤ now) && decide (0 < limit) && s.boundRuns.all fun ref => (s.run ref).status != .running
  | .reports _ _ => false

end working

section claiming
variable {s : Store J}

theorem drain_takes {first : Nat} {rest : List Nat} (waiting : Waiting s (first :: rest)) (open_ : available s (threadOf s first) = true) :
    drain s (first :: rest) = first :: drain (claimRun s first) rest := by
  obtain ⟨known,free⟩ := Bool.and_eq_true_iff.mp open_
  have idle : runningOn s (threadOf s first) = false := by simpa using free
  have pending : (s.run first).status = .pending := (waiting first (by simp)).2.resolve_right (by simp [idle])
  obtain ⟨thread,found⟩ := Option.isSome_iff_exists.mp known
  unfold threadOf at idle found
  rw [drain,if_neg (by simp [pending]),found]
  simp [idle]

theorem drain_skips {first : Nat} (rest : List Nat) (taken : available s (threadOf s first) = false) :
    drain s (first :: rest) = drain s rest := by
  rw [drain]
  split
  · rfl
  · cases found : s.findThread (s.run first).threadId with
    | none => rfl
    | some thread =>
      have busy : runningOn s (s.run first).threadId = true := by simpa [available,threadOf,found] using taken
      simp [busy]

-- A thread is taken once, by the first of its runs.
theorem drain_order {rows : List Nat} {rel : Nat → Nat → Prop} (waiting : Waiting s rows) (order : rows.Pairwise rel) :
    (drain s rows).Sublist rows ∧ ((drain s rows).Pairwise fun a b => threadOf s a ≠ threadOf s b) ∧
      ∀ ref ∈ drain s rows, available s (threadOf s ref) = true ∧ ∀ other ∈ rows, threadOf s other = threadOf s ref → other = ref ∨ rel ref other := by
  induction rows generalizing s with
  | nil => exact ⟨List.Sublist.refl _,.nil,by simp [drain]⟩
  | cons first rest ih =>
    obtain ⟨stored,_⟩ := waiting first (by simp)
    obtain ⟨ahead,later⟩ := List.pairwise_cons.mp order
    cases open_ : available s (threadOf s first) with
    | true =>
      obtain ⟨inside,apart,oldest⟩ := ih (waiting_claimRun waiting) later
      simp only [threadOf_claimRun] at apart oldest
      have others : ∀ ref ∈ drain (claimRun s first) rest, available s (threadOf s ref) = true ∧ threadOf s first ≠ threadOf s ref := by
        intro ref member
        have free := (oldest ref member).1
        rw [available_claimRun stored,Bool.and_eq_true,Bool.not_eq_true',beq_eq_false_iff_ne] at free
        exact free
      rw [drain_takes waiting open_]
      refine ⟨inside.cons_cons first,List.pairwise_cons.mpr ⟨fun ref member => (others ref member).2,apart⟩,?_⟩
      refine List.forall_mem_cons.mpr ⟨⟨open_,List.forall_mem_cons.mpr ⟨fun _ => .inl rfl,fun other member _ => .inr (ahead other member)⟩⟩,?_⟩
      intro ref member
      refine ⟨(others ref member).1,List.forall_mem_cons.mpr ⟨fun thread => absurd thread (others ref member).2,?_⟩⟩
      exact (oldest ref member).2
    | false =>
      obtain ⟨inside,apart,oldest⟩ := ih (fun other member => waiting other (List.mem_cons_of_mem _ member)) later
      rw [drain_skips rest open_]
      refine ⟨inside.cons _,apart,fun ref member => ?_⟩
      obtain ⟨free,rest_⟩ := oldest ref member
      refine ⟨free,List.forall_mem_cons.mpr ⟨fun thread => ?_,rest_⟩⟩
      rw [← thread,open_] at free
      cases free

theorem claimRuns_drain (s : Store J) (rows : List Nat) : claimRuns s rows = (drain s rows).foldl claimRun s := by
  induction rows generalizing s with
  | nil => rfl
  | cons first rest ih =>
    simp only [claimRuns,drain,scanPending]
    by_cases other : (s.run first).status ≠ .pending
    · simp only [if_pos other]
      exact ih s
    · simp only [if_neg other]
      cases s.findThread (s.run first).threadId with
      | none => exact ih s
      | some thread =>
        cases runningOn s (s.run first).threadId with
        | true => exact ih s
        | false => exact ih _

-- The claimed runs run, and nothing else is changed.
theorem run_claims (claimed : List Nat) (s : Store J) : SameIds s (claimed.foldl claimRun s) ∧
    (claimed.foldl claimRun s).boundRuns = s.boundRuns ∧
      ∀ ref, (claimed.foldl claimRun s).run ref = if ref ∈ claimed then {s.run ref with status := .running} else s.run ref := by
  induction claimed generalizing s with
  | nil => exact ⟨⟨rfl,rfl,fun _ => rfl⟩,rfl,fun _ => rfl⟩
  | cons first rest ih =>
    obtain ⟨ids,bound,runs⟩ := ih (claimRun s first)
    have here : SameIds s (claimRun s first) := ⟨rfl,rfl,fun _ => rfl⟩
    refine ⟨sameIds_trans here ids,bound,fun ref => ?_⟩
    rw [List.foldl_cons,runs ref]
    by_cases same : ref = first
    · simp [same]
    · rw [run_claimRun_other same]
      simp [same]

end claiming

section settling
variable {s : Store J} {worker : Nat → JointCall J} {now : Int}

def Distinct (s : Store J) : Prop :=
  ∀ a ∈ s.boundRuns, ∀ b ∈ s.boundRuns, (s.run a).runId = (s.run b).runId → (s.run a).threadId = (s.run b).threadId → a = b

-- Some runs are over, and nothing has happened to the others.
structure Settles (s s' : Store J) (ref : Nat) : Prop where
  threads : SameIds s s'
  bound : s'.boundRuns.Sublist s.boundRuns
  stays : ∀ other ∈ s.boundRuns, other ≠ ref → other ∈ s'.boundRuns
  same : ∀ other ≠ ref, s'.run other = s.run other
  keeps : ∃ status updatedAt, s'.run ref = {s.run ref with status, updatedAt}
  ended : ref ∈ s'.boundRuns → (s'.run ref).status.active = false

theorem findRun_distinct {ref : Nat} (distinct : Distinct s) (stored : ref ∈ s.boundRuns) :
    s.findRun (s.run ref).runId (s.run ref).threadId = some ref := by
  cases found : s.findRun (s.run ref).runId (s.run ref).threadId with
  | none =>
    have missing := List.find?_eq_none.mp found ref stored
    simp [Store.isRun] at missing
  | some other =>
    obtain ⟨member,sameId,sameThread⟩ := Store.findRun_some found
    rw [distinct other member ref stored sameId sameThread]

theorem finishThread_same (s : Store J) (now : Int) (call : JointCall J) (thread : Nat) (status : ThreadStatus) :
    SameIds s (finishThread text s now call thread status) ∧ (finishThread text s now call thread status).boundRuns = s.boundRuns ∧
      ∀ ref, (finishThread text s now call thread status).run ref = s.run ref := by
  unfold finishThread
  exact ⟨sameIds_updateThread s thread fun _ => rfl,rfl,fun _ => rfl⟩

theorem status_settles {ref : Nat} {call : JointCall J} {thread : Nat} {status : RunStatus} (inactive : status.active = false) :
    Settles s (finishStatus text s now call thread ref status) ref := by
  unfold finishStatus
  dsimp only
  generalize (if status.active || _ then ThreadStatus.busy else baseStatus call) = final
  obtain ⟨threads,bound,runs⟩ := finishThread_same text (s.updateRun ref fun run => {run with status, updatedAt := now}) now call thread final
  have changed : ∀ other ≠ ref, (s.updateRun ref fun run => {run with status, updatedAt := now}).run other = s.run other := fun other apart =>
    Store.run_updateRun_other apart
  have here : (s.updateRun ref fun run => {run with status, updatedAt := now}).run ref = {s.run ref with status, updatedAt := now} :=
    Store.run_updateRun_self _ _ _
  refine ⟨⟨threads.live,threads.next,threads.ids⟩,bound ▸ List.Sublist.refl _,fun other member _ => bound ▸ member,?_,?_,?_⟩
  · exact fun other apart => (runs other).trans (changed other apart)
  · exact ⟨status,now,(runs ref).trans here⟩
  · rw [runs,here]
    exact fun _ => inactive

theorem rollback_settles {ref : Nat} {call : JointCall J} {thread : Nat} (distinct : Distinct s) (stored : ref ∈ s.boundRuns)
    (sameThread : call.threadId = (s.run ref).threadId) (sameId : some call.runId = (s.run ref).runId) :
    Settles s (finishRollback text (removeRun s (some call.runId) call.threadId) now call thread) ref := by
  unfold finishRollback
  generalize (if (removeRun s (some call.runId) call.threadId).activeOn call.threadId then ThreadStatus.busy else baseStatus call) = final
  obtain ⟨threads,bound,runs⟩ := finishThread_same text (removeRun s (some call.runId) call.threadId) now call thread final
  refine ⟨⟨threads.live,threads.next,threads.ids⟩,bound ▸ List.filter_sublist,fun other member apart => ?_,fun other _ => runs other,
    ⟨_,_,runs ref⟩,?_⟩ <;> rw [bound]
  · refine List.mem_filter.mpr ⟨member,?_⟩
    cases named : s.isRun (some call.runId) call.threadId other with
    | false => rfl
    | true =>
      simp only [Store.isRun,Bool.and_eq_true,beq_iff_eq] at named
      exact absurd (distinct other member ref stored (named.1.trans sameId) (named.2.trans sameThread)) apart
  · intro left
    obtain ⟨_,kept⟩ := List.mem_filter.mp left
    simp [Store.isRun,sameThread,sameId] at kept

theorem joint_settles (now : Int) {ref : Nat} (distinct : Distinct s) (stored : ref ∈ s.boundRuns)
    (known : (s.findThread (s.run ref).threadId).isSome) (ends : Ends (worker ref) (s.run ref)) :
    Settles s (perform text (ending worker now ref) s) ref := by
  obtain ⟨sameThread,sameId,inactive⟩ := ends
  obtain ⟨thread,found⟩ := Option.isSome_iff_exists.mp known
  have run := findRun_distinct distinct stored
  rw [← sameThread] at found
  rw [← sameThread,← sameId] at run
  simp only [perform,ending,setJointStatus,found,run,if_true]
  cases ends : (worker ref).runEnd with
  | status status => exact status_settles text (inactive status ends)
  | rollback => exact rollback_settles text distinct stored sameThread sameId

end settling

section draining
variable {start s : Store J} {worker : Nat → JointCall J}

def pendingSet (s : Store J) : Finset Nat := (s.boundRuns.filter fun ref => (s.run ref).status == .pending).toFinset

theorem mem_pendingSet {ref : Nat} : ref ∈ pendingSet s ↔ ref ∈ s.boundRuns ∧ (s.run ref).status = .pending := by
  simp [pendingSet]

-- Every run that waits or runs can be worked on and reported.
structure Served (worker : Nat → JointCall J) (start s : Store J) : Prop where
  once : s.boundRuns.Nodup
  distinct : Distinct s
  known : ∀ ref ∈ s.boundRuns, (s.run ref).status.active = true → (s.findThread (s.run ref).threadId).isSome
  ends : ∀ ref ∈ s.boundRuns, (s.run ref).status.active = true → Ends (worker ref) (s.run ref)
  same : ∀ ref, (s.run ref).threadId = (start.run ref).threadId ∧ (s.run ref).createdAt = (start.run ref).createdAt

-- What a round may do.
structure Moves (s s' : Store J) (claimed : List Nat) : Prop where
  threads : SameIds s s'
  bound : s'.boundRuns.Sublist s.boundRuns
  keeps : ∀ ref, ∃ status updatedAt, s'.run ref = {s.run ref with status, updatedAt}
  active : ∀ ref ∈ s'.boundRuns, (s'.run ref).status.active = true → (s.run ref).status.active = true
  left : pendingSet s' = pendingSet s \ claimed.toFinset

def Earlier (s : Store J) (a b : Nat) : Prop := (s.run a).threadId = (s.run b).threadId → (s.run a).createdAt ≤ (s.run b).createdAt

theorem Served.moved {s' : Store J} {claimed : List Nat} (served : Served worker start s) (moves : Moves s s' claimed) :
    Served worker start s' := by
  have kept : ∀ ref, (s'.run ref).runId = (s.run ref).runId ∧ (s'.run ref).threadId = (s.run ref).threadId ∧
      (s'.run ref).createdAt = (s.run ref).createdAt := fun ref => by
    obtain ⟨_,_,same⟩ := moves.keeps ref
    rw [same]
    exact ⟨rfl,rfl,rfl⟩
  refine ⟨moves.bound.nodup served.once,?_,fun ref stored runs => ?_,fun ref stored runs => ?_,fun ref => ?_⟩
  · intro a first b second sameId sameThread
    rw [(kept a).1,(kept b).1] at sameId
    rw [(kept a).2.1,(kept b).2.1] at sameThread
    exact served.distinct a (moves.bound.subset first) b (moves.bound.subset second) sameId sameThread
  · rw [(kept ref).2.1,findThread_sameIds moves.threads]
    exact served.known ref (moves.bound.subset stored) (moves.active ref stored runs)
  · obtain ⟨sameThread,sameId,inactive⟩ := served.ends ref (moves.bound.subset stored) (moves.active ref stored runs)
    exact ⟨sameThread.trans (kept ref).2.1.symm,sameId.trans (kept ref).1.symm,inactive⟩
  · rw [(kept ref).2.1,(kept ref).2.2]
    exact served.same ref

theorem settles_moves {s' : Store J} {ref : Nat} (settles : Settles s s' ref) (running : (s.run ref).status = .running) : Moves s s' [] := by
  refine ⟨settles.threads,settles.bound,fun other => ?_,fun other stored active => ?_,?_⟩
  · by_cases here : other = ref
    · rw [here]
      exact settles.keeps
    · exact ⟨_,_,settles.same other here⟩
  · by_cases here : other = ref
    · rw [here,running]
      rfl
    · rwa [settles.same other here] at active
  · ext other
    rw [List.toFinset_nil,Finset.sdiff_empty,mem_pendingSet,mem_pendingSet]
    by_cases here : other = ref
    · rw [here,running]
      refine ⟨fun ⟨stored,pending⟩ => ?_,fun ⟨_,pending⟩ => by cases pending⟩
      have ended := settles.ended stored
      rw [pending] at ended
      cases ended
    · rw [settles.same other here]
      exact and_congr_left fun _ => ⟨fun stored => settles.bound.subset stored,fun stored => settles.stays other stored here⟩

section claims
variable (now : Int) (limit : Nat)

theorem selected_waiting (s : Store J) : Waiting s ((pendingRuns s now).take limit) := by
  intro ref member
  obtain ⟨stored,pending,_⟩ := mem_pendingRuns.mp (List.mem_of_mem_take member)
  exact ⟨stored,.inl pending⟩

theorem selected_sorted (s : Store J) :
    ((pendingRuns s now).take limit).Pairwise fun a b => (s.run a).createdAt ≤ (s.run b).createdAt :=
  (pendingRuns_sorted s now).sublist (List.take_sublist _ _)

theorem claims_inside (served : Served worker start s) : (drain s ((pendingRuns s now).take limit)).Nodup ∧
    ∀ ref ∈ drain s ((pendingRuns s now).take limit), ref ∈ pendingSet s := by
  have inside := (drain_order (selected_waiting now limit s) (selected_sorted now limit s)).1
  refine ⟨(inside.trans (List.take_sublist _ _)).nodup ?_,fun ref member => ?_⟩
  · exact (List.perm_insertionSort _ _).nodup_iff.mpr (served.once.filter _)
  · obtain ⟨stored,waits,_⟩ := mem_pendingRuns.mp (List.mem_of_mem_take (inside.subset member))
    exact mem_pendingSet.mpr ⟨stored,waits⟩

theorem claims_move (served : Served worker start s) :
    Moves s (perform text (.next limit now) s) (drain s ((pendingRuns s now).take limit)) := by
  obtain ⟨_,pending⟩ := claims_inside now limit served
  change Moves s (claimRuns s ((pendingRuns s now).take limit)) _
  rw [claimRuns_drain]
  generalize drain s ((pendingRuns s now).take limit) = claimed at pending
  obtain ⟨threads,bound,runs⟩ := run_claims claimed s
  refine ⟨threads,bound ▸ List.Sublist.refl _,fun ref => ?_,fun ref _ active => ?_,?_⟩
  · rw [runs ref]
    split
    · exact ⟨_,_,rfl⟩
    · exact ⟨_,_,rfl⟩
  · rw [runs ref] at active
    split at active
    · rename_i member
      rw [(mem_pendingSet.mp (pending ref member)).2]
      rfl
    · exact active
  · ext ref
    rw [Finset.mem_sdiff,List.mem_toFinset,mem_pendingSet,mem_pendingSet,bound,runs ref]
    split
    · rename_i member
      simp [member]
    · rename_i out
      simp [out]

-- Of the runs of a thread a claim takes the oldest.
theorem claims_oldest (served : Served worker start s) {ref other : Nat} (taken : ref ∈ drain s ((pendingRuns s now).take limit))
    (waits : other ∈ pendingSet s) (left : other ∉ drain s ((pendingRuns s now).take limit)) : Earlier start ref other := by
  obtain ⟨inside,_,oldest⟩ := drain_order (selected_waiting now limit s) (selected_sorted now limit s)
  obtain ⟨stored,pending⟩ := mem_pendingSet.mp waits
  have row := inside.subset taken
  obtain ⟨_,_,due⟩ := mem_pendingRuns.mp (List.mem_of_mem_take row)
  intro thread
  rw [← (served.same ref).1,← (served.same other).1] at thread
  rw [← (served.same ref).2,← (served.same other).2]
  by_cases first : other ∈ (pendingRuns s now).take limit
  · rcases (oldest ref taken).2 other first thread.symm with rfl | older
    · exact absurd taken left
    · exact older
  · by_cases dueToo : (s.run other).createdAt < now
    · have listed : other ∈ pendingRuns s now := mem_pendingRuns.mpr ⟨stored,pending,dueToo⟩
      have order := pendingRuns_sorted s now
      rw [← List.take_append_drop limit (pendingRuns s now)] at listed order
      exact (List.pairwise_append.mp order).2.2 ref row other ((List.mem_append.mp listed).resolve_left first)
    · omega

theorem claims_take (served : Served worker start s) : Draining.Takes pendingSet (Earlier start) s
    (perform text (.next limit now) s,drain s ((pendingRuns s now).take limit)) := by
  obtain ⟨once,inside⟩ := claims_inside now limit served
  have apart := (drain_order (selected_waiting now limit s) (selected_sorted now limit s)).2.1
  have moves := claims_move text now limit served
  refine ⟨once,inside,moves.left,?_,fun ref taken other left => ?_⟩
  · refine List.Pairwise.imp (fun other thread => ?_) apart
    rw [← (served.same _).1,← (served.same _).1] at thread
    exact absurd thread other
  · rw [moves.left,Finset.mem_sdiff,List.mem_toFinset] at left
    exact claims_oldest now limit served taken left.1 left.2

-- With no running run the oldest run that is due is claimed.
theorem claims_some (served : Served worker start s) {since : Int} (opened : opens since s (.claims now limit) = true)
    (waits : ∃ ref ∈ pendingSet s, (start.run ref).createdAt < since) : drain s ((pendingRuns s now).take limit) ≠ [] := by
  simp only [opens,Bool.and_eq_true,decide_eq_true_eq,List.all_eq_true,bne_iff_ne] at opened
  obtain ⟨⟨late,room⟩,idle⟩ := opened
  obtain ⟨ref,member,due⟩ := waits
  obtain ⟨stored,pending⟩ := mem_pendingSet.mp member
  rw [← (served.same ref).2] at due
  have listed : ref ∈ pendingRuns s now := mem_pendingRuns.mpr ⟨stored,pending,lt_of_lt_of_le due late⟩
  cases rows : (pendingRuns s now).take limit with
  | nil =>
    rcases List.take_eq_nil_iff.mp rows with none_ | none_
    · exact absurd none_ room.ne'
    · rw [none_] at listed
      cases listed
  | cons first rest =>
    have waiting : Waiting s (first :: rest) := rows ▸ selected_waiting now limit s
    have here : first ∈ pendingRuns s now := List.mem_of_mem_take (rows ▸ List.mem_cons_self)
    obtain ⟨bound,waits,_⟩ := mem_pendingRuns.mp here
    have free : runningOn s (threadOf s first) = false := by
      simp only [runningOn,List.any_eq_false,Bool.and_eq_true,beq_iff_eq,not_and]
      exact fun other member _ => idle other member
    have known : (s.findThread (threadOf s first)).isSome = true := served.known first bound (by rw [waits]; rfl)
    rw [drain_takes waiting (by rw [available,known,free]; rfl)]
    exact List.cons_ne_nil _ _

end claims

theorem shift_takes (worker : Nat → JointCall J) (start s : Store J) (round : Round) (served : Served worker start s) : Served worker start (shift text worker s round).1 ∧
    Draining.Takes pendingSet (Earlier start) s (shift text worker s round) := by
  cases round with
  | claims now limit => exact ⟨served.moved (claims_move text now limit served),claims_take text now limit served⟩
  | reports now ref =>
    unfold shift
    dsimp only
    split
    · rename_i working
      have active : (s.run ref).status.active = true := by rw [working.2]; rfl
      have settles := joint_settles text now served.distinct working.1 (served.known ref working.1 active) (served.ends ref working.1 active)
      have moves := settles_moves settles working.2
      exact ⟨served.moved moves,List.nodup_nil,by simp,moves.left,.nil,by simp⟩
    · exact ⟨served,Draining.takes_nothing _ _ _⟩

-- What has been claimed in a row of rounds: no run twice, the runs of a thread in
-- the order of their creation, and all the others still wait.
structure Orderly (s : Store J) (result : Store J × List Nat) : Prop where
  once : result.2.Nodup
  waited : ∀ ref ∈ result.2, ref ∈ pendingSet s
  order : result.2.Pairwise (Earlier s)
  ahead : ∀ ref ∈ result.2, ∀ other ∈ pendingSet result.1, Earlier s ref other
  left : pendingSet result.1 = pendingSet s \ result.2.toFinset

-- Once as many claims have met an idle queue as there were runs waiting, every
-- run that was due is claimed, whatever the claims and reports in between.
theorem queue_drains (worker : Nat → JointCall J) (s : Store J) (rounds : List Round) (since : Int) (served : Served worker s s) :
    Orderly s (Draining.rounds (shift text worker) s rounds) ∧
      ((pendingSet s).card ≤ Draining.count (shift text worker) (opens since) s rounds →
        ∀ ref ∈ pendingSet s, (s.run ref).createdAt < since → ref ∈ (Draining.rounds (shift text worker) s rounds).2) := by
  have keeps := shift_takes text worker s
  obtain ⟨_,takes⟩ := Draining.rounds_take keeps rounds served
  refine ⟨⟨takes.once,takes.inside,takes.order,takes.ahead,takes.left⟩,fun enough ref waits due => ?_⟩
  have progress : ∀ (s' : Store J) (round : Round), Served worker s s' → opens since s' round = true →
      (∃ ref ∈ pendingSet (shift text worker s' round).1, (s.run ref).createdAt < since) → 1 ≤ (shift text worker s' round).2.length := by
    intro s' round here opened ⟨ref,left,due⟩
    rw [(keeps s' round here).2.left,Finset.mem_sdiff] at left
    cases round with
    | claims now limit => exact List.length_pos_of_ne_nil (claims_some now limit here opened ⟨ref,left.1,due⟩)
    | reports now ref => cases opened
  have finished := Draining.rounds_finish (opens since) (fun ref => (s.run ref).createdAt < since) 1 keeps progress served (by rwa [Nat.one_mul])
  by_contra missed
  refine finished ref ?_ due
  rw [takes.left,Finset.mem_sdiff,List.mem_toFinset]
  exact ⟨waits,missed⟩

end draining

section toy

def threeWaiting : Store String :=
  (((ThreadRecords.ofThreads ["T","U"]).appendRun ⟨some "r1","T","a",.pending,0,0⟩).appendRun ⟨some "r2","T","a",.pending,1,1⟩).appendRun
    ⟨some "r3","U","a",.pending,2,2⟩

def succeeds (ref : Nat) : JointCall String :=
  ⟨(threeWaiting.run ref).threadId,(threeWaiting.run ref).runId.getD "",.status .success,"g",none,none⟩

theorem threeWaiting_served : Served succeeds threeWaiting threeWaiting where
  once := by decide
  distinct := by
    unfold Distinct
    decide
  known := by decide
  ends ref stored _ := by
    have named : ∀ ref ∈ threeWaiting.boundRuns, some ((threeWaiting.run ref).runId.getD "") = (threeWaiting.run ref).runId := by decide
    refine ⟨rfl,named ref stored,fun status reported => ?_⟩
    cases reported
    rfl
  same _ := ⟨rfl,rfl⟩

-- The second claim finds the thread of the second run at work.
def threeRounds : List Round :=
  [.claims 9 2,.claims 9 1,.reports 9 0,.claims 9 1,.reports 9 1,.claims 9 1]

theorem queue_drains_three : (Draining.rounds (shift id succeeds) threeWaiting threeRounds).2 = [0,1,2] ∧
    Orderly threeWaiting (Draining.rounds (shift id succeeds) threeWaiting threeRounds) ∧
      ∀ ref ∈ pendingSet threeWaiting, (threeWaiting.run ref).createdAt < 9 → ref ∈ (Draining.rounds (shift id succeeds) threeWaiting threeRounds).2 :=
  have drains := queue_drains id succeeds threeWaiting threeRounds 9 threeWaiting_served
  ⟨by decide,drains.1,drains.2 (by decide)⟩

end toy
end InmemRuntime.QueueDrain
