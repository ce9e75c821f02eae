import InmemRuntime.Sequential

namespace InmemRuntime.BusyThreads
open OrderedDict ObjectHeap ThreadTtl RuntimeStore Serving ThreadOps RunOps JointStatus StoreWrites ThreadRecords InmemRuntime.Sequential

variable {J : Type}

def Busy (s : Store J) : Prop :=
  ∀ ref ∈ s.liveThreads, s.activeOn (s.thread ref).threadId = true → (s.thread ref).status = .busy

-- Thread ids are distinct and every run has its thread.
structure Sound (s : Store J) : Prop where
  threadsUsed : LiveUsed s
  runsUsed : ∀ ref ∈ s.boundRuns, ref < s.runs.next
  distinct : (s.liveThreads.map fun ref => (s.thread ref).threadId).Nodup
  threaded : ∀ ref ∈ s.boundRuns, ∃ live, s.findThread (s.run ref).threadId = some live

theorem sound_unique {s : Store J} (sound : Sound s) {ref other : Nat} (member : ref ∈ s.liveThreads)
    (member' : other ∈ s.liveThreads) (same : (s.thread ref).threadId = (s.thread other).threadId) : ref = other :=
  List.inj_on_of_nodup_map sound.distinct member member' same

-- Two stores whose live threads have the same references and ids.
structure SameIds (s s' : Store J) : Prop where
  live : s'.liveThreads = s.liveThreads
  next : s'.threads.next = s.threads.next
  ids : ∀ ref, (s'.thread ref).threadId = (s.thread ref).threadId

theorem sameIds_trans {a b c : Store J} (first : SameIds a b) (second : SameIds b c) : SameIds a c :=
  ⟨second.live.trans first.live,second.next.trans first.next,fun ref => (second.ids ref).trans (first.ids ref)⟩

theorem sameIds_updateThread (s : Store J) (ref : Nat) {f : Thread J → Thread J}
    (same : ∀ t, (f t).threadId = t.threadId) : SameIds s (s.updateThread ref f) :=
  ⟨rfl,rfl,Store.threadId_updateThread same⟩

theorem findThread_sameIds {s s' : Store J} (same : SameIds s s') (threadId : String) :
    s'.findThread threadId = s.findThread threadId := by
  unfold Store.findThread
  rw [same.live]
  congr 1
  funext ref
  simp only [Store.isThread,same.ids ref]

-- Runs may be dropped or change their status, never their thread.
structure RunsWithin (s s' : Store J) : Prop where
  next : s'.runs.next = s.runs.next
  stored : ∀ ref ∈ s'.boundRuns, ref ∈ s.boundRuns
  threads : ∀ ref, (s'.run ref).threadId = (s.run ref).threadId

theorem runsWithin_updateRun (s : Store J) (ref : Nat) {f : Run → Run} (same : ∀ r, (f r).threadId = r.threadId) :
    RunsWithin s (s.updateRun ref f) := by
  refine ⟨rfl,fun _ => id,fun other => ?_⟩
  exact Heap.read_write_field Run.threadId (same _) other

theorem sound_within {s s' : Store J} (sound : Sound s) (ids : SameIds s s') (runs : RunsWithin s s') : Sound s' := by
  refine ⟨?_,?_,?_,?_⟩
  · intro ref member
    rw [ids.live] at member
    rw [ids.next]
    exact sound.threadsUsed ref member
  · intro ref member
    rw [runs.next]
    exact sound.runsUsed ref (runs.stored ref member)
  · rw [ids.live]
    simpa only [ids.ids] using sound.distinct
  · intro ref member
    rw [runs.threads,findThread_sameIds ids]
    exact sound.threaded ref (runs.stored ref member)

theorem sound_appendThread {s : Store J} {thread : Thread J} (sound : Sound s)
    (absent : s.findThread thread.threadId = none) : Sound (s.appendThread thread) := by
  have old : ∀ ref ∈ s.liveThreads, (s.appendThread thread).thread ref = s.thread ref :=
    fun ref member => Store.thread_allocThread_old (sound.threadsUsed ref member)
  have new : (s.appendThread thread).thread s.threads.next = thread := Store.thread_allocThread_new s thread
  refine ⟨(appendThread_extends s thread).live sound.threadsUsed,sound.runsUsed,?_,?_⟩
  · rw [live_appendThread,List.map_append,List.map_congr_left fun ref member => congrArg Thread.threadId (old ref member)]
    refine List.nodup_append.mpr ⟨sound.distinct,by simp,?_⟩
    intro id here id' there equal
    obtain ⟨ref,member,rfl⟩ := List.mem_map.mp here
    simp only [List.map_cons,List.map_nil,List.mem_singleton,new] at there
    exact Store.findThread_none.mp absent ref member (equal.trans there)
  · intro ref member
    obtain ⟨live,found⟩ := sound.threaded ref member
    obtain ⟨there,same⟩ := Store.findThread_some found
    cases known : (s.appendThread thread).findThread (s.run ref).threadId with
    | some live => exact ⟨live,known⟩
    | none =>
      refine absurd ?_ (Store.findThread_none.mp known live (by rw [live_appendThread]; simp [there]))
      rw [old live there]
      exact same

theorem sound_appendRun {s : Store J} {run : Run} {live : Nat} (sound : Sound s)
    (known : s.findThread run.threadId = some live) : Sound (s.appendRun run) := by
  refine ⟨sound.threadsUsed,?_,sound.distinct,?_⟩
  · intro ref member
    rcases List.mem_append.mp member with old | new
    · exact Nat.lt_succ_of_lt (sound.runsUsed ref old)
    · rw [List.mem_singleton.mp new]
      exact Nat.lt_succ_self _
  · intro ref member
    rcases List.mem_append.mp member with old | new
    · have same : (s.appendRun run).run ref = s.run ref := Heap.read_alloc_old (sound.runsUsed ref old)
      rw [same]
      exact sound.threaded ref old
    · have same : (s.appendRun run).run s.runs.next = run := Heap.read_alloc_new _ _
      rw [List.mem_singleton.mp new,same]
      exact ⟨live,known⟩

theorem activeOn_within {s s' : Store J} {threadId : String} (runs : RunsWithin s s')
    (calm : ∀ ref, (s'.run ref).threadId = threadId → (s'.run ref).status.active = true → (s.run ref).status.active = true)
    (active : s'.activeOn threadId = true) : s.activeOn threadId = true := by
  obtain ⟨ref,member,same,here⟩ := Store.activeOn_iff.mp active
  exact Store.activeOn_iff.mpr ⟨ref,runs.stored ref member,(runs.threads ref).symm.trans same,calm ref same here⟩

theorem busy_within {s s' : Store J} (busy : Busy s) (ids : SameIds s s')
    (active : ∀ threadId, s'.activeOn threadId = true → s.activeOn threadId = true)
    (status : ∀ ref, (s.thread ref).status = .busy → (s'.thread ref).status = .busy) : Busy s' := by
  intro ref member here
  rw [ids.live] at member
  rw [ids.ids ref] at here
  exact status ref (busy ref member (active _ here))

theorem absent_inactive {s : Store J} {threadId : String} (sound : Sound s) (absent : s.findThread threadId = none) :
    s.activeOn threadId = false := by
  by_contra active
  obtain ⟨ref,member,rfl,_⟩ := Store.activeOn_iff.mp (Bool.eq_true_of_not_eq_false active)
  obtain ⟨live,found⟩ := sound.threaded ref member
  rw [absent] at found
  cases found

theorem busy_appendThread {s : Store J} {thread : Thread J} (sound : Sound s) (busy : Busy s)
    (absent : s.findThread thread.threadId = none) : Busy (s.appendThread thread) := by
  intro ref member active
  have active : s.activeOn ((s.appendThread thread).thread ref).threadId = true := active
  rw [live_appendThread] at member
  rcases List.mem_append.mp member with old | new
  · have same : (s.appendThread thread).thread ref = s.thread ref :=
      Store.thread_allocThread_old (sound.threadsUsed ref old)
    rw [same] at active ⊢
    exact busy ref old active
  · have same : (s.appendThread thread).thread ref = thread := by
      rw [List.mem_singleton.mp new]
      exact Store.thread_allocThread_new s thread
    rw [same,absent_inactive sound absent] at active
    cases active

theorem busy_appendRun {s : Store J} {run : Run} {live : Nat} (sound : Sound s) (busy : Busy s)
    (known : s.findThread run.threadId = some live) (marked : (s.thread live).status = .busy) : Busy (s.appendRun run) := by
  intro ref member active
  obtain ⟨there,same⟩ := Store.findThread_some known
  by_cases here : (s.thread ref).threadId = run.threadId
  · have equal : ref = live := sound_unique sound member there (here.trans same.symm)
    rw [equal]
    exact marked
  · obtain ⟨old,stored,thread,running⟩ := Store.activeOn_iff.mp active
    rcases List.mem_append.mp stored with before | new
    · have record : (s.appendRun run).run old = s.run old := Heap.read_alloc_old (sound.runsUsed old before)
      rw [record] at thread running
      exact busy ref member (Store.activeOn_iff.mpr ⟨old,before,thread,running⟩)
    · have record : (s.appendRun run).run s.runs.next = run := Heap.read_alloc_new _ _
      rw [List.mem_singleton.mp new,record] at thread
      exact absurd thread.symm here

-- A store that keeps the invariants and has every active thread busy.
structure Kept (s : Store J) : Prop where
  sound : Sound s
  busy : Busy s

theorem kept_insertRun {s : Store J} {call : PutRunCall J} {threadId : String} {live : Nat} (kept : Kept s) (now : Int)
    (known : s.findThread threadId = some live) (marked : (s.thread live).status = .busy) :
    Kept (insertRun s now call threadId).1 := by
  unfold insertRun
  dsimp only
  split
  · exact kept
  · exact ⟨sound_appendRun kept.sound known,busy_appendRun kept.sound kept.busy known marked⟩

theorem kept_appendThread {s : Store J} {thread : Thread J} (kept : Kept s)
    (absent : s.findThread thread.threadId = none) : Kept (s.appendThread thread) :=
  ⟨sound_appendThread kept.sound absent,busy_appendThread kept.sound kept.busy absent⟩

theorem findThread_appendThread {s : Store J} {thread : Thread J} (kept : Kept s)
    (absent : s.findThread thread.threadId = none) :
    (s.appendThread thread).findThread thread.threadId = some s.threads.next ∧
      (s.appendThread thread).thread s.threads.next = thread := by
  have new : (s.appendThread thread).thread s.threads.next = thread := Store.thread_allocThread_new s thread
  refine ⟨?_,new⟩
  cases found : (s.appendThread thread).findThread thread.threadId with
  | none =>
    exact absurd (congrArg Thread.threadId new) (Store.findThread_none.mp found s.threads.next (by simp [live_appendThread]))
  | some live =>
    obtain ⟨member,same⟩ := Store.findThread_some found
    rw [live_appendThread] at member
    rcases List.mem_append.mp member with old | last
    · have record : (s.appendThread thread).thread live = s.thread live :=
        Store.thread_allocThread_old (kept.sound.threadsUsed live old)
      rw [record] at same
      exact absurd same (Store.findThread_none.mp absent live old)
    · rw [List.mem_singleton.mp last]

theorem kept_overrideTtl {τ : Type} {s : Server J} (kept : Kept s.store) (now : Int) (threadId : String)
    (ttl : Option TtlConfig) (value : List Nat) {result : Server J × Outcome τ (List Nat)}
    (overrides : result = overrideTtl s now threadId ttl value) : Kept result.1.store := by
  subst overrides
  unfold overrideTtl
  split
  · exact kept
  · split
    · exact kept
    · exact ⟨⟨kept.sound.threadsUsed,kept.sound.runsUsed,kept.sound.distinct,kept.sound.threaded⟩,kept.busy⟩

theorem kept_put {s : Store J} (kept : Kept s) (call : PutCall J) (filters : Filters J) (now : Int) :
    Kept (putThread (.start s) now call filters).1.store := by
  unfold putThread
  split
  · rename_i absent
    have created : Kept (s.appendThread ⟨call.threadId,.idle,call.metadata,now,now,some now,none,none,none⟩) :=
      kept_appendThread kept absent
    exact kept_overrideTtl (s := (Server.start s).withStore _) created _ _ _ _ rfl
  · split
    · exact kept
    · split <;> exact kept

variable {text : String → J}

theorem markBusy_status (now : Int) (assistant : Assistant J) (thread : Thread J) :
    (markBusy text now assistant thread).status = .busy := by
  unfold markBusy
  split
  · assumption
  · rfl

theorem kept_updateThread {s : Store J} (kept : Kept s) (ref : Nat) {f : Thread J → Thread J}
    (same : ∀ t, (f t).threadId = t.threadId)
    (status : s.activeOn (s.thread ref).threadId = true → (f (s.thread ref)).status = .busy) : Kept (s.updateThread ref f) := by
  have ids := sameIds_updateThread s ref same
  refine ⟨sound_within kept.sound ids ⟨rfl,fun _ => id,fun _ => rfl⟩,?_⟩
  intro other member active
  rw [ids.ids] at active
  by_cases here : other = ref
  · subst here
    rw [Store.thread_updateThread_self]
    exact status active
  · rw [Store.thread_updateThread_other here]
    exact kept.busy other member active

theorem kept_putRun {s : Store J} (kept : Kept s) (call : PutRunCall J) (filters : Filters J) (w : Wake J)
    (fresh : call.threadId = none → s.findThread w.newId = none) : Kept (putRunWhole text s call filters w) := by
  have creates : ∀ assistant threadId createdAt, s.findThread threadId = none →
      Kept (stepPutRun text w (.start s) (.logging call assistant threadId createdAt)).1.store := by
    intro assistant threadId createdAt absent
    have named : s.findThread (newThread text call assistant threadId createdAt).threadId = none := absent
    have known := findThread_appendThread kept named
    exact kept_insertRun (kept_appendThread kept named) _ known.1 (congrArg Thread.status known.2)
  unfold putRunWhole
  split
  · exact kept
  · rename_i assistant _
    unfold putRun
    cases named : call.threadId with
    | none => exact creates assistant w.newId w.now (fresh named)
    | some threadId =>
      cases found : s.findThread threadId with
      | none =>
        simp only [Server.start,found]
        cases call.ifNotExists with
        | create => exact creates assistant threadId w.now found
        | reject => exact kept
      | some ref =>
        simp only [Server.start,found]
        by_cases passing : passes filters (s.thread ref).metadata = true
        · simp only [passing,Bool.not_true,Bool.false_eq_true,↓reduceIte]
          have marked : Kept (s.updateThread ref (markBusy text w.now assistant)) :=
            kept_updateThread kept ref (markBusy_threadId _ _ _) fun _ => markBusy_status _ _ _
          have known : (s.updateThread ref (markBusy text w.now assistant)).findThread threadId = some ref :=
            (findThread_sameIds (sameIds_updateThread s ref (markBusy_threadId _ _ _)) threadId).trans found
          exact kept_insertRun marked _ known (by rw [Store.thread_updateThread_self]; exact markBusy_status _ _ _)
        · simp only [passing,Bool.not_false,↓reduceIte]
          exact kept

theorem kept_setStatus {s s' : Store J} (kept : Kept s) {call : StatusCall J} {now : Int}
    (set : ThreadOps.setStatus s now call = .ok s') : Kept s' := by
  unfold ThreadOps.setStatus at set
  split at set
  · cases set
  · rename_i ref found
    cases set
    refine kept_updateThread kept ref (fun _ => rfl) fun active => ?_
    rw [(Store.findThread_some found).2] at active
    simp [statusUpdate,active]

-- What is left to do for one thread when all others are as they should be.
theorem kept_finish {s : Store J} {call : JointCall J} {thread : Nat} {now : Int} {status : ThreadStatus} (sound : Sound s)
    (found : s.findThread call.threadId = some thread)
    (others : ∀ ref ∈ s.liveThreads, (s.thread ref).threadId ≠ call.threadId →
      s.activeOn (s.thread ref).threadId = true → (s.thread ref).status = .busy)
    (set : s.activeOn call.threadId = true → status = .busy) : Kept (finishThread text s now call thread status) := by
  obtain ⟨there,same⟩ := Store.findThread_some found
  have ids : SameIds s (finishThread text s now call thread status) := sameIds_updateThread s thread fun _ => rfl
  refine ⟨sound_within sound ids ⟨rfl,fun _ => id,fun _ => rfl⟩,?_⟩
  intro ref member active
  rw [ids.ids] at active
  by_cases here : ref = thread
  · subst here
    have record := Store.thread_updateThread_self s ref fun thread => statusUpdate now status call.checkpoint
      (call.exception.map RaisedError.value) {thread with metadata := thread.metadata.insert "graph_id" (text call.graphId)}
    have now_ : status = .busy := set (same ▸ active)
    exact (congrArg Thread.status record).trans now_
  · have record : (finishThread text s now call thread status).thread ref = s.thread ref :=
      Store.thread_updateThread_other here
    rw [record]
    exact others ref member (fun equal => here (sound_unique sound member there (equal.trans same.symm))) active

theorem runsWithin_removeRun (s : Store J) (runId : Option String) (threadId : String) :
    RunsWithin s (removeRun s runId threadId) := ⟨rfl,fun _ member => (List.mem_filter.mp member).1,fun _ => rfl⟩

theorem kept_removeRun {s : Store J} (kept : Kept s) (runId : Option String) (threadId : String) :
    Kept (removeRun s runId threadId) := by
  have within_ := runsWithin_removeRun s runId threadId
  have ids : SameIds s (removeRun s runId threadId) := ⟨rfl,rfl,fun _ => rfl⟩
  exact ⟨sound_within kept.sound ids within_,busy_within kept.busy ids
    (fun _ active => activeOn_within within_ (fun _ _ => id) active) fun _ => id⟩

theorem kept_joint {s : Store J} (kept : Kept s) (call : JointCall J) (now : Int) (deleted : Bool) :
    Kept (setJointStatus text s call now deleted) := by
  unfold setJointStatus
  split
  · exact kept
  · rename_i thread found
    split
    · exact kept
    · rename_i run stored
      obtain ⟨_,_,thread_⟩ := Store.findRun_some stored
      split
      · rename_i status ends
        have within_ := runsWithin_updateRun s run (f := fun run => {run with status, updatedAt := now}) fun _ => rfl
        have ids : SameIds s (s.updateRun run fun run => {run with status, updatedAt := now}) :=
          ⟨rfl,rfl,fun _ => rfl⟩
        refine kept_finish (sound_within kept.sound ids within_) found ?_ ?_
        · intro ref member apart active
          refine kept.busy ref member (activeOn_within within_ (fun other same running => ?_) active)
          have other_ : other ≠ run := by
            rintro rfl
            rw [within_.threads] at same
            exact apart (same.symm.trans thread_)
          rwa [Store.run_updateRun_other other_] at running
        · intro active
          simp [active]
      · have before : Kept (if deleted then removeRun s (some call.runId) call.threadId else s) := by
          split
          · exact kept_removeRun kept _ _
          · exact kept
        have known : (if deleted then removeRun s (some call.runId) call.threadId else s).findThread call.threadId =
            some thread := by
          split <;> exact found
        refine kept_finish before.sound known (fun ref member _ active => before.busy ref member active) fun active => ?_
        simp [active]

theorem kept_claimRun {s : Store J} {ref : Nat} (kept : Kept s) (pending : (s.run ref).status = .pending) :
    Kept (claimRun s ref) := by
  have updated := runsWithin_updateRun s ref (f := fun run => {run with status := .running}) fun _ => rfl
  have within_ : RunsWithin s (claimRun s ref) := ⟨rfl,fun _ => id,updated.threads⟩
  have ids : SameIds s (claimRun s ref) := ⟨rfl,rfl,fun _ => rfl⟩
  refine ⟨sound_within kept.sound ids within_,busy_within kept.busy ids
    (fun _ active => activeOn_within within_ (fun other _ running => ?_) active) fun _ => id⟩
  by_cases here : other = ref
  · subst here
    simp [pending,RunStatus.active]
  · rwa [run_claimRun_other here] at running

theorem kept_claimRuns {s : Store J} (kept : Kept s) (chosen : List Nat) : Kept (claimRuns s chosen) := by
  induction chosen generalizing s with
  | nil => exact kept
  | cons ref rest ih =>
    unfold claimRuns
    split
    · rename_i claimed later found
      exact ih (kept_claimRun kept (scan_claimed found).1)
    · exact ih kept

section cancelling
variable {call : CancelCall} {answers : CancelAnswers J}

-- A selected run that was pending, is interrupted and has this thread.
def Idles (call : CancelCall) (answers : CancelAnswers J) (s : Store J) (chosen : List Nat) (thread : Nat) : Prop :=
  ∃ ref ∈ chosen, interrupts call answers.queues (s.run ref) = true ∧ (s.run ref).status = .pending ∧
    s.findThread (s.run ref).threadId = some thread

-- What the loop of a cancellation does to the runs and to the threads.
structure Looped (call : CancelCall) (answers : CancelAnswers J) (s : Store J) (chosen : List Nat)
    (result : Store J × List (Option String × String)) : Prop where
  ids : SameIds s result.1
  next : result.1.runs.next = s.runs.next
  stored : result.1.boundRuns = s.boundRuns
  named : ∀ ref, (result.1.run ref).threadId = (s.run ref).threadId ∧ (result.1.run ref).runId = (s.run ref).runId
  active : ∀ ref, (result.1.run ref).status.active = true ↔ (s.run ref).status.active = true ∧
    ¬ (ref ∈ chosen ∧ interrupts call answers.queues (s.run ref) = true)
  idled : ∀ thread, Idles call answers s chosen thread → (result.1.thread thread).status = .idle
  other : ∀ thread, ¬ Idles call answers s chosen thread → (result.1.thread thread).status = (s.thread thread).status
  gathered : ∀ key, key ∈ result.2 ↔ ∃ ref ∈ chosen, deletes call answers.queues (s.run ref) = true ∧
    ((s.run ref).runId,(s.run ref).threadId) = key

theorem interruptRun_shape (s : Store J) (now : Int) (ref : Nat) : SameIds s (interruptRun s now ref) ∧
    (interruptRun s now ref).runs.next = s.runs.next ∧ (interruptRun s now ref).boundRuns = s.boundRuns := by
  unfold interruptRun
  dsimp only
  split
  · split
    · rename_i thread _
      have ids := sameIds_updateThread s thread (f := fun thread => {thread with status := .idle, updatedAt := now}) fun _ => rfl
      exact ⟨⟨rfl,rfl,ids.ids⟩,rfl,rfl⟩
    · exact ⟨⟨rfl,rfl,fun _ => rfl⟩,rfl,rfl⟩
  · exact ⟨⟨rfl,rfl,fun _ => rfl⟩,rfl,rfl⟩

theorem status_interruptRun (s : Store J) (now : Int) (ref thread : Nat) :
    ((interruptRun s now ref).thread thread).status =
      if (s.run ref).status = .pending ∧ s.findThread (s.run ref).threadId = some thread then .idle
      else (s.thread thread).status := by
  unfold interruptRun
  dsimp only
  by_cases pending : (s.run ref).status = .pending
  · simp only [pending,↓reduceIte,true_and]
    cases found : s.findThread (s.run ref).threadId with
    | none => simp
    | some live =>
      by_cases here : live = thread
      · subst here
        simp
      · have apart : thread ≠ live := fun equal => here equal.symm
        simp [here,Store.thread_updateThread_other apart]
  · simp [pending]

theorem interrupts_interruptRun (s : Store J) (now : Int) (ref other : Nat) :
    interrupts call answers.queues ((interruptRun s now ref).run other) = true ↔
      other ≠ ref ∧ interrupts call answers.queues (s.run other) = true := by
  by_cases here : other = ref
  · subst here
    simp [run_interruptRun_self,interrupts,RunStatus.active]
  · simp [run_interruptRun_other here,here]

theorem deletes_interruptRun {s : Store J} {ref : Nat} (now : Int) (other : Nat)
    (stops : interrupts call answers.queues (s.run ref) = true) :
    deletes call answers.queues ((interruptRun s now ref).run other) = deletes call answers.queues (s.run other) := by
  by_cases here : other = ref
  · subst here
    simp [run_interruptRun_self,deletes,stops,RunStatus.active]
  · rw [run_interruptRun_other here]

theorem idles_cons {s : Store J} {ref thread : Nat} {rest : List Nat}
    (stops : interrupts call answers.queues (s.run ref) = true) : Idles call answers s (ref :: rest) thread ↔
      ((s.run ref).status = .pending ∧ s.findThread (s.run ref).threadId = some thread) ∨
      Idles call answers (interruptRun s answers.now ref) rest thread := by
  obtain ⟨ids,_,_⟩ := interruptRun_shape s answers.now ref
  constructor
  · rintro ⟨other,member,stops',pending,found⟩
    by_cases here : other = ref
    · subst here
      exact .inl ⟨pending,found⟩
    · have later : other ∈ rest := (List.mem_cons.mp member).resolve_left here
      refine .inr ⟨other,later,(interrupts_interruptRun _ _ _ _).mpr ⟨here,stops'⟩,?_⟩
      rw [run_interruptRun_other here,findThread_sameIds ids]
      exact ⟨pending,found⟩
  · rintro (⟨pending,found⟩ | ⟨other,member,stops',pending,found⟩)
    · exact ⟨ref,by simp,stops,pending,found⟩
    · obtain ⟨here,stops'⟩ := (interrupts_interruptRun _ _ _ _).mp stops'
      rw [run_interruptRun_other here] at pending found
      rw [findThread_sameIds ids] at found
      exact ⟨other,List.mem_cons_of_mem _ member,stops',pending,found⟩

theorem looped_interrupt {s : Store J} {ref : Nat} {rest : List Nat} {result : Store J × List (Option String × String)}
    (stops : interrupts call answers.queues (s.run ref) = true)
    (looped : Looped call answers (interruptRun s answers.now ref) rest result) :
    Looped call answers s (ref :: rest) result := by
  obtain ⟨ids,next,stored⟩ := interruptRun_shape s answers.now ref
  have first := status_interruptRun s answers.now ref
  refine ⟨sameIds_trans ids looped.ids,looped.next.trans next,looped.stored.trans stored,?_,?_,?_,?_,?_⟩
  · intro other
    rw [(looped.named other).1,(looped.named other).2]
    by_cases here : other = ref
    · subst here
      rw [run_interruptRun_self]
      exact ⟨rfl,rfl⟩
    · rw [run_interruptRun_other here]
      exact ⟨rfl,rfl⟩
  · intro other
    rw [looped.active,interrupts_interruptRun]
    by_cases here : other = ref
    · subst here
      simp [run_interruptRun_self,RunStatus.active,stops]
    · simp [run_interruptRun_other here,here]
  · intro thread idles
    by_cases later : Idles call answers (interruptRun s answers.now ref) rest thread
    · exact looped.idled thread later
    · rw [looped.other thread later,first,if_pos (((idles_cons stops).mp idles).resolve_right later)]
  · intro thread kept
    rw [idles_cons stops,not_or] at kept
    rw [looped.other thread kept.2,first,if_neg kept.1]
  · intro key
    rw [looped.gathered]
    simp only [deletes_interruptRun answers.now _ stops,List.mem_cons]
    have clear : deletes call answers.queues (s.run ref) = false := by simp [deletes,stops]
    constructor
    · rintro ⟨other,member,gathers,rfl⟩
      refine ⟨other,.inr member,gathers,?_⟩
      by_cases here : other = ref
      · subst here
        rw [run_interruptRun_self]
      · rw [run_interruptRun_other here]
    · rintro ⟨other,rfl | member,gathers,rfl⟩
      · rw [clear] at gathers
        cases gathers
      · refine ⟨other,member,gathers,?_⟩
        by_cases here : other = ref
        · subst here
          rw [run_interruptRun_self]
        · rw [run_interruptRun_other here]

theorem looped_skip {s : Store J} {ref : Nat} {rest : List Nat} {result : Store J × List (Option String × String)}
    (passes : interrupts call answers.queues (s.run ref) = false) (looped : Looped call answers s rest result) :
    Looped call answers s (ref :: rest) (if deletes call answers.queues (s.run ref) then
      (result.1,((s.run ref).runId,(s.run ref).threadId) :: result.2) else result) := by
  have same : (if deletes call answers.queues (s.run ref) then
      (result.1,((s.run ref).runId,(s.run ref).threadId) :: result.2) else result).1 = result.1 := by
    split <;> rfl
  have idles : ∀ thread, Idles call answers s (ref :: rest) thread ↔ Idles call answers s rest thread := by
    intro thread
    simp [Idles,passes]
  refine ⟨?_,?_,?_,?_,?_,?_,?_,?_⟩
  · rw [same]
    exact looped.ids
  · rw [same]
    exact looped.next
  · rw [same]
    exact looped.stored
  · rw [same]
    exact looped.named
  · intro other
    rw [same,looped.active]
    by_cases here : other = ref
    · subst here
      simp [passes]
    · simp [here]
  · intro thread
    rw [same,idles]
    exact looped.idled thread
  · intro thread
    rw [same,idles]
    exact looped.other thread
  · intro key
    by_cases gathers : deletes call answers.queues (s.run ref) = true
    · rw [if_pos gathers,List.mem_cons,looped.gathered]
      constructor
      · rintro (rfl | ⟨other,member,gathers',rfl⟩)
        · exact ⟨ref,by simp,gathers,rfl⟩
        · exact ⟨other,List.mem_cons_of_mem _ member,gathers',rfl⟩
      · rintro ⟨other,member,gathers',rfl⟩
        rcases List.mem_cons.mp member with rfl | later
        · exact .inl rfl
        · exact .inr ⟨other,later,gathers',rfl⟩
    · rw [if_neg gathers,looped.gathered]
      constructor
      · rintro ⟨other,member,gathers',rfl⟩
        exact ⟨other,List.mem_cons_of_mem _ member,gathers',rfl⟩
      · rintro ⟨other,member,gathers',rfl⟩
        rcases List.mem_cons.mp member with rfl | later
        · exact absurd gathers' gathers
        · exact ⟨other,later,gathers',rfl⟩

theorem cancelRuns_looped (call : CancelCall) (answers : CancelAnswers J) (s : Store J) (chosen : List Nat) :
    Looped call answers s chosen (cancelRuns call answers s chosen) := by
  induction chosen generalizing s with
  | nil =>
    refine ⟨⟨rfl,rfl,fun _ => rfl⟩,rfl,rfl,fun _ => ⟨rfl,rfl⟩,?_,?_,fun _ _ => rfl,?_⟩
    · simp [cancelRuns]
    · rintro thread ⟨ref,member,_⟩
      cases member
    · simp [cancelRuns]
  | cons ref rest ih =>
    unfold cancelRuns
    split
    · exact looped_interrupt ‹_› (ih _)
    · exact looped_skip (Bool.eq_false_iff.mpr ‹_›) (ih s)

-- What the deletions leave of a store.
structure Removed (deleted : Option String → String → Bool) (keys : List (Option String × String)) (s s' : Store J) :
    Prop where
  threads : s'.threads = s.threads
  live : s'.liveThreads = s.liveThreads
  runs : s'.runs = s.runs
  stored : ∀ ref, ref ∈ s'.boundRuns ↔ ref ∈ s.boundRuns ∧
    ∀ key ∈ keys, deleted key.1 key.2 = true → s.isRun key.1 key.2 ref = false

theorem removeRuns_removed (deleted : Option String → String → Bool) (s : Store J) (keys : List (Option String × String)) :
    Removed deleted keys s (removeRuns deleted s keys) := by
  induction keys generalizing s with
  | nil => exact ⟨rfl,rfl,rfl,by simp [removeRuns]⟩
  | cons key rest ih =>
    obtain ⟨runId,threadId⟩ := key
    unfold removeRuns
    by_cases goes : deleted runId threadId = true
    · rw [if_pos goes]
      obtain ⟨threads,live,runs,stored⟩ := ih (removeRun s runId threadId)
      refine ⟨threads,live,runs,fun ref => ?_⟩
      have kept : ref ∈ (removeRun s runId threadId).boundRuns ↔ ref ∈ s.boundRuns ∧ s.isRun runId threadId ref = false := by
        simp only [removeRun,List.mem_filter,Bool.not_eq_true']
      rw [stored,kept,List.forall_mem_cons]
      exact ⟨fun here => ⟨here.1.1,fun _ => here.1.2,here.2⟩,fun here => ⟨⟨here.1,here.2.1 goes⟩,here.2.2⟩⟩
    · rw [if_neg goes]
      obtain ⟨threads,live,runs,stored⟩ := ih s
      refine ⟨threads,live,runs,fun ref => ?_⟩
      rw [stored]
      simp [goes]

-- The cancellation interrupts the run, or deletes one of the same ids.
def Spent (call : CancelCall) (answers : CancelAnswers J) (s : Store J) (chosen : List Nat) (other : Nat) : Prop :=
  (other ∈ chosen ∧ interrupts call answers.queues (s.run other) = true) ∨
  ∃ gone ∈ chosen, deletes call answers.queues (s.run gone) = true ∧
    answers.removes (s.run gone).runId (s.run gone).threadId = true ∧
    s.isRun (s.run gone).runId (s.run gone).threadId other = true

-- When a cancellation interrupts a pending run of a stored thread, it spends
-- every active run of that thread.
def Clears (s : Store J) : Operation J → Prop
  | .cancel call answers => validateCancel call = none → ∀ ref ∈ candidateRuns s call answers.filters,
    interrupts call answers.queues (s.run ref) = true → (s.run ref).status = .pending →
    (∃ thread, s.findThread (s.run ref).threadId = some thread) →
    ∀ other ∈ s.boundRuns, (s.run other).threadId = (s.run ref).threadId → (s.run other).status.active = true →
      Spent call answers s (candidateRuns s call answers.filters) other
  | _ => True

-- The store between the loop of a cancellation and the end of its deletions.
structure Cancelled (call : CancelCall) (answers : CancelAnswers J) (s : Store J) (chosen : List Nat) (s' : Store J) : Prop
    where
  ids : SameIds s s'
  runs : RunsWithin s s'
  left : ∀ ref, ref ∈ s'.boundRuns ∧ (s'.run ref).status.active = true ↔
    ref ∈ s.boundRuns ∧ (s.run ref).status.active = true ∧ ¬ Spent call answers s chosen ref
  idled : ∀ thread, Idles call answers s chosen thread → (s'.thread thread).status = .idle
  other : ∀ thread, ¬ Idles call answers s chosen thread → (s'.thread thread).status = (s.thread thread).status

theorem cancel_cancelled (call : CancelCall) (answers : CancelAnswers J) (s : Store J) (chosen : List Nat) :
    Cancelled call answers s chosen
      (removeRuns answers.removes (cancelRuns call answers s chosen).1 (cancelRuns call answers s chosen).2) := by
  obtain ⟨ids,next,stored,named,active,idled,other,gathered⟩ := cancelRuns_looped call answers s chosen
  generalize cancelRuns call answers s chosen = looped at *
  obtain ⟨threads,live,runs,left⟩ := removeRuns_removed answers.removes looped.1 looped.2
  have thread : ∀ ref, (removeRuns answers.removes looped.1 looped.2).thread ref = looped.1.thread ref := by
    intro ref
    simp only [Store.thread,threads]
  have run : ∀ ref, (removeRuns answers.removes looped.1 looped.2).run ref = looped.1.run ref := by
    intro ref
    simp only [Store.run,runs]
  have isRun : ∀ key : Option String × String, ∀ ref, looped.1.isRun key.1 key.2 ref = s.isRun key.1 key.2 ref := by
    intro key ref
    simp only [Store.isRun,(named ref).1,(named ref).2]
  refine ⟨⟨live.trans ids.live,?_,?_⟩,⟨?_,?_,?_⟩,?_,?_,?_⟩
  · rw [threads]
    exact ids.next
  · intro ref
    rw [thread]
    exact ids.ids ref
  · rw [runs]
    exact next
  · intro ref member
    rw [← stored]
    exact ((left ref).mp member).1
  · intro ref
    rw [run]
    exact (named ref).1
  · intro ref
    rw [left,run,active,stored]
    constructor
    · rintro ⟨⟨member,keys⟩,running,free⟩
      refine ⟨member,running,?_⟩
      rintro (interrupted | ⟨gone,chose,drops,goes,same⟩)
      · exact free interrupted
      · have key := keys ((s.run gone).runId,(s.run gone).threadId) ((gathered _).mpr ⟨gone,chose,drops,rfl⟩) goes
        rw [isRun] at key
        rw [same] at key
        cases key
    · rintro ⟨member,running,unspent⟩
      refine ⟨⟨member,fun key kept goes => ?_⟩,running,fun interrupted => unspent (.inl interrupted)⟩
      obtain ⟨gone,chose,drops,rfl⟩ := (gathered key).mp kept
      rw [isRun]
      by_contra same
      exact unspent (.inr ⟨gone,chose,drops,goes,Bool.eq_true_of_not_eq_false same⟩)
  · intro ref idles
    rw [thread]
    exact idled ref idles
  · intro ref kept
    rw [thread]
    exact other ref kept

theorem busy_cancelled {s s' : Store J} {chosen : List Nat} (kept : Kept s) (cancelled : Cancelled call answers s chosen s') :
    Busy s' ↔ ∀ ref ∈ chosen, interrupts call answers.queues (s.run ref) = true → (s.run ref).status = .pending →
      (∃ thread, s.findThread (s.run ref).threadId = some thread) →
      ∀ other ∈ s.boundRuns, (s.run other).threadId = (s.run ref).threadId → (s.run other).status.active = true →
        Spent call answers s chosen other := by
  constructor
  · rintro busy ref member stops pending ⟨thread,found⟩ other stored same active
    by_contra unspent
    obtain ⟨there,running⟩ := (cancelled.left other).mpr ⟨stored,active,unspent⟩
    obtain ⟨live,named⟩ := Store.findThread_some found
    have idle := cancelled.idled thread ⟨ref,member,stops,pending,found⟩
    have on : s'.activeOn (s'.thread thread).threadId = true := by
      refine Store.activeOn_iff.mpr ⟨other,there,?_,running⟩
      rw [cancelled.runs.threads,cancelled.ids.ids,same,named]
    rw [busy thread (cancelled.ids.live ▸ live) on] at idle
    cases idle
  · intro clears thread live active
    rw [cancelled.ids.live] at live
    rw [cancelled.ids.ids] at active
    obtain ⟨other,there,same,running⟩ := Store.activeOn_iff.mp active
    obtain ⟨stored,before,unspent⟩ := (cancelled.left other).mp ⟨there,running⟩
    rw [cancelled.runs.threads] at same
    have awake : ¬ Idles call answers s chosen thread := by
      rintro ⟨ref,member,stops,pending,found⟩
      have named := (Store.findThread_some found).2
      exact unspent (clears ref member stops pending ⟨thread,found⟩ other stored (same.trans named) before)
    rw [cancelled.other thread awake]
    exact kept.busy thread live (Store.activeOn_iff.mpr ⟨other,stored,same,before⟩)

theorem cancel_busy {s : Store J} (kept : Kept s) (call : CancelCall) (answers : CancelAnswers J) :
    Sound (cancel s call answers) ∧ (Busy (cancel s call answers) ↔ Clears s (.cancel call answers)) := by
  cases valid : validateCancel call with
  | some fault =>
    have same : cancel s call answers = s := by simp only [cancel,valid]
    rw [same]
    exact ⟨kept.sound,iff_of_true kept.busy fun accepted => by rw [valid] at accepted; cases accepted⟩
  | none =>
    have cancelled := cancel_cancelled call answers s (candidateRuns s call answers.filters)
    simp only [cancel,valid]
    exact ⟨sound_within kept.sound cancelled.ids cancelled.runs,
      (busy_cancelled kept cancelled).trans ⟨fun clears _ => clears,fun clears => clears valid⟩⟩

end cancelling

-- `uuid4()` gives an id that no thread has.
def FreshIds (s : Store J) : Operation J → Prop
  | .putRun call _ wake => call.threadId = none → s.findThread wake.newId = none
  | _ => True

theorem perform_busy {s : Store J} {op : Operation J} (kept : Kept s) (fresh : FreshIds s op) :
    Sound (perform text op s) ∧ (Busy (perform text op s) ↔ Clears s op) := by
  have always : Kept (perform text op s) → Clears s op →
      Sound (perform text op s) ∧ (Busy (perform text op s) ↔ Clears s op) :=
    fun done clears => ⟨done.sound,iff_of_true done.busy clears⟩
  cases op with
  | put call filters now => exact always (kept_put kept call filters now) trivial
  | putRun call filters wake => exact always (kept_putRun kept call filters wake fresh) trivial
  | next limit now => exact always (kept_claimRuns kept _) trivial
  | setStatus call now =>
    refine always ?_ trivial
    dsimp only [perform]
    split
    · exact kept_setStatus kept ‹_›
    · exact kept
  | joint call now deleted => exact always (kept_joint kept call now deleted) trivial
  | cancel call answers => exact cancel_busy kept call answers
  | deleteRun runId threadId => exact always (kept_removeRun kept runId threadId) trivial

structure Empty (s : Store J) : Prop where
  threads : s.liveThreads = []
  runs : s.boundRuns = []

theorem kept_empty {s : Store J} (empty : Empty s) : Kept s :=
  ⟨⟨by simp [LiveUsed,empty.threads],by simp [empty.runs],by simp [empty.threads],by simp [empty.runs]⟩,
    by simp [Busy,empty.threads]⟩

theorem history_busy {start s : Store J} {taken : List (Store J × Operation J)} (history : History text start taken s)
    (empty : Empty start) (fresh : ∀ step ∈ taken, FreshIds step.1 step.2) :
    (Busy s ∧ ∀ step ∈ taken, Busy step.1) ↔ ∀ step ∈ taken, Clears step.1 step.2 := by
  suffices both : ((Busy s ∧ ∀ step ∈ taken, Busy step.1) ↔ ∀ step ∈ taken, Clears step.1 step.2) ∧
      ((∀ step ∈ taken, Clears step.1 step.2) → Kept s) from both.1
  induction history with
  | nil =>
    have begins := kept_empty empty
    exact ⟨iff_of_true ⟨begins.busy,by simp⟩ (by simp),fun _ => begins⟩
  | @step taken s prior op ih =>
    obtain ⟨equal,kept⟩ := ih fun step member => fresh step (List.mem_append_left _ member)
    have last : FreshIds s op := fresh (s,op) (by simp)
    simp only [List.forall_mem_append,List.forall_mem_singleton]
    refine ⟨⟨?_,?_⟩,?_⟩
    · rintro ⟨busy,earlier,before⟩
      have clears := equal.mp ⟨before,earlier⟩
      exact ⟨clears,(perform_busy (kept clears) last).2.mp busy⟩
    · rintro ⟨clears,here⟩
      obtain ⟨before,earlier⟩ := equal.mpr clears
      exact ⟨(perform_busy (kept clears) last).2.mpr here,earlier,before⟩
    · rintro ⟨clears,here⟩
      have done : Sound (perform text op s) ∧ (Busy (perform text op s) ↔ Clears s op) := perform_busy (kept clears) last
      exact ⟨done.1,done.2.mpr here⟩

def toyStore : Store String := {Store.empty with assistants := [⟨"a","g",true,Dict.empty⟩]}

def putToy (runId : String) : Operation String :=
  .putRun ⟨"a",some "T",some runId,.pending,Dict.empty,Dict.empty,false,.create,0⟩ none (.quiet 0)

theorem toy_empty : Empty toyStore := ⟨rfl,rfl⟩

theorem history_busy_toy : ∃ taken s, History id toyStore taken s ∧ s.activeOn "T" = true ∧ Busy s := by
  have history : History id toyStore _ _ := .step (.step .nil (putToy "r1")) (.next 1 1)
  refine ⟨_,_,history,by decide,((history_busy history toy_empty ?_).mpr ?_).1⟩
  · exact List.forall_mem_cons.mpr ⟨(fun unnamed => nomatch unnamed),List.forall_mem_cons.mpr ⟨trivial,by simp⟩⟩
  · exact List.forall_mem_cons.mpr ⟨trivial,List.forall_mem_cons.mpr ⟨trivial,by simp⟩⟩

-- One of two pending runs of a thread is interrupted.
theorem idle_with_pending : ∃ taken s, History id toyStore taken s ∧ Empty toyStore ∧ ¬ Busy s := by
  have history : History id toyStore _ _ := .step (.step (.step .nil (putToy "r1")) (putToy "r2"))
    (.cancel ⟨some ["r1"],.interrupt,some "T",none,none⟩ ⟨none,fun _ _ => false,fun _ _ => true,1⟩)
  refine ⟨_,_,history,toy_empty,fun busy => ?_⟩
  have status := busy 0 (by decide) (by decide)
  exact absurd status (by decide)

end InmemRuntime.BusyThreads
