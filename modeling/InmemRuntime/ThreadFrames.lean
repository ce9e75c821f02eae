import InmemRuntime.RefusedRuns
import InmemRuntime.ThreadRecords
import InmemRuntime.SweepExactness

namespace InmemRuntime.ThreadFrames
open OrderedDict ObjectHeap CheckpointData CheckpointSaver UuidTexts DeleteForRuns Prune Streams StreamUpkeep RunDeletion
open ThreadTtl RuntimeStore Serving ThreadOps RunOps TtlSweep AssistantOps RecordCreation Mutations RecordFrames
open StoreWrites (Permit Write)
open ThreadRecords

variable {J : Type}

section store
variable {s s' s'' : Store J} {threadId : String}

def anyWrite : Permit := ⟨fun _ => True,fun _ _ _ => True,fun _ _ => True⟩

-- A change of the store that leaves one thread alone.
structure Leaves (threadId : String) (s s' : Store J) : Prop where
  records : threadRecords s' threadId = threadRecords s threadId
  runs : threadRuns s' threadId = threadRuns s threadId
  crons : s'.crons.filter (·.threadId == threadId) = s.crons.filter (·.threadId == threadId)
  ttl : s'.ttls.get? threadId = s.ttls.get? threadId
  nextRun : s.runs.next ≤ s'.runs.next
  threads : ∀ ref < s.runs.next, (s'.run ref).threadId = (s.run ref).threadId
  stored : (∀ ref ∈ s.boundRuns, ref < s.runs.next) → ∀ ref ∈ s'.boundRuns, ref < s'.runs.next
  grows : Extends s s'

theorem Leaves.refl (threadId : String) (s : Store J) : Leaves threadId s s :=
  ⟨rfl,rfl,rfl,rfl,Nat.le_refl _,fun _ _ => rfl,id,.refl s⟩

theorem Leaves.trans (first : Leaves threadId s s') (second : Leaves threadId s' s'') : Leaves threadId s s'' where
  records := second.records.trans first.records
  runs := second.runs.trans first.runs
  crons := second.crons.trans first.crons
  ttl := second.ttl.trans first.ttl
  nextRun := Nat.le_trans first.nextRun second.nextRun
  threads ref known := (second.threads ref (Nat.lt_of_lt_of_le known first.nextRun)).trans (first.threads ref known)
  stored known := second.stored (first.stored known)
  grows := first.grows.trans second.grows

theorem spares_leaves (spares : Spares threadId s s') (grows : Extends s s') : Leaves threadId s s' where
  records := spares.records
  runs := spares.runs
  crons := congrArg (List.filter _) spares.crons
  ttl := congrArg (fun ttls => Dict.get? ttls threadId) spares.ttls
  nextRun := spares.nextRun.symm.le
  threads ref _ := spares.threads ref
  stored known ref member := spares.nextRun.symm ▸ known ref (spares.bound member)
  grows := grows

theorem updateThread_extends {ref : Nat} {f : Thread J → Thread J} (same : ∀ t, (f t).threadId = t.threadId) :
    Extends s (s.updateThread ref f) :=
  ⟨Nat.le_refl _,fun other _ => Store.threadId_updateThread same other,id⟩

theorem leaves_updateThread {ref : Nat} {f : Thread J → Thread J} (apart : (s.thread ref).threadId ≠ threadId)
    (same : ∀ t, (f t).threadId = t.threadId) : Leaves threadId s (s.updateThread ref f) :=
  spares_leaves (spares_updateThread apart same) (updateThread_extends same)

-- Records of other threads come and go, and so may their references.
theorem records_same (listed : s'.liveThreads.filter (s'.isThread threadId) = s.liveThreads.filter (s.isThread threadId))
    (same : ∀ ref ∈ s.liveThreads, s'.thread ref = s.thread ref) : threadRecords s' threadId = threadRecords s threadId := by
  unfold threadRecords
  rw [listed]
  exact List.map_congr_left fun ref member => same ref (List.mem_filter.mp member).1

theorem leaves_appendThread {thread : Thread J} (used : LiveUsed s) (apart : thread.threadId ≠ threadId) :
    Leaves threadId s (s.appendThread thread) := by
  have old : ∀ ref ∈ s.liveThreads, (s.appendThread thread).thread ref = s.thread ref :=
    fun ref member => Store.thread_allocThread_old (used ref member)
  refine ⟨records_same ?_ old,rfl,rfl,rfl,Nat.le_refl _,fun _ _ => rfl,id,appendThread_extends s thread⟩
  have new : (s.appendThread thread).isThread threadId s.threads.next = false := by
    have here : (s.appendThread thread).thread s.threads.next = thread := Store.thread_allocThread_new s thread
    simpa [Store.isThread,here] using apart
  rw [live_appendThread,List.filter_append,List.filter_singleton,new,Bool.cond_false,List.append_nil]
  exact List.filter_congr fun ref member => by unfold Store.isThread; rw [old ref member]

theorem filter_replaceFirst {fits keep keep' : Nat → Bool} {new : Nat} {refs : List Nat} (same : ∀ ref ∈ refs, keep' ref = keep ref)
    (out : keep' new = false) (apart : ∀ ref, fits ref = true → keep ref = false) :
    (replaceFirst fits new refs).filter keep' = refs.filter keep := by
  induction refs with
  | nil => rfl
  | cons ref rest ih =>
    have later := ih fun other member => same other (List.mem_cons_of_mem _ member)
    have tail : rest.filter keep' = rest.filter keep :=
      List.filter_congr fun other member => same other (List.mem_cons_of_mem _ member)
    unfold replaceFirst
    split
    · rename_i fit
      rw [List.filter_cons,List.filter_cons,out,apart ref fit,tail]
      rfl
    · rw [List.filter_cons,List.filter_cons,later,same ref List.mem_cons_self]

-- The list that is written may be bound or not.
theorem leaves_replaceThread {list : Nat} {other : String} {thread : Thread J} (used : LiveUsed s) (apart : other ≠ threadId)
    (foreign : thread.threadId ≠ threadId) : Leaves threadId s (replaceThread s list other thread) := by
  have old : ∀ ref ∈ s.liveThreads, (replaceThread s list other thread).thread ref = s.thread ref :=
    fun ref member => Store.thread_allocThread_old (used ref member)
  have kept : ∀ ref ∈ s.liveThreads, (replaceThread s list other thread).isThread threadId ref = s.isThread threadId ref :=
    fun ref member => by unfold Store.isThread; rw [old ref member]
  have grows : Extends s (replaceThread s list other thread) := write_extends (show Write anyWrite s _ from .replaced)
  refine ⟨records_same ?_ old,rfl,rfl,rfl,Nat.le_refl _,fun _ _ => rfl,id,grows⟩
  by_cases bound : list = s.boundThreads
  · subst bound
    rw [live_replaceThread_bound]
    refine filter_replaceFirst kept ?_ fun ref fit => ?_
    · have here : (replaceThread s s.boundThreads other thread).thread s.threads.next = thread := Store.thread_allocThread_new s thread
      simpa [Store.isThread,here] using foreign
    · have named : (s.thread ref).threadId = other := by simpa [Store.isThread] using fit
      simpa [Store.isThread,named] using apart
  · rw [live_replaceThread_stale bound]
    exact List.filter_congr kept

theorem leaves_removeThread {other : String} {matching : Nat} (apart : other ≠ threadId)
    (foreign : (s.thread matching).threadId ≠ threadId) : Leaves threadId s (removeThread s other matching) := by
  have grows : Extends s (removeThread s other matching) :=
    write_extends (show Write anyWrite s _ from .removed fun _ _ _ => trivial)
  have live : (removeThread s other matching).liveThreads = s.liveThreads.filter fun ref => ref != matching :=
    Store.liveThreads_rebind s _
  refine ⟨records_same ?_ fun _ _ => rfl,?_,?_,?_,Nat.le_refl _,fun _ _ => rfl,?_,grows⟩
  · rw [live,List.filter_filter]
    refine List.filter_congr fun ref _ => ?_
    change (s.isThread threadId ref && ref != matching) = s.isThread threadId ref
    by_cases same : ref = matching
    · subst same
      simp [Store.isThread,foreign]
    · simp [same]
  · refine congrArg (List.map s.run) ((List.filter_filter ..).trans (List.filter_congr fun ref _ => ?_))
    change ((s.run ref).threadId == threadId && (s.run ref).threadId != other) = ((s.run ref).threadId == threadId)
    by_cases own : (s.run ref).threadId = threadId
    · simp [own,apart.symm]
    · simp [own]
  · refine (List.filter_filter ..).trans (List.filter_congr fun cron _ => ?_)
    by_cases own : cron.threadId = threadId
    · simp [own,apart.symm]
    · simp [own]
  · exact (Dict.get?_erase _ _ _).trans (if_neg (by simpa using apart))
  · exact fun known ref member => known ref (List.mem_filter.mp member).1

theorem leaves_appendRun {run : Run} (stored : ∀ ref ∈ s.boundRuns, ref < s.runs.next) (apart : run.threadId ≠ threadId) :
    Leaves threadId s (s.appendRun run) := by
  have old : ∀ ref < s.runs.next, (s.appendRun run).run ref = s.run ref := fun ref known => Heap.read_alloc_old known
  have new : (s.appendRun run).run s.runs.next = run := Heap.read_alloc_new _ _
  refine ⟨rfl,?_,rfl,rfl,Nat.le_succ _,fun ref known => by rw [old ref known],?_,extends_same rfl rfl⟩
  · have bound : (s.appendRun run).boundRuns = s.boundRuns ++ [s.runs.next] := rfl
    unfold threadRuns
    rw [bound,List.filter_append,List.filter_singleton,new,beq_false_of_ne apart,Bool.cond_false,List.append_nil]
    have listed : s.boundRuns.filter (fun ref => ((s.appendRun run).run ref).threadId == threadId) =
        s.boundRuns.filter fun ref => (s.run ref).threadId == threadId :=
      List.filter_congr fun ref member => by rw [old ref (stored ref member)]
    rw [listed]
    exact List.map_congr_left fun ref member => old ref (stored ref (List.mem_filter.mp member).1)
  · intro known ref member
    rcases List.mem_append.mp member with earlier | last
    · exact Nat.lt_succ_of_lt (known ref earlier)
    · rw [List.mem_singleton.mp last]
      exact Nat.lt_succ_self _

-- Neither the threads nor the runs are written.
theorem leaves_sidecars {s' : Store J} (threads : s'.threads = s.threads) (live : s'.liveThreads = s.liveThreads)
    (runs : s'.runs = s.runs) (bound : s'.boundRuns = s.boundRuns)
    (crons : s'.crons.filter (·.threadId == threadId) = s.crons.filter (·.threadId == threadId))
    (ttl : s'.ttls.get? threadId = s.ttls.get? threadId) : Leaves threadId s s' := by
  refine ⟨?_,?_,crons,ttl,runs ▸ Nat.le_refl _,fun ref _ => ?_,?_,extends_same threads live⟩
  · unfold threadRecords Store.isThread Store.thread
    rw [threads,live]
  · unfold threadRuns Store.run
    rw [runs,bound]
  · unfold Store.run
    rw [runs]
  · rw [runs,bound]
    exact id

theorem leaves_ttls {ttls : Dict String TtlState} (ttl : ttls.get? threadId = s.ttls.get? threadId) :
    Leaves threadId s {s with ttls} := leaves_sidecars rfl rfl rfl rfl rfl ttl

theorem overridden_ttl {now : Int} {ttls : Dict String TtlState} {other : String} {ttl : TtlConfig} {ttls' : Dict String TtlState}
    (apart : other ≠ threadId) (accepted : setThreadTtlOverride now ttls other ttl = .ok ttls') :
    ttls'.get? threadId = ttls.get? threadId := by
  have named : (other == threadId) = false := beq_false_of_ne apart
  unfold setThreadTtlOverride at accepted
  split at accepted
  · cases accepted
  · cases accepted
    exact (Dict.get?_erase _ _ _).trans (if_neg (by simpa using apart))
  · cases accepted
    exact Dict.get?_insert_other named

end store

-- A suspended call that has nothing to do with one thread. What it has found
-- before its suspension is known by reference.
section tasks
variable (threadId : String)

def Foreign (s : Store J) (ref : Nat) : Prop := ref < s.threads.next ∧ (s.thread ref).threadId ≠ threadId

def putAway : PutTask J → Prop
  | .called call | .authorizing call | .waiting call _ => call.threadId ≠ threadId

def patchAway : PatchTask J → Prop
  | .called call | .authorizing call _ | .waiting call _ _ => call.threadId ≠ threadId

def deleteAway (s : Store J) : DeleteTask → Prop
  | .called other => other ≠ threadId
  | .authorizing other matching => other ≠ threadId ∧ ∀ ref, matching = some ref → Foreign threadId s ref
  | .checkpoints other matching | .streams other matching => other ≠ threadId ∧ Foreign threadId s matching

def sweepAway (s : Store J) : SweepTask → Prop
  | .called _ => True
  | .deleting rest inner => threadId ∉ rest ∧ deleteAway threadId s inner
  | .checkpointer other rest _ _ | .pruning other rest _ _ => threadId ∉ rest ∧ other ≠ threadId

def copyAway : CopyTask J → Prop
  | .called _ | .checkpointer _ => True
  | .authorizingRead _ newId | .authorizingCreate _ newId _ => newId ≠ threadId

def putRunAway : PutRunTask J → Prop
  | .called call | .authorizing call _ | .authorizingAssistant call _ _ | .waiting call _ _ => call.threadId ≠ some threadId
  | .logging _ _ other _ => other ≠ threadId

end tasks

section server
variable {threadId : String} {w : Wake J} {s : Server J} {τ ρ : Type}

theorem foreign_later {a b : Store J} {ref : Nat} (grows : Extends a b) (foreign : Foreign threadId a ref) : Foreign threadId b ref :=
  ⟨Nat.lt_of_lt_of_le foreign.1 grows.used,by rw [grows.sameId ref foreign.1]; exact foreign.2⟩

theorem deleteAway_later {a b : Store J} {task : DeleteTask} (grows : Extends a b) (away : deleteAway threadId a task) :
    deleteAway threadId b task := by
  cases task with
  | called other => exact away
  | authorizing other matching => exact ⟨away.1,fun ref same => foreign_later grows (away.2 ref same)⟩
  | checkpoints other matching => exact ⟨away.1,foreign_later grows away.2⟩
  | streams other matching => exact ⟨away.1,foreign_later grows away.2⟩

structure Spared (threadId : String) (s : Server J) (away : Store J → τ → Prop) (result : Server J × Outcome τ ρ) : Prop where
  leaves : Leaves threadId s.store result.1.store
  again : ∀ task, result.2 = .suspended task → away result.1.store task

variable {away : Store J → τ → Prop}

theorem spared_suspended {task : τ} (here : away s.store task) : Spared threadId s away (ρ:=ρ) (s,.suspended task) :=
  ⟨.refl _ _,fun _ same => by cases same; exact here⟩

theorem spared_raised (fault : Fault) : Spared threadId s away (ρ:=ρ) (s,.raised fault) := ⟨.refl _ _,nofun⟩

theorem spared_returned {s' : Server J} (value : ρ) (leaves : Leaves threadId s.store s'.store) :
    Spared threadId s away (s',.returned value) := ⟨leaves,nofun⟩

theorem spared_authorized {go : Filters J → Server J × Outcome τ ρ} (goes : ∀ filters, Spared threadId s away (go filters)) :
    Spared threadId s away (authorized w s go) := by
  unfold authorized
  split
  · exact spared_raised _
  · exact goes _

theorem spared_gated {other : String} {again : τ} {go : Server J × Outcome τ ρ} (here : away s.store again)
    (goes : Spared threadId s away go) : Spared threadId s away (gated s other again go) := by
  unfold gated
  split
  · exact spared_suspended here
  · exact goes

theorem spared_external {go : Server J × Outcome τ ρ} (goes : Spared threadId s away go) : Spared threadId s away (external w s go) := by
  unfold external
  split
  · exact spared_raised _
  · exact goes

theorem spared_override {store : Store J} {now : Int} {other : String} {ttl : Option TtlConfig} {value : List Nat}
    (apart : other ≠ threadId) (leaves : Leaves threadId s.store store) :
    Spared threadId s away (overrideTtl (s.withStore store) now other ttl value) := by
  unfold overrideTtl
  split
  · exact spared_returned _ leaves
  · split
    · exact ⟨leaves,nofun⟩
    · exact spared_returned _ (leaves.trans (leaves_ttls (overridden_ttl apart ‹_›)))

theorem spared_put (used : LiveUsed s.store) {task : PutTask J} (here : putAway threadId task) :
    Spared threadId s (fun _ => putAway threadId) (stepPut w s task) := by
  have puts : ∀ now call filters, call.threadId ≠ threadId →
      Spared threadId s (fun _ => putAway threadId) (putThread s now call filters) := by
    intro now call filters apart
    unfold putThread
    split
    · exact spared_override apart (leaves_appendThread used apart)
    · split
      · exact spared_raised _
      · split
        · exact spared_raised _
        · exact spared_returned _ (.refl _ _)
  cases task with
  | called call => exact spared_suspended here
  | authorizing call => exact spared_authorized fun filters => spared_gated here (puts _ _ filters here)
  | waiting call filters => exact spared_gated here (puts _ _ filters here)

theorem spared_patch (used : LiveUsed s.store) {task : PatchTask J} (here : patchAway threadId task) :
    Spared threadId s (fun _ => patchAway threadId) (stepPatch w s task) := by
  have patches : ∀ now call list filters, call.threadId ≠ threadId →
      Spared threadId s (fun _ => patchAway threadId) (patchThread s now call list filters) := by
    intro now call list filters apart
    unfold patchThread
    split
    · exact spared_returned _ (.refl _ _)
    · rename_i ref found
      split
      · exact spared_returned _ (.refl _ _)
      · have named : (s.store.thread ref).threadId = call.threadId := by simpa [Store.isThread] using List.find?_some found
        exact spared_override apart (leaves_replaceThread used apart (named.trans_ne apart))
  cases task with
  | called call =>
    unfold stepPatch
    dsimp only
    split
    · exact spared_returned _ (.refl _ _)
    · exact spared_suspended here
  | authorizing call list => exact spared_authorized fun filters => spared_gated here (patches _ _ _ filters here)
  | waiting call list filters => exact spared_gated here (patches _ _ _ filters here)

theorem started_away {store : Store J} {other : String} (used : LiveUsed store) (apart : other ≠ threadId) :
    deleteAway threadId store (.authorizing other (store.findThread other)) := by
  refine ⟨apart,fun ref found => ?_⟩
  obtain ⟨live,named⟩ := Store.findThread_some found
  exact ⟨used ref live,named.trans_ne apart⟩

theorem spared_delete (used : LiveUsed s.store) {task : DeleteTask} (here : deleteAway threadId s.store task) :
    Spared threadId s (deleteAway threadId) (stepDelete w s task) := by
  cases task with
  | called other => exact spared_suspended (started_away used here)
  | authorizing other matching =>
    refine spared_authorized fun filters => ?_
    cases matching with
    | none => exact spared_raised _
    | some ref =>
      dsimp only
      split
      · exact spared_raised _
      · exact spared_suspended ⟨here.1,here.2 ref rfl⟩
  | checkpoints other matching => exact spared_external (spared_suspended here)
  | streams other matching => exact spared_external (spared_returned _ (leaves_removeThread here.1 here.2.2))

theorem sweepLoop_away {globalTtl : Option TtlConfig} {rest : List String} (out : threadId ∉ rest) :
    Spared threadId s (sweepAway threadId) (sweepLoop globalTtl w s rest) := by
  induction rest with
  | nil => exact spared_returned _ (.refl _ _)
  | cons other rest ih =>
    obtain ⟨apart,later⟩ := not_or.mp fun member => out (List.mem_cons.mpr member)
    unfold sweepLoop
    split
    · exact ih later
    · split
      · exact ih later
      · split
        · exact ⟨.refl _ _,fun task same => by cases same; exact ⟨later,Ne.symm apart⟩⟩
        · exact ⟨.refl _ _,fun task same => by cases same; exact ⟨later,Ne.symm apart⟩⟩

-- A loop that goes on in a state that one step has reached.
theorem spared_then {middle : Server J} {result : Server J × Outcome τ ρ} (leaves : Leaves threadId s.store middle.store)
    (spared : Spared threadId middle away result) : Spared threadId s away result := ⟨leaves.trans spared.leaves,spared.again⟩

theorem spared_sweep {globalTtl : Option TtlConfig} (used : LiveUsed s.store) {task : SweepTask} (here : sweepAway threadId s.store task)
    (passed : ∀ call, task = .called call → threadId ∉ selectedThreads globalTtl s.store w.now call.limit) :
    Spared threadId s (sweepAway threadId) (stepSweep globalTtl w s task) := by
  cases task with
  | called call =>
    have out := passed call rfl
    unfold stepSweep
    dsimp only
    split
    · rename_i limit given
      rw [given] at out
      split
      · exact spared_returned _ (.refl _ _)
      · exact sweepLoop_away out
    · rename_i none_
      rw [none_] at out
      exact sweepLoop_away out
  | deleting rest inner =>
    obtain ⟨out,inside⟩ := here
    obtain ⟨leaves,again⟩ : Spared threadId s (deleteAway threadId) (stepDelete w s inner) := spared_delete used inside
    unfold stepSweep
    dsimp only
    split <;> rename_i reached _ stepped <;> rw [stepped] at leaves again
    · exact ⟨leaves,fun task same => by cases same; exact ⟨out,again _ rfl⟩⟩
    · have released : Leaves threadId s.store (release reached inner.threadId).store := leaves
      exact spared_then released (sweepLoop_away out)
    · have released : Leaves threadId s.store (release reached inner.threadId).store := leaves
      split
      · exact spared_then released (sweepLoop_away out)
      · exact ⟨released,nofun⟩
    · exact ⟨leaves,nofun⟩
  | checkpointer other rest state updatedAt =>
    unfold stepSweep
    dsimp only
    split
    · exact ⟨.refl _ _,nofun⟩
    · exact spared_suspended here
  | pruning other rest state updatedAt =>
    obtain ⟨out,apart⟩ := here
    have marked : Leaves threadId s.store (markSwept s.store other state updatedAt) :=
      leaves_ttls (Dict.get?_insert_other (beq_false_of_ne apart))
    unfold stepSweep
    dsimp only
    split
    · exact ⟨.refl _ _,nofun⟩
    · exact spared_then marked (sweepLoop_away out)

theorem leaves_insertRun {store : Store J} {now : Int} {call : PutRunCall J} {other : String}
    (stored : ∀ ref ∈ store.boundRuns, ref < store.runs.next) (apart : other ≠ threadId) :
    Leaves threadId store (insertRun store now call other).1 := by
  unfold insertRun
  dsimp only
  split
  · exact .refl _ _
  · exact leaves_appendRun stored apart

theorem spared_putRun {text : String → J} (used : LiveUsed s.store) (stored : ∀ ref ∈ s.store.boundRuns, ref < s.store.runs.next)
    (fresh : w.newId ≠ threadId) {task : PutRunTask J} (here : putRunAway threadId task) :
    Spared threadId s (fun _ => putRunAway threadId) (stepPutRun text w s task) := by
  have puts : ∀ (call : PutRunCall J) assistant filters, call.threadId ≠ some threadId →
      Spared threadId s (fun _ => putRunAway threadId) (putRun text w s call assistant filters) := by
    intro call assistant filters apart
    unfold putRun
    split
    · exact spared_suspended fresh
    · rename_i other given
      have foreign : other ≠ threadId := fun same => apart (given.trans (congrArg some same))
      split
      · rename_i ref found
        split
        · exact spared_returned _ (.refl _ _)
        · have busy : Leaves threadId s.store (s.store.updateThread ref (markBusy text w.now assistant)) :=
            leaves_updateThread ((Store.findThread_some found).2.trans_ne foreign) (markBusy_threadId text w.now assistant)
          exact spared_returned _ (busy.trans (leaves_insertRun (busy.stored stored) foreign))
      · split
        · exact spared_suspended foreign
        · exact spared_returned _ (.refl _ _)
  have waits : ∀ (call : PutRunCall J) assistant filters, call.threadId ≠ some threadId →
      Spared threadId s (fun _ => putRunAway threadId) (gatedPutRun text w s call assistant filters) := by
    intro call assistant filters apart
    unfold gatedPutRun
    split
    · exact puts call assistant filters apart
    · exact spared_gated apart (puts call assistant filters apart)
  cases task with
  | called call =>
    unfold stepPutRun
    dsimp only
    split
    · exact spared_returned _ (.refl _ _)
    · exact spared_suspended here
  | authorizing call assistant =>
    refine spared_authorized fun filters => ?_
    split
    · exact waits call assistant filters here
    · exact spared_suspended here
  | authorizingAssistant call assistant filters =>
    refine spared_authorized fun assistantFilters => ?_
    split
    · exact spared_returned _ (.refl _ _)
    · exact waits call assistant filters here
  | waiting call assistant filters => exact waits call assistant filters here
  | logging call assistant other createdAt =>
    have made : Leaves threadId s.store (s.store.appendThread (newThread text call assistant other createdAt)) :=
      leaves_appendThread used here
    exact spared_returned _ (made.trans (leaves_insertRun (made.stored stored) here))

end server

-- The same for the saver and the streams.
section sidecars
variable {threadId : String}

structure SaverKept (threadId : String) (s s' : Saver) : Prop where
  checkpoints : ∀ ns id, s'.entryAt threadId ns id = s.entryAt threadId ns id
  writes : ownWrites s' threadId = ownWrites s threadId
  blobs : ownBlobs s' threadId = ownBlobs s threadId

theorem SaverKept.refl (threadId : String) (s : Saver) : SaverKept threadId s s := ⟨fun _ _ => rfl,rfl,rfl⟩

theorem SaverKept.trans {s s' s'' : Saver} (first : SaverKept threadId s s') (second : SaverKept threadId s' s'') :
    SaverKept threadId s s'' :=
  ⟨fun ns id => (second.checkpoints ns id).trans (first.checkpoints ns id),second.writes.trans first.writes,second.blobs.trans first.blobs⟩

theorem untouched_kept {s s' : Saver} (same : Untouched threadId s s') : SaverKept threadId s s' := by
  refine ⟨fun ns id => ?_,same.writes,same.blobs⟩
  unfold Saver.entryAt Saver.checkpointsAt
  rw [same.storage]

theorem prunedThreads_kept {J : Type} (packages : Packages J) (s : Saver) {threadIds : List String} (out : threadId ∉ threadIds) :
    SaverKept threadId s (prunedThreads packages s threadIds) := by
  unfold prunedThreads
  induction threadIds generalizing s with
  | nil => exact .refl _ _
  | cons other rest ih =>
    obtain ⟨apart,later⟩ := not_or.mp fun member => out (List.mem_cons.mpr member)
    exact (untouched_kept (PruneExactness.pruneThread_untouched apart)).trans (ih _ later)

theorem copiedCheckpoints_kept (packages : Packages J) {s : Saver} {source target : String} (apart : target ≠ threadId) :
    SaverKept threadId s (copiedCheckpoints packages s source target) := by
  obtain ⟨checkpoints,⟨groups,writes,mapped⟩,⟨values,blobs,moved⟩⟩ :=
    CopiedThreads.copied_copiesTo (fun value => some (packages.unpaired value)) s source target
  have named : (target == threadId) = false := beq_false_of_ne apart
  refine ⟨fun ns id => congrArg (·.get? id) (checkpoints threadId ns apart),?_,?_⟩
  · unfold ownWrites copiedCheckpoints
    rw [writes]
    refine Dict.filter_update_out (fun key : WriteKey => key.threadId == threadId) s.writes fun row member stored same => ?_
    rw [eq_of_beq same,mapped row member]
    exact named
  · unfold ownBlobs copiedCheckpoints
    rw [blobs]
    refine Dict.filter_update_out (fun key : BlobKey => key.threadId == threadId) s.blobs fun row member stored same => ?_
    rw [(blobKey_beq.mp same).1,moved row member]
    exact named

-- A queue keeps its place, or loses it.
structure StreamsKept (threadId : String) (m m' : StreamManager) : Prop where
  runs : ∀ runId, SameRun m m' ⟨some threadId,runId⟩
  watchers : StreamUpkeep.SameThread m m' threadId
  next : m.contents.next ≤ m'.contents.next
  places : ∀ holder, registered m' holder ⊆ registered m holder

variable {m : StreamManager}

theorem putThread_touched (now : Int) (other : String) (message : Message) : Touched m (m.putThread now other message).1 [] := by
  unfold StreamManager.putThread
  split
  · exact ⟨⟨m.contents,m.lastMs,m.lastSeq,rfl⟩,Nat.le_refl _,fun _ _ _ => rfl⟩
  · exact stamp_touched m now

theorem putThread_kept (maintained : Maintained m) (now : Int) (other : String) (message : Message) :
    StreamsKept threadId m (m.putThread now other message).1 := by
  have touched := putThread_touched (m:=m) now other message
  have owned := maintained.owned
  exact ⟨fun runId => touched.sameRun owned fun _ _ => List.not_mem_nil,touched.sameThread owned fun _ _ => List.not_mem_nil,
    touched.next,fun holder => touched.registered holder ▸ List.Subset.refl _⟩

theorem putThread_chosen {now : Int} {other : String} {message : Message} {row : Nat × Message}
    (chosen : row ∈ (m.putThread now other message).2) : row.1 ∈ registered m (.watcher other) := by
  unfold StreamManager.putThread at chosen
  split at chosen
  · cases chosen
  · obtain ⟨queue,member,rfl⟩ := List.mem_map.mp chosen
    exact member

theorem deleteRuns_places (codec : List UInt8) (clock : Clock) (keys : List RunKey) :
    m.contents.next ≤ (keys.foldl (StreamManager.deleteRun codec clock) m).contents.next ∧
      ∀ holder, registered (keys.foldl (StreamManager.deleteRun codec clock) m) holder ⊆ registered m holder := by
  induction keys generalizing m with
  | nil => exact ⟨Nat.le_refl _,fun _ => List.Subset.refl _⟩
  | cons key rest ih =>
    obtain ⟨next,fewer⟩ := deleteRun_places codec clock m key
    obtain ⟨later,fewest⟩ := ih (m:=m.deleteRun codec clock key)
    exact ⟨Nat.le_trans next later,fun holder => List.Subset.trans (fewest holder) (fewer holder)⟩

theorem withoutThread_fewer (m : StreamManager) (other : String) (holder : Holder) :
    registered (withoutThread m other) holder ⊆ registered m holder := by
  have fewer : ∀ (entries : RunMap (List Nat)) (key : RunKey),
      (RunMap.find (entries.erase (some other)) key).getD [] ⊆ (RunMap.find entries key).getD [] := by
    intro entries key
    rw [RunMap.find_erase]
    split
    · exact List.nil_subset _
    · exact List.Subset.refl _
  cases holder with
  | subscriber key => exact fewer m.queues key
  | listener key => exact fewer m.controlQueues key
  | watcher _ => exact List.Subset.refl _

theorem deleteThread_places (codec : List UInt8) (clock : Clock) (order : SetOrder) (other : String) :
    m.contents.next ≤ (m.deleteThread codec clock order other).contents.next ∧
      ∀ holder, registered (m.deleteThread codec clock order other) holder ⊆ registered m holder := by
  obtain ⟨next,fewer⟩ := deleteRuns_places (m:=m) codec clock (order.arrange (m.threadRuns other))
  unfold StreamManager.deleteThread
  dsimp only
  generalize (order.arrange (m.threadRuns other)).foldl (StreamManager.deleteRun codec clock) m = r at next fewer ⊢
  have told : Touched (withoutThread r other) _ _ :=
    finishAll_touched clock ⟨.closed,bytes "done",none⟩ ((withoutThread r other).threadQueues other)
  refine ⟨Nat.le_trans next told.next,fun holder => ?_⟩
  have same := told.registered holder
  refine List.Subset.trans ?_ (List.Subset.trans (withoutThread_fewer r other holder) (fewer holder))
  rw [← same]
  cases holder with
  | subscriber key => exact List.Subset.refl _
  | listener key => exact List.Subset.refl _
  | watcher watched =>
    unfold registered StreamManager.threadQueues
    dsimp only
    rw [Dict.get?_erase]
    split
    · exact List.nil_subset _
    · exact List.Subset.refl _

theorem deleteThread_kept (maintained : Maintained m) (codec : List UInt8) (clock : Clock) (order : SetOrder) {other : String}
    (apart : other ≠ threadId) : StreamsKept threadId m (m.deleteThread codec clock order other) := by
  obtain ⟨_,runs,threads⟩ : Maintained (m.deleteThread codec clock order other) ∧ _ := deleteThread_parts maintained order
  obtain ⟨next,fewer⟩ := deleteThread_places (m:=m) codec clock order other
  exact ⟨fun runId => runs _ fun same => apart (Option.some.inj same).symm,threads threadId (Ne.symm apart),next,fewer⟩

end sidecars

end InmemRuntime.ThreadFrames
