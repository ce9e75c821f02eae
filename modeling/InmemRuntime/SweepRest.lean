import InmemRuntime.SweepRun

namespace InmemRuntime.SweepRest
open OrderedDict CheckpointData CheckpointSaver SizeTracking DeltaWalk Prune PruneExactness
open ThreadTtl RuntimeStore Serving ThreadOps TtlSweep
open RunDeletion (Runtime)
open SweepRun

variable {J : Type} {globalTtl : Option TtlConfig} {threadId : String}

-- Whatever the time, the thread's policy is `keep_latest`.
def PrunesOnly (globalTtl : Option TtlConfig) (threadId : String) (s : Store J) : Prop :=
  ∀ now policy state, effectiveThreadTtl now globalTtl s.ttls threadId = .ok (some policy,state) → policy.strategy = .keepLatest

-- The TTL entry is what it was, and `updated_at` has not advanced.
def Unmoved (threadId : String) (s s' : Store J) : Prop :=
  s'.ttls.get? threadId = s.ttls.get? threadId ∧ ∀ ref', s'.findThread threadId = some ref' →
    ∃ ref, s.findThread threadId = some ref ∧ (s'.thread ref').updatedAt ≤ (s.thread ref).updatedAt

def Resting (threadId : String) (s : Store J) : Prop :=
  ∃ state last, s.ttls.get? threadId = some state ∧ state.lastSweptUpdatedAt = some last ∧
    ∀ ref, s.findThread threadId = some ref → (s.thread ref).updatedAt ≤ last

-- A thread that was pruned this many times.
def AtRest (globalTtl : Option TtlConfig) (threadId : String) (prunings : Nat) (s : Store J) : Prop :=
  PrunesOnly globalTtl threadId s ∧ (prunings = 0 ∨ prunings = 1 ∧ Resting threadId s)

theorem unmoved_atRest {prunings : Nat} {s s' : Store J} (rest : AtRest globalTtl threadId prunings s)
    (unmoved : Unmoved threadId s s') : AtRest globalTtl threadId prunings s' := by
  obtain ⟨entry,record⟩ := unmoved
  refine ⟨fun now policy state effective => rest.1 now policy state (effective_congr entry ▸ effective),
    rest.2.imp_right fun ⟨once,state,last,stored,held,before⟩ => ⟨once,state,last,entry.trans stored,held,fun ref' here => ?_⟩⟩
  obtain ⟨ref,found,older⟩ := record ref' here
  exact older.trans (before ref found)

theorem resting_pruned {s : Store J} {ref : Nat} {now : Int} {policy : Option TtlPolicy} {state : TtlState}
    (rests : Resting threadId s) (here : s.findThread threadId = some ref)
    (effective : effectiveThreadTtl now globalTtl s.ttls threadId = .ok (policy,state)) :
    alreadyPruned (s.thread ref) state = true := by
  obtain ⟨entry,last,stored,held,before⟩ := rests
  unfold effectiveThreadTtl at effective
  dsimp only at effective
  split at effective
  · cases effective
  · cases effective
    simp [alreadyPruned,stored,held,before ref here]

theorem markSwept_prunesOnly {s : Store J} {now : Int} {policy : Option TtlPolicy} {state : TtlState} {updatedAt : Int}
    (only : PrunesOnly globalTtl threadId s)
    (effective : effectiveThreadTtl now globalTtl s.ttls threadId = .ok (policy,state)) :
    PrunesOnly globalTtl threadId (markSwept s threadId state updatedAt) := by
  intro later policy' state' effective'
  have entry : state = (s.ttls.get? threadId).getD ⟨none,none,none⟩ := by
    unfold effectiveThreadTtl at effective
    dsimp only at effective
    split at effective
    · cases effective
    · cases effective
      rfl
  unfold effectiveThreadTtl at effective'
  simp only [markSwept,Dict.get?_insert_self,Option.getD_some] at effective'
  split at effective'
  · cases effective'
  · rename_i accepted
    refine only later policy' state ?_
    cases effective'
    unfold effectiveThreadTtl
    rw [← entry]
    dsimp only
    rw [accepted]

theorem remove_other {s : Store J} {other : String} {ref : Nat} (apart : other ≠ threadId)
    (here : s.findThread other = some ref) : Unmoved threadId s (removeThread s other ref) := by
  have named := (Store.findThread_some here).2
  have same : (removeThread s other ref).findThread threadId = s.findThread threadId := by
    change (Store.liveThreads (Store.rebindThreads s _)).find? (s.isThread threadId) = _
    rw [Store.liveThreads_rebind,List.find?_filter]
    unfold Store.findThread Store.isThread
    congr 1
    funext candidate
    by_cases equal : candidate = ref
    · simp [equal,named,apart]
    · by_cases mine : (s.thread candidate).threadId = threadId <;> simp [equal,mine]
  refine ⟨by simp [removeThread,Dict.get?_erase,apart],fun ref' found => ⟨ref',same ▸ found,le_rfl⟩⟩

theorem mark_other {s : Store J} {other : String} {state : TtlState} {updatedAt : Int} (apart : other ≠ threadId) :
    Unmoved threadId s (markSwept s other state updatedAt) :=
  ⟨Dict.get?_insert_other (by simpa using apart),fun ref' found => ⟨ref',found,le_rfl⟩⟩

theorem mark_rests {s : Store J} {ref : Nat} {state : TtlState} (here : s.findThread threadId = some ref) :
    Resting threadId (markSwept s threadId state (s.thread ref).updatedAt) := by
  refine ⟨_,_,Dict.get?_insert_self _ _ _,rfl,fun ref' found => ?_⟩
  have same : some ref = some ref' := here.symm.trans found
  cases same
  exact le_rfl

theorem eligible_effective {s : Store J} {configured now : Int} {thread : Thread J} {policy : TtlPolicy} {state : TtlState}
    (hit : eligible globalTtl s configured now thread = .ok (some (policy,state))) :
    effectiveThreadTtl configured globalTtl s.ttls thread.threadId = .ok (some policy,state) ∧
      (policy.strategy = .keepLatest → alreadyPruned thread state = false) := by
  unfold eligible at hit
  split at hit
  · cases hit
  · cases hit
  · cases hit
  · rename_i policy' state' effective
    split at hit
    · cases hit
    · rename_i open_
      unfold expiry at hit
      split at hit
      · cases hit
      · simp only [Except.map,Except.ok.injEq] at hit
        split at hit
        · cases hit
          exact ⟨effective,fun keeps => by simpa [keeps] using open_⟩
        · cases hit

-- One turn prunes the thread only where it was never pruned before.
theorem turn_atRest (serde : Serde) (clock : Nat → Int) {prunings : Nat} {p : Progress J} (other : String)
    (rest : AtRest globalTtl threadId (prunings + p.pruned.count threadId) p.runtime.store) :
    AtRest globalTtl threadId (prunings + (turn serde globalTtl clock p other).1.pruned.count threadId)
      (turn serde globalTtl clock p other).1.runtime.store := by
  unfold turn
  cases here : p.runtime.store.findThread other with
  | none => exact rest
  | some ref =>
    have named := (Store.findThread_some here).2
    dsimp only
    split
    · exact rest
    · split
      · exact rest
      · exact rest
      · rename_i policy state hit
        obtain ⟨effective,open_⟩ := eligible_effective hit
        rw [named] at effective
        have mine : other = threadId → policy.strategy = .keepLatest := fun same =>
          rest.1 _ policy state (same ▸ effective)
        split
        · rename_i deletes
          have apart : other ≠ threadId := fun same => by simp [mine same] at deletes
          simp only [deleteExpired,here]
          exact unmoved_atRest rest (remove_other apart here)
        · rename_i keeps
          simp only [prune_keepLatest,List.count_append]
          by_cases same : other = threadId
          · subst same
            have first : prunings + p.pruned.count other = 0 := by
              rcases rest.2 with zero | ⟨_,rests⟩
              · exact zero
              · have pruned := resting_pruned rests here effective
                rw [open_ keeps] at pruned
                cases pruned
            refine ⟨markSwept_prunesOnly rest.1 effective,.inr ⟨?_,mark_rests here⟩⟩
            simp only [List.count_cons_self,List.count_nil]
            omega
          · have none_ : [other].count threadId = 0 := by simp [same]
            rw [none_,Nat.add_zero]
            exact unmoved_atRest rest (mark_other same)

theorem batch_atRest (serde : Serde) (clock : Nat → Int) {prunings : Nat} {p : Progress J} (batch : List String)
    (rest : AtRest globalTtl threadId (prunings + p.pruned.count threadId) p.runtime.store) :
    AtRest globalTtl threadId (prunings + (sweepBatch serde globalTtl clock p batch).1.pruned.count threadId)
      (sweepBatch serde globalTtl clock p batch).1.runtime.store := by
  induction batch generalizing p with
  | nil => exact rest
  | cons other batch ih =>
    have turned := turn_atRest serde clock other rest
    unfold sweepBatch
    revert turned
    rcases turn serde globalTtl clock p other with ⟨later,_ | fault⟩ <;> intro turned
    · exact ih turned
    · exact turned

theorem sweep_atRest {serde : Serde} {clock : Nat → Int} {global : Option GlobalTtl} {call : SweepArguments} {prunings : Nat} {s : Runtime J}
    (rest : AtRest (global.map GlobalTtl.config) threadId prunings s.store) :
    AtRest (global.map GlobalTtl.config) threadId
      (prunings + (sweepTtl serde global clock call s).1.pruned.count threadId)
      (sweepTtl serde global clock call s).1.runtime.store := by
  unfold sweepTtl
  dsimp only
  split
  · exact rest
  · split
    · exact rest
    · rw [sweepBatches_flatten]
      exact batch_atRest _ _ _ rest

-- Sweeps with clocks and arguments of their own, and between them anything
-- that leaves the thread's entry as it is and its `updated_at` where it is. The
-- number counts how often the thread was pruned.
inductive Sweeps (serde : Serde) (global : Option GlobalTtl) (threadId : String) (start : Runtime J) :
    Nat → Runtime J → Prop where
  | nil : Sweeps serde global threadId start 0 start
  | sweep (prior : Sweeps serde global threadId start prunings s) (clock : Nat → Int) (call : SweepArguments) :
      Sweeps serde global threadId start (prunings + (sweepTtl serde global clock call s).1.pruned.count threadId)
        (sweepTtl serde global clock call s).1.runtime
  | between (prior : Sweeps serde global threadId start prunings s) (unmoved : Unmoved threadId s.store s'.store) :
      Sweeps serde global threadId start prunings s'

theorem sweeps_atRest {serde : Serde} {global : Option GlobalTtl} {start s : Runtime J} {prunings : Nat}
    (keeps : PrunesOnly (global.map GlobalTtl.config) threadId start.store)
    (sweeps : Sweeps serde global threadId start prunings s) :
    AtRest (global.map GlobalTtl.config) threadId prunings s.store := by
  induction sweeps with
  | nil => exact ⟨keeps,.inl rfl⟩
  | sweep _ clock call ih => exact sweep_atRest ih
  | between _ unmoved ih => exact unmoved_atRest ih unmoved

-- A thread at rest is announced without an expiry.
theorem resting_announced {now : Int} {s : Store J} (only : PrunesOnly globalTtl threadId s) (rests : Resting threadId s) :
    announced globalTtl now s threadId = none := by
  unfold announced getTtl
  cases here : s.findThread threadId with
  | none => rfl
  | some ref =>
    dsimp only
    rcases effective : effectiveThreadTtl now globalTtl s.ttls threadId with fault | ⟨_ | policy,state⟩
    · rfl
    · rfl
    · simp [threadTtlInfo,resting_pruned rests here effective,only now policy state effective,Except.map]

end InmemRuntime.SweepRest
