import InmemRuntime.SweepRest

namespace InmemRuntime.SweepExactness
open OrderedDict CheckpointData CheckpointSaver SizeTracking DeltaWalk Prune PruneExactness
open ThreadTtl RuntimeStore Serving ThreadOps TtlSweep
open RunDeletion (Runtime Untouched ownWrites ownBlobs)
open SweepRun SweepRest

variable {J : Type}

-- The sidecar entry of a thread with the marker at its `updated_at`.
def marked (s : Store J) (threadId : String) : TtlState :=
  {(s.ttls.get? threadId).getD ⟨none,none,none⟩ with
    lastSweptUpdatedAt := (s.findThread threadId).map fun ref => (s.thread ref).updatedAt}

structure Emptied (threadId : String) (s : Saver) : Prop where
  storage : s.storage.get? threadId = none
  writes : ownWrites s threadId = .empty
  blobs : ownBlobs s threadId = .empty
  size : s.sizeState.byThread.get? threadId = none

-- What a sweep that has processed these threads has done. `goes` says which of
-- the processed ones were to be deleted.
structure Swept (serde : Serde) (goes : String → Bool) (s : Runtime J) (processed : List String) (s' : Runtime J) :
    Prop where
  threads : s'.store.liveThreads = s.store.liveThreads.filter fun ref =>
    !(processed.contains (s.store.thread ref).threadId && goes (s.store.thread ref).threadId)
  records : s'.store.thread = s.store.thread
  runs : s'.store.boundRuns = s.store.boundRuns.filter fun ref =>
    !(processed.contains (s.store.run ref).threadId && goes (s.store.run ref).threadId)
  runRecords : s'.store.run = s.store.run
  crons : s'.store.crons = s.store.crons.filter fun cron => !(processed.contains cron.threadId && goes cron.threadId)
  ttls : ∀ threadId, s'.store.ttls.get? threadId = if threadId ∈ processed then
    if goes threadId then none else some (marked s.store threadId) else s.store.ttls.get? threadId
  removed : ∀ threadId ∈ processed, goes threadId = true → Emptied threadId s'.saver
  pruned : ∀ threadId ∈ processed, goes threadId = false → Pruned serde threadId s.saver s'.saver
  others : ∀ threadId, threadId ∉ processed → Untouched threadId s.saver s'.saver

section processing
variable {serde : Serde} {goes : String → Bool} {s s' : Runtime J} {processed : List String} {threadId : String} {ref : Nat}

theorem deleteThread_emptied (saver : Saver) (threadId : String) : Emptied threadId (deleteThread saver threadId) := by
  refine ⟨by simp [deleteThread,Dict.get?_erase],Dict.ext ?_,Dict.ext ?_,by
    simp [deleteThread,SizeState.removeThread,SizeState.assign,Dict.get?_erase]⟩
  · simp only [ownWrites,deleteThread,Dict.entries_filter,List.filter_filter]
    exact List.filter_eq_nil_iff.mpr fun row _ => by simp
  · simp only [ownBlobs,deleteThread,Dict.entries_filter,List.filter_filter]
    exact List.filter_eq_nil_iff.mpr fun row _ => by simp

theorem deleteThread_untouched (saver : Saver) {other : String} (apart : other ≠ threadId) :
    Untouched other saver (deleteThread saver threadId) := by
  have mine : (threadId == other) = false := by simpa using Ne.symm apart
  refine ⟨by simp [deleteThread,Dict.get?_erase,mine],Dict.ext ?_,Dict.ext ?_,by
    simp [deleteThread,SizeState.removeThread,SizeState.assign,Dict.get?_erase,mine]⟩
  · simp only [ownWrites,deleteThread,Dict.entries_filter,List.filter_filter]
    refine List.filter_congr fun row _ => ?_
    by_cases same : row.1.threadId = other <;> simp [same,apart]
  · simp only [ownBlobs,deleteThread,Dict.entries_filter,List.filter_filter]
    refine List.filter_congr fun row _ => ?_
    by_cases same : row.1.threadId = other <;> simp [same,apart]

theorem emptied_untouched {saver saver' : Saver} (emptied : Emptied threadId saver) (same : Untouched threadId saver saver') :
    Emptied threadId saver' :=
  ⟨same.storage.trans emptied.storage,same.writes.trans emptied.writes,same.blobs.trans emptied.blobs,
    same.size.trans emptied.size⟩

theorem swept_nothing (s : Runtime J) : Swept serde goes s [] s := by
  refine ⟨?_,rfl,?_,rfl,?_,fun _ => rfl,by simp,by simp,fun _ _ => ⟨rfl,rfl,rfl,rfl⟩⟩
  · exact (List.filter_eq_self.mpr (by simp)).symm
  · exact (List.filter_eq_self.mpr (by simp)).symm
  · exact (List.filter_eq_self.mpr (by simp)).symm

section between
variable (swept : Swept serde goes s processed s') (fresh : threadId ∉ processed)
include swept fresh

theorem swept_find : s'.store.findThread threadId = s.store.findThread threadId := by
  unfold Store.findThread Store.isThread
  rw [swept.threads,swept.records,List.find?_filter]
  congr 1
  funext ref
  by_cases same : (s.store.thread ref).threadId = threadId
  · simp [same,fresh]
  · simp [same]

theorem swept_active : s'.store.activeOn threadId = s.store.activeOn threadId := by
  unfold Store.activeOn
  rw [swept.runs,swept.runRecords,List.any_filter]
  congr 1
  funext ref
  by_cases same : (s.store.run ref).threadId = threadId
  · simp [same,fresh]
  · simp [same]

theorem swept_effective {now : Int} {globalTtl : Option TtlConfig} :
    effectiveThreadTtl now globalTtl s'.store.ttls threadId = effectiveThreadTtl now globalTtl s.store.ttls threadId :=
  effective_congr (by rw [swept.ttls,if_neg fresh])

end between

theorem find_distinct {store : Store J} (distinct : (store.liveThreads.map fun ref => (store.thread ref).threadId).Nodup)
    {ref : Nat} (member : ref ∈ store.liveThreads) : store.findThread (store.thread ref).threadId = some ref := by
  cases found : store.findThread (store.thread ref).threadId with
  | none => exact absurd rfl (Store.findThread_none.mp found ref member)
  | some other =>
    obtain ⟨listed,same⟩ := Store.findThread_some found
    rw [List.inj_on_of_nodup_map distinct listed member same]

-- A processed thread that goes, takes its records, and nothing else, along.
theorem swept_delete (swept : Swept serde goes s processed s')
    (distinct : (s.store.liveThreads.map fun ref => (s.store.thread ref).threadId).Nodup)
    (here : s.store.findThread threadId = some ref) (leaves : goes threadId = true) :
    Swept serde goes s (processed ++ [threadId])
      ⟨removeThread s'.store threadId ref,RunDeletion.deleteCheckpoints serde s'.saver threadId none⟩ := by
  obtain ⟨listed,named⟩ := Store.findThread_some here
  refine ⟨?_,swept.records,?_,swept.runRecords,?_,fun other => ?_,fun other member gone => ?_,fun other member stays => ?_,
    fun other outside => ?_⟩
  · change Store.liveThreads (Store.rebindThreads s'.store _) = _
    rw [Store.liveThreads_rebind,swept.threads,List.filter_filter]
    refine List.filter_congr fun other member => ?_
    by_cases same : (s.store.thread other).threadId = threadId
    · have equal : other = ref := List.inj_on_of_nodup_map distinct member listed (same.trans named.symm)
      simp [equal,named,leaves]
    · have different : other ≠ ref := fun equal => same (equal ▸ named)
      simp [different,same]
  · change (s'.store.boundRuns.filter fun ref => (s'.store.run ref).threadId != threadId) = _
    rw [swept.runs,swept.runRecords,List.filter_filter]
    refine List.filter_congr fun other _ => ?_
    by_cases same : (s.store.run other).threadId = threadId
    · simp [same,leaves]
    · simp [same]
  · change (s'.store.crons.filter fun cron => cron.threadId != threadId) = _
    rw [swept.crons,List.filter_filter]
    refine List.filter_congr fun other _ => ?_
    by_cases same : other.threadId = threadId
    · simp [same,leaves]
    · simp [same]
  · change (s'.store.ttls.erase threadId).get? other = _
    rw [Dict.get?_erase,swept.ttls]
    by_cases same : other = threadId
    · simp [same,leaves]
    · simp [same,Ne.symm same]
  · change Emptied other (deleteThread s'.saver threadId)
    by_cases same : other = threadId
    · rw [same]
      exact deleteThread_emptied _ _
    · have old : other ∈ processed := by simpa [same] using member
      exact emptied_untouched (swept.removed other old gone) (deleteThread_untouched _ same)
  · have same : other ≠ threadId := fun equal => by simp [equal,leaves] at stays
    have old : other ∈ processed := by simpa [same] using member
    exact pruned_after (swept.pruned other old stays) (deleteThread_untouched _ same)
  · obtain ⟨old,same⟩ : other ∉ processed ∧ other ≠ threadId := by simpa using outside
    exact untouched_trans (swept.others other old) (deleteThread_untouched _ same)

-- A processed thread that stays gets its checkpoints pruned and its marker.
theorem swept_prune (swept : Swept serde goes s processed s') (fresh : threadId ∉ processed) {state : TtlState}
    (here : s.store.findThread threadId = some ref) (stays : goes threadId = false)
    (entry : state = (s.store.ttls.get? threadId).getD ⟨none,none,none⟩) :
    Swept serde goes s (processed ++ [threadId])
      ⟨markSwept s'.store threadId state (s'.store.thread ref).updatedAt,pruneThread (max 0) serde s'.saver threadId⟩ := by
  have keeps : ∀ other, ((processed ++ [threadId]).contains other && goes other) = (processed.contains other && goes other) := by
    intro other
    by_cases same : other = threadId
    · simp [same,stays]
    · simp [same]
  refine ⟨?_,swept.records,?_,swept.runRecords,?_,fun other => ?_,fun other member gone => ?_,fun other member stay => ?_,
    fun other outside => ?_⟩
  · simp only [keeps]
    exact swept.threads
  · simp only [keeps]
    exact swept.runs
  · simp only [keeps]
    exact swept.crons
  · change (s'.store.ttls.insert threadId _).get? other = _
    rw [Dict.get?_insert]
    by_cases same : other = threadId
    · subst same
      simp [stays,marked,here,entry,swept.records]
    · rw [swept.ttls]
      simp [same,Ne.symm same]
  · have same : other ≠ threadId := fun equal => by simp [equal,stays] at gone
    have old : other ∈ processed := by simpa [same] using member
    exact emptied_untouched (swept.removed other old gone) (pruneThread_untouched same)
  · by_cases same : other = threadId
    · rw [same]
      exact pruned_before (swept.others threadId fresh) pruneThread_pruned
    · have old : other ∈ processed := by simpa [same] using member
      exact pruned_after (swept.pruned other old stay) (pruneThread_untouched same)
  · obtain ⟨old,same⟩ : other ∉ processed ∧ other ≠ threadId := by simpa using outside
    exact untouched_trans (swept.others other old) (pruneThread_untouched same)

end processing

section running
variable {serde : Serde} {globalTtl : Option TtlConfig} {clock : Nat → Int} {s : Runtime J}

variable (distinct : (s.store.liveThreads.map fun ref => (s.store.thread ref).threadId).Nodup)
  (valid : ∀ n, ∀ ref ∈ s.store.liveThreads, ∃ info,
    getTtl globalTtl (clock n) s.store (s.store.thread ref).threadId = .ok info)
include distinct valid

omit distinct in
-- The policy and state of a stored thread are the same at each reading of the clock.
theorem effective_read {threadId : String} {ref : Nat} (here : s.store.findThread threadId = some ref) (reads : Nat) :
    ∃ found, effectiveThreadTtl (clock reads) globalTtl s.store.ttls threadId = .ok found ∧
      effectiveThreadTtl (clock 0) globalTtl s.store.ttls threadId = .ok found ∧ Representable (s.store.thread ref) found ∧
      ∃ info, getTtl globalTtl (clock 0) s.store threadId = .ok info := by
  obtain ⟨listed,named⟩ := Store.findThread_some here
  obtain ⟨info,answered⟩ := valid 0 ref listed
  obtain ⟨again,repeated⟩ := valid reads ref listed
  rw [named] at answered repeated
  obtain ⟨found,effective,range⟩ := getTtl_effective here repeated
  obtain ⟨found',effective',_⟩ := getTtl_effective here answered
  have same := effective_steady effective effective'
  subst same
  exact ⟨_,effective,effective',range,info,answered⟩

-- Selection finds the threads whose info announces that they have expired.
theorem select_announced (refs : List Nat) (listed : ∀ ref ∈ refs, ref ∈ s.store.liveThreads) (reads : Nat) :
    ∃ reads', select globalTtl clock s.store (clock 0) reads refs = .ok (refs.filterMap fun ref =>
      if s.store.activeOn (s.store.thread ref).threadId then none
      else (announced globalTtl (clock 0) s.store (s.store.thread ref).threadId).map fun expiresAt =>
        (expiresAt,(s.store.thread ref).threadId),reads') := by
  induction refs generalizing reads with
  | nil => exact ⟨reads,rfl⟩
  | cons ref rest ih =>
    have later := fun other member => listed other (List.mem_cons_of_mem ref member)
    have member := listed ref List.mem_cons_self
    rw [select,List.filterMap_cons]
    by_cases active : s.store.activeOn (s.store.thread ref).threadId = true
    · simp only [active,↓reduceIte]
      exact ih later reads
    · have here := find_distinct distinct member
      obtain ⟨found,effective,effective',range,info,answered⟩ := effective_read valid here reads
      obtain ⟨reads',rows⟩ := ih later (reads + 1)
      simp only [active,Bool.false_eq_true,↓reduceIte,eligible_verdict effective range,rows,
        announced_due here answered,due_verdict effective']
      refine ⟨reads',?_⟩
      cases verdict (clock 0) (s.store.thread ref) found <;> rfl

-- What a sweep has done and counted so far.
structure Underway (serde : Serde) (goes : String → Bool) (s : Runtime J) (done : List String) (p : Progress J) : Prop where
  swept : Swept serde goes s done p.runtime
  processed : p.processed = done.length
  deleted : p.deleted = (done.filter goes).length
  pruned : p.pruned = done.filter fun threadId => !goes threadId

theorem turn_underway (forward : ∀ i j, i ≤ j → clock i ≤ clock j) {done : List String} {p : Progress J} {threadId : String}
    (underway : Underway serde (goesAt globalTtl (clock 0) s.store) s done p)
    (fresh : threadId ∉ done) {ref : Nat} (here : s.store.findThread threadId = some ref)
    (inactive : s.store.activeOn threadId = false)
    {expiresAt : Int} (expired : announced globalTtl (clock 0) s.store threadId = some expiresAt) :
    ∃ p', turn serde globalTtl clock p threadId = (p',none) ∧
      Underway serde (goesAt globalTtl (clock 0) s.store) s (done ++ [threadId]) p' := by
  obtain ⟨listed,named⟩ := Store.findThread_some here
  obtain ⟨found,effective,effective',range,info,answered⟩ := effective_read valid here p.reads
  rw [announced_due here answered] at expired
  obtain ⟨⟨policy,state⟩,hit,_⟩ := Option.map_eq_some_iff.mp expired
  have strategy := strategyAt_due here answered hit
  rw [due_verdict (named.symm ▸ effective')] at hit
  have later := verdict_later hit (forward 0 (p.reads + 1) (Nat.zero_le _))
  have current := underway.swept
  have entry : state = (s.store.ttls.get? threadId).getD ⟨none,none,none⟩ := by
    rw [verdict_policy hit] at effective
    unfold effectiveThreadTtl at effective
    dsimp only at effective
    split at effective
    · cases effective
    · cases effective
      rfl
  have ready : eligible globalTtl p.runtime.store (clock p.reads) (clock (p.reads + 1)) (p.runtime.store.thread ref) =
      .ok (some (policy,state)) := by
    rw [current.records,← later]
    refine eligible_verdict ?_ range
    rw [named,swept_effective current fresh]
    exact effective
  unfold turn
  rw [swept_find current fresh,here]
  dsimp only
  rw [swept_active current fresh,inactive,ready]
  cases action : policy.strategy with
  | delete =>
    rw [action] at strategy
    have leaves : goesAt globalTtl (clock 0) s.store threadId = true := by simp [goesAt,strategy]
    simp only [Bool.false_eq_true,↓reduceIte,action,deleteExpired,swept_find current fresh,here]
    refine ⟨_,rfl,?_⟩
    refine ⟨swept_delete current distinct here leaves,?_,?_,?_⟩
    · simp [underway.processed]
    · simp [underway.deleted,List.filter_append,leaves]
    · simp [underway.pruned,List.filter_append,leaves]
  | keepLatest =>
    rw [action] at strategy
    have stays : goesAt globalTtl (clock 0) s.store threadId = false := by simp [goesAt,strategy]
    simp only [Bool.false_eq_true,↓reduceIte,action,prune_keepLatest,List.foldl_cons,List.foldl_nil]
    refine ⟨_,rfl,?_⟩
    refine ⟨swept_prune current fresh here stays entry,?_,?_,?_⟩
    · simp [underway.processed]
    · simp [underway.deleted,List.filter_append,stays]
    · simp [underway.pruned,List.filter_append,stays]

theorem batch_underway (forward : ∀ i j, i ≤ j → clock i ≤ clock j) {done rest : List String} {p : Progress J}
    (underway : Underway serde (goesAt globalTtl (clock 0) s.store) s done p)
    (once : (done ++ rest).Nodup)
    (ready : ∀ threadId ∈ rest, ∃ ref, s.store.findThread threadId = some ref ∧ s.store.activeOn threadId = false ∧
      ∃ expiresAt, announced globalTtl (clock 0) s.store threadId = some expiresAt) :
    ∃ p', sweepBatch serde globalTtl clock p rest = (p',none) ∧
      Underway serde (goesAt globalTtl (clock 0) s.store) s (done ++ rest) p' := by
  induction rest generalizing done p with
  | nil => exact ⟨p,rfl,(List.append_nil done).symm ▸ underway⟩
  | cons threadId rest ih =>
    obtain ⟨⟨ref,here,inactive,expiresAt,expired⟩,others⟩ := List.forall_mem_cons.mp ready
    have fresh : threadId ∉ done := fun member =>
      (List.nodup_append.mp once).2.2 threadId member threadId List.mem_cons_self rfl
    obtain ⟨p',turned,underway'⟩ := turn_underway distinct valid forward underway fresh here inactive expired
    rw [List.append_cons] at once ⊢
    rw [sweepBatch,turned]
    exact ih underway' once others

end running

section exactness

-- `min(L, n)`, where there may be no limit.
def share (limit : Option Nat) (count : Nat) : Nat :=
  match limit with
  | none => count
  | some limit => min limit count

theorem upTo_share {α : Type} (limit : Option Nat) (items : List α) : upTo limit items = items.take (share limit items.length) := by
  cases limit with
  | none => exact (List.take_length (l := items)).symm
  | some limit => exact List.take_eq_take_min

-- Rows in the order of their expiry, and of their id where that is the same.
abbrev Before (a b : Int × String) : Prop := a.1 < b.1 ∨ (a.1 = b.1 ∧ a.2 ≤ b.2)

instance : Std.Total Before where
  total a b := by
    rcases lt_trichotomy a.1 b.1 with earlier | same | later
    · exact .inl (.inl earlier)
    · exact (le_total a.2 b.2).imp (fun first => .inr ⟨same,first⟩) fun first => .inr ⟨same.symm,first⟩
    · exact .inr (.inl later)

instance : IsTrans (Int × String) Before where
  trans a b c first second := by
    rcases first with earlier | ⟨same,first⟩
    · rcases second with later | ⟨equal,_⟩
      · exact .inl (earlier.trans later)
      · exact .inl (equal ▸ earlier)
    · rcases second with later | ⟨equal,second⟩
      · exact .inl (same ▸ later)
      · exact .inr ⟨same.trans equal,first.trans second⟩

variable {global : Option GlobalTtl} {clock : Nat → Int} {s : Runtime J}

theorem announcedRows_ids {globalTtl : Option TtlConfig} {now : Int} {s : Store J}
    (distinct : (s.liveThreads.map fun ref => (s.thread ref).threadId).Nodup) :
    ((announcedRows globalTtl now s).map Prod.snd).Nodup := by
  have listed : ((announcedRows globalTtl now s).map Prod.snd).Sublist (s.liveThreads.map fun ref => (s.thread ref).threadId) := by
    unfold announcedRows
    generalize s.liveThreads = refs
    induction refs with
    | nil => exact .slnil
    | cons ref rest ih =>
      rw [List.filterMap_cons,List.map_cons]
      split
      · exact ih.cons _
      · rename_i row found
        have named : row.2 = (s.thread ref).threadId := by
          split at found
          · cases found
          · obtain ⟨_,_,rfl⟩ := Option.map_eq_some_iff.mp found
            rfl
        rw [List.map_cons,named]
        exact ih.cons_cons _
  exact listed.nodup distinct

theorem announcedRows_ready {globalTtl : Option TtlConfig} {now : Int} {s : Store J}
    (distinct : (s.liveThreads.map fun ref => (s.thread ref).threadId).Nodup) {row : Int × String}
    (member : row ∈ announcedRows globalTtl now s) : ∃ ref, s.findThread row.2 = some ref ∧ s.activeOn row.2 = false ∧
      ∃ expiresAt, announced globalTtl now s row.2 = some expiresAt := by
  obtain ⟨ref,listed,found⟩ := List.mem_filterMap.mp member
  split at found
  · cases found
  · rename_i inactive
    obtain ⟨expiresAt,announced_,rfl⟩ := Option.map_eq_some_iff.mp found
    exact ⟨ref,find_distinct distinct listed,by simpa using inactive,expiresAt,announced_⟩

-- A sweep with nothing in between processes what the info has announced, in
-- order and up to its limit; and however many sweeps there are, a thread that
-- is only ever pruned is pruned once until it moves or its entry is replaced.
theorem sweep_exact (serde : Serde) (global : Option GlobalTtl) (clock : Nat → Int) (call : SweepArguments)
    (s : Runtime J) (forward : ∀ i j, i ≤ j → clock i ≤ clock j)
    (distinct : (s.store.liveThreads.map fun ref => (s.store.thread ref).threadId).Nodup)
    (valid : ∀ n, ∀ ref ∈ s.store.liveThreads, ∃ info,
      getTtl (global.map GlobalTtl.config) (clock n) s.store (s.store.thread ref).threadId = .ok info) :
    (∃ (ordered : List (Int × String)) (p : Progress J), ordered.Perm (announcedRows (global.map GlobalTtl.config) (clock 0) s.store) ∧ ordered.Pairwise Before ∧
      sweepTtl serde global clock call s = (p,none) ∧
      let goes := goesAt (global.map GlobalTtl.config) (clock 0) s.store
      let processed := (ordered.take (share (effectiveLimit global call.limit) ordered.length)).map Prod.snd
      Swept serde goes s processed p.runtime ∧ p.processed = processed.length ∧ p.deleted = (processed.filter goes).length) ∧
    ∀ (threadId : String) (start later : Runtime J) (prunings : Nat),
      PrunesOnly (global.map GlobalTtl.config) threadId start.store → Sweeps serde global threadId start prunings later →
      prunings ≤ 1 ∧ (prunings = 1 → ∀ now, announced (global.map GlobalTtl.config) now later.store threadId = none) := by
  refine ⟨?_,fun threadId start later prunings keeps sweeps => ?_⟩
  · have ordered := (List.perm_insertionSort Before (announcedRows (global.map GlobalTtl.config) (clock 0) s.store))
    refine ⟨byExpiry (announcedRows (global.map GlobalTtl.config) (clock 0) s.store),?_⟩
    by_cases nothing : call.limit.any (· ≤ 0) = true
    · have empty : share (effectiveLimit global call.limit)
          (byExpiry (announcedRows (global.map GlobalTtl.config) (clock 0) s.store)).length = 0 := by
        cases given : call.limit with
        | none => simp [given] at nothing
        | some limit =>
          have low : limit ≤ 0 := by simpa [given] using nothing
          simp [effectiveLimit,share,Int.toNat_of_nonpos low]
      refine ⟨⟨s,0,0,0,[]⟩,ordered,List.pairwise_insertionSort Before _,by simp [sweepTtl,nothing],?_⟩
      rw [empty]
      exact ⟨swept_nothing s,rfl,rfl⟩
    · obtain ⟨reads,rows⟩ := select_announced distinct valid s.store.liveThreads (fun _ member => member) 1
      have begun : Underway serde (goesAt (global.map GlobalTtl.config) (clock 0) s.store) s [] ⟨s,reads,0,0,[]⟩ :=
        ⟨swept_nothing s,rfl,rfl,rfl⟩
      have sublist : ((byExpiry (announcedRows (global.map GlobalTtl.config) (clock 0) s.store)).take
          (share (effectiveLimit global call.limit) (byExpiry (announcedRows (global.map GlobalTtl.config) (clock 0)
            s.store)).length)).Sublist (byExpiry (announcedRows (global.map GlobalTtl.config) (clock 0) s.store)) :=
        List.take_sublist _ _
      have once := (ordered.map Prod.snd).nodup_iff.mpr (announcedRows_ids distinct)
      obtain ⟨p,ran,done⟩ := batch_underway distinct valid forward begun ((sublist.map Prod.snd).nodup once)
        fun threadId member => by
          obtain ⟨row,taken,rfl⟩ := List.mem_map.mp member
          exact announcedRows_ready distinct (ordered.mem_iff.mp (sublist.mem taken))
      refine ⟨p,ordered,List.pairwise_insertionSort Before _,?_,done.swept,done.processed,done.deleted⟩
      have size : 0 < (max 1 call.batchSize).toNat := by omega
      unfold sweepTtl
      simp only [nothing,Bool.false_eq_true,↓reduceIte,rows]
      rw [sweepBatches_flatten,batches_flatten size,upTo_share]
      exact ran
  · have rest := sweeps_atRest keeps sweeps
    refine ⟨by rcases rest.2 with zero | ⟨once,_⟩ <;> omega,fun once now => ?_⟩
    rcases rest.2 with zero | ⟨_,rests⟩
    · omega
    · exact resting_announced rest.1 rests

-- Two threads without runs: one has a TTL of its own that deletes it, the other
-- one falls under the global TTL, which prunes.
def twoThreads : Runtime Unit :=
  let thread (threadId : String) : Thread Unit := ⟨threadId,.idle,Dict.empty,0,0,none,none,none,none⟩
  let store := (Store.empty.appendThread (thread "a")).appendThread (thread "b")
  ⟨{store with ttls := Dict.empty.insert "a" ⟨some "delete",some (some (.finite 1)),none⟩},⟨.empty,.empty,.empty,.clear⟩⟩

def prunesAll : GlobalTtl := ⟨⟨some "keep_latest",none,none,some (some (.finite 0))⟩,none⟩

theorem sweep_exact_two : ∃ (ordered : List (Int × String)) (p : Progress Unit),
    ordered.Perm [(60000000,"a"),(0,"b")] ∧ ordered.Pairwise Before ∧
    sweepTtl PruneHistory.toySerde (some prunesAll) (fun _ => 60000000) ⟨none,1⟩ twoThreads = (p,none) ∧ p.processed = 2 := by
  have expired : announcedRows (some prunesAll.config) 60000000 twoThreads.store = [(60000000,"a"),(0,"b")] := by
    decide +kernel
  have accepted : ∀ ref ∈ twoThreads.store.liveThreads, ∃ found, effectiveThreadTtl 60000000 (some prunesAll.config)
      twoThreads.store.ttls (twoThreads.store.thread ref).threadId = .ok found := by
    intro ref member
    obtain rfl | rfl : ref = 0 ∨ ref = 1 := by simpa using (show ref ∈ [0,1] from member)
    · exact ⟨(some ⟨.delete,1⟩,⟨some "delete",some (some (.finite 1)),none⟩),by decide +kernel⟩
    · exact ⟨(some ⟨.keepLatest,0⟩,⟨none,none,none⟩),by decide +kernel⟩
  obtain ⟨⟨ordered,p,listed,sorted,ran,_,processed,_⟩,_⟩ :=
    sweep_exact PruneHistory.toySerde (some prunesAll) (fun _ => 60000000) ⟨none,1⟩ twoThreads (fun _ _ _ => le_rfl)
      (by decide) fun _ ref member => by
        obtain ⟨found,effective⟩ := accepted ref member
        exact accepted_announced (find_distinct (by decide) member) effective (by
          obtain rfl | rfl : ref = 0 ∨ ref = 1 := by simpa using (show ref ∈ [0,1] from member)
          all_goals decide)
  have rows : ordered.Perm [(60000000,"a"),(0,"b")] := expired ▸ listed
  refine ⟨ordered,p,rows,sorted,ran,?_⟩
  rw [processed,List.length_map,List.length_take,rows.length_eq]
  rfl

end exactness

end InmemRuntime.SweepExactness
