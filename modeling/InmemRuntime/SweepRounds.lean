import InmemRuntime.SweepExactness
import InmemRuntime.Draining

namespace InmemRuntime.SweepRounds
open OrderedDict CheckpointData CheckpointSaver SizeTracking DeltaWalk Prune PruneExactness
open ThreadTtl RuntimeStore Serving ThreadOps TtlSweep
open RunDeletion (Runtime Untouched)
open SweepRun SweepRest SweepExactness

variable {J : Type}

section composing
variable {serde : Serde} {goes goes' : String → Bool} {s middle s' : Runtime J} {done more : List String}

-- A sweep after a sweep is one sweep over the threads of both.
theorem swept_trans (first : Swept serde goes s done middle) (second : Swept serde goes' middle more s') (fresh : ∀ id ∈ more, id ∉ done)
    (agree : ∀ id ∈ more, goes' id = goes id) : Swept serde goes s (done ++ more) s' := by
  have joined : ∀ id, (!(more.contains id && goes' id) && !(done.contains id && goes id)) = !((done ++ more).contains id && goes id) := by
    intro id
    by_cases late : id ∈ more
    · simp [late,agree id late,fresh id late]
    · simp [late]
  refine ⟨?_,second.records.trans first.records,?_,second.runRecords.trans first.runRecords,?_,fun id => ?_,fun id member gone => ?_,
    fun id member stays => ?_,fun id out => ?_⟩
  · rw [second.threads,first.threads,first.records,List.filter_filter]
    exact List.filter_congr fun ref _ => joined _
  · rw [second.runs,first.runs,first.runRecords,List.filter_filter]
    exact List.filter_congr fun ref _ => joined _
  · rw [second.crons,first.crons,List.filter_filter]
    exact List.filter_congr fun cron _ => joined _
  · rw [second.ttls id]
    by_cases late : id ∈ more
    · have same : marked middle.store id = marked s.store id := by
        unfold marked
        rw [first.ttls id,if_neg (fresh id late),swept_find first (fresh id late),first.records]
      rw [if_pos late,if_pos (List.mem_append_right _ late),agree id late,same]
    · rw [if_neg late,first.ttls id]
      simp [late]
  · by_cases late : id ∈ more
    · exact second.removed id late (agree id late ▸ gone)
    · have early := (List.mem_append.mp member).resolve_right late
      exact emptied_untouched (first.removed id early gone) (second.others id late)
  · by_cases late : id ∈ more
    · exact pruned_before (first.others id (fresh id late)) (second.pruned id late (agree id late ▸ stays))
    · have early := (List.mem_append.mp member).resolve_right late
      exact pruned_after (first.pruned id early stays) (second.others id late)
  · rw [List.mem_append,not_or] at out
    exact untouched_trans (first.others id out.1) (second.others id out.2)

end composing

section policies
variable (globalTtl : Option TtlConfig) (s : Store J) (id : String)

def stateOf : TtlState := (s.ttls.get? id).getD ⟨none,none,none⟩

def configOf : Option TtlConfig :=
  match (stateOf s id).ttlMinutes with
  | some minutes => some ⟨some ((stateOf s id).strategy.getD "delete"),none,some minutes,none⟩
  | none => globalTtl

-- The policy of a thread, whether or not its TTL is in the range of a `datetime`.
def policyOf : Option TtlPolicy :=
  (configOf globalTtl s id).bind fun config => (strategyOf (config.strategy.getD "delete")).bind fun strategy =>
    match chosenTtl config with
    | some (.finite minutes) => some ⟨strategy,minutes⟩
    | _ => none

-- When a sweep may process the thread.
def expiryOf : Option Int :=
  (s.findThread id).bind fun ref => (policyOf globalTtl s id).bind fun policy =>
    if policy.strategy == .keepLatest && alreadyPruned (s.thread ref) (stateOf s id) then none
    else some ((s.thread ref).updatedAt + timedelta policy.ttlMinutes)

def goes : Bool := (policyOf globalTtl s id).any fun policy => policy.strategy == .delete

-- The threads without active runs that have an expiry.
def waiting : List String :=
  (s.liveThreads.map fun ref => (s.thread ref).threadId).filter fun id => !s.activeOn id && (expiryOf globalTtl s id).isSome

variable {globalTtl s id}

theorem normalize_policy {now : Int} {config : Option TtlConfig} {policy : Option TtlPolicy} (normal : normalizeTtlConfig now config = .ok policy) :
    policy = config.bind fun config => (strategyOf (config.strategy.getD "delete")).bind fun strategy =>
      match chosenTtl config with
      | some (.finite minutes) => some ⟨strategy,minutes⟩
      | _ => none := by
  cases config with
  | none =>
    cases normal
    rfl
  | some config =>
    dsimp only [normalizeTtlConfig] at normal
    cases named : strategyOf (config.strategy.getD "delete") with
    | none => simp [named] at normal
    | some strategy =>
      rw [named] at normal
      simp only [Option.bind_some,named]
      cases chosen : chosenTtl config with
      | none =>
        rw [chosen] at normal
        cases normal
        rfl
      | some number =>
        rw [chosen] at normal
        cases number with
        | notNumber => cases normal
        | notFinite => cases normal
        | finite minutes =>
          dsimp only at normal ⊢
          split at normal
          · cases normal
          · split at normal
            · cases normal
            · cases normal
              rfl

theorem effective_config (globalTtl : Option TtlConfig) (s : Store J) (id : String) (now : Int) : effectiveThreadTtl now globalTtl s.ttls id =
    (normalizeTtlConfig now (configOf globalTtl s id)).map fun policy => (policy,stateOf s id) := by
  unfold effectiveThreadTtl
  dsimp only
  split
  · rename_i fault rejected
    rw [show normalizeTtlConfig now (configOf globalTtl s id) = .error fault from rejected]
    rfl
  · rename_i policy normal
    rw [show normalizeTtlConfig now (configOf globalTtl s id) = .ok policy from normal]
    rfl

theorem effective_policy {now : Int} {found : Option TtlPolicy × TtlState} (effective : effectiveThreadTtl now globalTtl s.ttls id = .ok found) :
    found = (policyOf globalTtl s id,stateOf s id) := by
  rw [effective_config] at effective
  obtain ⟨policy,normal,rfl⟩ := Outcomes.map_ok.mp effective
  rw [normalize_policy normal]
  rfl

-- What the info announces is the expiry, once it has passed.
theorem announced_expiry {now : Int} {info : Option TtlInfo} (answered : getTtl globalTtl now s id = .ok info) :
    announced globalTtl now s id = (expiryOf globalTtl s id).filter fun expiresAt => decide (expiresAt ≤ now) := by
  cases here : s.findThread id with
  | none => simp [announced,getTtl,expiryOf,here]
  | some ref =>
    have named : (s.thread ref).threadId = id := (Store.findThread_some here).2
    obtain ⟨found,effective,_⟩ := getTtl_effective here answered
    rw [announced_due here answered,due_verdict (named.symm ▸ effective),effective_policy effective]
    unfold verdict expiryOf
    rw [here]
    dsimp only [Option.bind_some]
    cases policyOf globalTtl s id with
    | none => rfl
    | some policy =>
      dsimp only [Option.bind_some]
      split
      · rfl
      · simp only [Option.filter,decide_eq_true_eq]
        split <;> rfl

theorem announced_goes {now expiresAt : Int} {info : Option TtlInfo} (answered : getTtl globalTtl now s id = .ok info)
    (past : announced globalTtl now s id = some expiresAt) : goesAt globalTtl now s id = goes globalTtl s id := by
  cases here : s.findThread id with
  | none => simp [announced,getTtl,here] at past
  | some ref =>
    have named : (s.thread ref).threadId = id := (Store.findThread_some here).2
    obtain ⟨found,effective,_⟩ := getTtl_effective here answered
    rw [announced_due here answered] at past
    obtain ⟨⟨policy,state⟩,hit,_⟩ := Option.map_eq_some_iff.mp past
    have strategy := strategyAt_due here answered hit
    rw [due_verdict (named.symm ▸ effective)] at hit
    have same : policyOf globalTtl s id = some policy :=
      congrArg Prod.fst ((effective_policy effective).symm.trans (verdict_policy hit))
    rw [goesAt,strategy,goes,same]
    rfl

theorem mem_announcedRows {now : Int}
    (valid : ∀ ref ∈ s.liveThreads, ∃ info, getTtl globalTtl now s (s.thread ref).threadId = .ok info) {row : Int × String} :
    row ∈ announcedRows globalTtl now s ↔ row.2 ∈ waiting globalTtl s ∧ expiryOf globalTtl s row.2 = some row.1 ∧ row.1 ≤ now := by
  obtain ⟨expiresAt,id⟩ := row
  simp only [announcedRows,waiting,List.mem_filterMap,List.mem_filter,List.mem_map,Bool.and_eq_true,Bool.not_eq_true']
  constructor
  · rintro ⟨ref,listed,found⟩
    split at found
    · cases found
    · rename_i idle
      obtain ⟨info,answered⟩ := valid ref listed
      obtain ⟨_,past,same⟩ := Option.map_eq_some_iff.mp found
      cases same
      rw [announced_expiry answered,Option.filter_eq_some_iff,decide_eq_true_eq] at past
      exact ⟨⟨⟨ref,listed,rfl⟩,by simpa using idle,by rw [past.1]; rfl⟩,past⟩
  · rintro ⟨⟨⟨ref,listed,rfl⟩,idle,_⟩,expiry,past⟩
    obtain ⟨info,answered⟩ := valid ref listed
    refine ⟨ref,listed,?_⟩
    rw [idle,announced_expiry answered,expiry]
    simp [past]

end policies

-- What is left to do when some threads have been processed.
section between
variable {serde : Serde} {globalTtl : Option TtlConfig} {start s : Runtime J} {done : List String} {id : String} {now : Int}
  (swept : Swept serde (goes globalTtl start.store) start done s)
include swept

theorem stateOf_swept (fresh : id ∉ done) : stateOf s.store id = stateOf start.store id := by
  rw [stateOf,swept.ttls,if_neg fresh]
  rfl

theorem policyOf_swept (fresh : id ∉ done) : policyOf globalTtl s.store id = policyOf globalTtl start.store id := by
  unfold policyOf configOf
  rw [stateOf_swept swept fresh]

theorem expiryOf_swept (fresh : id ∉ done) : expiryOf globalTtl s.store id = expiryOf globalTtl start.store id := by
  unfold expiryOf
  rw [swept_find swept fresh,policyOf_swept swept fresh,stateOf_swept swept fresh,swept.records]

theorem getTtl_swept (fresh : id ∉ done) : getTtl globalTtl now s.store id = getTtl globalTtl now start.store id := by
  unfold getTtl
  rw [swept_find swept fresh,swept_effective swept fresh,swept.records]

theorem find_stays (stays : goes globalTtl start.store id = false) : s.store.findThread id = start.store.findThread id := by
  unfold Store.findThread Store.isThread
  rw [swept.threads,swept.records,List.find?_filter]
  congr 1
  funext ref
  by_cases same : (start.store.thread ref).threadId = id
  · simp [same,stays]
  · simp [same]

-- A thread that was pruned has its policy still, and nothing to prune.
theorem pruned_state {ref : Nat} (member : id ∈ done) (stays : goes globalTtl start.store id = false)
    (here : start.store.findThread id = some ref) : configOf globalTtl s.store id = configOf globalTtl start.store id ∧
      alreadyPruned (s.store.thread ref) (stateOf s.store id) = true ∧
        ∀ policy, policyOf globalTtl s.store id = some policy → policy.strategy = .keepLatest := by
  have state : stateOf s.store id = {stateOf start.store id with lastSweptUpdatedAt := some (start.store.thread ref).updatedAt} := by
    rw [stateOf,swept.ttls,if_pos member,stays,marked,here]
    rfl
  have same : configOf globalTtl s.store id = configOf globalTtl start.store id := by
    unfold configOf
    rw [state]
  refine ⟨same,?_,fun policy found => ?_⟩
  · rw [state,swept.records]
    exact decide_eq_true (le_refl _)
  · rw [goes,policyOf,← same,← policyOf,found] at stays
    cases given : policy.strategy with
    | delete => simp [given] at stays
    | keepLatest => rfl

theorem waiting_swept : id ∈ waiting globalTtl s.store ↔ id ∈ waiting globalTtl start.store ∧ id ∉ done := by
  by_cases fresh : id ∈ done
  · refine ⟨fun waits => ?_,fun waits => absurd fresh waits.2⟩
    obtain ⟨listed,open_⟩ := List.mem_filter.mp waits
    obtain ⟨ref,live,named⟩ := List.mem_map.mp listed
    rw [swept.threads,List.mem_filter] at live
    rw [swept.records] at named
    have stays : goes globalTtl start.store id = false := by simpa [named,fresh] using live.2
    have expiry := (Bool.and_eq_true_iff.mp open_).2
    unfold expiryOf at expiry
    rw [find_stays swept stays] at expiry
    cases here : start.store.findThread id with
    | none => simp [here] at expiry
    | some ref =>
      obtain ⟨_,pruned,keeps⟩ := pruned_state swept fresh stays here
      cases policy : policyOf globalTtl s.store id with
      | none => simp [here,policy] at expiry
      | some policy_ => simp [here,policy,keeps policy_ policy,pruned] at expiry
  · simp only [waiting,List.mem_filter,List.mem_map,swept_active swept fresh,expiryOf_swept swept fresh,fresh,not_false_eq_true,and_true]
    refine and_congr_left fun _ => exists_congr fun ref => ?_
    rw [swept.threads,swept.records,List.mem_filter]
    refine and_congr_left fun named => ?_
    simp [named,fresh]

theorem distinct_swept (distinct : (start.store.liveThreads.map fun ref => (start.store.thread ref).threadId).Nodup) :
    (s.store.liveThreads.map fun ref => (s.store.thread ref).threadId).Nodup := by
  rw [swept.threads,swept.records]
  exact distinct.sublist (List.filter_sublist.map _)

theorem valid_swept (distinct : (start.store.liveThreads.map fun ref => (start.store.thread ref).threadId).Nodup)
    (valid : ∀ ref ∈ start.store.liveThreads, ∃ info, getTtl globalTtl now start.store (start.store.thread ref).threadId = .ok info) :
    ∀ ref ∈ s.store.liveThreads, ∃ info, getTtl globalTtl now s.store (s.store.thread ref).threadId = .ok info := by
  intro ref live
  rw [swept.threads,List.mem_filter] at live
  obtain ⟨listed,left⟩ := live
  obtain ⟨info,answered⟩ := valid ref listed
  rw [swept.records]
  by_cases fresh : (start.store.thread ref).threadId ∈ done
  · have stays : goes globalTtl start.store (start.store.thread ref).threadId = false := by simpa [fresh] using left
    have here := find_distinct distinct listed
    obtain ⟨same,pruned,keeps⟩ := pruned_state swept fresh stays here
    obtain ⟨found,effective,_⟩ := getTtl_effective here answered
    rw [effective_config] at effective
    obtain ⟨policy,normal,_⟩ := Outcomes.map_ok.mp effective
    have again : effectiveThreadTtl now globalTtl s.store.ttls (start.store.thread ref).threadId =
        .ok (policyOf globalTtl s.store (start.store.thread ref).threadId,stateOf s.store (start.store.thread ref).threadId) := by
      rw [effective_config,policyOf,same,← normalize_policy normal,normal]
      rfl
    unfold getTtl
    rw [find_stays swept stays,here]
    dsimp only
    rw [again]
    cases policy : policyOf globalTtl s.store (start.store.thread ref).threadId with
    | none => exact ⟨none,rfl⟩
    | some policy_ => simp [threadTtlInfo,pruned,keeps policy_ policy,Except.map]
  · rw [getTtl_swept swept fresh]
    exact ⟨info,answered⟩

end between

section sweeping
variable (serde : Serde) (global : Option GlobalTtl)

-- One sweep of the loop that sweeps again and again. Its clock does not go back,
-- and at each of its readings the info of every thread can be told.
structure Sweep (globalTtl : Option TtlConfig) (start : Store J) where
  clock : Nat → Int
  call : SweepArguments
  forward : ∀ i j, i ≤ j → clock i ≤ clock j
  valid : ∀ n, ∀ ref ∈ start.liveThreads, ∃ info, getTtl globalTtl (clock n) start (start.thread ref).threadId = .ok info

-- The threads that a sweep gets to.
def worked (s : Store J) (clock : Nat → Int) (call : SweepArguments) : List String :=
  (upTo (effectiveLimit global call.limit) (byExpiry (announcedRows (global.map GlobalTtl.config) (clock 0) s))).map Prod.snd

variable {global}

theorem sweep_swept {s : Runtime J} {clock : Nat → Int} (call : SweepArguments) (forward : ∀ i j, i ≤ j → clock i ≤ clock j)
    (distinct : (s.store.liveThreads.map fun ref => (s.store.thread ref).threadId).Nodup)
    (valid : ∀ n, ∀ ref ∈ s.store.liveThreads, ∃ info,
      getTtl (global.map GlobalTtl.config) (clock n) s.store (s.store.thread ref).threadId = .ok info) :
    (worked global s.store clock call).Nodup ∧ ∃ p, sweepTtl serde global clock call s = (p,none) ∧
      Swept serde (goesAt (global.map GlobalTtl.config) (clock 0) s.store) s (worked global s.store clock call) p.runtime := by
  have ordered := List.perm_insertionSort Before (announcedRows (global.map GlobalTtl.config) (clock 0) s.store)
  have inside : (upTo (effectiveLimit global call.limit) (byExpiry (announcedRows (global.map GlobalTtl.config) (clock 0) s.store))).Sublist
      (byExpiry (announcedRows (global.map GlobalTtl.config) (clock 0) s.store)) := by
    rw [upTo_share]
    exact List.take_sublist _ _
  have once : (worked global s.store clock call).Nodup :=
    (inside.map Prod.snd).nodup ((ordered.map Prod.snd).nodup_iff.mpr (announcedRows_ids distinct))
  refine ⟨once,?_⟩
  by_cases nothing : call.limit.any (· ≤ 0) = true
  · have empty : worked global s.store clock call = [] := by
      cases given : call.limit with
      | none => simp [given] at nothing
      | some limit =>
        have low : limit ≤ 0 := by simpa [given] using nothing
        simp [worked,effectiveLimit,upTo,given,Int.toNat_of_nonpos low]
    rw [empty]
    exact ⟨⟨s,0,0,0,[]⟩,by simp [sweepTtl,nothing],swept_nothing s⟩
  · obtain ⟨reads,rows⟩ := select_announced distinct valid s.store.liveThreads (fun _ member => member) 1
    have begun : Underway serde (goesAt (global.map GlobalTtl.config) (clock 0) s.store) s [] ⟨s,reads,0,0,[]⟩ :=
      ⟨swept_nothing s,rfl,rfl,rfl⟩
    obtain ⟨p,ran,ended⟩ := batch_underway distinct valid forward begun once fun id member => by
      obtain ⟨row,taken,rfl⟩ := List.mem_map.mp member
      exact announcedRows_ready distinct (ordered.mem_iff.mp (inside.subset taken))
    refine ⟨p,?_,ended.swept⟩
    have size : 0 < (max 1 call.batchSize).toNat := by omega
    unfold sweepTtl
    simp only [nothing,Bool.false_eq_true,↓reduceIte,rows]
    rw [sweepBatches_flatten,batches_flatten size]
    exact ran

-- Sweeps with nothing in between; the runtime goes with the threads so far.
def sweepOnce (start : Runtime J) (s : Runtime J × List String) (sweep : Sweep (global.map GlobalTtl.config) start.store) :
    (Runtime J × List String) × List String :=
  (((sweepTtl serde global sweep.clock sweep.call s.1).1.runtime,s.2 ++ worked global s.1.store sweep.clock sweep.call),
    worked global s.1.store sweep.clock sweep.call)

def unswept (globalTtl : Option TtlConfig) (start : Store J) (s : Runtime J × List String) : Finset String :=
  (waiting globalTtl start).toFinset \ s.2.toFinset

def Sooner (globalTtl : Option TtlConfig) (start : Store J) (a b : String) : Prop :=
  ∀ x y, expiryOf globalTtl start a = some x → expiryOf globalTtl start b = some y → Before (x,a) (y,b)

structure Going (globalTtl : Option TtlConfig) (start : Runtime J) (s : Runtime J × List String) : Prop where
  swept : Swept serde (goes globalTtl start.store) start s.2 s.1
  inside : ∀ id ∈ s.2, id ∈ waiting globalTtl start.store

variable {start : Runtime J} {s : Runtime J × List String}

theorem row_of_worked {s : Store J} {clock : Nat → Int} {call : SweepArguments} {id : String} (member : id ∈ worked global s clock call) :
    ∃ row ∈ upTo (effectiveLimit global call.limit) (byExpiry (announcedRows (global.map GlobalTtl.config) (clock 0) s)),
      row.2 = id ∧ row ∈ announcedRows (global.map GlobalTtl.config) (clock 0) s := by
  obtain ⟨row,taken,same⟩ := List.mem_map.mp member
  refine ⟨row,taken,same,?_⟩
  rw [upTo_share] at taken
  exact (List.perm_insertionSort Before _).mem_iff.mp (List.mem_of_mem_take taken)

section one
variable (distinct : (start.store.liveThreads.map fun ref => (start.store.thread ref).threadId).Nodup)
  (going : Going serde (global.map GlobalTtl.config) start s) (sweep : Sweep (global.map GlobalTtl.config) start.store)
include distinct going

theorem mem_rows {row : Int × String} : row ∈ announcedRows (global.map GlobalTtl.config) (sweep.clock 0) s.1.store ↔
    row.2 ∈ unswept (global.map GlobalTtl.config) start.store s ∧
      expiryOf (global.map GlobalTtl.config) start.store row.2 = some row.1 ∧ row.1 ≤ sweep.clock 0 := by
  rw [mem_announcedRows (valid_swept going.swept distinct (sweep.valid 0)),waiting_swept going.swept,unswept,Finset.mem_sdiff,
    List.mem_toFinset,List.mem_toFinset]
  refine and_congr_right fun known => ?_
  rw [expiryOf_swept going.swept known.2]

theorem worked_inside {id : String} (member : id ∈ worked global s.1.store sweep.clock sweep.call) :
    id ∈ unswept (global.map GlobalTtl.config) start.store s := by
  obtain ⟨row,_,rfl,listed⟩ := row_of_worked member
  exact ((mem_rows serde distinct going sweep).mp listed).1

theorem worked_goes {id : String} (member : id ∈ worked global s.1.store sweep.clock sweep.call) :
    goesAt (global.map GlobalTtl.config) (sweep.clock 0) s.1.store id = goes (global.map GlobalTtl.config) start.store id := by
  have fresh := worked_inside serde distinct going sweep member
  rw [unswept,Finset.mem_sdiff,List.mem_toFinset,List.mem_toFinset] at fresh
  obtain ⟨row,_,rfl,listed⟩ := row_of_worked member
  obtain ⟨ref,here,_,expiresAt,past⟩ := announcedRows_ready (distinct_swept going.swept distinct) listed
  obtain ⟨live,named⟩ := Store.findThread_some here
  obtain ⟨info,answered⟩ := valid_swept going.swept distinct (sweep.valid 0) ref live
  rw [named] at answered
  rw [announced_goes answered past,goes,policyOf_swept going.swept fresh.2]
  rfl

theorem once_going : Going serde (global.map GlobalTtl.config) start (sweepOnce serde start s sweep).1 := by
  obtain ⟨_,p,ran,did⟩ := sweep_swept serde sweep.call sweep.forward (distinct_swept going.swept distinct)
    fun n => valid_swept going.swept distinct (sweep.valid n)
  have inside : ∀ id ∈ worked global s.1.store sweep.clock sweep.call, id ∈ waiting (global.map GlobalTtl.config) start.store ∧ id ∉ s.2 := by
    intro id member
    have fresh := worked_inside serde distinct going sweep member
    rwa [unswept,Finset.mem_sdiff,List.mem_toFinset,List.mem_toFinset] at fresh
  refine ⟨?_,fun id member => ?_⟩
  · rw [sweepOnce,ran]
    exact swept_trans going.swept did (fun id member => (inside id member).2) fun id member => worked_goes serde distinct going sweep member
  · rcases List.mem_append.mp member with early | late
    · exact going.inside id early
    · exact (inside id late).1

-- What a sweep leaves has not expired by then or comes after its share.
theorem left_out {id : String} {expiresAt : Int} (waits : id ∈ unswept (global.map GlobalTtl.config) start.store (sweepOnce serde start s sweep).1)
    (expires : expiryOf (global.map GlobalTtl.config) start.store id = some expiresAt) (past : expiresAt ≤ sweep.clock 0) :
    ∃ limit, effectiveLimit global sweep.call.limit = some limit ∧ (expiresAt,id) ∈
      (byExpiry (announcedRows (global.map GlobalTtl.config) (sweep.clock 0) s.1.store)).drop limit := by
  rw [unswept,Finset.mem_sdiff,List.mem_toFinset,List.mem_toFinset] at waits
  obtain ⟨waits,out⟩ := waits
  obtain ⟨early,late⟩ := not_or.mp fun member => out (List.mem_append.mpr member)
  have listed : (expiresAt,id) ∈ byExpiry (announcedRows (global.map GlobalTtl.config) (sweep.clock 0) s.1.store) := by
    refine (List.perm_insertionSort Before _).mem_iff.mpr ((mem_rows serde distinct going sweep).mpr ⟨?_,expires,past⟩)
    rw [unswept,Finset.mem_sdiff,List.mem_toFinset,List.mem_toFinset]
    exact ⟨waits,early⟩
  cases limit : effectiveLimit global sweep.call.limit with
  | none =>
    refine absurd (List.mem_map.mpr ⟨(expiresAt,id),?_,rfl⟩) late
    rw [limit]
    exact listed
  | some limit_ =>
    refine ⟨limit_,rfl,?_⟩
    rw [← List.take_append_drop limit_ (byExpiry _)] at listed
    refine (List.mem_append.mp listed).resolve_left fun taken => late (List.mem_map.mpr ⟨(expiresAt,id),?_,rfl⟩)
    rw [limit]
    exact taken

theorem once_takes : Draining.Takes (unswept (global.map GlobalTtl.config) start.store) (Sooner (global.map GlobalTtl.config) start.store) s
    (sweepOnce serde start s sweep) := by
  obtain ⟨once,_⟩ := sweep_swept serde sweep.call sweep.forward (distinct_swept going.swept distinct)
    fun n => valid_swept going.swept distinct (sweep.valid n)
  have sorted : (byExpiry (announcedRows (global.map GlobalTtl.config) (sweep.clock 0) s.1.store)).Pairwise Before :=
    List.pairwise_insertionSort Before _
  have expiry : ∀ row ∈ announcedRows (global.map GlobalTtl.config) (sweep.clock 0) s.1.store, ∀ x,
      expiryOf (global.map GlobalTtl.config) start.store row.2 = some x → row.1 = x := fun row listed x expires =>
    Option.some.inj ((((mem_rows serde distinct going sweep).mp listed).2.1).symm.trans expires)
  refine ⟨once,fun id member => worked_inside serde distinct going sweep member,?_,?_,fun id member other left x y first second => ?_⟩
  · simp only [unswept,sweepOnce,List.toFinset_append]
    exact sdiff_sdiff_left.symm
  · have inside : (upTo (effectiveLimit global sweep.call.limit)
        (byExpiry (announcedRows (global.map GlobalTtl.config) (sweep.clock 0) s.1.store))).Sublist
        (byExpiry (announcedRows (global.map GlobalTtl.config) (sweep.clock 0) s.1.store)) := by
      rw [upTo_share]
      exact List.take_sublist _ _
    refine List.pairwise_map.mpr (List.Pairwise.imp_of_mem (fun {a b} here there before x y first second => ?_) (sorted.sublist inside))
    have listed : ∀ row ∈ upTo (effectiveLimit global sweep.call.limit)
        (byExpiry (announcedRows (global.map GlobalTtl.config) (sweep.clock 0) s.1.store)),
        row ∈ announcedRows (global.map GlobalTtl.config) (sweep.clock 0) s.1.store := fun row taken =>
      (List.perm_insertionSort Before _).mem_iff.mp (inside.subset taken)
    rw [← expiry a (listed a here) x first,← expiry b (listed b there) y second]
    exact before
  · obtain ⟨row,taken,rfl,listed⟩ := row_of_worked member
    obtain ⟨_,_,past⟩ := (mem_rows serde distinct going sweep).mp listed
    rw [← expiry row listed x first]
    by_cases due : y ≤ sweep.clock 0
    · obtain ⟨limit,bounded,behind⟩ := left_out serde distinct going sweep left second due
      rw [bounded] at taken
      rw [← List.take_append_drop limit (byExpiry _)] at sorted
      exact (List.pairwise_append.mp sorted).2.2 row taken (y,other) behind
    · exact .inl (by dsimp only; omega)

-- A sweep with room for `width` threads that leaves an expired one has used it.
theorem once_works {since : Int} {width : Nat} (late : since ≤ sweep.clock 0)
    (room : ∀ limit, effectiveLimit global sweep.call.limit = some limit → width ≤ limit)
    (left : ∃ id ∈ unswept (global.map GlobalTtl.config) start.store (sweepOnce serde start s sweep).1,
      ∃ expiresAt ≤ since, expiryOf (global.map GlobalTtl.config) start.store id = some expiresAt) :
    width ≤ (sweepOnce serde start s sweep).2.length := by
  obtain ⟨id,waits,expiresAt,past,expires⟩ := left
  obtain ⟨limit,bounded,behind⟩ := left_out serde distinct going sweep waits expires (le_trans past late)
  have longer : limit < (byExpiry (announcedRows (global.map GlobalTtl.config) (sweep.clock 0) s.1.store)).length := by
    have some_ := List.length_pos_of_mem behind
    rw [List.length_drop] at some_
    omega
  rw [sweepOnce,worked,List.length_map,bounded,upTo,List.length_take,Nat.min_eq_left longer.le]
  exact room limit bounded

end one

def opens {globalTtl : Option TtlConfig} {start : Store J} (global : Option GlobalTtl) (since : Int) (width : Nat)
    (sweep : Sweep globalTtl start) : Bool :=
  decide (since ≤ sweep.clock 0) && (effectiveLimit global sweep.call.limit).all fun limit => decide (width ≤ limit)

-- What a row of sweeps has done: it is one sweep over all the threads that they
-- processed, each of them once and in the order of their expiry.
structure Converged (globalTtl : Option TtlConfig) (start : Runtime J) (result : (Runtime J × List String) × List String) : Prop where
  swept : Swept serde (goes globalTtl start.store) start result.2 result.1.1
  once : result.2.Nodup
  inside : ∀ id ∈ result.2, id ∈ waiting globalTtl start.store
  order : result.2.Pairwise (Sooner globalTtl start.store)
  ahead : ∀ id ∈ result.2, ∀ other ∈ waiting globalTtl start.store, other ∉ result.2 → Sooner globalTtl start.store id other

theorem swept_log (start : Runtime J) (s : Runtime J × List String) (sweeps : List (Sweep (global.map GlobalTtl.config) start.store)) :
    (Draining.rounds (sweepOnce serde start) s sweeps).1.2 = s.2 ++ (Draining.rounds (sweepOnce serde start) s sweeps).2 := by
  induction sweeps generalizing s with
  | nil => exact (List.append_nil _).symm
  | cons sweep sweeps ih =>
    change (Draining.rounds (sweepOnce serde start) (sweepOnce serde start s sweep).1 sweeps).1.2 = _
    rw [ih]
    exact List.append_assoc _ _ _

theorem sweeps_converge (serde : Serde) (global : Option GlobalTtl) (start : Runtime J)
    (distinct : (start.store.liveThreads.map fun ref => (start.store.thread ref).threadId).Nodup)
    (sweeps : List (Sweep (global.map GlobalTtl.config) start.store)) (since : Int) (width : Nat) :
    Converged serde (global.map GlobalTtl.config) start (Draining.rounds (sweepOnce serde start) (start,[]) sweeps) ∧
      ((waiting (global.map GlobalTtl.config) start.store).length ≤ width * (sweeps.filter (opens global since width)).length →
        ∀ id ∈ waiting (global.map GlobalTtl.config) start.store, ∀ expiresAt ≤ since,
          expiryOf (global.map GlobalTtl.config) start.store id = some expiresAt →
            id ∈ (Draining.rounds (sweepOnce serde start) (start,[]) sweeps).2) := by
  have begins : Going serde (global.map GlobalTtl.config) start (start,[]) := ⟨swept_nothing start,by simp⟩
  have keeps : ∀ s sweep, Going serde (global.map GlobalTtl.config) start s →
      Going serde (global.map GlobalTtl.config) start (sweepOnce serde start s sweep).1 ∧
        Draining.Takes (unswept (global.map GlobalTtl.config) start.store) (Sooner (global.map GlobalTtl.config) start.store) s
          (sweepOnce serde start s sweep) :=
    fun s sweep going => ⟨once_going serde distinct going sweep,once_takes serde distinct going sweep⟩
  obtain ⟨ends,takes⟩ := Draining.rounds_take keeps sweeps begins
  have log := swept_log serde start (start,[]) sweeps
  rw [List.nil_append] at log
  have left : ∀ id, id ∈ unswept (global.map GlobalTtl.config) start.store (Draining.rounds (sweepOnce serde start) (start,[]) sweeps).1 ↔
      id ∈ waiting (global.map GlobalTtl.config) start.store ∧ id ∉ (Draining.rounds (sweepOnce serde start) (start,[]) sweeps).2 := by
    intro id
    rw [unswept,log,Finset.mem_sdiff,List.mem_toFinset,List.mem_toFinset]
  refine ⟨⟨log ▸ ends.swept,takes.once,fun id member => ends.inside id (log ▸ member),takes.order,
    fun id member other waits out => takes.ahead id member other ((left other).mpr ⟨waits,out⟩)⟩,fun enough id waits expiresAt past expires => ?_⟩
  have progress : ∀ s (sweep : Sweep (global.map GlobalTtl.config) start.store), Going serde (global.map GlobalTtl.config) start s → opens global since width sweep = true →
      (∃ id ∈ unswept (global.map GlobalTtl.config) start.store (sweepOnce serde start s sweep).1,
        ∃ expiresAt ≤ since, expiryOf (global.map GlobalTtl.config) start.store id = some expiresAt) →
      width ≤ (sweepOnce serde start s sweep).2.length := by
    intro s sweep going opened left_
    obtain ⟨late,room⟩ := Bool.and_eq_true_iff.mp opened
    refine once_works serde distinct going sweep (of_decide_eq_true late) (fun limit bounded => ?_) left_
    rw [bounded] at room
    exact of_decide_eq_true room
  have fits : (unswept (global.map GlobalTtl.config) start.store (start,[])).card ≤
      width * Draining.count (sweepOnce serde start) (fun _ => opens global since width) (start,[]) sweeps := by
    rw [Draining.count_steady,unswept,List.toFinset_nil,Finset.sdiff_empty]
    exact le_trans (List.toFinset_card_le _) enough
  by_contra missed
  exact Draining.rounds_finish (fun _ => opens global since width)
    (fun id => ∃ expiresAt ≤ since, expiryOf (global.map GlobalTtl.config) start.store id = some expiresAt) width keeps progress
    begins fits id ((left id).mpr ⟨waits,missed⟩) ⟨expiresAt,past,expires⟩

end sweeping

-- Two threads that have expired, and room for one of them in each sweep.
section toy

def oneEach : Sweep (some prunesAll.config) twoThreads.store where
  clock _ := 60000000
  call := ⟨some 1,1⟩
  forward _ _ _ := le_rfl
  valid _ ref member := by
    have listed : ref = 0 ∨ ref = 1 := by simpa using (show ref ∈ [0,1] from member)
    have accepted : ∃ found, effectiveThreadTtl 60000000 (some prunesAll.config) twoThreads.store.ttls
        (twoThreads.store.thread ref).threadId = .ok found := by
      obtain rfl | rfl := listed
      · exact ⟨(some ⟨.delete,1⟩,⟨some "delete",some (some (.finite 1)),none⟩),by decide +kernel⟩
      · exact ⟨(some ⟨.keepLatest,0⟩,⟨none,none,none⟩),by decide +kernel⟩
    obtain ⟨found,effective⟩ := accepted
    refine accepted_announced (find_distinct (by decide) member) effective ?_
    obtain rfl | rfl := listed <;> decide

abbrev bothSweeps : (Runtime Unit × List String) × List String :=
  Draining.rounds (fun s (sweep : Sweep ((some prunesAll).map GlobalTtl.config) twoThreads.store) =>
    sweepOnce PruneHistory.toySerde twoThreads s sweep) (twoThreads,[]) [oneEach,oneEach]

theorem sweeps_converge_two :
    Converged PruneHistory.toySerde (some prunesAll.config) twoThreads bothSweeps ∧ "a" ∈ bothSweeps.2 ∧ "b" ∈ bothSweeps.2 := by
  obtain ⟨converged,finishes⟩ := sweeps_converge PruneHistory.toySerde (some prunesAll) twoThreads (by decide) [oneEach,oneEach] 60000000 1
  have waits : waiting (some prunesAll.config) twoThreads.store = ["a","b"] := by decide +kernel
  have first : expiryOf (some prunesAll.config) twoThreads.store "a" = some 60000000 := by decide +kernel
  have second : expiryOf (some prunesAll.config) twoThreads.store "b" = some 0 := by decide +kernel
  have all := finishes (by decide +kernel)
  have a : "a" ∈ waiting (some prunesAll.config) twoThreads.store := by rw [waits]; simp
  have b : "b" ∈ waiting (some prunesAll.config) twoThreads.store := by rw [waits]; simp
  exact ⟨converged,all "a" a _ le_rfl first,all "b" b 0 (by decide) second⟩

end toy
end InmemRuntime.SweepRounds
