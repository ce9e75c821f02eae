import InmemRuntime.PruneExactness
import InmemRuntime.TtlSweep

namespace InmemRuntime.SweepRun
open OrderedDict CheckpointData CheckpointSaver SizeTracking DeltaWalk Prune PruneExactness
open ThreadTtl RuntimeStore Serving ThreadOps TtlSweep
open RunDeletion (Runtime)

variable {J : Type}

section announcing

structure TtlInfo where
  strategy : Strategy
  ttlMinutes : Rat
  expiresAt : Option Int
deriving DecidableEq,Repr

-- `updated_at + timedelta(minutes=...)`, which may raise `OverflowError`.
def expiry (updatedAt : Int) (ttlMinutes : Rat) : Except Fault Int :=
  if datetimeMax < updatedAt + timedelta ttlMinutes then .error .external else .ok (updatedAt + timedelta ttlMinutes)

def alreadyPruned (thread : Thread J) (state : TtlState) : Bool :=
  match state.lastSweptUpdatedAt with
  | some last => decide (thread.updatedAt ≤ last)
  | none => false

-- `_thread_ttl_info`.
def threadTtlInfo (thread : Thread J) (policy : TtlPolicy) (state : TtlState) : Except Fault TtlInfo :=
  if alreadyPruned thread state && policy.strategy == .keepLatest then .ok ⟨policy.strategy,policy.ttlMinutes,none⟩
  else (expiry thread.updatedAt policy.ttlMinutes).map fun expiresAt => ⟨policy.strategy,policy.ttlMinutes,some expiresAt⟩

-- The `ttl` in the answer of `Threads.get(include_ttl=True)` to a caller that
-- may read the thread.
def getTtl (globalTtl : Option TtlConfig) (now : Int) (s : Store J) (threadId : String) : Except Fault (Option TtlInfo) :=
  match s.findThread threadId with
  | none => .error (threadNotFound threadId)
  | some ref =>
    match effectiveThreadTtl now globalTtl s.ttls threadId with
    | .error fault => .error fault
    | .ok (none,_) => .ok none
    | .ok (some policy,state) => (threadTtlInfo (s.thread ref) policy state).map some

end announcing

section sweeping

-- What the sweep reads of `THREAD_TTL`; `sweep_limit` may be `None`.
structure GlobalTtl where
  config : TtlConfig
  sweepLimit : Option (Option Int)

structure SweepArguments where
  limit : Option Int
  batchSize : Int

-- A sweep on its way: the readings of the clock so far, the two counters, and
-- the threads that `aprune` was called for.
structure Progress (J : Type) where
  runtime : Runtime J
  reads : Nat
  processed : Nat
  deleted : Nat
  pruned : List String

def effectiveLimit (global : Option GlobalTtl) (limit : Option Int) : Option Nat :=
  let configured := (global.bind GlobalTtl.sweepLimit).getD (some 10000)
  (limit.or configured).map Int.toNat

-- The slices `expired[offset : offset + batch_size]`, of which there are at most `fuel`.
def slices {α : Type} (size : Nat) : Nat → List α → List (List α)
  | 0,_ => []
  | fuel+1,items => if items.isEmpty then [] else items.take size :: slices size fuel (items.drop size)

def batches {α : Type} (size : Nat) (items : List α) : List (List α) := slices size items.length items

variable (serde : Serde) (globalTtl : Option TtlConfig) (clock : Nat → Int)

-- What selection and revalidation both ask of a thread. The policy is read at
-- one time and compared at another.
def eligible (s : Store J) (configured now : Int) (thread : Thread J) : Except Fault (Option (TtlPolicy × TtlState)) :=
  match effectiveThreadTtl configured globalTtl s.ttls thread.threadId with
  | .error (.http _) => .ok none
  | .error .external => .error .external
  | .ok (none,_) => .ok none
  | .ok (some policy,state) =>
    if policy.strategy == .keepLatest && alreadyPruned thread state then .ok none
    else (expiry thread.updatedAt policy.ttlMinutes).map fun expiresAt =>
      if expiresAt ≤ now then some (policy,state) else none

-- The loop that fills `expired`, from a reading of the clock on.
def select (s : Store J) (now : Int) : Nat → List Nat → Except Fault (List (Int × String) × Nat)
  | reads,[] => .ok ([],reads)
  | reads,ref :: rest =>
    if s.activeOn (s.thread ref).threadId then select s now reads rest
    else do
      let hit ← eligible globalTtl s (clock reads) now (s.thread ref)
      let later ← select s now (reads + 1) rest
      let row := hit.map fun found => ((s.thread ref).updatedAt + timedelta found.1.ttlMinutes,(s.thread ref).threadId)
      return (row.toList ++ later.1,later.2)

-- `Threads.delete` without an auth context, and the ids that it yields.
def deleteExpired (s : Runtime J) (threadId : String) : Except Fault (Runtime J × List String) :=
  match s.store.findThread threadId with
  | none => .error (threadNotFound threadId)
  | some ref => .ok (⟨removeThread s.store threadId ref,RunDeletion.deleteCheckpoints serde s.saver threadId none⟩,[threadId])

-- One thread's turn under the marker, which no other sweep holds.
def turn (s : Progress J) (threadId : String) : Progress J × Option Fault :=
  match s.runtime.store.findThread threadId with
  | none => (s,none)
  | some ref =>
    if s.runtime.store.activeOn threadId then (s,none)
    else match eligible globalTtl s.runtime.store (clock s.reads) (clock (s.reads + 1)) (s.runtime.store.thread ref) with
      | .error fault => (s,some fault)
      | .ok none => ({s with reads := s.reads + 2},none)
      | .ok (some (policy,state)) =>
        match policy.strategy with
        | .delete =>
          match deleteExpired serde s.runtime threadId with
          | .ok (runtime,ids) =>
            ({s with runtime,reads := s.reads + 2,processed := s.processed + ids.length,deleted := s.deleted + ids.length},none)
          | .error (.http exception) =>
            ({s with reads := s.reads + 2},if exception.statusCode = 404 then none else some (.http exception))
          | .error .external => ({s with reads := s.reads + 2},some .external)
        | .keepLatest =>
          match prune (max 0) serde s.runtime.saver [threadId] "keep_latest" with
          | .error _ => ({s with reads := s.reads + 2,pruned := s.pruned ++ [threadId]},some .external)
          | .ok saver =>
            let updatedAt := (s.runtime.store.thread ref).updatedAt
            let runtime : Runtime J := ⟨markSwept s.runtime.store threadId state updatedAt,saver⟩
            ({s with runtime,reads := s.reads + 2,processed := s.processed + 1,pruned := s.pruned ++ [threadId]},none)

def sweepBatch (s : Progress J) : List String → Progress J × Option Fault
  | [] => (s,none)
  | threadId :: rest =>
    match turn serde globalTtl clock s threadId with
    | (s,some fault) => (s,some fault)
    | (s,none) => sweepBatch s rest

def sweepBatches (s : Progress J) : List (List String) → Progress J × Option Fault
  | [] => (s,none)
  | batch :: rest =>
    match sweepBatch serde globalTtl clock s batch with
    | (s,some fault) => (s,some fault)
    | (s,none) => sweepBatches s rest

def byExpiry (rows : List (Int × String)) : List (Int × String) :=
  rows.insertionSort fun a b => a.1 < b.1 ∨ (a.1 = b.1 ∧ a.2 ≤ b.2)

def upTo {α : Type} (limit : Option Nat) (items : List α) : List α :=
  match limit with
  | none => items
  | some limit => items.take limit

end sweeping

-- `Threads.sweep_ttl` from its start to its end. The first reading of the clock
-- is `now`.
def sweepTtl (serde : Serde) (global : Option GlobalTtl) (clock : Nat → Int) (call : SweepArguments) (s : Runtime J) :
    Progress J × Option Fault :=
  let start : Progress J := ⟨s,0,0,0,[]⟩
  let globalTtl := global.map GlobalTtl.config
  if call.limit.any (· ≤ 0) then (start,none)
  else match select globalTtl clock s.store (clock 0) 1 s.store.liveThreads with
    | .error fault => (start,some fault)
    | .ok (found,reads) =>
      let expired := upTo (effectiveLimit global call.limit) (byExpiry found)
      sweepBatches serde globalTtl clock {start with reads} (batches (max 1 call.batchSize).toNat (expired.map Prod.snd))

-- When the info says that the thread has expired by now.
def announced (globalTtl : Option TtlConfig) (now : Int) (s : Store J) (threadId : String) : Option Int :=
  match getTtl globalTtl now s threadId with
  | .ok (some info) => info.expiresAt.filter fun expiresAt => decide (expiresAt ≤ now)
  | _ => none

def strategyAt (globalTtl : Option TtlConfig) (now : Int) (s : Store J) (threadId : String) : Option Strategy :=
  match getTtl globalTtl now s threadId with
  | .ok (some info) => some info.strategy
  | _ => none

def goesAt (globalTtl : Option TtlConfig) (now : Int) (s : Store J) (threadId : String) : Bool :=
  strategyAt globalTtl now s threadId == some .delete

def announcedRows (globalTtl : Option TtlConfig) (now : Int) (s : Store J) : List (Int × String) :=
  s.liveThreads.filterMap fun ref =>
    if s.activeOn (s.thread ref).threadId then none
    else (announced globalTtl now s (s.thread ref).threadId).map fun expiresAt => (expiresAt,(s.thread ref).threadId)

section steadiness
variable {globalTtl : Option TtlConfig}

theorem normalize_steady {now later : Int} {config : Option TtlConfig} {policy policy' : Option TtlPolicy}
    (first : normalizeTtlConfig now config = .ok policy) (second : normalizeTtlConfig later config = .ok policy') :
    policy' = policy := by
  cases config with
  | none =>
    cases first
    cases second
    rfl
  | some config =>
    dsimp only [normalizeTtlConfig] at first second
    cases named : strategyOf (config.strategy.getD "delete") with
    | none => simp [named] at first
    | some strategy =>
      rw [named] at first second
      cases chosen : chosenTtl config with
      | none =>
        rw [chosen] at first second
        cases first
        cases second
        rfl
      | some number =>
        rw [chosen] at first second
        cases number with
        | notNumber => cases first
        | notFinite => cases first
        | finite minutes =>
          dsimp only at first second
          split at first
          · cases first
          · split at first
            · cases first
            · split at second
              · cases second
              · split at second
                · cases second
                · cases first
                  cases second
                  rfl

theorem normalize_range {now : Int} {config : Option TtlConfig} {policy : TtlPolicy}
    (accepted : normalizeTtlConfig now config = .ok (some policy)) : now + timedelta policy.ttlMinutes ≤ datetimeMax := by
  cases config with
  | none => cases accepted
  | some config =>
    dsimp only [normalizeTtlConfig] at accepted
    split at accepted
    · cases accepted
    · split at accepted
      · cases accepted
      · cases accepted
      · cases accepted
      · split at accepted
        · cases accepted
        · split at accepted
          · cases accepted
          · cases accepted
            exact not_lt.mp ‹_›

theorem effective_steady {now later : Int} {ttls : Dict String TtlState} {threadId : String}
    {found found' : Option TtlPolicy × TtlState} (first : effectiveThreadTtl now globalTtl ttls threadId = .ok found)
    (second : effectiveThreadTtl later globalTtl ttls threadId = .ok found') : found' = found := by
  unfold effectiveThreadTtl at first second
  dsimp only at first second
  split at first
  · cases first
  · rename_i accepted
    split at second
    · cases second
    · rename_i accepted'
      cases first
      cases second
      rw [normalize_steady accepted accepted']

theorem effective_congr {now : Int} {ttls ttls' : Dict String TtlState} {threadId : String}
    (same : ttls'.get? threadId = ttls.get? threadId) :
    effectiveThreadTtl now globalTtl ttls' threadId = effectiveThreadTtl now globalTtl ttls threadId := by
  unfold effectiveThreadTtl
  rw [same]

-- Whether a thread with this policy and entry is due.
def verdict (now : Int) (thread : Thread J) (found : Option TtlPolicy × TtlState) : Option (TtlPolicy × TtlState) :=
  found.1.bind fun policy =>
    if policy.strategy == .keepLatest && alreadyPruned thread found.2 then none
    else if thread.updatedAt + timedelta policy.ttlMinutes ≤ now then some (policy,found.2) else none

-- The expiry is a time that a `datetime` can hold, unless nobody asks for it.
def Representable (thread : Thread J) (found : Option TtlPolicy × TtlState) : Prop :=
  ∀ policy ∈ found.1, (policy.strategy == .keepLatest && alreadyPruned thread found.2) = true ∨
    thread.updatedAt + timedelta policy.ttlMinutes ≤ datetimeMax

theorem verdict_later {now later : Int} {thread : Thread J} {found : Option TtlPolicy × TtlState}
    {hit : TtlPolicy × TtlState} (due_ : verdict now thread found = some hit) (passes : now ≤ later) :
    verdict later thread found = some hit := by
  obtain ⟨policy,state⟩ := found
  cases policy with
  | none => cases due_
  | some policy =>
    simp only [verdict,Option.bind_some] at due_ ⊢
    split at due_
    · cases due_
    · rename_i open_
      split at due_
      · rename_i past
        rw [if_neg open_,if_pos (by omega),due_]
      · cases due_

theorem due_verdict {s : Store J} {now : Int} {thread : Thread J} {found : Option TtlPolicy × TtlState}
    (effective : effectiveThreadTtl now globalTtl s.ttls thread.threadId = .ok found) :
    due globalTtl s now thread = verdict now thread found := by
  obtain ⟨policy,state⟩ := found
  unfold due
  rw [effective]
  cases policy with
  | none => rfl
  | some policy =>
    dsimp only [verdict,Option.bind_some]
    unfold alreadyPruned
    cases state.lastSweptUpdatedAt with
    | none => simp
    | some last => rfl

theorem eligible_verdict {s : Store J} {configured now : Int} {thread : Thread J} {found : Option TtlPolicy × TtlState}
    (effective : effectiveThreadTtl configured globalTtl s.ttls thread.threadId = .ok found)
    (range : Representable thread found) : eligible globalTtl s configured now thread = .ok (verdict now thread found) := by
  obtain ⟨policy,state⟩ := found
  unfold eligible
  rw [effective]
  cases policy with
  | none => rfl
  | some policy =>
    simp only [verdict,Option.bind_some]
    cases closed : policy.strategy == .keepLatest && alreadyPruned thread state with
    | true => simp
    | false =>
      have inside : ¬ datetimeMax < thread.updatedAt + timedelta policy.ttlMinutes := by
        rcases range policy rfl with pruned | inside
        · simp only [closed] at pruned
          cases pruned
        · omega
      simp only [Bool.false_eq_true,↓reduceIte,expiry,inside,Except.map]

theorem getTtl_effective {s : Store J} {now : Int} {threadId : String} {ref : Nat} {info : Option TtlInfo}
    (here : s.findThread threadId = some ref) (answered : getTtl globalTtl now s threadId = .ok info) :
    ∃ found, effectiveThreadTtl now globalTtl s.ttls threadId = .ok found ∧ Representable (s.thread ref) found := by
  unfold getTtl at answered
  rw [here] at answered
  dsimp only at answered
  split at answered
  · cases answered
  · rename_i state effective
    exact ⟨_,effective,fun policy member => by cases member⟩
  · rename_i policy state effective
    refine ⟨_,effective,fun policy' member => ?_⟩
    cases member
    unfold threadTtlInfo expiry at answered
    rw [Bool.and_comm] at answered
    split at answered
    · exact .inl ‹_›
    · split at answered
      · cases answered
      · exact .inr (by omega)

-- What the info announces is what the sweep finds due.
theorem announced_due {s : Store J} {now : Int} {threadId : String} {ref : Nat} {info : Option TtlInfo}
    (here : s.findThread threadId = some ref) (answered : getTtl globalTtl now s threadId = .ok info) :
    announced globalTtl now s threadId =
      (due globalTtl s now (s.thread ref)).map fun hit => (s.thread ref).updatedAt + timedelta hit.1.ttlMinutes := by
  have same : (s.thread ref).threadId = threadId := (Store.findThread_some here).2
  obtain ⟨⟨policy,state⟩,effective,range⟩ := getTtl_effective here answered
  rw [due_verdict (same.symm ▸ effective)]
  unfold announced getTtl
  rw [here]
  dsimp only
  rw [effective]
  cases policy with
  | none => rfl
  | some policy =>
    simp only [verdict,Option.bind_some,threadTtlInfo,Bool.and_comm (alreadyPruned _ _)]
    cases closed : policy.strategy == .keepLatest && alreadyPruned (s.thread ref) state with
    | true => simp [Except.map]
    | false =>
      have inside : ¬ datetimeMax < (s.thread ref).updatedAt + timedelta policy.ttlMinutes := by
        rcases range policy rfl with pruned | inside
        · simp only [closed] at pruned
          cases pruned
        · omega
      simp only [Bool.false_eq_true,↓reduceIte,expiry,inside,Except.map,Option.filter]
      split <;> split <;> simp_all

theorem verdict_policy {now : Int} {thread : Thread J} {found : Option TtlPolicy × TtlState} {policy : TtlPolicy}
    {state : TtlState} (hit : verdict now thread found = some (policy,state)) : found = (some policy,state) := by
  obtain ⟨policy',state'⟩ := found
  cases policy' with
  | none => cases hit
  | some policy' =>
    simp only [verdict,Option.bind_some] at hit
    split at hit
    · cases hit
    · split at hit
      · cases hit
        rfl
      · cases hit

theorem threadTtlInfo_strategy {thread : Thread J} {policy : TtlPolicy} {state : TtlState} {info : TtlInfo}
    (given : threadTtlInfo thread policy state = .ok info) : info.strategy = policy.strategy := by
  unfold threadTtlInfo expiry at given
  split at given
  · cases given
    rfl
  · split at given <;> cases given
    rfl

-- An accepted policy can be announced for every thread that is not ahead of the
-- clock.
theorem accepted_announced {now : Int} {s : Store J} {threadId : String} {ref : Nat}
    {found : Option TtlPolicy × TtlState} (here : s.findThread threadId = some ref)
    (accepted : effectiveThreadTtl now globalTtl s.ttls threadId = .ok found) (past : (s.thread ref).updatedAt ≤ now) :
    ∃ info, getTtl globalTtl now s threadId = .ok info := by
  obtain ⟨policy,state⟩ := found
  unfold getTtl
  rw [here]
  dsimp only
  rw [accepted]
  cases policy with
  | none => exact ⟨none,rfl⟩
  | some policy =>
    have range : now + timedelta policy.ttlMinutes ≤ datetimeMax := by
      unfold effectiveThreadTtl at accepted
      dsimp only at accepted
      split at accepted
      · cases accepted
      · rename_i normal
        cases accepted
        exact normalize_range normal
    have inside : ¬ datetimeMax < (s.thread ref).updatedAt + timedelta policy.ttlMinutes := by omega
    simp only [threadTtlInfo,expiry,inside,↓reduceIte]
    cases alreadyPruned (s.thread ref) state && policy.strategy == .keepLatest <;> exact ⟨_,rfl⟩

theorem strategyAt_due {s : Store J} {now : Int} {threadId : String} {ref : Nat} {info : Option TtlInfo}
    (here : s.findThread threadId = some ref) (answered : getTtl globalTtl now s threadId = .ok info)
    {policy : TtlPolicy} {state : TtlState} (hit : due globalTtl s now (s.thread ref) = some (policy,state)) :
    strategyAt globalTtl now s threadId = some policy.strategy := by
  have same : (s.thread ref).threadId = threadId := (Store.findThread_some here).2
  obtain ⟨found,effective,_⟩ := getTtl_effective here answered
  rw [due_verdict (same.symm ▸ effective)] at hit
  rw [verdict_policy hit] at effective
  have given := answered
  unfold getTtl at given
  rw [here] at given
  dsimp only at given
  rw [effective] at given
  unfold strategyAt
  rw [answered]
  cases info with
  | none =>
    dsimp only at given
    cases told : threadTtlInfo (s.thread ref) policy state <;> simp [told,Except.map] at given
  | some info =>
    dsimp only at given ⊢
    cases told : threadTtlInfo (s.thread ref) policy state with
    | error fault => simp [told,Except.map] at given
    | ok info' =>
      simp only [told,Except.map,Except.ok.injEq,Option.some.injEq] at given
      rw [← given,threadTtlInfo_strategy told]

end steadiness

section batching
variable {serde : Serde} {globalTtl : Option TtlConfig} {clock : Nat → Int}

theorem sweepBatch_append (p : Progress J) (first rest : List String) :
    sweepBatch serde globalTtl clock p (first ++ rest) = match sweepBatch serde globalTtl clock p first with
      | (p,some fault) => (p,some fault)
      | (p,none) => sweepBatch serde globalTtl clock p rest := by
  induction first generalizing p with
  | nil => rfl
  | cons threadId first ih =>
    simp only [List.cons_append,sweepBatch]
    rcases turn serde globalTtl clock p threadId with ⟨later,_ | fault⟩
    · exact ih later
    · rfl

theorem sweepBatches_flatten (p : Progress J) (all : List (List String)) :
    sweepBatches serde globalTtl clock p all = sweepBatch serde globalTtl clock p all.flatten := by
  induction all generalizing p with
  | nil => rfl
  | cons batch rest ih =>
    rw [List.flatten_cons,sweepBatch_append,sweepBatches]
    rcases sweepBatch serde globalTtl clock p batch with ⟨later,_ | fault⟩
    · exact ih later
    · rfl

theorem slices_flatten {α : Type} {size : Nat} (positive : 0 < size) {fuel : Nat} {items : List α}
    (enough : items.length ≤ fuel) : (slices size fuel items).flatten = items := by
  induction fuel generalizing items with
  | zero => simpa [slices] using enough
  | succ fuel ih =>
    cases items with
    | nil => rfl
    | cons item items =>
      have fewer : ((item :: items).drop size).length ≤ fuel := by
        simp only [List.length_drop,List.length_cons] at enough ⊢
        omega
      simp only [slices,List.isEmpty_cons,Bool.false_eq_true,↓reduceIte,List.flatten_cons,ih fewer,List.take_append_drop]

theorem batches_flatten {α : Type} {size : Nat} (positive : 0 < size) (items : List α) :
    (batches size items).flatten = items := slices_flatten positive le_rfl

end batching

end InmemRuntime.SweepRun
