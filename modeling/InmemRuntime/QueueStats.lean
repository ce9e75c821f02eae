import InmemRuntime.RunDispatch
import Mathlib.Algebra.Order.Field.Rat
import Mathlib.Order.Bounds.Basic
import Mathlib.Tactic.Linarith

namespace InmemRuntime.QueueStats
open OrderedDict ObjectHeap RuntimeStore Serving RunOps RunDispatch

-- `created_at` of a run: no datetime, or one that may lack its zone, which
-- counts as UTC then.
inductive Created where
  | missing
  | naive (time : Int)
  | aware (time : Int)

def Created.time? : Created → Option Int
  | .missing => none
  | .naive time => some time
  | .aware time => some time

structure RunEntry where
  status : RunStatus
  threadId : String
  createdAt : Created

-- Waits are in microseconds.
structure Stats where
  nPending : Nat
  nRunning : Nat
  pendingRunsWaitTimeMax : Option Int
  pendingRunsWaitTimeMed : Option Rat
  pendingUnblockedRunsWaitTimeMax : Option Int
deriving DecidableEq

def median (waits : List Int) : Option Rat :=
  let sorted := waits.mergeSort fun a b => decide (a ≤ b)
  let half := sorted.length / 2
  if sorted.length = 0 then none
  else if sorted.length % 2 = 1 then (sorted[half]?).map fun wait : Int => (wait : Rat)
  else (sorted[half - 1]?).bind fun low : Int => (sorted[half]?).map fun high : Int => ((low : Rat) + high) / 2

section counting
variable (runs : List RunEntry) (now : Int)

def pending : List RunEntry := runs.filter fun run => run.status == .pending

def blocked (threadId : String) : Bool := runs.any fun run => run.threadId == threadId && run.status == .running

def waits : List Int := (pending runs).filterMap fun run => run.createdAt.time?.map fun time => now - time

def unblockedWaits : List Int :=
  (pending runs).filterMap fun run =>
    if blocked runs run.threadId then none
    else run.createdAt.time?.bind fun time => if time < now then some (now - time) else none

-- `Runs.stats`.
def stats : Stats :=
  let running := runs.filter fun run => run.status == .running
  if (pending runs).isEmpty && running.isEmpty then ⟨0,0,none,none,none⟩
  else ⟨(pending runs).length,running.length,(waits runs now).max?,median (waits runs now),(unblockedWaits runs now).max?⟩

end counting

-- What the numbers of a queue are about.
structure Describes (runs : List RunEntry) (now : Int) (stats : Stats) : Prop where
  pending : stats.nPending = runs.countP fun run => run.status == .pending
  running : stats.nRunning = runs.countP fun run => run.status == .running
  longest : ∀ wait, stats.pendingRunsWaitTimeMax = some wait ↔
    IsGreatest {wait | ∃ run ∈ runs, run.status = .pending ∧ ∃ time, run.createdAt.time? = some time ∧ wait = now - time} wait
  waited : stats.pendingRunsWaitTimeMed.isSome ↔ ∃ run ∈ runs, run.status = .pending ∧ ∃ time, run.createdAt.time? = some time
  middle : ∀ wait, stats.pendingRunsWaitTimeMed = some wait →
    (waits runs now).length ≤ 2 * (waits runs now).countP (fun other : Int => decide ((other : Rat) ≤ wait)) ∧
    (waits runs now).length ≤ 2 * (waits runs now).countP fun other : Int => decide (wait ≤ (other : Rat))
  unblocked : ∀ wait, stats.pendingUnblockedRunsWaitTimeMax = some wait ↔
    IsGreatest {wait | ∃ run ∈ runs, run.status = .pending ∧ (∀ other ∈ runs, other.threadId = run.threadId → other.status ≠ .running) ∧
      ∃ time, run.createdAt.time? = some time ∧ time < now ∧ wait = now - time} wait

section middles

-- In a sorted list an entry has those before it below and those after it above.
theorem sorted_counts {α : Type} [LinearOrder α] {sorted : List α} (order : sorted.Pairwise (· ≤ ·)) {index : Nat} {entry : α}
    (here : sorted[index]? = some entry) : index + 1 ≤ sorted.countP (fun other => decide (other ≤ entry)) ∧
      sorted.length - index ≤ sorted.countP fun other => decide (entry ≤ other) := by
  induction sorted generalizing index with
  | nil => cases here
  | cons first rest ih =>
    obtain ⟨above,later⟩ := List.pairwise_cons.mp order
    cases index with
    | zero =>
      cases here
      refine ⟨?_,?_⟩
      · simp
      · have all : (entry :: rest).countP (fun other => decide (entry ≤ other)) = (entry :: rest).length := by
          refine List.countP_eq_length.mpr (List.forall_mem_cons.mpr ⟨by simp,fun other member => ?_⟩)
          simpa using above other member
        omega
    | succ index =>
      have inside : rest[index]? = some entry := here
      obtain ⟨low,high⟩ := ih later inside
      have least : first ≤ entry := above entry (List.mem_of_getElem? inside)
      refine ⟨?_,?_⟩
      · rw [List.countP_cons_of_pos (by simpa using least)]
        omega
      · rw [List.countP_cons,List.length_cons]
        omega

theorem median_nil : median [] = none := by
  simp [median]

theorem median_isSome {waits : List Int} : (median waits).isSome ↔ waits ≠ [] := by
  constructor
  · rintro found rfl
    rw [median_nil] at found
    cases found
  · intro nonempty
    have length : (waits.mergeSort fun a b => decide (a ≤ b)).length = waits.length := List.length_mergeSort waits
    have positive : 0 < waits.length := List.length_pos_iff.mpr nonempty
    obtain ⟨high,above⟩ : ∃ high, (waits.mergeSort fun a b => decide (a ≤ b))[waits.length / 2]? = some high :=
      ⟨_,List.getElem?_eq_getElem (by omega)⟩
    obtain ⟨low,below⟩ : ∃ low, (waits.mergeSort fun a b => decide (a ≤ b))[waits.length / 2 - 1]? = some low :=
      ⟨_,List.getElem?_eq_getElem (by omega)⟩
    unfold median
    simp only [length,above,below,Option.map_some,Option.bind_some]
    split
    · omega
    · split <;> rfl

theorem median_middle {waits : List Int} {wait : Rat} (found : median waits = some wait) :
    waits.length ≤ 2 * waits.countP (fun other : Int => decide ((other : Rat) ≤ wait)) ∧
      waits.length ≤ 2 * waits.countP fun other : Int => decide (wait ≤ (other : Rat)) := by
  have perm : (waits.mergeSort fun a b => decide (a ≤ b)).Perm waits := List.mergeSort_perm _ _
  have order : (waits.mergeSort fun a b => decide (a ≤ b)).Pairwise (· ≤ ·) := by
    refine (List.pairwise_mergeSort (fun a b c first second => ?_) (fun a b => ?_) waits).imp of_decide_eq_true
    · simp only [decide_eq_true_eq] at first second ⊢
      omega
    · simp only [Bool.or_eq_true,decide_eq_true_eq]
      omega
  unfold median at found
  rw [← perm.length_eq,← perm.countP_eq,← perm.countP_eq]
  generalize (waits.mergeSort fun a b => decide (a ≤ b)) = sorted at found order
  have below : ∀ {low : Int}, (low : Rat) ≤ wait →
      sorted.countP (fun other => decide (other ≤ low)) ≤ sorted.countP fun other : Int => decide ((other : Rat) ≤ wait) := by
    intro low least
    refine List.countP_mono_left fun other _ smaller => ?_
    rw [decide_eq_true_eq] at smaller ⊢
    exact le_trans (by exact_mod_cast smaller) least
  have above : ∀ {high : Int}, wait ≤ (high : Rat) →
      sorted.countP (fun other => decide (high ≤ other)) ≤ sorted.countP fun other : Int => decide (wait ≤ (other : Rat)) := by
    intro high most
    refine List.countP_mono_left fun other _ larger => ?_
    rw [decide_eq_true_eq] at larger ⊢
    exact le_trans most (by exact_mod_cast larger)
  dsimp only at found
  split at found
  · cases found
  · split at found
    · obtain ⟨entry,here,rfl⟩ := Option.map_eq_some_iff.mp found
      obtain ⟨low,high⟩ := sorted_counts order here
      have lower := below (le_refl (entry : Rat))
      have upper := above (le_refl (entry : Rat))
      omega
    · obtain ⟨low,first,rest⟩ := Option.bind_eq_some_iff.mp found
      obtain ⟨high,second,rfl⟩ := Option.map_eq_some_iff.mp rest
      have between : (low : Rat) ≤ high := by
        obtain ⟨bound,same⟩ := List.getElem?_eq_some_iff.mp first
        obtain ⟨bound_,same_⟩ := List.getElem?_eq_some_iff.mp second
        rw [← same,← same_]
        exact_mod_cast List.pairwise_iff_getElem.mp order _ _ bound bound_ (by omega)
      obtain ⟨under,_⟩ := sorted_counts order first
      obtain ⟨_,most⟩ := sorted_counts order second
      have lower := @below low (by linarith)
      have upper := @above high (by linarith)
      omega

end middles

section describing
variable {runs : List RunEntry} {now : Int}

theorem mem_pending {run : RunEntry} : run ∈ pending runs ↔ run ∈ runs ∧ run.status = .pending := by
  simp [pending]

theorem max_greatest {entries : List Int} {entry : Int} : entries.max? = some entry ↔ IsGreatest {other | other ∈ entries} entry := by
  rw [List.max?_eq_some_iff]
  exact Iff.rfl

theorem mem_waits {wait : Int} : wait ∈ waits runs now ↔
    ∃ run ∈ runs, run.status = .pending ∧ ∃ time, run.createdAt.time? = some time ∧ wait = now - time := by
  unfold waits
  simp only [List.mem_filterMap,mem_pending,Option.map_eq_some_iff,and_assoc]
  refine exists_congr fun run => and_congr_right fun _ => and_congr_right fun _ => exists_congr fun time => and_congr_right fun _ => eq_comm

theorem mem_unblocked {wait : Int} : wait ∈ unblockedWaits runs now ↔
    ∃ run ∈ runs, run.status = .pending ∧ (∀ other ∈ runs, other.threadId = run.threadId → other.status ≠ .running) ∧
      ∃ time, run.createdAt.time? = some time ∧ time < now ∧ wait = now - time := by
  unfold unblockedWaits
  simp only [List.mem_filterMap,mem_pending,and_assoc]
  refine exists_congr fun run => and_congr_right fun _ => and_congr_right fun _ => ?_
  have open_ : blocked runs run.threadId = false ↔ ∀ other ∈ runs, other.threadId = run.threadId → other.status ≠ .running := by
    simp [blocked]
  rw [← open_]
  cases blocked runs run.threadId with
  | true => simp
  | false =>
    cases run.createdAt.time? with
    | none => simp
    | some time =>
      by_cases due : time < now
      · simp [due,eq_comm]
      · simp [due]

theorem stats_empty (now : Int) (none_ : pending runs = []) : waits runs now = [] ∧ unblockedWaits runs now = [] := by
  simp [waits,unblockedWaits,none_]

theorem stats_waits (runs : List RunEntry) (now : Int) : (stats runs now).pendingRunsWaitTimeMax = (waits runs now).max? ∧
    (stats runs now).pendingRunsWaitTimeMed = median (waits runs now) ∧
    (stats runs now).pendingUnblockedRunsWaitTimeMax = (unblockedWaits runs now).max? := by
  unfold stats
  dsimp only
  split
  · rename_i idle
    have none_ : pending runs = [] := List.isEmpty_iff.mp (Bool.and_eq_true_iff.mp idle).1
    obtain ⟨idleWaits,idleUnblocked⟩ := stats_empty now none_
    rw [idleWaits,idleUnblocked]
    exact ⟨rfl,median_nil.symm,rfl⟩
  · exact ⟨rfl,rfl,rfl⟩

theorem stats_counts (runs : List RunEntry) (now : Int) :
    (stats runs now).nPending = runs.countP (fun run => run.status == .pending) ∧
      (stats runs now).nRunning = runs.countP fun run => run.status == .running := by
  rw [List.countP_eq_length_filter,List.countP_eq_length_filter]
  unfold stats
  dsimp only
  split
  · rename_i idle
    obtain ⟨waiting,working⟩ := Bool.and_eq_true_iff.mp idle
    rw [List.isEmpty_iff.mp working]
    exact ⟨(congrArg List.length (List.isEmpty_iff.mp waiting)).symm,rfl⟩
  · exact ⟨rfl,rfl⟩

theorem stats_describe (runs : List RunEntry) (now : Int) : Describes runs now (stats runs now) := by
  obtain ⟨pending,running⟩ := stats_counts runs now
  obtain ⟨longest,middle,unblocked⟩ := stats_waits runs now
  refine ⟨pending,running,fun wait => ?_,?_,fun wait found => median_middle (middle ▸ found),fun wait => ?_⟩
  · rw [longest,max_greatest]
    simp only [mem_waits]
  · rw [middle,median_isSome]
    constructor
    · intro nonempty
      obtain ⟨wait,member⟩ := List.exists_mem_of_ne_nil _ nonempty
      obtain ⟨run,listed,waiting,time,known,_⟩ := mem_waits.mp member
      exact ⟨run,listed,waiting,time,known⟩
    · rintro ⟨run,listed,waiting,time,known⟩
      exact List.ne_nil_of_mem (mem_waits.mpr ⟨run,listed,waiting,time,known,rfl⟩)
  · rw [unblocked,max_greatest]
    simp only [mem_unblocked]

end describing

section dispatching
variable {J : Type} {s : Store J} {now : Int}

def entries (s : Store J) : List RunEntry :=
  s.boundRuns.map fun ref => ⟨(s.run ref).status,(s.run ref).threadId,.aware (s.run ref).createdAt⟩

-- The loop claims the first of its rows whose thread is free.
theorem drain_first {rows : List Nat} (pending : ∀ ref ∈ rows, (s.run ref).status = .pending) :
    (drain s rows).head? = rows.find? fun ref => available s (threadOf s ref) := by
  induction rows with
  | nil => rfl
  | cons first rest ih =>
    have later := ih fun ref member => pending ref (List.mem_cons_of_mem _ member)
    rw [drain,if_neg (by simp [pending first (by simp)]),List.find?_cons]
    unfold available threadOf at later ⊢
    cases s.findThread (s.run first).threadId with
    | none => exact later
    | some thread =>
      cases runningOn s (s.run first).threadId with
      | true => exact later
      | false => rfl

theorem pendingRuns_sorted (s : Store J) (now : Int) : (pendingRuns s now).Pairwise fun a b => (s.run a).createdAt ≤ (s.run b).createdAt := by
  have total : Std.Total fun a b => (s.run a).createdAt ≤ (s.run b).createdAt := ⟨fun a b => le_total _ _⟩
  have transitive : IsTrans Nat fun a b => (s.run a).createdAt ≤ (s.run b).createdAt := ⟨fun a b c => le_trans⟩
  exact List.pairwise_insertionSort _ _

theorem running_entries {threadId : String} : runningOn s threadId = false ↔
    ∀ other ∈ entries s, other.threadId = threadId → other.status ≠ .running := by
  simp [runningOn,entries]

-- A run that nothing blocks is one that the loop may take.
theorem waited_ready (known : ∀ ref ∈ pendingRuns s now, (s.findThread (s.run ref).threadId).isSome) {wait : Int}
    (waited : wait ∈ unblockedWaits (entries s) now) :
    ∃ ref ∈ pendingRuns s now, available s (threadOf s ref) = true ∧ wait = now - (s.run ref).createdAt := by
  obtain ⟨run,stored,waiting,unblocked,time,at_,past,rfl⟩ := mem_unblocked.mp waited
  obtain ⟨ref,here,rfl⟩ := List.mem_map.mp stored
  cases at_
  have listed : ref ∈ pendingRuns s now := mem_pendingRuns.mpr ⟨here,waiting,past⟩
  have free : runningOn s (threadOf s ref) = false := running_entries.mpr unblocked
  have recorded : (s.findThread (threadOf s ref)).isSome = true := known ref listed
  refine ⟨ref,listed,?_,rfl⟩
  rw [available,recorded,free]
  rfl

-- What the loop takes first has waited longest among the runs it could take.
theorem found_longest {ref : Nat} (known : ∀ ref ∈ pendingRuns s now, (s.findThread (s.run ref).threadId).isSome)
    (found : (pendingRuns s now).find? (fun ref => available s (threadOf s ref)) = some ref) :
    IsGreatest {wait | wait ∈ unblockedWaits (entries s) now} (now - (s.run ref).createdAt) := by
  obtain ⟨open_,before,after,split_,skipped⟩ := List.find?_eq_some_iff_append.mp found
  have member : ref ∈ pendingRuns s now := List.mem_of_find?_eq_some found
  have order := pendingRuns_sorted s now
  obtain ⟨bound,pending,due⟩ := mem_pendingRuns.mp member
  have free : runningOn s (s.run ref).threadId = false := by
    simpa [threadOf] using (Bool.and_eq_true_iff.mp open_).2
  constructor
  · refine mem_unblocked.mpr ⟨_,List.mem_map_of_mem bound,pending,running_entries.mp free,_,rfl,due,rfl⟩
  · intro wait waited
    obtain ⟨other,listed,ready,rfl⟩ := waited_ready known waited
    rw [split_] at listed order
    have older : (s.run ref).createdAt ≤ (s.run other).createdAt := by
      rcases List.mem_append.mp listed with early | late
      · have passed := skipped other early
        rw [ready] at passed
        cases passed
      · rcases List.mem_cons.mp late with rfl | late
        · exact le_refl _
        · exact (List.pairwise_cons.mp (List.pairwise_append.mp order).2.1).1 other late
    omega

theorem found_none (known : ∀ ref ∈ pendingRuns s now, (s.findThread (s.run ref).threadId).isSome)
    (none_ : (pendingRuns s now).find? (fun ref => available s (threadOf s ref)) = none) : unblockedWaits (entries s) now = [] := by
  refine List.eq_nil_iff_forall_not_mem.mpr fun wait waited => ?_
  obtain ⟨other,listed,ready,rfl⟩ := waited_ready known waited
  exact List.find?_eq_none.mp none_ other listed ready

-- The longest wait of a run that nothing blocks is the one that the next
-- dispatch ends first, when its limit has room for every pending run.
theorem stats_dispatch (s : Server J) (now : Int) (limit : Nat) (free : s.runLock = false)
    (room : (pendingRuns s.store now).length ≤ limit)
    (known : ∀ ref ∈ pendingRuns s.store now, (s.store.findThread (s.store.run ref).threadId).isSome) :
    ∃ claimed, consume now (limit + 2) s (.called limit) = some claimed ∧
      (stats (entries s.store) now).pendingUnblockedRunsWaitTimeMax = claimed.head?.map fun run => now - (s.store.run run.1).createdAt := by
  obtain ⟨claimed,consumed,handed⟩ := consume_first free limit now
  refine ⟨claimed,consumed,?_⟩
  rw [List.take_of_length_le room] at handed
  have first : claimed.head?.map Prod.fst = (pendingRuns s.store now).find? fun ref => available s.store (threadOf s.store ref) := by
    rw [← List.head?_map,handed,drain_first fun ref member => (mem_pendingRuns.mp member).2.1]
  have ended : (claimed.head?.map fun run => now - (s.store.run run.1).createdAt) =
      (claimed.head?.map Prod.fst).map fun ref => now - (s.store.run ref).createdAt := by
    rw [Option.map_map]
    rfl
  rw [ended,first,(stats_waits _ now).2.2]
  cases found : (pendingRuns s.store now).find? fun ref => available s.store (threadOf s.store ref) with
  | none => rw [found_none known found]; rfl
  | some ref => exact max_greatest.mpr (found_longest known found)

theorem stats_dispatch_two : ∃ claimed, consume 9 4 busyAhead (.called 2) = some claimed ∧
    (stats (entries busyAhead.store) 9).pendingUnblockedRunsWaitTimeMax =
      claimed.head?.map fun run => 9 - (busyAhead.store.run run.1).createdAt :=
  stats_dispatch busyAhead 9 2 rfl (by decide) (by decide)

end dispatching
end InmemRuntime.QueueStats
