import InmemRuntime.RunExclusion
import Mathlib.Data.Finset.Card

namespace InmemRuntime.RunDispatch
open OrderedDict ObjectHeap ThreadTtl RuntimeStore Serving RunOps StoreWrites

variable {J : Type}

-- `async for` over one `Runs.next` with nothing in between: the generator goes
-- on as soon as it is suspended, and the runs it hands out are collected.
def consume (now : Int) : Nat → Server J → NextTask → Option (List (Nat × Nat))
  | 0,_,_ => none
  | fuel+1,s,task =>
    match stepNext (.quiet now) s task with
    | (s,.suspended task,handed) => (consume now fuel s task).map fun later => handed.toList ++ later
    | (_,_,handed) => some handed.toList

-- The threads that a run may be claimed for.
def Claimable (s : Store J) (now : Int) (threadId : String) : Prop :=
  (s.findThread threadId).isSome ∧ runningOn s threadId = false ∧ ∃ ref ∈ pendingRuns s now, (s.run ref).threadId = threadId

def WorkConserving (s : Store J) (now : Int) (limit : Nat) (claimed : List (Nat × Nat)) : Prop :=
  ∀ threads : List String, threads.Nodup → (∀ threadId ∈ threads, Claimable s now threadId) →
    min limit threads.length ≤ claimed.length

-- The runs that the loop looks at already fill the limit with runs of
-- different claimable threads, or leave no claimable thread out.
def FirstSuffice (s : Store J) (now : Int) (limit : Nat) : Prop :=
  let threads := ((pendingRuns s now).take limit).map fun ref => (s.run ref).threadId
  (threads.length = limit ∧ threads.Nodup ∧ ∀ threadId ∈ threads, Claimable s now threadId) ∨
    ∀ threadId, Claimable s now threadId → threadId ∈ threads

-- What the loop over the selected runs hands out when nobody else writes.
def drain (s : Store J) : List Nat → List Nat
  | [] => []
  | ref :: rest =>
    if (s.run ref).status ≠ .pending then drain s rest
    else match s.findThread (s.run ref).threadId with
      | none => drain s rest
      | some _ => if runningOn s (s.run ref).threadId then drain s rest else ref :: drain (claimRun s ref) rest

theorem drain_scan (s : Store J) (rows : List Nat) : drain s rows =
    match scanPending s rows with
    | .finished => []
    | .missing rest => drain s rest
    | .claimed ref rest => ref :: drain (claimRun s ref) rest := by
  induction rows with
  | nil => rfl
  | cons first rows ih =>
    rw [drain,scanPending]
    split
    · exact ih
    · cases s.findThread (s.run first).threadId with
      | none => rfl
      | some thread =>
        dsimp only
        split
        · exact ih
        · rfl

theorem scan_shorter {s : Store J} {rows rest : List Nat}
    (ends : scanPending s rows = .missing rest ∨ ∃ ref, scanPending s rows = .claimed ref rest) : rest.length < rows.length := by
  induction rows with
  | nil => rcases ends with ends | ⟨ref,ends⟩ <;> cases ends
  | cons first rows ih =>
    rw [scanPending] at ends
    split at ends
    · exact Nat.lt_succ_of_lt (ih ends)
    · cases found : s.findThread (s.run first).threadId with
      | none =>
        simp only [found,reduceCtorEq,exists_false,or_false,Scan.missing.injEq] at ends
        rw [ends]
        exact Nat.lt_succ_self _
      | some thread =>
        simp only [found] at ends
        split at ends
        · exact Nat.lt_succ_of_lt (ih ends)
        · simp only [reduceCtorEq,false_or,Scan.claimed.injEq,exists_and_right,exists_eq',true_and] at ends
          rw [ends]
          exact Nat.lt_succ_self _

-- The generator's next steps, from the point at which one of them ended.
def follow (now : Int) (fuel : Nat) (result : Server J × Outcome NextTask Unit × Option (Nat × Nat)) :
    Option (List (Nat × Nat)) :=
  match result with
  | (s,.suspended task,handed) => (consume now fuel s task).map fun later => handed.toList ++ later
  | (_,_,handed) => some handed.toList

theorem follow_continue {now : Int} {fuel : Nat} {s : Server J} {rest : List Nat} (enough : rest.length ≤ fuel) :
    ∃ claimed, follow now fuel (continueNext s rest) = some claimed ∧ claimed.map Prod.fst = drain s.store rest := by
  induction fuel generalizing s rest with
  | zero =>
    rw [List.length_eq_zero_iff.mp (Nat.le_zero.mp enough)]
    exact ⟨[],rfl,rfl⟩
  | succ fuel ih =>
    have scanned := drain_scan s.store rest
    unfold continueNext
    cases found : scanPending s.store rest with
    | finished =>
      simp only [found] at scanned
      exact ⟨[],rfl,scanned.symm⟩
    | missing later =>
      simp only [found] at scanned
      have shorter := scan_shorter (.inl found)
      obtain ⟨claimed,followed,same⟩ := @ih s later (by omega)
      refine ⟨claimed,?_,same.trans scanned.symm⟩
      change (follow now fuel (continueNext s later)).map _ = _
      rw [followed]
      rfl
    | claimed ref later =>
      simp only [found] at scanned
      have shorter := scan_shorter (.inr ⟨ref,found⟩)
      obtain ⟨claimed,followed,same⟩ := @ih (s.withStore (claimRun s.store ref)) later (by omega)
      refine ⟨(ref,(claimRun s.store ref).attempts ((claimRun s.store ref).run ref).runId) :: claimed,?_,(congrArg (List.cons ref) same).trans scanned.symm⟩
      change (follow now fuel (continueNext (s.withStore (claimRun s.store ref)) later)).map _ = _
      rw [followed]
      rfl

section counting
variable {s : Store J} {now : Int} {limit : Nat}

def threadOf (s : Store J) (ref : Nat) : String := (s.run ref).threadId

def available (s : Store J) (threadId : String) : Bool := (s.findThread threadId).isSome && !runningOn s threadId

-- Each selected run is pending, or its thread is running something by now.
def Waiting (s : Store J) (rows : List Nat) : Prop :=
  ∀ ref ∈ rows, ref ∈ s.boundRuns ∧ ((s.run ref).status = .pending ∨ runningOn s (threadOf s ref) = true)

theorem threadOf_claimRun (s : Store J) (ref other : Nat) : threadOf (claimRun s ref) other = threadOf s other := by
  unfold threadOf
  by_cases same : other = ref
  · rw [same,run_claimRun_self]
  · rw [run_claimRun_other same]

theorem runningOn_claimRun {ref : Nat} (stored : ref ∈ s.boundRuns) (threadId : String) :
    runningOn (claimRun s ref) threadId = (runningOn s threadId || threadOf s ref == threadId) := by
  rw [Bool.eq_iff_iff,Bool.or_eq_true,beq_iff_eq]
  simp only [runningOn,List.any_eq_true,Bool.and_eq_true,beq_iff_eq]
  constructor
  · rintro ⟨other,member,same,running⟩
    by_cases here : other = ref
    · subst here
      rw [run_claimRun_self] at same
      exact .inr same
    · rw [run_claimRun_other here] at same running
      exact .inl ⟨other,member,same,running⟩
  · rintro (⟨other,member,same,running⟩ | same)
    · by_cases here : other = ref
      · subst here
        exact ⟨other,member,by rw [run_claimRun_self]; exact same,by rw [run_claimRun_self]⟩
      · exact ⟨other,member,by rw [run_claimRun_other here]; exact same,by rw [run_claimRun_other here]; exact running⟩
    · exact ⟨ref,stored,by rw [run_claimRun_self]; exact same,by rw [run_claimRun_self]⟩

theorem available_claimRun {ref : Nat} (stored : ref ∈ s.boundRuns) (threadId : String) :
    available (claimRun s ref) threadId = (available s threadId && !(threadOf s ref == threadId)) := by
  unfold available
  rw [runningOn_claimRun stored,Bool.not_or,Bool.and_assoc]
  rfl

theorem waiting_claimRun {ref : Nat} {rest : List Nat} (waiting : Waiting s (ref :: rest)) : Waiting (claimRun s ref) rest := by
  intro other member
  have stored := (waiting ref (by simp)).1
  obtain ⟨here,state⟩ := waiting other (List.mem_cons_of_mem _ member)
  refine ⟨here,?_⟩
  rw [threadOf_claimRun,runningOn_claimRun stored]
  by_cases same : other = ref
  · exact .inr (by simp [same])
  · rw [run_claimRun_other same]
    exact state.imp_right fun busy => by rw [busy]; rfl

-- One run is handed out for each available thread that the rows name.
theorem drain_length {rows : List Nat} (waiting : Waiting s rows) :
    (drain s rows).length = ((rows.map (threadOf s)).filter (available s)).toFinset.card := by
  induction rows generalizing s with
  | nil => rfl
  | cons ref rest ih =>
    obtain ⟨stored,state⟩ := waiting ref (by simp)
    have later : Waiting s rest := fun other member => waiting other (List.mem_cons_of_mem _ member)
    have passed : available s (threadOf s ref) = false →
        ((ref :: rest).map (threadOf s)).filter (available s) = (rest.map (threadOf s)).filter (available s) := fun taken => by
      rw [List.map_cons,List.filter_cons_of_neg (by simp [taken])]
    rw [drain]
    split
    · rename_i other
      rw [passed (by rw [available,state.resolve_left other,Bool.not_true,Bool.and_false])]
      exact ih later
    · cases found : s.findThread (s.run ref).threadId with
      | none =>
        rw [passed (by simp [available,threadOf,found])]
        exact ih later
      | some thread =>
        dsimp only
        split
        · rename_i busy
          rw [passed (by simp [available,threadOf,busy])]
          exact ih later
        · rename_i free
          have open_ : available s (threadOf s ref) = true := by simp [available,threadOf,found,free]
          have threads : rest.map (threadOf (claimRun s ref)) = rest.map (threadOf s) :=
            List.map_congr_left fun other _ => threadOf_claimRun s ref other
          have without : (((rest.map (threadOf s)).filter (available (claimRun s ref))).toFinset) =
              ((rest.map (threadOf s)).filter (available s)).toFinset.erase (threadOf s ref) := by
            ext threadId
            simp only [List.mem_toFinset,List.mem_filter,available_claimRun stored,Finset.mem_erase,Bool.and_eq_true,
              Bool.not_eq_true',beq_eq_false_iff_ne]
            tauto
          rw [List.length_cons,ih (waiting_claimRun waiting),threads,without,List.map_cons,
            List.filter_cons_of_pos open_,List.toFinset_cons,← Finset.card_erase_add_one (Finset.mem_insert_self _ _),
            Finset.erase_insert_eq_erase]

theorem mem_pendingRuns {ref : Nat} : ref ∈ pendingRuns s now ↔
    ref ∈ s.boundRuns ∧ (s.run ref).status = .pending ∧ (s.run ref).createdAt < now := by
  simp [pendingRuns,List.mem_insertionSort]

def threadsOf (s : Store J) (rows : List Nat) : Finset String := ((rows.map (threadOf s)).filter (available s)).toFinset

theorem mem_threadsOf {rows : List Nat} {threadId : String} :
    threadId ∈ threadsOf s rows ↔ threadId ∈ rows.map (threadOf s) ∧ available s threadId = true := by
  simp [threadsOf]

theorem claimable_iff {threadId : String} : Claimable s now threadId ↔ threadId ∈ threadsOf s (pendingRuns s now) := by
  rw [mem_threadsOf,List.mem_map,available,Bool.and_eq_true,Bool.not_eq_true']
  exact ⟨fun ⟨known,free,named⟩ => ⟨named,known,free⟩,fun ⟨named,known,free⟩ => ⟨known,free,named⟩⟩

theorem first_within : threadsOf s ((pendingRuns s now).take limit) ⊆ threadsOf s (pendingRuns s now) := by
  intro threadId member
  rw [mem_threadsOf] at member ⊢
  exact ⟨List.map_subset _ (List.take_subset _ _) member.1,member.2⟩

theorem conserving_card {claimed : List (Nat × Nat)} :
    WorkConserving s now limit claimed ↔ min limit (threadsOf s (pendingRuns s now)).card ≤ claimed.length := by
  constructor
  · intro conserving
    have whole := conserving _ (Finset.nodup_toList (threadsOf s (pendingRuns s now)))
      fun threadId member => claimable_iff.mpr (Finset.mem_toList.mp member)
    rwa [Finset.length_toList] at whole
  · intro bound threads distinct claimable
    have within : threads.toFinset ⊆ threadsOf s (pendingRuns s now) := fun threadId member =>
      claimable_iff.mp (claimable threadId (List.mem_toFinset.mp member))
    have fewer := Finset.card_le_card within
    rw [List.toFinset_card_of_nodup distinct] at fewer
    omega

-- The limit is reached only by runs of different available threads.
theorem card_reaches {threads : List String} {P : String → Bool} (short : threads.length ≤ limit) :
    limit ≤ (threads.filter P).toFinset.card ↔ threads.length = limit ∧ threads.Nodup ∧ ∀ threadId ∈ threads, P threadId = true := by
  constructor
  · intro reached
    have one := List.toFinset_card_le (threads.filter P)
    have two := List.length_filter_le P threads
    have all := List.length_filter_eq_length_iff.mp (by omega : (threads.filter P).length = threads.length)
    have whole : threads.filter P = threads := List.filter_eq_self.mpr all
    rw [whole] at reached one
    rw [List.card_toFinset] at reached one
    refine ⟨by omega,List.dedup_eq_self.mp ((List.dedup_sublist threads).eq_of_length (by omega)),all⟩
  · rintro ⟨full,distinct,all⟩
    rw [List.filter_eq_self.mpr all,List.toFinset_card_of_nodup distinct,full]

theorem first_suffice : min limit (threadsOf s (pendingRuns s now)).card ≤
    (threadsOf s ((pendingRuns s now).take limit)).card ↔ FirstSuffice s now limit := by
  have short : (((pendingRuns s now).take limit).map (threadOf s)).length ≤ limit := by
    rw [List.length_map,List.length_take]
    exact min_le_left _ _
  rw [min_le_iff]
  refine or_congr ((card_reaches short).trans ?_) ?_
  · refine and_congr_right fun _ => and_congr_right fun _ => forall₂_congr fun threadId member => ?_
    rw [claimable_iff,mem_threadsOf]
    exact ⟨fun open_ => ⟨List.map_subset _ (List.take_subset _ _) member,open_⟩,And.right⟩
  · constructor
    · intro fewer threadId claimable
      have same := Finset.eq_of_subset_of_card_le first_within fewer
      exact (mem_threadsOf.mp (same ▸ claimable_iff.mp claimable)).1
    · intro covered
      refine Finset.card_le_card fun threadId member => mem_threadsOf.mpr ⟨?_,(mem_threadsOf.mp member).2⟩
      exact covered threadId (claimable_iff.mpr member)

end counting

theorem consume_first {s : Server J} (free : s.runLock = false) (limit : Nat) (now : Int) :
    ∃ claimed, consume now (limit + 2) s (.called limit) = some claimed ∧
      claimed.map Prod.fst = drain s.store ((pendingRuns s.store now).take limit) := by
  have short : ((pendingRuns s.store now).take limit).length ≤ limit := by
    rw [List.length_take]
    exact min_le_left _ _
  obtain ⟨claimed,followed,same⟩ := @follow_continue _ now limit {s with runLock := true} _ short
  refine ⟨claimed,?_,same⟩
  have slept : consume now (limit + 2) s (.called limit) = (consume now (limit + 1) s (.sleeping limit now)).map fun later => later := rfl
  have locked : consume now (limit + 1) s (.sleeping limit now) = follow now limit (lockNext s limit now) := rfl
  rw [slept,locked,lockNext,if_neg (by simp [free]),followed]
  rfl

theorem dispatch_conserving {s : Server J} (free : s.runLock = false) (limit : Nat) (now : Int) :
    ∃ claimed, consume now (limit + 2) s (.called limit) = some claimed ∧
      (WorkConserving s.store now limit claimed ↔ FirstSuffice s.store now limit) := by
  obtain ⟨claimed,consumed,handed⟩ := consume_first free limit now
  refine ⟨claimed,consumed,?_⟩
  have waiting : Waiting s.store ((pendingRuns s.store now).take limit) := by
    intro ref member
    obtain ⟨stored,pending,_⟩ := mem_pendingRuns.mp (List.mem_of_mem_take member)
    exact ⟨stored,.inl pending⟩
  have length : claimed.length = (threadsOf s.store ((pendingRuns s.store now).take limit)).card := by
    rw [threadsOf,← drain_length waiting,← handed,List.length_map]
  rw [conserving_card,length,first_suffice]

-- A thread with a running run and a pending one, and a younger run of another.
def busyAhead : Server String :=
  .start ((((ThreadRecords.ofThreads ["T","U"]).appendRun ⟨some "r1","T","a",.running,0,0⟩).appendRun
    ⟨some "r2","T","a",.pending,1,1⟩).appendRun ⟨some "r3","U","a",.pending,2,2⟩)

theorem dispatch_conserving_two : ∃ claimed, consume 9 4 busyAhead (.called 2) = some claimed ∧
    (WorkConserving busyAhead.store 9 2 claimed ↔ FirstSuffice busyAhead.store 9 2) :=
  dispatch_conserving rfl 2 9

-- With one free slot the blocked run of `T` is looked at and the run of `U` is not.
theorem blocked_run_stalls : consume 9 3 busyAhead (.called 1) = some [] ∧
    ¬ WorkConserving busyAhead.store 9 1 [] := by
  refine ⟨by decide,fun conserving => ?_⟩
  have claimable : Claimable busyAhead.store 9 "U" :=
    ⟨by decide,by decide,2,by decide,by decide⟩
  have none_ := conserving ["U"] (by simp) fun threadId member => by
    rw [List.mem_singleton.mp member]
    exact claimable
  simp at none_

end InmemRuntime.RunDispatch
