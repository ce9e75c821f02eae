import InmemRuntime.StoreWrites

namespace InmemRuntime.ThreadRecords
open OrderedDict ObjectHeap ThreadTtl RuntimeStore Serving ThreadOps StoreWrites Tasks

variable {J : Type}

def LiveUsed (s : Store J) : Prop := ∀ ref ∈ s.liveThreads, ref < s.threads.next

-- No operation takes a reference out of use or gives its record another id.
structure Extends (s s' : Store J) : Prop where
  used : s.threads.next ≤ s'.threads.next
  sameId : ∀ ref < s.threads.next, (s'.thread ref).threadId = (s.thread ref).threadId
  live : LiveUsed s → LiveUsed s'

theorem Extends.refl (s : Store J) : Extends s s := ⟨le_refl _,fun _ _ => rfl,id⟩

theorem Extends.trans {a b c : Store J} (first : Extends a b) (second : Extends b c) : Extends a c :=
  ⟨first.used.trans second.used,
    fun ref bound => (second.sameId ref (lt_of_lt_of_le bound first.used)).trans (first.sameId ref bound),
    second.live ∘ first.live⟩

theorem extends_same {s s' : Store J} (threads : s'.threads = s.threads) (live : s'.liveThreads = s.liveThreads) :
    Extends s s' := by
  refine ⟨by rw [threads],fun ref _ => by simp only [Store.thread,threads],?_⟩
  intro used ref member
  rw [live] at member
  rw [threads]
  exact used ref member

theorem mem_replaceFirst {fits : Nat → Bool} {new ref : Nat} {refs : List Nat}
    (member : ref ∈ replaceFirst fits new refs) : ref = new ∨ ref ∈ refs := by
  induction refs with
  | nil => cases member
  | cons head rest ih =>
    unfold replaceFirst at member
    split at member
    · rcases List.mem_cons.mp member with rfl | later
      · exact .inl rfl
      · exact .inr (List.mem_cons_of_mem _ later)
    · rcases List.mem_cons.mp member with rfl | later
      · exact .inr (by simp)
      · exact (ih later).imp id (List.mem_cons_of_mem _)

theorem mem_replaceFirst_new {fits : Nat → Bool} {new : Nat} {refs : List Nat} (found : (refs.find? fits).isSome) :
    new ∈ replaceFirst fits new refs := by
  induction refs with
  | nil => simp at found
  | cons head rest ih =>
    unfold replaceFirst
    by_cases here : fits head = true
    · simp [here]
    · simp only [here,Bool.false_eq_true,↓reduceIte,List.mem_cons]
      exact .inr (ih (by simpa [List.find?_cons,here] using found))

-- A write to a list that is not bound any more does not show.
theorem live_replaceThread_stale {s : Store J} {list : Nat} {threadId : String} {thread : Thread J}
    (stale : list ≠ s.boundThreads) : (replaceThread s list threadId thread).liveThreads = s.liveThreads :=
  Heap.read_write_other (Ne.symm stale)

theorem live_replaceThread_bound (s : Store J) (threadId : String) (thread : Thread J) :
    (replaceThread s s.boundThreads threadId thread).liveThreads =
      replaceFirst (s.isThread threadId) s.threads.next s.liveThreads := Heap.read_write_self _ _ _

theorem live_appendThread (s : Store J) (thread : Thread J) :
    (s.appendThread thread).liveThreads = s.liveThreads ++ [s.threads.next] := Heap.read_write_self _ _ _

theorem extends_new {s s' : Store J} {thread : Thread J} (threads : s'.threads = (s.threads.alloc thread).1)
    (live : ∀ ref ∈ s'.liveThreads, ref = s.threads.next ∨ ref ∈ s.liveThreads) : Extends s s' := by
  refine ⟨by simp [threads],?_,?_⟩
  · intro ref bound
    simp only [Store.thread,threads,Heap.read_alloc_old bound]
  · intro used ref member
    rw [threads,Heap.next_alloc]
    rcases live ref member with rfl | old
    · exact Nat.lt_succ_self _
    · exact Nat.lt_succ_of_lt (used ref old)

theorem appendThread_extends (s : Store J) (thread : Thread J) : Extends s (s.appendThread thread) := by
  refine extends_new rfl ?_
  intro ref member
  rw [live_appendThread] at member
  simpa [or_comm] using member

theorem write_extends {permit : Permit} {s s' : Store J} (write : Write permit s s') : Extends s s' := by
  cases write with
  | @thread ref _ same =>
    exact ⟨le_refl _,fun other _ => Store.threadId_updateThread same other,id⟩
  | newThread => exact appendThread_extends _ _
  | @replaced list threadId thread =>
    refine extends_new rfl ?_
    intro ref member
    by_cases bound : list = s.boundThreads
    · subst bound
      rw [live_replaceThread_bound] at member
      exact mem_replaceFirst member
    · rw [live_replaceThread_stale bound] at member
      exact .inr member
  | @removed threadId matching ok =>
    refine ⟨le_refl _,fun _ _ => rfl,?_⟩
    intro used ref member
    have kept : ref ∈ s.liveThreads.filter fun ref => ref != matching := by
      simpa [removeThread,Store.liveThreads,Store.rebindThreads] using member
    exact used ref (List.mem_filter.mp kept).1
  | newRun ok => exact extends_same rfl rfl
  | run ok => exact extends_same rfl rfl
  | claimed ok => exact extends_same rfl rfl
  | removedRun ok => exact extends_same rfl rfl
  | sidecar => exact extends_same rfl rfl

theorem writes_extend {permit : Permit} {s s' : Store J} (writes : Writes permit s s') : Extends s s' := by
  induction writes with
  | refl => exact .refl _
  | tail _ write ih => exact ih.trans (write_extends write)

-- A store of idle threads without metadata, made in this order.
def ofThreads (threadIds : List String) : Store J :=
  threadIds.foldl (fun s threadId => s.appendThread ⟨threadId,.idle,Dict.empty,0,0,none,none,none,none⟩) .empty

theorem ofThreads_used (threadIds : List String) : LiveUsed (ofThreads threadIds : Store J) := by
  have grows : ∀ s : Store J, LiveUsed s → LiveUsed (threadIds.foldl
      (fun s threadId => s.appendThread ⟨threadId,.idle,Dict.empty,0,0,none,none,none,none⟩) s) := by
    induction threadIds with
    | nil => exact fun _ used => used
    | cons threadId rest ih =>
      intro s used
      exact ih _ ((appendThread_extends s _).live used)
  exact grows _ (by simp [LiveUsed,Store.empty,Store.liveThreads])

variable {text : String → J} {globalTtl : Option TtlConfig}

theorem resume_extends (w : Wake J) (s : Server J) (task : Coroutine J) :
    Extends s.store (resume text globalTtl w s task).1.store := writes_extend (resume_writes w s task)

theorem advance_extends {p next : Pool J} {event : Event J}
    (step : TaskPool.advance (resume text globalTtl) p event = some next) : Extends p.shared.store next.shared.store := by
  cases event with
  | call task =>
    cases Option.some.inj step
    exact .refl _
  | resume index wake =>
    obtain ⟨before,task,after,split,found,rfl⟩ := TaskPool.resume_parts step
    exact resume_extends wake p.shared task

theorem runs_live {start p : Pool J} {taken : List (Pool J × Event J)} (runs : Runs text globalTtl start taken p)
    (used : LiveUsed start.shared.store) :
    LiveUsed p.shared.store ∧ ∀ step ∈ taken, LiveUsed step.1.shared.store :=
  TaskPool.runs_invariant runs used (fun _ _ _ used (_ : True) step => (advance_extends step).live used) fun _ _ => trivial

end InmemRuntime.ThreadRecords
