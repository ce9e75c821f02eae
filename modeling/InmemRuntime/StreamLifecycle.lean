import InmemRuntime.StreamUpkeep
import InmemRuntime.TaskPool

namespace InmemRuntime.StreamLifecycle
open ObjectHeap Streams StreamUpkeep

-- The calls of a `StreamManager` that write.
inductive Operation where
  | put (key : RunKey) (message : Message) (resumable : Bool)
  | putThread (threadId : String) (message : Message)
  | addQueue (key : RunKey)
  | addControlQueue (key : RunKey)
  | addThreadStream (threadId : String)
  | removeQueue (key : RunKey) (queue : Nat)
  | removeControlQueue (key : RunKey) (queue : Nat)
  | removeThreadStream (threadId : String) (queue : Nat)
  | markRunActive (key : RunKey)
  | markRunInactive (key : RunKey)
  | deleteRun (key : RunKey)
  | deleteThread (threadId : String)
  | close

-- A `put` that has chosen its queues goes on as one task for each of them.
inductive ManagerTask where
  | operation (call : Operation)
  | delivering (queue : Nat) (message : Message)

structure Wake where
  clock : Clock
  order : SetOrder

section interleaving
variable (codec : List UInt8)

def operate (w : Wake) (m : StreamManager) : Operation → StreamManager × List (Nat × Message)
  | .put key message resumable => m.put (m.reading w.clock) key message resumable
  | .putThread threadId message => m.putThread (m.reading w.clock) threadId message
  | .addQueue key => ((m.addQueue (m.reading w.clock) key).1,[])
  | .addControlQueue key => ((m.addControlQueue (m.reading w.clock) key).1,[])
  | .addThreadStream threadId => ((m.addThreadStream (m.reading w.clock) threadId).1,[])
  | .removeQueue key queue => (m.removeQueue key queue,[])
  | .removeControlQueue key queue => (m.removeControlQueue key queue,[])
  | .removeThreadStream threadId queue => (m.removeThreadStream threadId queue,[])
  | .markRunActive key => (m.markRunActive key,[])
  | .markRunInactive key => (m.markRunInactive key,[])
  | .deleteRun key => (m.deleteRun codec w.clock key,[])
  | .deleteThread threadId => (m.deleteThread codec w.clock w.order threadId,[])
  | .close => (m.close codec w.clock w.order,[])

def resume (w : Wake) (m : StreamManager) : ManagerTask → StreamManager × List ManagerTask
  | .operation call =>
    let done := operate codec w m call
    (done.1,done.2.map fun row => .delivering row.1 row.2)
  | .delivering queue message => (m.deliver queue message,[])

abbrev Pool := TaskPool.Pool StreamManager ManagerTask

abbrev Event := TaskPool.Event ManagerTask Wake

def start : Pool := ⟨.new,[]⟩

-- What a deletion spares.
def Spares (m m' : StreamManager) : Operation → Prop
  | .deleteRun key => (∀ other, other ≠ key → SameRun m m' other) ∧ ∀ threadId, SameThread m m' threadId
  | .deleteThread threadId => (∀ key, key.threadId ≠ some threadId → SameRun m m' key) ∧
      ∀ other, other ≠ threadId → SameThread m m' other
  | _ => True

-- The step runs the operation, from one manager to the other.
def Performs (step : Pool × Event) (call : Operation) (m' : StreamManager) : Prop :=
  ∃ index w, step.2 = .resume index w ∧ step.1.tasks[index]? = some (.operation call) ∧
    m' = (operate codec w step.1.shared call).1

end interleaving

section steps
variable {codec : List UInt8} {w : Wake} {m : StreamManager}

theorem operate_maintained (maintained : Maintained m) (call : Operation) : Maintained (operate codec w m call).1 := by
  cases call with
  | put key message resumable => exact put_maintained maintained _ message resumable
  | putThread threadId message =>
    unfold operate StreamManager.putThread
    dsimp only
    split
    · exact maintained
    · exact (stamp_touched m _).maintained maintained
  | addQueue key => exact addQueue_maintained maintained _
  | addControlQueue key => exact addControlQueue_maintained maintained _
  | addThreadStream threadId => exact addThreadStream_maintained maintained _
  | removeQueue key queue => exact removeQueue_maintained maintained
  | removeControlQueue key queue => exact removeControlQueue_maintained maintained
  | removeThreadStream threadId queue => exact removeThreadStream_maintained maintained
  | markRunActive key => exact markRunActive_maintained maintained
  | markRunInactive key => exact markRunInactive_maintained maintained
  | deleteRun key => exact deleteRun_maintained maintained
  | deleteThread threadId => exact (deleteThread_parts maintained w.order).1
  | close => exact bare_maintained (close_bare w.order)

theorem operate_spares (maintained : Maintained m) (call : Operation) : Spares m (operate codec w m call).1 call := by
  cases call with
  | deleteRun key => exact ⟨fun other apart => deleteRun_others maintained apart,deleteRun_threads maintained⟩
  | deleteThread threadId => exact (deleteThread_parts maintained w.order).2
  | _ => trivial

-- What was closed stays closed, and a deleted run stays deleted until it is
-- inactive or everything is closed.
theorem operate_lasts (m : StreamManager) (call : Operation) : call = .close ∨
    ((operate codec w m call).1.stopped = m.stopped ∧ ∀ key ∈ m.pendingRunDeletes, call ≠ .markRunInactive key →
      key ∈ (operate codec w m call).1.pendingRunDeletes) := by
  have plain : ∀ {m'}, Lasts m m' → m'.stopped = m.stopped ∧ ∀ key ∈ m.pendingRunDeletes, call ≠ .markRunInactive key →
      key ∈ m'.pendingRunDeletes := fun lasts => ⟨lasts.stopped,fun key old _ => lasts.pending old⟩
  cases call with
  | put key message resumable => exact .inr (plain (put_lasts _ message resumable))
  | putThread threadId message =>
    refine .inr (plain ?_)
    unfold operate StreamManager.putThread
    dsimp only
    split
    · exact ⟨rfl,List.Subset.refl _⟩
    · exact (stamp_touched m _).lasts
  | addQueue key =>
    refine .inr (plain ?_)
    unfold operate StreamManager.addQueue
    dsimp only
    split <;> exact ⟨rfl,List.Subset.refl _⟩
  | addControlQueue key =>
    refine .inr (plain ?_)
    unfold operate StreamManager.addControlQueue
    dsimp only
    split <;> exact ⟨rfl,List.Subset.refl _⟩
  | addThreadStream threadId =>
    refine .inr (plain ?_)
    unfold operate StreamManager.addThreadStream
    dsimp only
    split <;> exact ⟨rfl,List.Subset.refl _⟩
  | removeQueue key queue => exact .inr (plain ⟨rfl,List.Subset.refl _⟩)
  | removeControlQueue key queue =>
    refine .inr (plain ?_)
    unfold operate
    dsimp only
    rw [StreamManager.removeControlQueue_discards]
    exact ⟨rfl,List.Subset.refl _⟩
  | removeThreadStream threadId queue =>
    refine .inr (plain ?_)
    unfold operate StreamManager.removeThreadStream
    dsimp only
    split
    · exact ⟨rfl,List.Subset.refl _⟩
    · split <;> exact ⟨rfl,List.Subset.refl _⟩
  | markRunActive key =>
    refine .inr (plain ?_)
    unfold operate StreamManager.markRunActive
    dsimp only
    split <;> exact ⟨rfl,List.Subset.refl _⟩
  | markRunInactive key =>
    obtain ⟨same,kept⟩ := markRunInactive_lasts m key
    exact .inr ⟨same,fun other old still => kept other old fun equal => still (by rw [equal])⟩
  | deleteRun key => exact .inr (plain deleteRun_lasts)
  | deleteThread threadId => exact .inr (plain (deleteThread_lasts w.order))
  | close => exact .inl rfl

theorem operate_stopped (call : Operation) (halted : m.stopped = true) : (operate codec w m call).1.stopped = true := by
  rcases operate_lasts m call with rfl | ⟨same,_⟩
  · exact close_stopped w.order
  · exact same.trans halted

-- A deleted run, or a closed manager, has nothing of the run.
def Gone (m : StreamManager) (key : RunKey) : Prop := m.stopped = true ∨ key ∈ m.pendingRunDeletes

theorem operate_gone {key : RunKey} (call : Operation) (still : call ≠ .markRunInactive key) (gone : Gone m key) :
    Gone (operate codec w m call).1 key := by
  rcases gone with halted | pending
  · exact .inl (operate_stopped call halted)
  · rcases operate_lasts m call with rfl | ⟨_,kept⟩
    · exact .inl (close_stopped w.order)
    · exact .inr (kept key pending still)

theorem gone_vacant {key : RunKey} (maintained : Maintained m) (gone : Gone m key) : Vacant m key := by
  rcases gone with halted | pending
  · exact (maintained.stopped halted).vacant key
  · exact maintained.deleted key pending

theorem start_maintained : Maintained (start).shared := bare_maintained ⟨rfl,rfl,rfl,rfl,rfl,rfl,rfl⟩

end steps

section runs
variable {codec : List UInt8} {p next : Pool} {event : Event}

theorem advance_manager (step : TaskPool.advance (resume codec) p event = some next) :
    (∃ queues, Touched p.shared next.shared queues) ∨ ∃ call, Performs codec (p,event) call next.shared := by
  cases event with
  | call task =>
    cases Option.some.inj step
    exact .inl ⟨[],⟨_,_,_,rfl⟩,Nat.le_refl _,fun _ _ _ => rfl⟩
  | resume index w =>
    obtain ⟨before,task,after,_,found,rfl⟩ := TaskPool.resume_parts step
    cases task with
    | operation call => exact .inr ⟨call,index,w,rfl,found,rfl⟩
    | delivering queue message =>
      refine .inl ⟨[queue],⟨_,_,_,rfl⟩,Nat.le_refl _,?_⟩
      intro other _ apart
      exact Heap.read_write_other (by simpa using apart)

theorem performs_next {call : Operation} {m' : StreamManager} (performs : Performs codec (p,event) call m')
    (step : TaskPool.advance (resume codec) p event = some next) : next.shared = m' := by
  obtain ⟨index,w,rfl,found,rfl⟩ := performs
  obtain ⟨before,task,after,_,here,rfl⟩ := TaskPool.resume_parts step
  obtain rfl := Option.some.inj (found.symm.trans here)
  rfl

theorem step_maintained (maintained : Maintained p.shared) (step : TaskPool.advance (resume codec) p event = some next) :
    Maintained next.shared := by
  rcases advance_manager step with ⟨_,touched⟩ | ⟨call,_,_,_,_,same⟩
  · exact touched.maintained maintained
  · rw [same]
    exact operate_maintained maintained call

theorem step_stopped (halted : p.shared.stopped = true) (step : TaskPool.advance (resume codec) p event = some next) :
    next.shared.stopped = true := by
  rcases advance_manager step with ⟨_,touched⟩ | ⟨call,_,_,_,_,same⟩
  · exact touched.lasts.stopped.trans halted
  · rw [same]
    exact operate_stopped call halted

theorem step_gone {key : RunKey} (gone : Gone p.shared key) (step : TaskPool.advance (resume codec) p event = some next)
    (still : ∀ m', ¬ Performs codec (p,event) (.markRunInactive key) m') : Gone next.shared key := by
  rcases advance_manager step with ⟨_,touched⟩ | ⟨call,performs⟩
  · rcases gone with halted | pending
    · exact .inl (touched.lasts.stopped.trans halted)
    · exact .inr (touched.lasts.pending pending)
  · have other : call ≠ .markRunInactive key := fun same => still _ (same ▸ performs)
    obtain ⟨_,_,_,_,same⟩ := performs
    rw [same]
    exact operate_gone call other gone

-- What the steps so far still mean for the manager.
structure Lifecycle (codec : List UInt8) (taken : List (Pool × Event)) (m : StreamManager) : Prop where
  maintained : Maintained m
  deleted : ∀ before step after, taken = before ++ step :: after → ∀ key ∈ step.1.shared.pendingRunDeletes,
    (∀ later ∈ step :: after, ∀ m', ¬ Performs codec later (.markRunInactive key) m') → Vacant m key
  closed : ∀ step ∈ taken, ∀ m', Performs codec step .close m' → Bare m
  spared : ∀ step ∈ taken, ∀ call m', Performs codec step call m' → Spares step.1.shared m' call

structure Recorded (codec : List UInt8) (taken : List (Pool × Event)) (m : StreamManager) : Prop where
  maintained : Maintained m
  gone : ∀ before step after, taken = before ++ step :: after → ∀ key ∈ step.1.shared.pendingRunDeletes,
    (∀ later ∈ step :: after, ∀ m', ¬ Performs codec later (.markRunInactive key) m') → Gone m key
  stopped : ∀ step ∈ taken, ∀ m', Performs codec step .close m' → m.stopped = true
  spared : ∀ step ∈ taken, ∀ call m', Performs codec step call m' → Spares step.1.shared m' call

theorem step_recorded {taken : List (Pool × Event)} (recorded : Recorded codec taken p.shared)
    (step : TaskPool.advance (resume codec) p event = some next) : Recorded codec (taken ++ [(p,event)]) next.shared := by
  obtain ⟨maintained,gone,stopped,spared⟩ := recorded
  refine ⟨step_maintained maintained step,?_,?_,?_⟩
  · intro before old after split key pending quiet
    rcases List.eq_nil_or_concat after with rfl | ⟨init,last,rfl⟩
    · obtain ⟨rfl,same⟩ := List.append_inj' split rfl
      cases List.singleton_inj.mp same
      exact step_gone (.inr pending) step (quiet _ (by simp))
    · rw [List.concat_eq_append,← List.cons_append,← List.append_assoc] at split
      obtain ⟨earlier,same⟩ := List.append_inj' split rfl
      obtain rfl := List.singleton_inj.mp same
      apply step_gone (gone before old init earlier key pending ?_) step (quiet _ (by simp))
      intro later member
      apply quiet later
      rw [List.concat_eq_append,← List.cons_append]
      exact List.mem_append_left _ member
  · intro old member m' closes
    rcases List.mem_append.mp member with earlier | last
    · exact step_stopped (stopped old earlier m' closes) step
    · rw [List.mem_singleton.mp last] at closes
      rw [performs_next closes step]
      obtain ⟨_,w,_,_,rfl⟩ := closes
      exact close_stopped w.order
  · intro old member call m' performs
    rcases List.mem_append.mp member with earlier | last
    · exact spared old earlier call m' performs
    · rw [List.mem_singleton.mp last] at performs ⊢
      obtain ⟨_,_,_,_,rfl⟩ := performs
      exact operate_spares maintained call

theorem runs_recorded {taken : List (Pool × Event)} (runs : TaskPool.Runs (resume codec) start taken p) :
    Recorded codec taken p.shared := by
  induction runs with
  | nil =>
    refine ⟨start_maintained,?_,by simp,by simp⟩
    intro before step after split
    simp at split
  | step _ step ih => exact step_recorded ih step

-- In every run over one manager, whatever is called and however the calls
-- interleave.
theorem stream_manager_lifecycle (codec : List UInt8) (p : Pool) (taken : List (Pool × Event))
    (runs : TaskPool.Runs (resume codec) start taken p) : Lifecycle codec taken p.shared := by
  obtain ⟨maintained,gone,stopped,spared⟩ := runs_recorded runs
  refine ⟨maintained,?_,?_,spared⟩
  · intro before step after split key pending quiet
    exact gone_vacant maintained (gone before step after split key pending quiet)
  · intro step member m' closes
    exact maintained.stopped (stopped step member m' closes)

end runs

def toyKey : RunKey := ⟨some "t","r"⟩

def toyWake : Wake := ⟨fun _ => 5,fun keys => keys,fun keys => List.Perm.refl keys⟩

def turn (call : Operation) : List Event := [.call (.operation call),.resume 0 toyWake]

-- A run is deleted while it is active, and publishes once more.
theorem stream_manager_lifecycle_toy : ∃ taken p, TaskPool.Runs (resume []) start taken p ∧ taken.length = 8 ∧
    toyKey ∈ p.shared.pendingRunDeletes ∧ Lifecycle [] taken p.shared := by
  have runs := TaskPool.perform_runs .nil (rfl : TaskPool.perform (resume []) start
    (turn (.markRunActive toyKey) ++ turn (.put toyKey (controlMessage toyKey "interrupt") true) ++
      turn (.deleteRun toyKey) ++ turn (.put toyKey (controlMessage toyKey "done") true)) = some _)
  exact ⟨_,_,runs,rfl,List.mem_singleton.mpr rfl,stream_manager_lifecycle [] _ _ runs⟩

end InmemRuntime.StreamLifecycle
