import InmemRuntime.Streams

namespace InmemRuntime.StreamUpkeep
open OrderedDict ObjectHeap Streams

section maps
variable {α : Type} {bare : α → Prop} {m : RunMap α}

-- Neither a thread without runs nor a run with a bare value.
def Filled (bare : α → Prop) (m : RunMap α) : Prop :=
  ∀ threadId runs, m.get? threadId = some runs →
    runs.isEmpty = false ∧ ∀ runId value, runs.get? runId = some value → ¬ bare value

theorem filled_empty : Filled bare (.empty : RunMap α) := by
  intro threadId runs found
  simp at found

theorem filled_insert {threadId : Option String} {runs : Dict String α} (filled : Filled bare m)
    (some_ : runs.isEmpty = false) (values : ∀ runId value, runs.get? runId = some value → ¬ bare value) :
    Filled bare (m.insert threadId runs) := by
  intro other there found
  rw [Dict.get?_insert] at found
  split at found
  · obtain rfl := Option.some.inj found
    exact ⟨some_,values⟩
  · exact filled other there found

theorem filled_erase (filled : Filled bare m) (threadId : Option String) : Filled bare (m.erase threadId) := by
  intro other runs found
  rw [Dict.get?_erase] at found
  split at found
  · cases found
  · exact filled other runs found

theorem filled_set (filled : Filled bare m) {key : RunKey} {value : α} (holds : ¬ bare value) :
    Filled bare (m.set key value) := by
  apply filled_insert filled
  · cases empty : (((m.get? key.threadId).getD .empty).insert key.runId value).isEmpty with
    | false => rfl
    | true =>
      have gone := Dict.get?_insert_self ((m.get? key.threadId).getD .empty) key.runId value
      rw [Dict.isEmpty_iff.mp empty,Dict.get?_empty] at gone
      cases gone
  · intro runId stored found
    rw [Dict.get?_insert] at found
    split at found
    · obtain rfl := Option.some.inj found
      exact holds
    · cases thread : m.get? key.threadId with
      | none => simp [thread] at found
      | some runs => exact (filled _ runs thread).2 runId stored (by simpa [thread] using found)

theorem filled_drop (filled : Filled bare m) (key : RunKey) : Filled bare (m.drop key) := by
  unfold RunMap.drop
  cases thread : m.get? key.threadId with
  | none => exact filled
  | some runs =>
    dsimp only
    split
    · exact filled_erase filled _
    · rename_i rest
      apply filled_insert filled
      · simpa using rest
      · intro runId value found
        rw [Dict.get?_erase] at found
        split at found
        · cases found
        · exact (filled _ runs thread).2 runId value found

theorem filled_discard {m : RunMap (List Nat)} (filled : Filled (· = []) m) (key : RunKey) (queue : Nat) :
    Filled (· = []) (m.discard key queue) := by
  unfold RunMap.discard
  cases m.find key with
  | none => exact filled
  | some queues =>
    dsimp only
    split
    · exact filled
    · split
      · exact filled_drop filled key
      · rename_i rest
        apply filled_set filled
        intro none_
        exact rest (List.isEmpty_iff.mpr none_)

end maps

-- The places where a queue object can be registered.
inductive Holder where
  | subscriber (key : RunKey)
  | listener (key : RunKey)
  | watcher (threadId : String)
deriving DecidableEq

def registered (m : StreamManager) : Holder → List Nat
  | .subscriber key => m.getQueues key
  | .listener key => m.getControlQueues key
  | .watcher threadId => m.threadQueues threadId

-- A registered queue exists and has one place only.
structure Owned (m : StreamManager) : Prop where
  used : ∀ holder, ∀ queue ∈ registered m holder, queue < m.contents.next
  apart : ∀ holder holder' queue, queue ∈ registered m holder → queue ∈ registered m holder' → holder = holder'

structure Vacant (m : StreamManager) (key : RunKey) : Prop where
  queues : m.queues.find key = none
  controlQueues : m.controlQueues.find key = none
  controlKeys : m.controlKeys.find key = none
  messageStores : m.messageStores.find key = none

-- The five maps and the two sets.
structure Bare (m : StreamManager) : Prop where
  queues : m.queues = .empty
  controlQueues : m.controlQueues = .empty
  controlKeys : m.controlKeys = .empty
  messageStores : m.messageStores = .empty
  threadStreams : m.threadStreams = .empty
  active : m.activeRuns = []
  pending : m.pendingRunDeletes = []

structure Maintained (m : StreamManager) : Prop where
  active : ∀ key ∈ m.pendingRunDeletes, key ∈ m.activeRuns
  deleted : ∀ key ∈ m.pendingRunDeletes, Vacant m key
  queues : Filled (· = []) m.queues
  controlQueues : Filled (· = []) m.controlQueues
  controlKeys : Filled (fun _ => False) m.controlKeys
  messageStores : Filled (· = []) m.messageStores
  threadStreams : ∀ threadId queues, m.threadStreams.get? threadId = some queues → queues ≠ []
  stopped : m.stopped = true → Bare m
  owned : Owned m

theorem Bare.vacant (bare : Bare m) (key : RunKey) : Vacant m key := by
  refine ⟨?_,?_,?_,?_⟩
  · rw [bare.queues]; rfl
  · rw [bare.controlQueues]; rfl
  · rw [bare.controlKeys]; rfl
  · rw [bare.messageStores]; rfl

-- Only the id counter, new queue objects and the contents of some queues.
structure Touched (m m' : StreamManager) (queues : List Nat) : Prop where
  same : ∃ contents lastMs lastSeq, m' = {m with contents, lastMs, lastSeq}
  next : m.contents.next ≤ m'.contents.next
  others : ∀ queue < m.contents.next, queue ∉ queues → m'.contents.read queue = m.contents.read queue

-- The entries of a run, its marks and what waits in its queues.
structure SameRun (m m' : StreamManager) (key : RunKey) : Prop where
  queues : m'.queues.find key = m.queues.find key
  controlQueues : m'.controlQueues.find key = m.controlQueues.find key
  controlKeys : m'.controlKeys.find key = m.controlKeys.find key
  messageStores : m'.messageStores.find key = m.messageStores.find key
  active : key ∈ m'.activeRuns ↔ key ∈ m.activeRuns
  pending : key ∈ m'.pendingRunDeletes ↔ key ∈ m.pendingRunDeletes
  contents : ∀ queue ∈ m.getQueues key ++ m.getControlQueues key, m'.contents.read queue = m.contents.read queue

structure SameThread (m m' : StreamManager) (threadId : String) : Prop where
  streams : m'.threadStreams.get? threadId = m.threadStreams.get? threadId
  contents : ∀ queue ∈ m.threadQueues threadId, m'.contents.read queue = m.contents.read queue

section operations
variable {m m' m'' : StreamManager} {key : RunKey} {threadId : String} {queue : Nat} {codec : List UInt8} {clock : Clock}

theorem Touched.registered (touched : Touched m m' queues) (holder : Holder) : registered m' holder = registered m holder := by
  obtain ⟨⟨contents,lastMs,lastSeq,rfl⟩,_,_⟩ := touched
  cases holder <;> rfl

theorem Touched.maintained (touched : Touched m m' queues) (maintained : Maintained m) : Maintained m' := by
  have places := touched.registered
  obtain ⟨⟨contents,lastMs,lastSeq,rfl⟩,next,_⟩ := touched
  obtain ⟨active,deleted,queues,controlQueues,controlKeys,stores,streams,stopped,owned⟩ := maintained
  refine ⟨active,?_,queues,controlQueues,controlKeys,stores,streams,?_,?_,?_⟩
  · intro key pending
    obtain ⟨one,two,three,four⟩ := deleted key pending
    exact ⟨one,two,three,four⟩
  · intro halted
    obtain ⟨one,two,three,four,five,six,seven⟩ := stopped halted
    exact ⟨one,two,three,four,five,six,seven⟩
  · intro holder queue member
    rw [places] at member
    exact Nat.lt_of_lt_of_le (owned.used holder queue member) next
  · intro holder holder' queue member member'
    rw [places] at member member'
    exact owned.apart holder holder' queue member member'

theorem Touched.trans {queues queues' : List Nat} (first : Touched m m' queues) (second : Touched m' m'' queues') :
    Touched m m'' (queues ++ queues') := by
  obtain ⟨⟨contents,lastMs,lastSeq,rfl⟩,next,others⟩ := first
  obtain ⟨⟨contents',lastMs',lastSeq',rfl⟩,next',others'⟩ := second
  refine ⟨⟨contents',lastMs',lastSeq',rfl⟩,Nat.le_trans next next',?_⟩
  intro queue old apart
  obtain ⟨before,after⟩ := not_or.mp (fun member => apart (List.mem_append.mpr member))
  exact (others' queue (Nat.lt_of_lt_of_le old next) after).trans (others queue old before)

theorem finish_touched (message : Message) (now : Int) : Touched m (m.finish now queue message) [queue] := by
  refine ⟨⟨_,_,_,rfl⟩,Nat.le_refl _,?_⟩
  intro other _ apart
  exact Heap.read_write_other (by simpa using apart)

theorem finishAll_touched (clock : Clock) (message : Message) (queues : List Nat) :
    Touched m (m.finishAll clock message queues) queues := by
  induction queues generalizing m with
  | nil => exact ⟨⟨_,_,_,rfl⟩,Nat.le_refl _,fun _ _ _ => rfl⟩
  | cons queue rest ih => exact (finish_touched message _).trans ih

theorem alloc_touched (m : StreamManager) : Touched m {m with contents := (m.contents.alloc []).1} [] := by
  refine ⟨⟨_,_,_,rfl⟩,Nat.le_succ _,?_⟩
  intro queue old _
  exact Heap.read_alloc_old old

theorem stamp_touched (m : StreamManager) (now : Int) : Touched m (m.generateId now).1 [] :=
  ⟨⟨_,_,_,rfl⟩,Nat.le_refl _,fun _ _ _ => rfl⟩

theorem accepts_iff : m.refuses key = false ↔ m.stopped = false ∧ key ∉ m.pendingRunDeletes := by
  simp [StreamManager.refuses]

-- An entry for a key that is live leaves those that wait for their deletion.
theorem set_pending {α : Type} {entries : RunMap α} {value : α} {other : RunKey} (live : key ∉ m.pendingRunDeletes)
    (pending : other ∈ m.pendingRunDeletes) : (entries.set key value).find other = entries.find other := by
  rw [RunMap.find_set,if_neg (ne_of_mem_of_not_mem pending live).symm]

theorem owned_shrinks (owned : Owned m) (next : m'.contents.next = m.contents.next)
    (fewer : ∀ holder, registered m' holder ⊆ registered m holder) : Owned m' := by
  refine ⟨?_,?_⟩
  · intro holder queue member
    rw [next]
    exact owned.used holder queue (fewer holder member)
  · intro holder holder' queue member member'
    exact owned.apart holder holder' queue (fewer holder member) (fewer holder' member')

-- One more queue, in one place.
structure Registers (m m' : StreamManager) (holder : Holder) : Prop where
  contents : m'.contents = (m.contents.alloc []).1
  here : registered m' holder = registered m holder ++ [m.contents.next]
  there : ∀ other, other ≠ holder → registered m' other = registered m other

theorem subscriber_registers (m : StreamManager) (key : RunKey) :
    Registers m {m with contents := (m.contents.alloc []).1, queues := m.queues.set key (m.getQueues key ++ [m.contents.next])}
      (.subscriber key) := by
  refine ⟨rfl,by simp [registered,StreamManager.getQueues,RunMap.find_set],fun other apart => ?_⟩
  cases other with
  | subscriber other =>
    have differs : key ≠ other := fun same => apart (by rw [same])
    simp [registered,StreamManager.getQueues,RunMap.find_set,differs]
  | listener _ => rfl
  | watcher _ => rfl

theorem listener_registers (m : StreamManager) (key : RunKey) :
    Registers m {m with contents := (m.contents.alloc []).1, controlQueues := m.controlQueues.set key (m.getControlQueues key ++ [m.contents.next])}
      (.listener key) := by
  refine ⟨rfl,by simp [registered,StreamManager.getControlQueues,RunMap.find_set],fun other apart => ?_⟩
  cases other with
  | subscriber _ => rfl
  | listener other =>
    have differs : key ≠ other := fun same => apart (by rw [same])
    simp [registered,StreamManager.getControlQueues,RunMap.find_set,differs]
  | watcher _ => rfl

theorem watcher_registers (m : StreamManager) (threadId : String) :
    Registers m {m with contents := (m.contents.alloc []).1, threadStreams := m.threadStreams.insert threadId (m.threadQueues threadId ++ [m.contents.next])}
      (.watcher threadId) := by
  refine ⟨rfl,by simp [registered,StreamManager.threadQueues],fun other apart => ?_⟩
  cases other with
  | subscriber _ => rfl
  | listener _ => rfl
  | watcher other =>
    have differs : threadId ≠ other := fun same => apart (by rw [same])
    simp [registered,StreamManager.threadQueues,Dict.get?_insert,differs]

theorem owned_grows {holder : Holder} (owned : Owned m) (registers : Registers m m' holder) : Owned m' := by
  obtain ⟨contents,here,there⟩ := registers
  have next : m'.contents.next = m.contents.next + 1 := by rw [contents]; rfl
  have known : ∀ place queue, queue ∈ registered m' place →
      queue ∈ registered m place ∨ (place = holder ∧ queue = m.contents.next) := by
    intro place queue member
    by_cases same : place = holder
    · subst same
      rw [here] at member
      rcases List.mem_append.mp member with old | new
      · exact .inl old
      · exact .inr ⟨rfl,List.mem_singleton.mp new⟩
    · rw [there place same] at member
      exact .inl member
  refine ⟨?_,?_⟩
  · intro place queue member
    rw [next]
    rcases known place queue member with old | ⟨_,rfl⟩
    · exact Nat.lt_succ_of_lt (owned.used place queue old)
    · exact Nat.lt_succ_self _
  · intro place place' queue member member'
    rcases known place queue member with old | ⟨rfl,new⟩
    · rcases known place' queue member' with old' | ⟨rfl,rfl⟩
      · exact owned.apart place place' queue old old'
      · exact absurd (owned.used place _ old) (Nat.lt_irrefl _)
    · rcases known place' queue member' with old' | ⟨rfl,_⟩
      · subst new
        exact absurd (owned.used place' _ old') (Nat.lt_irrefl _)
      · rfl

theorem store_maintained (maintained : Maintained m) (accepts : m.refuses key = false) {messages : List Message}
    (some_ : messages ≠ []) : Maintained {m with messageStores := m.messageStores.set key messages} := by
  obtain ⟨running,live⟩ := accepts_iff.mp accepts
  refine {maintained with
    deleted := ?_
    messageStores := filled_set maintained.messageStores some_
    stopped := fun halted => absurd (running.symm.trans halted) (by simp)
    owned := owned_shrinks maintained.owned rfl fun holder => by cases holder <;> exact List.Subset.refl _}
  intro other pending
  obtain ⟨one,two,three,four⟩ := maintained.deleted other pending
  exact ⟨one,two,three,(set_pending live pending).trans four⟩

theorem controlKey_maintained (maintained : Maintained m) (accepts : m.refuses key = false) (message : Message) :
    Maintained {m with controlKeys := m.controlKeys.set key message} := by
  obtain ⟨running,live⟩ := accepts_iff.mp accepts
  refine {maintained with
    deleted := ?_
    controlKeys := filled_set maintained.controlKeys id
    stopped := fun halted => absurd (running.symm.trans halted) (by simp)
    owned := owned_shrinks maintained.owned rfl fun holder => by cases holder <;> exact List.Subset.refl _}
  intro other pending
  obtain ⟨one,two,three,four⟩ := maintained.deleted other pending
  exact ⟨one,two,(set_pending live pending).trans three,four⟩

theorem put_maintained (maintained : Maintained m) (now : Int) (message : Message) (resumable : Bool) :
    Maintained (m.put now key message resumable).1 := by
  unfold StreamManager.put
  split
  · exact maintained
  · rename_i refuses
    have accepts : (m.generateId now).1.refuses key = false := Bool.eq_false_iff.mpr refuses
    have stamped := (stamp_touched m now).maintained maintained
    dsimp only
    cases resumable with
    | false =>
      split
      · exact controlKey_maintained stamped accepts _
      · exact stamped
    | true =>
      split
      · exact controlKey_maintained (store_maintained stamped accepts (by simp)) accepts _
      · exact store_maintained stamped accepts (by simp)

theorem addQueue_maintained (maintained : Maintained m) (now : Int) : Maintained (m.addQueue now key).1 := by
  unfold StreamManager.addQueue
  dsimp only
  split
  · exact ((alloc_touched m).trans (finish_touched _ now)).maintained maintained
  · rename_i refuses
    obtain ⟨running,live⟩ := accepts_iff.mp (Bool.eq_false_iff.mpr refuses)
    refine {maintained with
      deleted := ?_
      queues := filled_set maintained.queues (by simp)
      stopped := fun halted => absurd (running.symm.trans halted) (by simp)
      owned := owned_grows maintained.owned (subscriber_registers m key)}
    intro other pending
    obtain ⟨one,two,three,four⟩ := maintained.deleted other pending
    exact ⟨(set_pending live pending).trans one,two,three,four⟩

theorem addControlQueue_maintained (maintained : Maintained m) (now : Int) : Maintained (m.addControlQueue now key).1 := by
  unfold StreamManager.addControlQueue
  dsimp only
  split
  · exact ((alloc_touched m).trans (finish_touched _ now)).maintained maintained
  · rename_i refuses
    obtain ⟨running,live⟩ := accepts_iff.mp (Bool.eq_false_iff.mpr refuses)
    refine {maintained with
      deleted := ?_
      controlQueues := filled_set maintained.controlQueues (by simp)
      stopped := fun halted => absurd (running.symm.trans halted) (by simp)
      owned := owned_grows maintained.owned (listener_registers m key)}
    intro other pending
    obtain ⟨one,two,three,four⟩ := maintained.deleted other pending
    exact ⟨one,(set_pending live pending).trans two,three,four⟩

theorem addThreadStream_maintained (maintained : Maintained m) (now : Int) :
    Maintained (m.addThreadStream now threadId).1 := by
  unfold StreamManager.addThreadStream
  dsimp only
  split
  · exact ((alloc_touched m).trans (finish_touched _ now)).maintained maintained
  · rename_i running
    refine {maintained with
      deleted := ?_
      threadStreams := ?_
      stopped := fun halted => absurd halted running
      owned := owned_grows maintained.owned (watcher_registers m threadId)}
    · intro other pending
      obtain ⟨one,two,three,four⟩ := maintained.deleted other pending
      exact ⟨one,two,three,four⟩
    · intro other queues found
      rw [Dict.get?_insert] at found
      split at found
      · obtain rfl := Option.some.inj found
        simp
      · exact maintained.threadStreams other queues found

-- A queue that is removed leaves its holder, and nothing else changes there.
def Erased (queue : Nat) (m m' : StreamManager) : Prop :=
  ∀ holder, registered m' holder = registered m holder ∨ registered m' holder = (registered m holder).erase queue

theorem erased_fewer (erased : Erased queue m m') (holder : Holder) : registered m' holder ⊆ registered m holder := by
  rcases erased holder with same | less
  · exact same ▸ List.Subset.refl _
  · exact less ▸ List.erase_subset

theorem erased_stays (erased : Erased queue m m') {holder : Holder} {other : Nat} (member : other ∈ registered m holder)
    (free : other ≠ queue) : other ∈ registered m' holder := by
  rcases erased holder with same | less
  · exact same ▸ member
  · exact less ▸ (List.mem_erase_of_ne free).mpr member

theorem removeQueue_erased (m : StreamManager) (key : RunKey) (queue : Nat) : Erased queue m (m.removeQueue key queue) := by
  intro holder
  cases holder with
  | subscriber other =>
    simp only [registered,StreamManager.getQueues,StreamManager.removeQueue,RunMap.find_discard]
    split
    · exact .inr rfl
    · exact .inl rfl
  | listener _ => exact .inl rfl
  | watcher _ => exact .inl rfl

theorem removeControlQueue_erased (m : StreamManager) (key : RunKey) (queue : Nat) : Erased queue m (m.removeControlQueue key queue) := by
  rw [StreamManager.removeControlQueue_discards]
  intro holder
  cases holder with
  | subscriber _ => exact .inl rfl
  | listener other =>
    simp only [registered,StreamManager.getControlQueues,RunMap.find_discard]
    split
    · exact .inr rfl
    · exact .inl rfl
  | watcher _ => exact .inl rfl

theorem removeThreadStream_erased (m : StreamManager) (threadId : String) (queue : Nat) :
    Erased queue m (m.removeThreadStream threadId queue) := by
  unfold StreamManager.removeThreadStream
  intro holder
  cases found : m.threadStreams.get? threadId with
  | none => exact .inl rfl
  | some queues =>
    dsimp only
    split
    · exact .inl rfl
    · cases holder with
      | subscriber _ => exact .inl rfl
      | listener _ => exact .inl rfl
      | watcher other =>
        simp only [registered,StreamManager.threadQueues]
        by_cases same : threadId = other
        · subst same
          right
          split
          · rename_i bare
            simp [Dict.get?_erase,found,List.isEmpty_iff.mp bare]
          · simp [found]
        · left
          split
          · simp [Dict.get?_erase,same]
          · simp [Dict.get?_insert,same]

theorem removeQueue_maintained (maintained : Maintained m) : Maintained (m.removeQueue key queue) := by
  refine {maintained with
    deleted := ?_
    queues := filled_discard maintained.queues key queue
    stopped := ?_
    owned := owned_shrinks maintained.owned rfl (erased_fewer (removeQueue_erased m key queue))}
  · intro other pending
    obtain ⟨one,two,three,four⟩ := maintained.deleted other pending
    exact ⟨RunMap.find_discard_none one queue key,two,three,four⟩
  · intro halted
    obtain ⟨one,two,three,four,five,six,seven⟩ := maintained.stopped halted
    refine ⟨?_,two,three,four,five,six,seven⟩
    unfold StreamManager.removeQueue
    rw [one]
    rfl

theorem removeControlQueue_maintained (maintained : Maintained m) : Maintained (m.removeControlQueue key queue) := by
  have fewer := erased_fewer (removeControlQueue_erased m key queue)
  rw [StreamManager.removeControlQueue_discards] at fewer ⊢
  refine {maintained with
    deleted := ?_
    controlQueues := filled_discard maintained.controlQueues key queue
    stopped := ?_
    owned := owned_shrinks maintained.owned rfl fewer}
  · intro other pending
    obtain ⟨one,two,three,four⟩ := maintained.deleted other pending
    exact ⟨one,RunMap.find_discard_none two queue key,three,four⟩
  · intro halted
    obtain ⟨one,two,three,four,five,six,seven⟩ := maintained.stopped halted
    refine ⟨one,?_,three,four,five,six,seven⟩
    rw [two]
    rfl

theorem removeThreadStream_maintained (maintained : Maintained m) : Maintained (m.removeThreadStream threadId queue) := by
  have fewer := erased_fewer (removeThreadStream_erased m threadId queue)
  unfold StreamManager.removeThreadStream at fewer ⊢
  cases found : m.threadStreams.get? threadId with
  | none => exact maintained
  | some queues =>
    simp only [found] at fewer ⊢
    split
    · exact maintained
    · rename_i here
      rw [if_neg here] at fewer
      refine {maintained with
        deleted := ?_
        threadStreams := ?_
        stopped := ?_
        owned := owned_shrinks maintained.owned rfl fewer}
      · intro other pending
        obtain ⟨one,two,three,four⟩ := maintained.deleted other pending
        exact ⟨one,two,three,four⟩
      · intro other listed there
        dsimp only at there
        split at there
        · rw [Dict.get?_erase] at there
          split at there
          · cases there
          · exact maintained.threadStreams other listed there
        · rename_i rest
          rw [Dict.get?_insert] at there
          split at there
          · obtain rfl := Option.some.inj there
            intro none_
            exact rest (List.isEmpty_iff.mpr none_)
          · exact maintained.threadStreams other listed there
      · intro halted
        have bare := (maintained.stopped halted).threadStreams
        simp [bare] at found

theorem markRunActive_maintained (maintained : Maintained m) : Maintained (m.markRunActive key) := by
  unfold StreamManager.markRunActive
  split
  · exact maintained
  · rename_i refuses
    have running : m.stopped = false := by
      simp only [StreamManager.refuses,Bool.or_eq_true,not_or,Bool.not_eq_true] at refuses
      exact refuses.1.1
    refine {maintained with
      active := fun other pending => List.mem_append_left _ (maintained.active other pending)
      deleted := ?_
      stopped := fun halted => absurd (running.symm.trans halted) (by simp)
      owned := owned_shrinks maintained.owned rfl fun holder => by cases holder <;> exact List.Subset.refl _}
    intro other pending
    obtain ⟨one,two,three,four⟩ := maintained.deleted other pending
    exact ⟨one,two,three,four⟩

theorem vacant_cleared (m : StreamManager) (key : RunKey) : Vacant (m.clearRunState key) key :=
  ⟨by simp [StreamManager.clearRunState,RunMap.find_drop],by simp [StreamManager.clearRunState,RunMap.find_drop],
    by simp [StreamManager.clearRunState,RunMap.find_drop],by simp [StreamManager.clearRunState,RunMap.find_drop]⟩

theorem Vacant.cleared {other : RunKey} (vacant : Vacant m other) : Vacant (m.clearRunState key) other :=
  ⟨by simp [StreamManager.clearRunState,RunMap.find_drop,vacant.queues],
    by simp [StreamManager.clearRunState,RunMap.find_drop,vacant.controlQueues],
    by simp [StreamManager.clearRunState,RunMap.find_drop,vacant.controlKeys],
    by simp [StreamManager.clearRunState,RunMap.find_drop,vacant.messageStores]⟩

theorem Bare.cleared (bare : Bare m) : m.clearRunState key = m := by
  obtain ⟨one,two,three,four,_,_,_⟩ := bare
  cases m
  dsimp only at one two three four
  subst one two three four
  rfl

theorem registered_cleared (holder : Holder) : registered (m.clearRunState key) holder ⊆ registered m holder := by
  cases holder with
  | subscriber other =>
    simp only [registered,StreamManager.getQueues,StreamManager.clearRunState,RunMap.find_drop]
    split
    · simp
    · exact List.Subset.refl _
  | listener other =>
    simp only [registered,StreamManager.getControlQueues,StreamManager.clearRunState,RunMap.find_drop]
    split
    · simp
    · exact List.Subset.refl _
  | watcher _ => exact List.Subset.refl _

theorem cleared_maintained (maintained : Maintained m) : Maintained (m.clearRunState key) := by
  refine {maintained with
    deleted := fun other pending => (maintained.deleted other pending).cleared
    queues := filled_drop maintained.queues key
    controlQueues := filled_drop maintained.controlQueues key
    controlKeys := filled_drop maintained.controlKeys key
    messageStores := filled_drop maintained.messageStores key
    stopped := ?_
    owned := owned_shrinks maintained.owned rfl registered_cleared}
  intro halted
  rw [(maintained.stopped halted).cleared]
  exact maintained.stopped halted

theorem marks_maintained (maintained : Maintained m) {active pending : List RunKey} (within : ∀ key ∈ pending, key ∈ active)
    (vacant : ∀ key ∈ pending, Vacant m key) (none_ : m.stopped = true → active = [] ∧ pending = []) :
    Maintained {m with activeRuns := active, pendingRunDeletes := pending} := by
  refine {maintained with
    active := within
    deleted := ?_
    stopped := ?_
    owned := owned_shrinks maintained.owned rfl fun holder => by cases holder <;> exact List.Subset.refl _}
  · intro key marked
    obtain ⟨one,two,three,four⟩ := vacant key marked
    exact ⟨one,two,three,four⟩
  · intro halted
    obtain ⟨one,two,three,four,five,_,_⟩ := maintained.stopped halted
    exact ⟨one,two,three,four,five,(none_ halted).1,(none_ halted).2⟩

theorem markRunInactive_maintained (maintained : Maintained m) : Maintained (m.markRunInactive key) := by
  have without : Maintained {m with
      activeRuns := m.activeRuns.filter fun active => active != key
      pendingRunDeletes := m.pendingRunDeletes.filter fun pending => pending != key} := by
    apply marks_maintained maintained
    · intro other pending
      obtain ⟨old,apart⟩ := List.mem_filter.mp pending
      exact List.mem_filter.mpr ⟨maintained.active other old,apart⟩
    · intro other pending
      exact maintained.deleted other (List.mem_filter.mp pending).1
    · intro halted
      obtain ⟨_,_,_,_,_,active,pending⟩ := maintained.stopped halted
      simp [active,pending]
  unfold StreamManager.markRunInactive
  dsimp only
  split
  · exact cleared_maintained without
  · rename_i live
    have same : (m.pendingRunDeletes.filter fun pending => pending != key) = m.pendingRunDeletes := by
      apply List.filter_eq_self.mpr
      intro other pending
      have apart : other ≠ key := fun equal => live (by simpa [equal] using pending)
      simpa using apart
    rw [same] at without
    exact without

theorem signalRun_touched : Touched m (m.signalRun codec clock key) (m.getQueues key ++ m.getControlQueues key) := by
  have served := finishAll_touched (m:=m) clock ⟨.stream key.runId,codec,none⟩ (m.getQueues key)
  have listeners : (m.finishAll clock ⟨.stream key.runId,codec,none⟩ (m.getQueues key)).getControlQueues key =
      m.getControlQueues key := served.registered (.listener key)
  unfold StreamManager.signalRun
  rw [← listeners]
  exact served.trans (finishAll_touched _ _ _)

-- `delete_run` clears the run, and marks it while its context is active.
theorem deleteRun_shape (codec : List UInt8) (clock : Clock) (m : StreamManager) (key : RunKey) :
    ∃ told pending, m.deleteRun codec clock key = {told.clearRunState key with pendingRunDeletes := pending} ∧
      Touched m told (m.getQueues key ++ m.getControlQueues key) ∧
      ∀ other, other ∈ pending ↔ other ∈ m.pendingRunDeletes ∨ (other = key ∧ key ∈ m.activeRuns) := by
  have touched : Touched m (m.signalRun codec clock key) _ := signalRun_touched
  refine ⟨m.signalRun codec clock key,(m.deleteRun codec clock key).pendingRunDeletes,?_,touched,?_⟩
  · unfold StreamManager.deleteRun
    dsimp only
    split <;> rfl
  · intro other
    obtain ⟨⟨contents,lastMs,lastSeq,same⟩,_,_⟩ := touched
    unfold StreamManager.deleteRun
    rw [same]
    dsimp only
    split
    · rename_i fresh
      simp only [Bool.and_eq_true,List.contains_iff_mem] at fresh
      simp [StreamManager.clearRunState,fresh.1]
    · rename_i known
      simp only [Bool.and_eq_true,List.contains_iff_mem,Bool.not_eq_true',not_and,Bool.not_eq_false] at known
      simp only [StreamManager.clearRunState]
      constructor
      · exact .inl
      · intro either
        rcases either with old | ⟨rfl,active⟩
        · exact old
        · simpa using known active

theorem deleteRun_maintained (maintained : Maintained m) : Maintained (m.deleteRun codec clock key) := by
  obtain ⟨told,pending,same,touched,marked⟩ := deleteRun_shape codec clock m key
  have cleared : Maintained (told.clearRunState key) := cleared_maintained (touched.maintained maintained)
  obtain ⟨⟨contents,lastMs,lastSeq,rfl⟩,_,_⟩ := touched
  rw [same]
  apply marks_maintained cleared
  · intro other member
    rcases (marked other).mp member with old | ⟨rfl,active⟩
    · exact maintained.active other old
    · exact active
  · intro other member
    rcases (marked other).mp member with old | ⟨rfl,_⟩
    · exact cleared.deleted other old
    · exact vacant_cleared _ _
  · intro halted
    have bare := maintained.stopped halted
    refine ⟨bare.active,List.eq_nil_iff_forall_not_mem.mpr ?_⟩
    intro other member
    rcases (marked other).mp member with old | ⟨rfl,active⟩
    · simp [bare.pending] at old
    · simp [bare.active] at active

theorem SameRun.trans (first : SameRun m m' key) (second : SameRun m' m'' key) : SameRun m m'' key := by
  refine ⟨second.queues.trans first.queues,second.controlQueues.trans first.controlQueues,
    second.controlKeys.trans first.controlKeys,second.messageStores.trans first.messageStores,
    second.active.trans first.active,second.pending.trans first.pending,?_⟩
  intro queue member
  have listed : queue ∈ m'.getQueues key ++ m'.getControlQueues key := by
    unfold StreamManager.getQueues StreamManager.getControlQueues
    rw [first.queues,first.controlQueues]
    exact member
  exact (second.contents queue listed).trans (first.contents queue member)

theorem SameThread.trans (first : SameThread m m' threadId) (second : SameThread m' m'' threadId) :
    SameThread m m'' threadId := by
  refine ⟨second.streams.trans first.streams,?_⟩
  intro queue member
  have listed : queue ∈ m'.threadQueues threadId := by
    unfold StreamManager.threadQueues
    rw [first.streams]
    exact member
  exact (second.contents queue listed).trans (first.contents queue member)

theorem Owned.disjoint (owned : Owned m) (holder holder' : Holder) (apart : holder ≠ holder')
    (member : queue ∈ registered m holder) : queue ∉ registered m holder' :=
  fun theirs => apart (owned.apart holder holder' queue member theirs)

theorem Touched.sameRun {queues : List Nat} (touched : Touched m m' queues) (owned : Owned m)
    (free : ∀ queue ∈ m.getQueues key ++ m.getControlQueues key, queue ∉ queues) : SameRun m m' key := by
  obtain ⟨⟨contents,lastMs,lastSeq,rfl⟩,_,others⟩ := touched
  refine ⟨rfl,rfl,rfl,rfl,Iff.rfl,Iff.rfl,?_⟩
  intro queue member
  apply others queue ?_ (free queue member)
  rcases List.mem_append.mp member with mine | mine
  · exact owned.used (.subscriber key) queue mine
  · exact owned.used (.listener key) queue mine

theorem Touched.sameThread {queues : List Nat} (touched : Touched m m' queues) (owned : Owned m)
    (free : ∀ queue ∈ m.threadQueues threadId, queue ∉ queues) : SameThread m m' threadId := by
  obtain ⟨⟨contents,lastMs,lastSeq,rfl⟩,_,others⟩ := touched
  refine ⟨rfl,?_⟩
  intro queue member
  exact others queue (owned.used (.watcher threadId) queue member) (free queue member)

theorem deleteRun_others (maintained : Maintained m) {other : RunKey} (apart : other ≠ key) :
    SameRun m (m.deleteRun codec clock key) other := by
  obtain ⟨told,pending,same,touched,marked⟩ := deleteRun_shape codec clock m key
  have owned := maintained.owned
  have free : ∀ queue ∈ m.getQueues other ++ m.getControlQueues other, queue ∉ m.getQueues key ++ m.getControlQueues key := by
    intro queue member told
    have subscribers : Holder.subscriber other ≠ .subscriber key := fun same => apart (Holder.subscriber.inj same)
    have listeners : Holder.listener other ≠ .listener key := fun same => apart (Holder.listener.inj same)
    rcases List.mem_append.mp member with mine | mine
    · rcases List.mem_append.mp told with theirs | theirs
      · exact owned.disjoint _ _ subscribers mine theirs
      · exact owned.disjoint (.subscriber other) (.listener key) (by simp) mine theirs
    · rcases List.mem_append.mp told with theirs | theirs
      · exact owned.disjoint (.listener other) (.subscriber key) (by simp) mine theirs
      · exact owned.disjoint _ _ listeners mine theirs
  have first := touched.sameRun owned free
  obtain ⟨⟨contents,lastMs,lastSeq,rfl⟩,_,_⟩ := touched
  rw [same]
  refine first.trans ⟨?_,?_,?_,?_,Iff.rfl,?_,fun _ _ => rfl⟩
  · exact (RunMap.find_drop _ _ _).trans (if_neg apart.symm)
  · exact (RunMap.find_drop _ _ _).trans (if_neg apart.symm)
  · exact (RunMap.find_drop _ _ _).trans (if_neg apart.symm)
  · exact (RunMap.find_drop _ _ _).trans (if_neg apart.symm)
  · simp [marked,apart]

theorem deleteRun_threads (maintained : Maintained m) (threadId : String) :
    SameThread m (m.deleteRun codec clock key) threadId := by
  obtain ⟨told,pending,same,touched,_⟩ := deleteRun_shape codec clock m key
  have owned := maintained.owned
  have first : SameThread m told threadId := by
    apply touched.sameThread owned
    intro queue member theirs
    rcases List.mem_append.mp theirs with subscribed | listened
    · exact owned.disjoint (.watcher threadId) (.subscriber key) (by simp) member subscribed
    · exact owned.disjoint (.watcher threadId) (.listener key) (by simp) member listened
  rw [same]
  exact first.trans ⟨rfl,fun _ _ => rfl⟩

theorem deleteRuns_parts (maintained : Maintained m) (keys : List RunKey) :
    Maintained (keys.foldl (StreamManager.deleteRun codec clock) m) ∧
      (∀ other, other ∉ keys → SameRun m (keys.foldl (StreamManager.deleteRun codec clock) m) other) ∧
      ∀ threadId, SameThread m (keys.foldl (StreamManager.deleteRun codec clock) m) threadId := by
  induction keys generalizing m with
  | nil =>
    exact ⟨maintained,fun _ _ => ⟨rfl,rfl,rfl,rfl,Iff.rfl,Iff.rfl,fun _ _ => rfl⟩,fun _ => ⟨rfl,fun _ _ => rfl⟩⟩
  | cons key rest ih =>
    obtain ⟨kept,runs,threads⟩ := ih (deleteRun_maintained maintained)
    refine ⟨kept,?_,?_⟩
    · intro other absent
      obtain ⟨apart,later⟩ := not_or.mp fun member => absent (List.mem_cons.mpr member)
      exact (deleteRun_others maintained apart).trans (runs other later)
    · intro threadId
      exact (deleteRun_threads maintained threadId).trans (threads threadId)

theorem threadRuns_thread (member : key ∈ m.threadRuns threadId) : key.threadId = some threadId := by
  unfold StreamManager.threadRuns at member
  rcases List.mem_append.mp (List.mem_dedup.mp member) with listed | active
  · obtain ⟨runId,_,rfl⟩ := List.mem_map.mp listed
    rfl
  · simpa using (List.mem_filter.mp active).2

-- The thread is gone from the four maps of runs.
def withoutThread (m : StreamManager) (threadId : String) : StreamManager :=
  {m with
    queues := m.queues.erase (some threadId)
    controlQueues := m.controlQueues.erase (some threadId)
    controlKeys := m.controlKeys.erase (some threadId)
    messageStores := m.messageStores.erase (some threadId)}

theorem withoutThread_maintained (maintained : Maintained m) : Maintained (withoutThread m threadId) := by
  refine {maintained with
    deleted := ?_
    queues := filled_erase maintained.queues _
    controlQueues := filled_erase maintained.controlQueues _
    controlKeys := filled_erase maintained.controlKeys _
    messageStores := filled_erase maintained.messageStores _
    stopped := ?_
    owned := owned_shrinks maintained.owned rfl ?_}
  · intro key pending
    obtain ⟨one,two,three,four⟩ := maintained.deleted key pending
    refine ⟨?_,?_,?_,?_⟩
    · exact (RunMap.find_erase _ _ _).trans (by rw [one,ite_self])
    · exact (RunMap.find_erase _ _ _).trans (by rw [two,ite_self])
    · exact (RunMap.find_erase _ _ _).trans (by rw [three,ite_self])
    · exact (RunMap.find_erase _ _ _).trans (by rw [four,ite_self])
  · intro halted
    obtain ⟨one,two,three,four,five,six,seven⟩ := maintained.stopped halted
    refine ⟨?_,?_,?_,?_,five,six,seven⟩
    · simp only [withoutThread,one]; rfl
    · simp only [withoutThread,two]; rfl
    · simp only [withoutThread,three]; rfl
    · simp only [withoutThread,four]; rfl
  · intro holder
    cases holder with
    | subscriber key =>
      simp only [registered,StreamManager.getQueues,withoutThread,RunMap.find_erase]
      split
      · simp
      · exact List.Subset.refl _
    | listener key =>
      simp only [registered,StreamManager.getControlQueues,withoutThread,RunMap.find_erase]
      split
      · simp
      · exact List.Subset.refl _
    | watcher _ => exact List.Subset.refl _

theorem withoutThread_others (apart : key.threadId ≠ some threadId) : SameRun m (withoutThread m threadId) key := by
  have elsewhere : some threadId ≠ key.threadId := apart.symm
  refine ⟨?_,?_,?_,?_,Iff.rfl,Iff.rfl,fun _ _ => rfl⟩
  · exact (RunMap.find_erase _ _ _).trans (if_neg elsewhere)
  · exact (RunMap.find_erase _ _ _).trans (if_neg elsewhere)
  · exact (RunMap.find_erase _ _ _).trans (if_neg elsewhere)
  · exact (RunMap.find_erase _ _ _).trans (if_neg elsewhere)

theorem eraseStream_maintained (maintained : Maintained m) :
    Maintained {m with threadStreams := m.threadStreams.erase threadId} := by
  refine {maintained with
    deleted := ?_
    threadStreams := ?_
    stopped := ?_
    owned := owned_shrinks maintained.owned rfl ?_}
  · intro key pending
    obtain ⟨one,two,three,four⟩ := maintained.deleted key pending
    exact ⟨one,two,three,four⟩
  · intro other queues found
    rw [Dict.get?_erase] at found
    split at found
    · cases found
    · exact maintained.threadStreams other queues found
  · intro halted
    obtain ⟨one,two,three,four,five,six,seven⟩ := maintained.stopped halted
    refine ⟨one,two,three,four,?_,six,seven⟩
    simp only [five]
    rfl
  · intro holder
    cases holder with
    | subscriber _ => exact List.Subset.refl _
    | listener _ => exact List.Subset.refl _
    | watcher other =>
      simp only [registered,StreamManager.threadQueues,Dict.get?_erase]
      split
      · simp
      · exact List.Subset.refl _

theorem deleteThread_parts (maintained : Maintained m) (order : SetOrder) :
    Maintained (m.deleteThread codec clock order threadId) ∧
      (∀ key, key.threadId ≠ some threadId → SameRun m (m.deleteThread codec clock order threadId) key) ∧
      ∀ other, other ≠ threadId → SameThread m (m.deleteThread codec clock order threadId) other := by
  obtain ⟨released,runs,threads⟩ : Maintained ((order.arrange (m.threadRuns threadId)).foldl
      (StreamManager.deleteRun codec clock) m) ∧ _ := deleteRuns_parts maintained _
  unfold StreamManager.deleteThread
  dsimp only
  generalize (order.arrange (m.threadRuns threadId)).foldl (StreamManager.deleteRun codec clock) m = r at released runs threads ⊢
  have bare : Maintained (withoutThread r threadId) := withoutThread_maintained released
  have told : Touched (withoutThread r threadId) _ _ :=
    finishAll_touched clock ⟨.closed,bytes "done",none⟩ ((withoutThread r threadId).threadQueues threadId)
  refine ⟨eraseStream_maintained (told.maintained bare),?_,?_⟩
  · intro key apart
    have listed : key ∉ order.arrange (m.threadRuns threadId) :=
      fun member => apart (threadRuns_thread ((order.permutes _).mem_iff.mp member))
    have free : ∀ queue ∈ (withoutThread r threadId).getQueues key ++ (withoutThread r threadId).getControlQueues key,
        queue ∉ (withoutThread r threadId).threadQueues threadId := by
      intro queue member theirs
      rcases List.mem_append.mp member with mine | mine
      · exact bare.owned.disjoint (.subscriber key) (.watcher threadId) (by simp) mine theirs
      · exact bare.owned.disjoint (.listener key) (.watcher threadId) (by simp) mine theirs
    have last := told.sameRun bare.owned free
    refine ((runs key listed).trans (withoutThread_others apart)).trans (last.trans ?_)
    exact ⟨rfl,rfl,rfl,rfl,Iff.rfl,Iff.rfl,fun _ _ => rfl⟩
  · intro other apart
    have watchers : Holder.watcher other ≠ .watcher threadId := fun same => apart (Holder.watcher.inj same)
    have last : SameThread (withoutThread r threadId) _ other :=
      told.sameThread bare.owned fun queue member => bare.owned.disjoint _ _ watchers member
    have erased : SameThread r (withoutThread r threadId) other := ⟨rfl,fun _ _ => rfl⟩
    refine ((threads other).trans erased).trans (last.trans ⟨?_,fun _ _ => rfl⟩)
    exact (Dict.get?_erase _ _ _).trans (if_neg (by simpa using apart.symm))

-- Whether the manager runs is the same, and no deletion is forgotten.
structure Lasts (m m' : StreamManager) : Prop where
  stopped : m'.stopped = m.stopped
  pending : m.pendingRunDeletes ⊆ m'.pendingRunDeletes

theorem Lasts.trans (first : Lasts m m') (second : Lasts m' m'') : Lasts m m'' :=
  ⟨second.stopped.trans first.stopped,List.Subset.trans first.pending second.pending⟩

theorem Touched.lasts {queues : List Nat} (touched : Touched m m' queues) : Lasts m m' := by
  obtain ⟨⟨_,_,_,rfl⟩,_,_⟩ := touched
  exact ⟨rfl,List.Subset.refl _⟩

theorem put_lasts (now : Int) (message : Message) (resumable : Bool) : Lasts m (m.put now key message resumable).1 := by
  unfold StreamManager.put
  split
  · exact ⟨rfl,List.Subset.refl _⟩
  · dsimp only
    cases resumable <;> split <;> exact ⟨rfl,List.Subset.refl _⟩

theorem deleteRun_lasts : Lasts m (m.deleteRun codec clock key) := by
  obtain ⟨told,pending,same,touched,marked⟩ := deleteRun_shape codec clock m key
  refine ⟨?_,?_⟩
  · rw [same]
    exact touched.lasts.stopped
  · rw [same]
    exact fun other old => (marked other).mpr (.inl old)

theorem deleteRuns_lasts (keys : List RunKey) : Lasts m (keys.foldl (StreamManager.deleteRun codec clock) m) := by
  induction keys generalizing m with
  | nil => exact ⟨rfl,List.Subset.refl _⟩
  | cons key rest ih => exact deleteRun_lasts.trans ih

theorem deleteThread_lasts (order : SetOrder) : Lasts m (m.deleteThread codec clock order threadId) := by
  have released : Lasts m ((order.arrange (m.threadRuns threadId)).foldl (StreamManager.deleteRun codec clock) m) :=
    deleteRuns_lasts _
  unfold StreamManager.deleteThread
  dsimp only
  generalize (order.arrange (m.threadRuns threadId)).foldl (StreamManager.deleteRun codec clock) m = r at released ⊢
  have told := finishAll_touched (m:=withoutThread r threadId) clock ⟨.closed,bytes "done",none⟩
    ((withoutThread r threadId).threadQueues threadId)
  exact ⟨told.lasts.stopped.trans released.stopped,List.Subset.trans released.pending told.lasts.pending⟩

theorem markRunInactive_lasts (m : StreamManager) (key : RunKey) : (m.markRunInactive key).stopped = m.stopped ∧
    ∀ other ∈ m.pendingRunDeletes, other ≠ key → other ∈ (m.markRunInactive key).pendingRunDeletes := by
  unfold StreamManager.markRunInactive
  dsimp only
  split
  · exact ⟨rfl,fun other old apart => List.mem_filter.mpr ⟨old,by simpa using apart⟩⟩
  · exact ⟨rfl,fun other old _ => old⟩

theorem signalRuns_stopped (keys : List RunKey) :
    (keys.foldl (StreamManager.signalRun codec clock) m).stopped = m.stopped := by
  induction keys generalizing m with
  | nil => rfl
  | cons key rest ih =>
    obtain ⟨⟨_,_,_,shape⟩,_,_⟩ : Touched m (m.signalRun codec clock key) _ := signalRun_touched
    exact ih.trans (by rw [shape])

theorem close_stopped (order : SetOrder) : (m.close codec clock order).stopped = true := by
  unfold StreamManager.close
  obtain ⟨⟨_,_,_,shape⟩,_,_⟩ := finishAll_touched clock ⟨.closed,bytes "done",none⟩
    (((order.arrange (m.queues.keys ++ m.controlQueues.keys ++ m.controlKeys.keys ++ m.messageStores.keys).dedup).foldl
      (StreamManager.signalRun codec clock) {m with stopped := true}).threadStreams.entries.flatMap Prod.snd)
  dsimp only
  rw [shape]
  exact signalRuns_stopped _

theorem bare_maintained (bare : Bare m) : Maintained m := by
  have nowhere : ∀ holder queue, queue ∉ registered m holder := by
    intro holder queue
    cases holder with
    | subscriber key => simp [registered,StreamManager.getQueues,(bare.vacant key).queues]
    | listener key => simp [registered,StreamManager.getControlQueues,(bare.vacant key).controlQueues]
    | watcher threadId => simp [registered,StreamManager.threadQueues,bare.threadStreams]
  refine ⟨?_,?_,?_,?_,?_,?_,?_,fun _ => bare,?_,?_⟩
  · simp [bare.pending]
  · simp [bare.pending]
  · rw [bare.queues]; exact filled_empty
  · rw [bare.controlQueues]; exact filled_empty
  · rw [bare.controlKeys]; exact filled_empty
  · rw [bare.messageStores]; exact filled_empty
  · simp [bare.threadStreams]
  · exact fun holder queue member => absurd member (nowhere holder queue)
  · exact fun holder _ queue member => absurd member (nowhere holder queue)

theorem close_bare (order : SetOrder) : Bare (m.close codec clock order) := ⟨rfl,rfl,rfl,rfl,rfl,rfl,rfl⟩

end operations

end InmemRuntime.StreamUpkeep
