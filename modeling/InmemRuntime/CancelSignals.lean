import InmemRuntime.RunContexts

namespace InmemRuntime.CancelSignals
open OrderedDict ObjectHeap Streams RunContexts

def Cancels (message : Message) : Prop := message.topic.isControl = true ∧ (cancellation message.data).isSome = true

-- The step is the part of a `put` that gives the message its id.
def Publishes (step : Pool × Event) (key : RunKey) (message : Message) : Prop :=
  ∃ index w call resumable, step.2 = .resume index w ∧ step.1.tasks[index]? = some (.put key call resumable) ∧
    step.1.shared.manager.refuses key = false ∧ message = step.1.shared.manager.stamped w.currentMs call

def Published (taken : List (Pool × Event)) (key : RunKey) (message : Message) : Prop :=
  ∃ step ∈ taken, Publishes step key message

-- The context is entered, its caller inside, and its done event not set.
structure Active (s : Process) (ref : Nat) : Prop where
  entered : ref < s.contexts.next
  inside : (s.contexts.read ref).inside = true
  undone : (s.contexts.read ref).done = none

-- The listener is alive, and the message waits in its queue or is the stored
-- control key that it has yet to check.
structure Observable (s : Process) (ref : Nat) (message : Message) : Prop where
  listening : (s.contexts.read ref).listening = true
  held : message ∈ s.manager.contents.read (s.contexts.read ref).queue ∨
    ((s.contexts.read ref).checked = false ∧ s.manager.getControlKey (s.contexts.read ref).key = some message)

-- Every cancellation of the run whose `put` is not still on its way to the
-- context's queue can be observed there.
def NothingLost (taken : List (Pool × Event)) (p : Pool) : Prop :=
  ∀ ref, Active p.shared ref → ∀ message, Cancels message → Published taken (p.shared.contexts.read ref).key message →
    .delivering (p.shared.contexts.read ref).queue message ∉ p.tasks → Observable p.shared ref message

-- A stored cancellation that an active context of the run, other than
-- `except`, has yet to check is in its queue too, or on its way there.
def Backed (p : Pool) (key : RunKey) (except : Option Nat) : Prop :=
  ∀ old, p.shared.manager.getControlKey key = some old → Cancels old → ∀ ref, Active p.shared ref → some ref ≠ except →
    (p.shared.contexts.read ref).key = key → (p.shared.contexts.read ref).checked = false →
    old ∈ p.shared.manager.contents.read (p.shared.contexts.read ref).queue ∨
      .delivering (p.shared.contexts.read ref).queue old ∈ p.tasks

-- The steps on which no cancellation is lost, one clause for each way to lose
-- one: a control message over the stored one, a delivery to a listener that
-- has timed out, a subscriber that drains the queue, a second message before
-- the run is entered.
def Careful (taken : List (Pool × Event)) (step : Pool × Event) : Prop :=
  ∀ index w task, step.2 = .resume index w → step.1.tasks[index]? = some task →
    match task with
    | .put key message _ => message.topic.isControl = true → Backed step.1 key none
    | .inside ref _ => Backed step.1 (step.1.shared.contexts.read ref).key (some ref)
    | .delivering queue message => Cancels message → ∀ ref, Active step.1.shared ref →
        (step.1.shared.contexts.read ref).queue = queue → (step.1.shared.contexts.read ref).listening = true
    | .subscribe key => ∀ ref, Active step.1.shared ref → (step.1.shared.contexts.read ref).key = key →
        ∀ message ∈ step.1.shared.manager.contents.read (step.1.shared.contexts.read ref).queue, Cancels message →
          (step.1.shared.contexts.read ref).checked = false ∧ step.1.shared.manager.getControlKey key = some message
    | .enter key _ => ∀ message, Published taken key message → Cancels message →
        step.1.shared.manager.getControlKey key = some message
    | _ => True

-- What a step of the manager leaves to the control queues.
structure Unmoved (m m' : StreamManager) : Prop where
  controlQueues : m'.controlQueues = m.controlQueues
  stopped : m'.stopped = m.stopped
  pending : m'.pendingRunDeletes = m.pendingRunDeletes

section manager
variable {m : StreamManager} {key other : RunKey} {message : Message} {resumable : Bool} {now : Int}

theorem put_unmoved : Unmoved m (m.put now key message resumable).1 ∧
    (m.put now key message resumable).1.contents = m.contents := by
  unfold StreamManager.put
  split
  · exact ⟨⟨rfl,rfl,rfl⟩,rfl⟩
  · dsimp only
    split <;> split <;> exact ⟨⟨rfl,rfl,rfl⟩,rfl⟩

theorem controlKey_put (kept : message.topic.isControl = true → key ≠ other) :
    (m.put now key message resumable).1.getControlKey other = m.getControlKey other := by
  unfold StreamManager.put StreamManager.getControlKey
  split
  · rfl
  · dsimp only [StreamManager.stamped]
    split
    · rename_i control
      have apart := kept control
      split <;> simp [RunMap.find_set,apart] <;> rfl
    · split <;> rfl

theorem chosen_put (accepts : m.refuses key = false) (control : message.topic.isControl = true) :
    (m.put now key message resumable).2 = (m.getControlQueues key).map fun queue => (queue,m.stamped now message) := by
  have topic : (m.stamped now message).topic.isControl = true := control
  unfold StreamManager.put
  rw [accepts]
  simp only [Bool.false_eq_true,↓reduceIte,topic]
  split <;> rfl

theorem drain_unmoved (m : StreamManager) (target : Nat) (queues : List Nat) : Unmoved m (m.drain target queues) ∧
    (m.drain target queues).controlKeys = m.controlKeys ∧ (m.drain target queues).contents.next = m.contents.next := by
  induction queues generalizing m with
  | nil => exact ⟨⟨rfl,rfl,rfl⟩,rfl,rfl⟩
  | cons queue rest ih =>
    unfold StreamManager.drain
    exact ⟨⟨(ih _).1.controlQueues,(ih _).1.stopped,(ih _).1.pending⟩,(ih _).2.1,(ih _).2.2⟩

theorem drain_contents {target queue : Nat} (apart : queue ≠ target) (queues : List Nat) :
    (m.drain target queues).contents.read queue = if queue ∈ queues then [] else m.contents.read queue := by
  induction queues generalizing m with
  | nil => rfl
  | cons first rest ih =>
    unfold StreamManager.drain
    rw [ih,Heap.read_write_other apart]
    by_cases same : queue = first
    · subst same
      simp
    · simp [same,Heap.read_write_other same]

theorem subscribe_parts (now : Int) (accepts : m.refuses key = false) : Unmoved m (m.subscribe now key).1 ∧
    (m.subscribe now key).1.controlKeys = m.controlKeys ∧
    (m.subscribe now key).1.contents.next = m.contents.next + 1 ∧
    ∀ queue < m.contents.next, (m.subscribe now key).1.contents.read queue =
      if queue ∈ m.getControlQueues key then [] else m.contents.read queue := by
  unfold StreamManager.subscribe StreamManager.addQueue
  simp only [accepts,Bool.false_eq_true,↓reduceIte]
  refine ⟨⟨(drain_unmoved _ _ _).1.controlQueues,(drain_unmoved _ _ _).1.stopped,(drain_unmoved _ _ _).1.pending⟩,
    (drain_unmoved _ _ _).2.1,(drain_unmoved _ _ _).2.2,fun queue old => ?_⟩
  refine (drain_contents (Nat.ne_of_lt old) _).trans ?_
  rw [Heap.read_alloc_old old]
  rfl

theorem addControlQueue_parts (now : Int) (accepts : m.refuses key = false) :
    (m.addControlQueue now key).2 = m.contents.next ∧ (m.addControlQueue now key).1 =
      {m with
        contents := (m.contents.alloc []).1
        controlQueues := m.controlQueues.set key (m.getControlQueues key ++ [m.contents.next])} := by
  unfold StreamManager.addControlQueue
  simp only [accepts,Bool.false_eq_true,↓reduceIte]
  exact ⟨rfl,rfl⟩

theorem markRunActive_parts (m : StreamManager) (key : RunKey) :
    ∃ activeRuns, m.markRunActive key = {m with activeRuns} := by
  unfold StreamManager.markRunActive
  split
  · exact ⟨m.activeRuns,rfl⟩
  · exact ⟨_,rfl⟩

theorem removed_queues (m : StreamManager) (key other : RunKey) (queue : Nat) :
    (m.removeControlQueue key queue).getControlQueues other =
      if key = other then (m.getControlQueues other).erase queue else m.getControlQueues other := by
  rw [StreamManager.removeControlQueue_discards]
  exact RunMap.find_discard m.controlQueues key other queue

theorem removed_rest (m : StreamManager) (key : RunKey) (queue : Nat) :
    (m.removeControlQueue key queue).contents = m.contents ∧ (m.removeControlQueue key queue).controlKeys = m.controlKeys ∧
      (m.removeControlQueue key queue).stopped = m.stopped ∧
      (m.removeControlQueue key queue).pendingRunDeletes = m.pendingRunDeletes := by
  rw [StreamManager.removeControlQueue_discards]
  exact ⟨rfl,rfl,rfl,rfl⟩

theorem markRunInactive_parts (none : m.pendingRunDeletes = []) :
    m.markRunInactive key = {m with activeRuns := m.activeRuns.filter fun active => active != key} := by
  unfold StreamManager.markRunInactive
  simp [none]

end manager

-- What holds of the queues of the contexts at every suspension.
structure Sound (s : Process) : Prop where
  stopped : s.manager.stopped = false
  pending : s.manager.pendingRunDeletes = []
  used : ∀ key, ∀ queue ∈ s.manager.getControlQueues key, queue < s.manager.contents.next
  held : ∀ ref < s.contexts.next, (s.contexts.read ref).queue < s.manager.contents.next
  apart : ∀ ref < s.contexts.next, ∀ other < s.contexts.next,
    (s.contexts.read ref).queue = (s.contexts.read other).queue → ref = other
  registered : ∀ ref < s.contexts.next, (s.contexts.read ref).inside = true →
    (s.contexts.read ref).queue ∈ s.manager.getControlQueues (s.contexts.read ref).key
  own : ∀ ref < s.contexts.next, ∀ key, (s.contexts.read ref).queue ∈ s.manager.getControlQueues key →
    key = (s.contexts.read ref).key
  waiting : ∀ ref < s.contexts.next, (s.contexts.read ref).listening = true → (s.contexts.read ref).done = none

-- The context that a suspended task stands for.
def Known (s : Process) : StreamTask → Prop
  | .inside ref _ | .listen ref => ref < s.contexts.next
  | .leaving ref _ | .closing ref => ref < s.contexts.next ∧ (s.contexts.read ref).inside = false
  | _ => True

-- A step that enters no context and takes no control queue away.
structure Steady (s s' : Process) : Prop where
  manager : Unmoved s.manager s'.manager
  contents : s.manager.contents.next ≤ s'.manager.contents.next
  next : s'.contexts.next = s.contexts.next
  key : ∀ ref, (s'.contexts.read ref).key = (s.contexts.read ref).key
  queue : ∀ ref, (s'.contexts.read ref).queue = (s.contexts.read ref).queue
  inside : ∀ ref, (s'.contexts.read ref).inside = true → (s.contexts.read ref).inside = true
  waiting : ∀ ref, ((s.contexts.read ref).listening = true → (s.contexts.read ref).done = none) →
    (s'.contexts.read ref).listening = true → (s'.contexts.read ref).done = none

section stepping
variable {codec : List UInt8} {w : Wake} {s s' : Process}

theorem Sound.accepts (sound : Sound s) (key : RunKey) : s.manager.refuses key = false := by
  simp [StreamManager.refuses,sound.stopped,sound.pending]

theorem Steady.sound (steady : Steady s s') (sound : Sound s) : Sound s' := by
  obtain ⟨⟨controlQueues,stopped,pending⟩,contents,next,key,queue,inside,waiting⟩ := steady
  have queues : ∀ key, s'.manager.getControlQueues key = s.manager.getControlQueues key := fun key => by
    simp only [StreamManager.getControlQueues,controlQueues]
  refine ⟨stopped.trans sound.stopped,pending.trans sound.pending,?_,?_,?_,?_,?_,?_⟩
  · intro key ref member
    rw [queues] at member
    exact Nat.lt_of_lt_of_le (sound.used key ref member) contents
  · intro ref old
    rw [queue]
    exact Nat.lt_of_lt_of_le (sound.held ref (next ▸ old)) contents
  · intro ref old other older same
    rw [queue,queue] at same
    exact sound.apart ref (next ▸ old) other (next ▸ older) same
  · intro ref old within
    rw [queue,key,queues]
    exact sound.registered ref (next ▸ old) (inside ref within)
  · intro ref old other member
    rw [queue,queues] at member
    rw [key]
    exact sound.own ref (next ▸ old) other member
  · exact fun ref old => waiting ref (sound.waiting ref (next ▸ old))

-- Contexts are only added, and none is entered a second time.
structure Grows (s s' : Process) : Prop where
  next : s.contexts.next ≤ s'.contexts.next
  outside : ∀ ref < s.contexts.next, (s.contexts.read ref).inside = false → (s'.contexts.read ref).inside = false

theorem Grows.known (grows : Grows s s') (task : StreamTask) (known : Known s task) : Known s' task := by
  cases task with
  | inside ref resumable => exact Nat.lt_of_lt_of_le known grows.next
  | listen ref => exact Nat.lt_of_lt_of_le known grows.next
  | leaving ref resumable => exact ⟨Nat.lt_of_lt_of_le known.1 grows.next,grows.outside ref known.1 known.2⟩
  | closing ref => exact ⟨Nat.lt_of_lt_of_le known.1 grows.next,grows.outside ref known.1 known.2⟩
  | _ => trivial

theorem Steady.grows (steady : Steady s s') : Grows s s' :=
  ⟨le_of_eq steady.next.symm,fun ref _ out => Bool.eq_false_iff.mpr fun within => by
    rw [steady.inside ref within] at out
    cases out⟩

theorem steady_manager {manager : StreamManager} (unmoved : Unmoved s.manager manager)
    (contents : s.manager.contents.next ≤ manager.contents.next) : Steady s {s with manager} :=
  ⟨unmoved,contents,rfl,fun _ => rfl,fun _ => rfl,fun _ => id,fun _ => id⟩

-- One context is written; its key and its queue stay.
theorem steady_context {manager : StreamManager} (unmoved : Unmoved s.manager manager)
    (contents : s.manager.contents.next ≤ manager.contents.next) {ref : Nat} {context : Context}
    (key : context.key = (s.contexts.read ref).key) (queue : context.queue = (s.contexts.read ref).queue)
    (inside : context.inside = true → (s.contexts.read ref).inside = true)
    (waiting : ((s.contexts.read ref).listening = true → (s.contexts.read ref).done = none) →
      context.listening = true → context.done = none) : Steady s ⟨manager,s.contexts.write ref context⟩ := by
  refine ⟨unmoved,contents,rfl,Heap.read_write_field Context.key key,Heap.read_write_field Context.queue queue,?_,?_⟩
  all_goals
    intro other
    by_cases same : other = ref
  · subst same
    rw [Heap.read_write_self]
    exact inside
  · rw [Heap.read_write_other same]
    exact id
  · subst same
    rw [Heap.read_write_self]
    exact waiting
  · rw [Heap.read_write_other same]
    exact id

theorem leave_steady (s : Process) (ref : Nat) (resumable : Bool) : Steady s (leave w s ref resumable).1 :=
  steady_context put_unmoved.1 (le_of_eq (congrArg Heap.next put_unmoved.2.symm)) rfl rfl (fun within => by cases within) id

theorem listen_steady (s : Process) (ref : Nat) : Steady s (RunContexts.listen w s ref).1 := by
  have same : Steady s s := steady_manager ⟨rfl,rfl,rfl⟩ (le_refl _)
  unfold RunContexts.listen
  dsimp only
  split
  · exact same
  · split
    · exact steady_context ⟨rfl,rfl,rfl⟩ (le_refl _) rfl rfl id fun _ => Option.isNone_iff_eq_none.mp
    · split
      · split
        · exact steady_context ⟨rfl,rfl,rfl⟩ (le_refl _) rfl rfl id fun _ alive => by cases alive
        · exact same
      · refine steady_context ?_ ?_ ?_ ?_ ?_ ?_
        · exact ⟨rfl,rfl,rfl⟩
        · exact le_refl _
        · rfl
        · rfl
        · exact id
        · exact fun _ => Option.isNone_iff_eq_none.mp

-- A context that is entered gets a queue of its own.
structure Entered (s s' : Process) (key : RunKey) : Prop where
  stopped : s'.manager.stopped = s.manager.stopped
  pending : s'.manager.pendingRunDeletes = s.manager.pendingRunDeletes
  keys : s'.manager.controlKeys = s.manager.controlKeys
  contents : s'.manager.contents = (s.manager.contents.alloc []).1
  contexts : s'.contexts = (s.contexts.alloc ⟨key,s.manager.contents.next,true,true,false,none⟩).1
  queues : ∀ other, s'.manager.getControlQueues other =
    if key = other then s.manager.getControlQueues other ++ [s.manager.contents.next] else s.manager.getControlQueues other

theorem enter_parts (w : Wake) (sound : Sound s) (key : RunKey) (resumable : Bool) : Entered s (enter w s key resumable).1 key ∧
    (enter w s key resumable).2 = [.listen s.contexts.next,.inside s.contexts.next resumable] := by
  obtain ⟨activeRuns,marked⟩ := markRunActive_parts s.manager key
  have accepts : (s.manager.markRunActive key).refuses key = false := by
    rw [marked]
    exact sound.accepts key
  obtain ⟨queue,added⟩ := addControlQueue_parts w.currentMs accepts
  unfold enter
  simp only [queue,added]
  rw [marked]
  refine ⟨⟨rfl,rfl,rfl,rfl,rfl,fun other => ?_⟩,rfl⟩
  unfold StreamManager.getControlQueues
  dsimp only
  rw [RunMap.find_set]
  split
  · rename_i same
    rw [same]
    rfl
  · rfl

theorem enter_sound (w : Wake) (sound : Sound s) (key : RunKey) (resumable : Bool) : Sound (enter w s key resumable).1 := by
  obtain ⟨⟨stopped,pending,_,contents,contexts,queues⟩,_⟩ := enter_parts w sound key resumable
  generalize (enter w s key resumable).1 = s' at *
  have grows : ∀ other, ∀ queue ∈ s.manager.getControlQueues other, queue ∈ s'.manager.getControlQueues other := by
    intro other queue member
    rw [queues]
    split
    · exact List.mem_append_left _ member
    · exact member
  have gained : ∀ other, ∀ queue ∈ s'.manager.getControlQueues other, queue ∈ s.manager.getControlQueues other ∨
      (other = key ∧ queue = s.manager.contents.next) := by
    intro other queue member
    rw [queues] at member
    split at member
    · rename_i same
      rcases List.mem_append.mp member with old | new
      · exact .inl old
      · exact .inr ⟨same.symm,List.mem_singleton.mp new⟩
    · exact .inl member
  have split : ∀ ref < s'.contexts.next, (ref < s.contexts.next ∧ s'.contexts.read ref = s.contexts.read ref) ∨
      (ref = s.contexts.next ∧ s'.contexts.read ref = ⟨key,s.manager.contents.next,true,true,false,none⟩) := by
    intro ref old
    rw [contexts,Heap.next_alloc] at old
    rcases Nat.lt_succ_iff_lt_or_eq.mp old with before | rfl
    · exact .inl ⟨before,by rw [contexts,Heap.read_alloc_old before]⟩
    · exact .inr ⟨rfl,by rw [contexts,Heap.read_alloc_new]⟩
  have next : s'.manager.contents.next = s.manager.contents.next + 1 := by rw [contents,Heap.next_alloc]
  refine ⟨stopped.trans sound.stopped,pending.trans sound.pending,?_,?_,?_,?_,?_,?_⟩
  · intro other queue member
    rw [next]
    rcases gained other queue member with old | ⟨_,rfl⟩
    · exact Nat.lt_succ_of_lt (sound.used other queue old)
    · exact Nat.lt_succ_self _
  · intro ref old
    rw [next]
    rcases split ref old with ⟨before,same⟩ | ⟨_,new⟩
    · rw [same]
      exact Nat.lt_succ_of_lt (sound.held ref before)
    · rw [new]
      exact Nat.lt_succ_self _
  · intro ref old other older equal
    rcases split ref old with ⟨before,same⟩ | ⟨rfl,new⟩ <;> rcases split other older with ⟨former,same'⟩ | ⟨rfl,new'⟩
    · rw [same,same'] at equal
      exact sound.apart ref before other former equal
    · rw [same,new'] at equal
      exact absurd equal (Nat.ne_of_lt (sound.held ref before))
    · rw [new,same'] at equal
      exact absurd equal.symm (Nat.ne_of_lt (sound.held other former))
    · rfl
  · intro ref old within
    rcases split ref old with ⟨before,same⟩ | ⟨_,new⟩
    · rw [same] at within ⊢
      exact grows _ _ (sound.registered ref before within)
    · rw [new,queues,if_pos rfl]
      simp
  · intro ref old other member
    rcases split ref old with ⟨before,same⟩ | ⟨_,new⟩
    · rw [same] at member ⊢
      rcases gained other _ member with registered | ⟨_,new⟩
      · exact sound.own ref before other registered
      · exact absurd new (Nat.ne_of_lt (sound.held ref before))
    · rw [new] at member ⊢
      rcases gained other _ member with registered | ⟨same,_⟩
      · exact absurd (sound.used other _ registered) (Nat.lt_irrefl _)
      · exact same
  · intro ref old alive
    rcases split ref old with ⟨before,same⟩ | ⟨_,new⟩
    · rw [same] at alive ⊢
      exact sound.waiting ref before alive
    · rw [new]

theorem enter_grows (w : Wake) (sound : Sound s) (key : RunKey) (resumable : Bool) :
    Grows s (enter w s key resumable).1 := by
  obtain ⟨⟨_,_,_,_,contexts,_⟩,_⟩ := enter_parts w sound key resumable
  refine ⟨?_,fun ref old out => ?_⟩
  · rw [contexts,Heap.next_alloc]
    exact Nat.le_succ _
  · rw [contexts,Heap.read_alloc_old old]
    exact out

theorem close_parts (sound : Sound s) (ref : Nat) : (close s ref).manager.contents = s.manager.contents ∧
    (close s ref).manager.controlKeys = s.manager.controlKeys ∧ (close s ref).manager.stopped = s.manager.stopped ∧
    (close s ref).manager.pendingRunDeletes = s.manager.pendingRunDeletes ∧
    ∀ key, (close s ref).manager.getControlQueues key = if (s.contexts.read ref).key = key then
      (s.manager.getControlQueues key).erase (s.contexts.read ref).queue else s.manager.getControlQueues key := by
  obtain ⟨contents,keys,stopped,pending⟩ := removed_rest s.manager (s.contexts.read ref).key (s.contexts.read ref).queue
  unfold close
  dsimp only
  rw [markRunInactive_parts (pending.trans sound.pending)]
  exact ⟨contents,keys,stopped,pending,fun key => removed_queues _ _ _ _⟩

theorem close_context (s : Process) (ref other : Nat) : ((close s ref).contexts.read other).key = (s.contexts.read other).key ∧
    ((close s ref).contexts.read other).queue = (s.contexts.read other).queue ∧
    ((close s ref).contexts.read other).inside = (s.contexts.read other).inside := by
  unfold close
  by_cases same : other = ref
  · subst same
    rw [Heap.read_write_self]
    exact ⟨rfl,rfl,rfl⟩
  · rw [Heap.read_write_other same]
    exact ⟨rfl,rfl,rfl⟩

theorem close_sound (sound : Sound s) {ref : Nat} (entered : ref < s.contexts.next)
    (outside : (s.contexts.read ref).inside = false) : Sound (close s ref) := by
  obtain ⟨contents,_,stopped,pending,queues⟩ := close_parts sound ref
  have fewer : ∀ key, ∀ queue ∈ (close s ref).manager.getControlQueues key, queue ∈ s.manager.getControlQueues key := by
    intro key queue member
    rw [queues] at member
    split at member
    · exact List.mem_of_mem_erase member
    · exact member
  refine ⟨stopped.trans sound.stopped,pending.trans sound.pending,?_,?_,?_,?_,?_,?_⟩
  · intro key queue member
    rw [contents]
    exact sound.used key queue (fewer key queue member)
  · intro other old
    rw [(close_context s ref other).2.1,contents]
    exact sound.held other old
  · intro one old other older same
    rw [(close_context s ref one).2.1,(close_context s ref other).2.1] at same
    exact sound.apart one old other older same
  · intro other old within
    obtain ⟨key,queue,inside⟩ := close_context s ref other
    rw [inside] at within
    rw [key,queue,queues]
    have registered := sound.registered other old within
    split
    · refine (List.mem_erase_of_ne fun same => ?_).mpr registered
      rw [sound.apart other old ref entered same,outside] at within
      cases within
    · exact registered
  · intro other old key member
    rw [(close_context s ref other).2.1] at member
    rw [(close_context s ref other).1]
    exact sound.own other old key (fewer key _ member)
  · intro other old alive
    unfold close at alive ⊢
    by_cases same : other = ref
    · rw [same,Heap.read_write_self] at alive
      cases alive
    · rw [Heap.read_write_other same] at alive ⊢
      exact sound.waiting other old alive

theorem resume_sound (codec : List UInt8) (w : Wake) (s : Process) (task : StreamTask) (sound : Sound s)
    (known : Known s task) : Sound (resume codec w s task).1 ∧ Grows s (resume codec w s task).1 := by
  have both : ∀ {s'}, Steady s s' → Sound s' ∧ Grows s s' := fun steady => ⟨steady.sound sound,steady.grows⟩
  cases task with
  | put key message resumable =>
    exact both (steady_manager put_unmoved.1 (le_of_eq (congrArg Heap.next put_unmoved.2.symm)))
  | delivering queue message => exact both (steady_manager ⟨rfl,rfl,rfl⟩ (le_refl _))
  | subscribe key =>
    obtain ⟨unmoved,_,next,_⟩ := subscribe_parts w.currentMs (sound.accepts key)
    exact both (steady_manager unmoved (next ▸ Nat.le_succ _))
  | enter key resumable => exact ⟨enter_sound w sound key resumable,enter_grows w sound key resumable⟩
  | inside ref resumable => exact both (leave_steady s ref resumable)
  | leaving ref resumable =>
    exact both (steady_manager put_unmoved.1 (le_of_eq (congrArg Heap.next put_unmoved.2.symm)))
  | closing ref =>
    exact ⟨close_sound sound known.1 known.2,le_refl _,fun other _ out => (close_context s ref other).2.2.trans out⟩
  | listen ref => exact both (listen_steady s ref)

theorem fresh_known {task : StreamTask} (fresh : task.fresh = true) : Known s task := by
  cases task with
  | put _ _ _ | subscribe _ | enter _ _ => trivial
  | delivering _ _ | inside _ _ | leaving _ _ | closing _ | listen _ => cases fresh

theorem delivery_known {chosen : List (Nat × Message)} {task : StreamTask} (member : task ∈ deliveries chosen) : Known s task := by
  obtain ⟨row,_,rfl⟩ := List.mem_map.mp member
  trivial

theorem spawned_known (codec : List UInt8) (w : Wake) (s : Process) (task : StreamTask) (sound : Sound s)
    (known : Known s task) : ∀ spawned ∈ (resume codec w s task).2, Known (resume codec w s task).1 spawned := by
  cases task with
  | put key message resumable => exact fun _ => delivery_known
  | delivering queue message => simp [resume]
  | subscribe key => simp [resume]
  | enter key resumable =>
    obtain ⟨⟨_,_,_,_,contexts,_⟩,tasks⟩ := enter_parts w sound key resumable
    have entered : s.contexts.next < (enter w s key resumable).1.contexts.next := by
      rw [contexts,Heap.next_alloc]
      exact Nat.lt_succ_self _
    simp only [resume,tasks,List.forall_mem_cons]
    exact ⟨entered,entered,by simp⟩
  | inside ref resumable =>
    refine List.forall_mem_cons.mpr ⟨⟨known,?_⟩,fun _ => delivery_known⟩
    exact congrArg Context.inside (Heap.read_write_self _ _ _)
  | leaving ref resumable => exact List.forall_mem_cons.mpr ⟨known,fun _ => delivery_known⟩
  | closing ref => simp [resume]
  | listen ref =>
    intro spawned member
    have same : spawned = .listen ref := by
      simp only [resume,RunContexts.listen] at member
      split at member
      · cases member
      · split at member
        · split at member
          · exact List.mem_singleton.mp member
          · cases member
        · split at member
          · split at member
            · cases member
            · exact List.mem_singleton.mp member
          · split at member
            · exact List.mem_singleton.mp member
            · cases member
    rw [same]
    exact (listen_steady s ref).grows.known (.listen ref) known

-- Every reachable process is sound, and every task knows its context.
theorem outline (codec : List UInt8) : TaskPool.Outline (resume codec) (fun task => task.fresh = true) (fun _ _ _ => True)
    (fun _ _ _ _ => True) Sound Known (fun _ _ => True) where
  symm := fun _ _ _ => trivial
  call := fun _ _ _ fresh => ⟨fresh_known fresh,fun _ => trivial⟩
  shared := fun w s task _ sound known => (resume_sound codec w s task sound known).1
  own := fun w s task _ sound known => spawned_known codec w s task sound known
  spawned := fun _ _ _ _ _ _ => List.pairwise_of_forall fun _ _ => trivial
  other := fun w s task other _ _ sound known there _ => (resume_sound codec w s task sound known).2.known other there
  spread := fun _ _ _ _ _ _ _ _ _ _ _ => trivial

end stepping

-- `NothingLost` for what has been told of a run and what is still in flight.
def Watched (told : RunKey → Message → Prop) (flying : Nat → Message → Prop) (s : Process) : Prop :=
  ∀ ref, Active s ref → ∀ message, Cancels message → told (s.contexts.read ref).key message →
    ¬ flying (s.contexts.read ref).queue message → Observable s ref message

-- What a step leaves to one context: the record, its queue and its control key.
structure Alike (s s' : Process) (ref : Nat) : Prop where
  entered : ref < s.contexts.next
  context : s'.contexts.read ref = s.contexts.read ref
  contents : s'.manager.contents.read (s.contexts.read ref).queue = s.manager.contents.read (s.contexts.read ref).queue
  key : s'.manager.getControlKey (s.contexts.read ref).key = s.manager.getControlKey (s.contexts.read ref).key

section watching
variable {told told' : RunKey → Message → Prop} {flying flying' : Nat → Message → Prop} {s s' : Process} {w : Wake}
  {ref : Nat} {message : Message}

theorem Alike.observable (alike : Alike s s' ref) (seen : Observable s ref message) : Observable s' ref message := by
  obtain ⟨_,context,contents,key⟩ := alike
  obtain ⟨listening,held⟩ := seen
  refine ⟨by rw [context]; exact listening,?_⟩
  rw [context,contents,key]
  exact held

theorem Alike.watched (alike : Alike s s' ref) (watched : Watched told flying s) (active : Active s' ref)
    (cancels : Cancels message) (heard : told (s'.contexts.read ref).key message)
    (landed : ¬ flying (s'.contexts.read ref).queue message) : Observable s' ref message := by
  obtain ⟨_,inside,undone⟩ := active
  rw [alike.context] at inside undone heard landed
  exact alike.observable (watched ref ⟨alike.entered,inside,undone⟩ message cancels heard landed)

theorem Watched.mono (watched : Watched told flying s) (less : ∀ key message, told' key message → told key message)
    (more : ∀ queue message, flying queue message → flying' queue message) : Watched told' flying' s :=
  fun ref active message cancels heard landed =>
    watched ref active message cancels (less _ _ heard) fun before => landed (more _ _ before)

theorem put_watched (w : Wake) (key : RunKey) (sent : Message) (resumable : Bool) (sound : Sound s) (watched : Watched told flying s)
    (backed : sent.topic.isControl = true → ∀ old, s.manager.getControlKey key = some old → Cancels old →
      ∀ ref, Active s ref → (s.contexts.read ref).key = key → (s.contexts.read ref).checked = false →
        old ∈ s.manager.contents.read (s.contexts.read ref).queue ∨ flying (s.contexts.read ref).queue old) :
    Watched (fun other message => told other message ∨ (other = key ∧ message = s.manager.stamped w.currentMs sent))
      (fun queue message => flying queue message ∨ (queue,message) ∈ (s.manager.put w.currentMs key sent resumable).2)
      {s with manager := (s.manager.put w.currentMs key sent resumable).1} := by
  intro ref active message cancels heard landed
  obtain ⟨entered,inside,undone⟩ := active
  rw [not_or] at landed
  have contents : (s.manager.put w.currentMs key sent resumable).1.contents.read (s.contexts.read ref).queue =
      s.manager.contents.read (s.contexts.read ref).queue := by rw [put_unmoved.2]
  by_cases mine : sent.topic.isControl = true ∧ key = (s.contexts.read ref).key
  · obtain ⟨control,same⟩ := mine
    rcases heard with before | ⟨_,rfl⟩
    · obtain ⟨listening,held⟩ := watched ref ⟨entered,inside,undone⟩ message cancels before landed.1
      refine ⟨listening,.inl ?_⟩
      rcases held with waits | ⟨unchecked,kept⟩
      · exact contents.symm ▸ waits
      · rcases backed control message (same ▸ kept) cancels ref ⟨entered,inside,undone⟩ same.symm unchecked with waits | flies
        · exact contents.symm ▸ waits
        · exact absurd flies landed.1
    · refine absurd ?_ landed.2
      rw [chosen_put (sound.accepts key) control,same]
      exact List.mem_map.mpr ⟨_,sound.registered ref entered inside,rfl⟩
  · have kept : sent.topic.isControl = true → key ≠ (s.contexts.read ref).key := fun control same => mine ⟨control,same⟩
    have alike : Alike s {s with manager := (s.manager.put w.currentMs key sent resumable).1} ref :=
      ⟨entered,rfl,contents,controlKey_put kept⟩
    rcases heard with before | ⟨same,rfl⟩
    · exact alike.watched watched ⟨entered,inside,undone⟩ cancels before landed.1
    · exact absurd same.symm (kept cancels.1)

theorem deliver_watched {queue : Nat} {sent : Message}
    (watched : Watched told (fun other message => flying other message ∨ (other = queue ∧ message = sent)) s)
    (careful : Cancels sent → ∀ ref, Active s ref → (s.contexts.read ref).queue = queue →
      (s.contexts.read ref).listening = true) :
    Watched told flying {s with manager := s.manager.deliver queue sent} := by
  intro ref active message cancels heard landed
  have here : Active s ref := ⟨active.entered,active.inside,active.undone⟩
  by_cases mine : (s.contexts.read ref).queue = queue
  · have added : (s.manager.deliver queue sent).contents.read (s.contexts.read ref).queue =
        s.manager.contents.read (s.contexts.read ref).queue ++ [sent] := by
      rw [mine]
      exact Heap.read_write_self _ _ _
    by_cases same : message = sent
    · subst same
      refine ⟨careful cancels ref here mine,.inl ?_⟩
      change _ ∈ (s.manager.deliver queue message).contents.read _
      rw [added]
      simp
    · obtain ⟨listening,held⟩ := watched ref here message cancels heard fun flies =>
        flies.elim landed fun new => same new.2
      refine ⟨listening,held.imp_left fun waits => ?_⟩
      change _ ∈ (s.manager.deliver queue sent).contents.read _
      rw [added]
      exact List.mem_append_left _ waits
  · have alike : Alike s {s with manager := s.manager.deliver queue sent} ref :=
      ⟨active.entered,rfl,Heap.read_write_other mine,rfl⟩
    exact alike.watched watched active cancels heard fun flies => flies.elim landed fun new => mine new.1

theorem subscribe_watched {key : RunKey} (now : Int) (sound : Sound s) (watched : Watched told flying s)
    (careful : ∀ ref, Active s ref → (s.contexts.read ref).key = key →
      ∀ message ∈ s.manager.contents.read (s.contexts.read ref).queue, Cancels message →
        (s.contexts.read ref).checked = false ∧ s.manager.getControlKey key = some message) :
    Watched told flying {s with manager := (s.manager.subscribe now key).1} := by
  intro ref active message cancels heard landed
  have here : Active s ref := ⟨active.entered,active.inside,active.undone⟩
  obtain ⟨_,keys,_,contents⟩ := subscribe_parts now (sound.accepts key)
  have read := contents _ (sound.held ref active.entered)
  have stored : ∀ other, (s.manager.subscribe now key).1.getControlKey other = s.manager.getControlKey other := fun other => by
    simp only [StreamManager.getControlKey,keys]
  by_cases drained : (s.contexts.read ref).queue ∈ s.manager.getControlQueues key
  · have same := sound.own ref active.entered key drained
    obtain ⟨listening,held⟩ := watched ref here message cancels heard landed
    refine ⟨listening,.inr ?_⟩
    rw [← same,stored]
    rcases held with waits | ⟨unchecked,kept⟩
    · exact careful ref here same.symm message waits cancels
    · exact ⟨unchecked,same ▸ kept⟩
  · rw [if_neg drained] at read
    have alike : Alike s {s with manager := (s.manager.subscribe now key).1} ref := ⟨active.entered,rfl,read,stored _⟩
    exact alike.watched watched active cancels heard landed

theorem enter_watched {key : RunKey} {resumable : Bool} (sound : Sound s) (watched : Watched told flying s)
    (careful : ∀ message, told key message → Cancels message → s.manager.getControlKey key = some message) :
    Watched told flying (enter w s key resumable).1 := by
  obtain ⟨⟨_,_,keys,contents,contexts,_⟩,_⟩ := enter_parts w sound key resumable
  intro ref active message cancels heard landed
  have stored : ∀ other, (enter w s key resumable).1.manager.getControlKey other = s.manager.getControlKey other :=
    fun other => by simp only [StreamManager.getControlKey,keys]
  have entered := active.entered
  rw [contexts,Heap.next_alloc] at entered
  rcases Nat.lt_succ_iff_lt_or_eq.mp entered with before | rfl
  · have alike : Alike s (enter w s key resumable).1 ref :=
      ⟨before,by rw [contexts,Heap.read_alloc_old before],by rw [contents,Heap.read_alloc_old (sound.held ref before)],stored _⟩
    exact alike.watched watched active cancels heard landed
  · rw [contexts,Heap.read_alloc_new] at heard
    refine ⟨by rw [contexts,Heap.read_alloc_new],.inr ⟨by rw [contexts,Heap.read_alloc_new],?_⟩⟩
    rw [stored,contexts,Heap.read_alloc_new]
    exact careful message heard cancels

-- A context that is not inside any more is not watched any more.
theorem outside_watched {manager : StreamManager} {context : Context} (watched : Watched told flying s)
    (out : context.inside = false) (contents : manager.contents = s.manager.contents)
    (keys : manager.controlKeys = s.manager.controlKeys) :
    Watched told flying ⟨manager,s.contexts.write ref context⟩ := by
  intro other active message cancels heard landed
  by_cases same : other = ref
  · subst same
    have inside := active.inside
    rw [Heap.read_write_self,out] at inside
    cases inside
  · have alike : Alike s ⟨manager,s.contexts.write ref context⟩ other :=
      ⟨active.entered,Heap.read_write_other same,by rw [contents],by simp only [StreamManager.getControlKey,keys]⟩
    exact alike.watched watched active cancels heard landed

theorem ending_cancels (cancels : Cancels message) : ∃ reason, cancellation message.data = some reason ∧
    ending message.data = some reason := by
  obtain ⟨reason,hit⟩ := Option.isSome_iff_exists.mp cancels.2
  exact ⟨reason,hit,by simp [ending,hit]⟩

-- The listener writes its own context and reads from its own queue.
theorem own_watched {contents : Heap (List Message)} {context : Context} (sound : Sound s) (known : ref < s.contexts.next)
    (watched : Watched told flying s)
    (others : ∀ queue, queue ≠ (s.contexts.read ref).queue → contents.read queue = s.manager.contents.read queue)
    (own : context.inside = true → context.done = none → ∀ message, Cancels message → told context.key message →
      ¬ flying context.queue message → Observable ⟨{s.manager with contents},s.contexts.write ref context⟩ ref message) :
    Watched told flying ⟨{s.manager with contents},s.contexts.write ref context⟩ := by
  intro other active message cancels heard landed
  by_cases same : other = ref
  · subst same
    obtain ⟨_,inside,undone⟩ := active
    rw [Heap.read_write_self] at inside undone heard landed
    exact own inside undone message cancels heard landed
  · have apart : (s.contexts.read other).queue ≠ (s.contexts.read ref).queue := fun equal =>
      same (sound.apart other active.entered ref known equal)
    have alike : Alike s ⟨{s.manager with contents},s.contexts.write ref context⟩ other :=
      ⟨active.entered,Heap.read_write_other same,others _ apart,rfl⟩
    exact alike.watched watched active cancels heard landed

theorem listen_watched (sound : Sound s) (known : ref < s.contexts.next) (watched : Watched told flying s) :
    Watched told flying (RunContexts.listen w s ref).1 := by
  unfold RunContexts.listen
  dsimp only
  split
  · exact watched
  · rename_i alive
    have listening : (s.contexts.read ref).listening = true := by simpa using alive
    have undone := sound.waiting ref known listening
    split
    · rename_i unread
      have unchecked : (s.contexts.read ref).checked = false := by simpa using unread
      -- The stored key either ends the run or is no cancellation at all.
      refine own_watched sound known watched (fun _ _ => rfl) fun inside pending message cancels heard landed => ?_
      obtain ⟨_,held⟩ := watched ref ⟨known,inside,undone⟩ message cancels heard landed
      have waits : message ∈ s.manager.contents.read (s.contexts.read ref).queue := by
        refine held.resolve_right fun stored => ?_
        obtain ⟨reason,hit,_⟩ := ending_cancels cancels
        rw [stored.2] at pending
        cases hit.symm.trans pending
      refine ⟨?_,.inl ?_⟩
      · rw [Heap.read_write_self]
        exact Option.isNone_iff_eq_none.mpr pending
      · rw [Heap.read_write_self]
        exact waits
    · rename_i read
      have checked : (s.contexts.read ref).checked = true := by simpa using read
      -- From here on whatever can be observed is in the queue.
      have waits : ∀ message, (s.contexts.read ref).inside = true → Cancels message → told (s.contexts.read ref).key message →
          ¬ flying (s.contexts.read ref).queue message → message ∈ s.manager.contents.read (s.contexts.read ref).queue := by
        intro message inside cancels heard landed
        refine (watched ref ⟨known,inside,undone⟩ message cancels heard landed).held.resolve_right fun stored => ?_
        rw [checked] at stored
        cases stored.1
      split
      · rename_i empty
        split
        · refine own_watched sound known watched (fun _ _ => rfl) fun inside _ message cancels heard landed => ?_
          have member := waits message inside cancels heard landed
          rw [empty] at member
          cases member
        · exact watched
      · rename_i first rest front
        refine own_watched sound known watched (fun _ apart => Heap.read_write_other apart)
          fun inside pending message cancels heard landed => ?_
        have member := waits message inside cancels heard landed
        rw [front] at member
        have later : message ∈ rest := by
          rcases List.mem_cons.mp member with rfl | later
          · obtain ⟨reason,_,hit⟩ := ending_cancels cancels
            cases hit.symm.trans pending
          · exact later
        refine ⟨?_,.inl ?_⟩
        · rw [Heap.read_write_self]
          exact Option.isNone_iff_eq_none.mpr pending
        · rw [Heap.read_write_self]
          change message ∈ (s.manager.contents.write _ rest).read _
          rw [Heap.read_write_self]
          exact later

theorem leave_watched {resumable : Bool} (sound : Sound s) (known : ref < s.contexts.next) (watched : Watched told flying s)
    (backed : ∀ old, s.manager.getControlKey (s.contexts.read ref).key = some old → Cancels old → ∀ other, Active s other →
      some other ≠ some ref → (s.contexts.read other).key = (s.contexts.read ref).key → (s.contexts.read other).checked = false →
        old ∈ s.manager.contents.read (s.contexts.read other).queue ∨ flying (s.contexts.read other).queue old) :
    Watched told (fun queue message => flying queue message ∨ .delivering queue message ∈ (leave w s ref resumable).2)
      (leave w s ref resumable).1 := by
  have steady : Steady s ⟨s.manager,s.contexts.write ref {s.contexts.read ref with inside := false}⟩ := by
    refine steady_context ⟨rfl,rfl,rfl⟩ (le_refl _) rfl rfl ?_ id
    exact fun within => by cases within
  have left : Watched told flying ⟨s.manager,s.contexts.write ref {s.contexts.read ref with inside := false}⟩ :=
    outside_watched watched rfl rfl rfl
  have stays : ∀ other, Active ⟨s.manager,s.contexts.write ref {s.contexts.read ref with inside := false}⟩ other →
      other ≠ ref := by
    rintro other ⟨_,inside,_⟩ rfl
    rw [Heap.read_write_self] at inside
    cases inside
  have sent := put_watched w (s.contexts.read ref).key (controlMessage (s.contexts.read ref).key "done") false
    (steady.sound sound) left ?_
  · refine sent.mono (fun _ _ => .inl) fun queue message flies => flies.imp_right fun chosen => ?_
    exact List.mem_cons_of_mem _ (List.mem_map.mpr ⟨_,chosen,rfl⟩)
  · intro _ old stored cancels other active same unchecked
    have apart := stays other active
    obtain ⟨entered,inside,undone⟩ := active
    rw [Heap.read_write_other apart] at inside undone same unchecked ⊢
    exact backed old stored cancels other ⟨entered,inside,undone⟩ (fun equal => apart (Option.some.inj equal)) same unchecked

theorem close_watched (sound : Sound s) (outside : (s.contexts.read ref).inside = false) (watched : Watched told flying s) :
    Watched told flying (close s ref) := by
  obtain ⟨contents,keys,_⟩ := close_parts sound ref
  exact outside_watched watched outside contents keys

end watching

section losing
variable {codec : List UInt8} {taken : List (Pool × Event)} {s : Process} {before after : List StreamTask}
  {task : StreamTask} {index : Nat} {w : Wake}

theorem published_step {p : Pool} {key : RunKey} {message : Message} (found : p.tasks[index]? = some task)
    (published : Published (taken ++ [(p,.resume index w)]) key message) : Published taken key message ∨
      ∃ call resumable, task = .put key call resumable ∧ message = p.shared.manager.stamped w.currentMs call := by
  obtain ⟨step,member,publishes⟩ := published
  rcases List.mem_append.mp member with old | new
  · exact .inl ⟨step,old,publishes⟩
  · obtain ⟨place,wake,call,resumable,event,here,_,stamped⟩ := publishes
    rw [List.mem_singleton.mp new] at event here stamped
    cases event
    exact .inr ⟨call,resumable,Option.some.inj (found.symm.trans here),stamped⟩

-- One step of one task: with care, what could be observed can be observed.
theorem lost_resume (found : (before ++ task :: after)[index]? = some task) (sound : Sound s) (known : Known s task)
    (lost : NothingLost taken ⟨s,before ++ task :: after⟩)
    (careful : Careful taken (⟨s,before ++ task :: after⟩,.resume index w)) :
    NothingLost (taken ++ [(⟨s,before ++ task :: after⟩,.resume index w)])
      ⟨(resume codec w s task).1,before ++ (resume codec w s task).2 ++ after⟩ := by
  have watched : Watched (Published taken) (fun queue message => .delivering queue message ∈ before ++ task :: after) s := lost
  have care := careful index w task rfl found
  have stays : ∀ other, other ∈ before ++ task :: after → other ≠ task → other ∈ before ++ (resume codec w s task).2 ++ after := by
    intro other member apart
    simp only [List.mem_append,List.mem_cons] at member ⊢
    rcases member with old | same | later
    · exact .inl (.inl old)
    · exact absurd same apart
    · exact .inr later
  have arrives : ∀ other ∈ (resume codec w s task).2, other ∈ before ++ (resume codec w s task).2 ++ after :=
    fun other member => List.mem_append_left _ (List.mem_append_right _ member)
  -- Every task but a `put` publishes nothing.
  have quiet : (∀ key call resumable, task ≠ .put key call resumable) → ∀ key message,
      Published (taken ++ [(⟨s,before ++ task :: after⟩,.resume index w)]) key message → Published taken key message := by
    intro silent key message published
    rcases published_step found published with old | ⟨call,resumable,same,_⟩
    · exact old
    · exact absurd same (silent key call resumable)
  change Watched (Published (taken ++ [(⟨s,before ++ task :: after⟩,.resume index w)]))
    (fun queue message => .delivering queue message ∈ before ++ (resume codec w s task).2 ++ after) (resume codec w s task).1
  cases task with
  | put key sent resumable =>
    refine (put_watched w key sent resumable sound watched fun control old stored cancels ref active =>
      care control old stored cancels ref active (by simp)).mono (fun other message published => ?_) fun queue message flies => ?_
    · rcases published_step found published with old | ⟨call,again,same,stamped⟩
      · exact .inl old
      · cases same
        exact .inr ⟨rfl,stamped⟩
    · rcases flies with old | chosen
      · exact stays _ old (by simp)
      · exact arrives _ (List.mem_map.mpr ⟨_,chosen,rfl⟩)
  | delivering queue sent =>
    refine (deliver_watched (watched.mono (fun _ _ => id) fun other message flies => ?_) care).mono (quiet (by simp))
      fun _ _ => id
    by_cases same : other = queue ∧ message = sent
    · exact .inr same
    · exact .inl (stays _ flies (by simpa using same))
  | subscribe key =>
    refine (subscribe_watched w.currentMs sound watched care).mono (quiet (by simp)) fun queue message flies => ?_
    exact stays _ flies (by simp)
  | enter key resumable =>
    refine (enter_watched sound watched care).mono (quiet (by simp)) fun queue message flies => ?_
    exact stays _ flies (by simp)
  | inside ref resumable =>
    refine (leave_watched sound known watched care).mono (quiet (by simp)) fun queue message flies => ?_
    rcases flies with old | chosen
    · exact stays _ old (by simp)
    · exact arrives _ chosen
  | leaving ref resumable =>
    refine (put_watched w (s.contexts.read ref).key ⟨.stream (s.contexts.read ref).key.runId,codec,none⟩ resumable sound
      watched fun control => by cases control).mono (fun key message published => .inl (quiet (by simp) key message published))
      fun queue message flies => ?_
    rcases flies with old | chosen
    · exact stays _ old (by simp)
    · exact arrives _ (List.mem_cons_of_mem _ (List.mem_map.mpr ⟨_,chosen,rfl⟩))
  | closing ref =>
    refine (close_watched sound known.2 watched).mono (quiet (by simp)) fun queue message flies => ?_
    exact stays _ flies (by simp)
  | listen ref =>
    refine (listen_watched sound known watched).mono (quiet (by simp)) fun queue message flies => ?_
    exact stays _ flies (by simp)

theorem lost_call {p : Pool} {call : StreamTask} (lost : NothingLost taken p) :
    NothingLost (taken ++ [(p,.call call)]) {p with tasks := p.tasks ++ [call]} := by
  intro ref active message cancels published landed
  refine lost ref ⟨active.entered,active.inside,active.undone⟩ message cancels ?_ fun flies =>
    landed (List.mem_append_left _ flies)
  obtain ⟨step,member,publishes⟩ := published
  rcases List.mem_append.mp member with old | new
  · exact ⟨step,old,publishes⟩
  · obtain ⟨_,_,_,_,event,_⟩ := publishes
    rw [List.mem_singleton.mp new] at event
    cases event

structure Kept (taken : List (Pool × Event)) (p : Pool) : Prop where
  holds : TaskPool.Holds Sound Known (fun _ _ => True) p
  nothing : NothingLost taken p

theorem start_kept : Kept [] start := by
  refine ⟨⟨⟨rfl,rfl,?_,?_,?_,?_,?_,?_⟩,by simp [start],.nil⟩,?_⟩
  · exact fun _ _ member => (List.not_mem_nil member).elim
  · exact fun _ old => absurd old (Nat.not_lt_zero _)
  · exact fun _ old => absurd old (Nat.not_lt_zero _)
  · exact fun _ old => absurd old (Nat.not_lt_zero _)
  · exact fun _ old => absurd old (Nat.not_lt_zero _)
  · exact fun _ old => absurd old (Nat.not_lt_zero _)
  · exact fun _ active => absurd active.entered (Nat.not_lt_zero _)

def Fresh (step : Pool × Event) : Prop := TaskPool.Meets (fun task => task.fresh = true) (fun _ _ _ => True) step

theorem kept_step {p next : Pool} {event : Event} (kept : Kept taken p) (fresh : Fresh (p,event))
    (careful : Careful taken (p,event)) (step : TaskPool.advance (resume codec) p event = some next) :
    Kept (taken ++ [(p,event)]) next := by
  obtain ⟨holds,lost⟩ := kept
  have respects : TaskPool.Respects (fun task : StreamTask => task.fresh = true) (fun (_ : Wake) (_ : Process) _ => True)
      (fun _ _ _ _ => True) (p,event) := by
    cases event with
    | call task => exact fresh
    | resume index wake => exact fun _ _ => ⟨trivial,fun _ _ => trivial⟩
  refine ⟨TaskPool.outline_step (outline codec) holds respects step,?_⟩
  cases event with
  | call task =>
    cases Option.some.inj step
    exact lost_call lost
  | resume index wake =>
    obtain ⟨before,task,after,split,found,rfl⟩ := TaskPool.resume_parts step
    obtain ⟨shared,tasks⟩ := p
    dsimp only at split
    subst split
    exact lost_resume found holds.shared (holds.each task (by simp)) lost careful

-- In every run whose steps are careful, no state that is reached has lost a
-- cancellation that was published for an active context.
theorem cancellations_observable (codec : List UInt8) (p : Pool) (taken : List (Pool × Event)) (runs : Runs codec start taken p)
    (fresh : ∀ step ∈ taken, Fresh step)
    (careful : ∀ earlier step later, taken = earlier ++ step :: later → Careful earlier step) :
    NothingLost taken p ∧ ∀ earlier step later, taken = earlier ++ step :: later → NothingLost earlier step.1 := by
  have kept : Kept taken p ∧ ∀ earlier step later, taken = earlier ++ step :: later → Kept earlier step.1 := by
    refine TaskPool.runs_history (fun earlier step => Fresh step ∧ Careful earlier step) runs start_kept
      (fun taken p event next kept permitted step => kept_step kept permitted.1 permitted.2 step)
      fun earlier step later split => ?_
    exact ⟨fresh step (by rw [split]; simp),careful earlier step later split⟩
  exact ⟨kept.1.nothing,fun earlier step later split => (kept.2 earlier step later split).nothing⟩

end losing

def toyKey : RunKey := ⟨some "t","r"⟩

def interrupting : Event := .call (.put toyKey (controlMessage toyKey "interrupt") false)

-- A run is entered and its listener looks at the control key.
def entering : List Event := [.call (.enter toyKey false),.resume 0 ⟨1,false⟩,.resume 0 ⟨2,false⟩]

theorem call_careful {p : Pool} {call : StreamTask} (earlier : List (Pool × Event)) : Careful earlier (p,.call call) := by
  intro index w task event
  cases event

def freshStep (step : Pool × Event) : Bool :=
  match step.2 with
  | .call task => task.fresh
  | .resume _ _ => true

theorem fresh_steps {taken : List (Pool × Event)} (all : taken.all freshStep = true) : ∀ step ∈ taken, Fresh step := by
  rintro ⟨p,event⟩ member
  have here := List.all_eq_true.mp all _ member
  cases event with
  | call task => exact here
  | resume index w => exact fun _ _ => trivial

-- The cancellation arrives while the listener waits.
theorem cancellations_observable_toy : ∃ taken p, Runs [] start taken p ∧ taken.length = 6 ∧
    NothingLost taken p ∧ ∀ earlier step later, taken = earlier ++ step :: later → NothingLost earlier step.1 := by
  have runs := TaskPool.perform_runs .nil (rfl : TaskPool.perform (resume []) start
    (entering ++ [interrupting,.resume 2 ⟨3,false⟩,.resume 2 ⟨4,false⟩]) = some _)
  refine ⟨_,_,runs,rfl,cancellations_observable [] _ _ runs (fresh_steps rfl) (TaskPool.each_splits [] ?_)⟩
  refine ⟨call_careful _,?_,?_,call_careful _,?_,?_,trivial⟩
  all_goals
    intro index w task event found
    cases event
    cases found
  · rintro message ⟨step,member,_,_,_,_,event,_⟩
    rw [List.mem_singleton.mp member] at event
    cases event
  · trivial
  · intro _ old stored
    cases stored
  · intro _ ref active _
    obtain rfl : ref = 0 := Nat.lt_one_iff.mp active.entered
    rfl

-- Two ways to lose it: a subscriber drains the queue before the listener has
-- looked, and a listener that timed out leaves the queue to nobody.
theorem cancellation_lost :
    (∃ taken p, Runs [] start taken p ∧ (∀ step ∈ taken, Fresh step) ∧ ¬ NothingLost taken p) ∧
      ∃ taken p, Runs [] start taken p ∧ (∀ step ∈ taken, Fresh step) ∧ ¬ NothingLost taken p := by
  refine ⟨?_,?_⟩
  · have runs := TaskPool.perform_runs .nil (rfl : TaskPool.perform (resume []) start
      (entering ++ [interrupting,.resume 2 ⟨3,false⟩,.resume 2 ⟨4,false⟩,.call (.subscribe toyKey),.resume 2 ⟨5,false⟩]) = some _)
    refine ⟨_,_,runs,fresh_steps rfl,fun nothing => ?_⟩
    have seen := nothing 0 ⟨Nat.one_pos,rfl,rfl⟩ {controlMessage toyKey "interrupt" with id := some ⟨3,0⟩}
      ⟨rfl,by decide⟩ ⟨_,List.mem_of_getElem? (i:=4) rfl,2,_,_,_,rfl,rfl,rfl,rfl⟩ (by decide)
    rcases seen.held with waits | stored
    · cases waits
    · cases stored.1
  · have runs := TaskPool.perform_runs .nil (rfl : TaskPool.perform (resume []) start
      (entering ++ [.resume 0 ⟨240000,true⟩,interrupting,.resume 1 ⟨240001,false⟩,.resume 1 ⟨240002,false⟩]) = some _)
    refine ⟨_,_,runs,fresh_steps rfl,fun nothing => ?_⟩
    have seen := nothing 0 ⟨Nat.one_pos,rfl,rfl⟩ {controlMessage toyKey "interrupt" with id := some ⟨240001,0⟩}
      ⟨rfl,by decide⟩ ⟨_,List.mem_of_getElem? (i:=5) rfl,1,_,_,_,rfl,rfl,rfl,rfl⟩ (by decide)
    cases seen.listening

end InmemRuntime.CancelSignals
