import InmemRuntime.StreamFeeds
import InmemRuntime.StreamLifecycle

namespace InmemRuntime.SubscriberRelease
open OrderedDict ObjectHeap Streams StreamUpkeep StreamLifecycle
open StreamFeeds (lastId Earlier Newer stamp_grows before_of_known)

def Held (m : StreamManager) (queue : Nat) : Prop := ∃ holder, queue ∈ registered m holder

-- The run of a holder belongs to the thread, or the holder watches it.
def Concerns (threadId : String) : Holder → Prop
  | .subscriber key | .listener key => key.threadId = some threadId
  | .watcher other => other = threadId

section meaning
variable (codec : List UInt8)

-- A done control message, as a control frame or bare, or `STREAM_CLOSE_TOPIC`.
def Terminal (message : Message) : Prop :=
  match message.topic with
  | .control _ => message.data = bytes "done"
  | .stream _ => message.data = codec
  | .closed => True
  | .thread _ => False

-- The queues that a deletion or `close` is about to let go.
def Releases (m : StreamManager) (queue : Nat) : Operation → Prop
  | .deleteRun key => queue ∈ m.getQueues key ++ m.getControlQueues key
  | .deleteThread threadId => ∃ holder, Concerns threadId holder ∧ queue ∈ registered m holder
  | .close => Held m queue
  | _ => False

def Removes (queue : Nat) : Operation → Prop
  | .removeQueue _ other | .removeControlQueue _ other | .removeThreadStream _ other => other = queue
  | _ => False

-- A `remove_*` call has taken the queue out of the maps.
def Removed (taken : List (Pool × Event)) (queue : Nat) : Prop :=
  ∃ step ∈ taken, ∃ call m', Performs codec step call m' ∧ Removes queue call ∧ Held step.1.shared queue ∧ ¬ Held m' queue

-- A queue that has left the maps, or was handed out without entering them.
def LetGo (taken : List (Pool × Event)) (m : StreamManager) (queue : Nat) : Prop :=
  queue < m.contents.next ∧ ¬ Held m queue ∧ ¬ Removed codec taken queue

structure Released (taken : List (Pool × Event)) (m : StreamManager) : Prop where
  ordered : ∀ queue < m.contents.next, (m.contents.read queue).Pairwise Newer
  terminal : ∀ queue, LetGo codec taken m queue → ∃ earlier last, m.contents.read queue = earlier ++ [last] ∧ Terminal codec last
  final : ∀ step ∈ taken, ∀ queue, LetGo codec taken step.1.shared queue →
    m.contents.read queue = step.1.shared.contents.read queue

end meaning

-- What a deletion lets go has nothing in flight to it, and the tasks that
-- `gather` made for one queue run in the order in which they were made.
def Clear (_ : Wake) (m : StreamManager) (task other : ManagerTask) : Prop :=
  ∀ queue message, other = .delivering queue message → match task with
    | .operation call => ¬ Releases m queue call
    | .delivering target first => target = queue → ¬ Earlier message.id first.id

def Orderly : Pool × Event → Prop :=
  TaskPool.Respects (fun task => ∃ call, task = .operation call) (fun _ _ _ => True) Clear

-- Ids given out later than those of `m`, and no later than those of `m'`.
def Stamped (m m' : StreamManager) (message : Message) : Prop :=
  ∃ id, message.id = some id ∧ (lastId m).Before id ∧ ¬ (lastId m').Before id

section adding
variable {codec : List UInt8} {m m' m'' : StreamManager} {aim : Nat → Prop}

-- Between the two, terminal messages were put into queues aimed at.
structure Adds (codec : List UInt8) (aim : Nat → Prop) (m m' : StreamManager) : Prop where
  next : m'.contents.next = m.contents.next
  stamp : ¬ (lastId m').Before (lastId m)
  each : ∀ queue < m.contents.next, ∃ added, m'.contents.read queue = m.contents.read queue ++ added ∧ added.Pairwise Newer ∧
    (∀ message ∈ added, Terminal codec message ∧ Stamped m m' message) ∧ (added ≠ [] → aim queue)

theorem Stamped.later {message : Message} (stamped : Stamped m m' message) (stamp : ¬ (lastId m'').Before (lastId m')) :
    Stamped m m'' message := by
  obtain ⟨id,same,after,known⟩ := stamped
  exact ⟨id,same,after,fun before => stamp (by unfold MessageId.Before lastId at *; omega)⟩

theorem Stamped.earlier {message : Message} (stamped : Stamped m' m'' message) (stamp : ¬ (lastId m').Before (lastId m)) :
    Stamped m m'' message := by
  obtain ⟨id,same,after,known⟩ := stamped
  exact ⟨id,same,by unfold MessageId.Before lastId at *; omega,known⟩

theorem Adds.refl : Adds codec aim m m :=
  ⟨rfl,MessageId.before_irrefl _,fun _ _ => ⟨[],by simp,.nil,by simp,by simp⟩⟩

theorem Adds.trans (first : Adds codec aim m m') (second : Adds codec aim m' m'') : Adds codec aim m m'' := by
  refine ⟨second.next.trans first.next,?_,fun queue used => ?_⟩
  · have early := first.stamp
    have late := second.stamp
    unfold MessageId.Before lastId at *
    omega
  · obtain ⟨added,read,sorted,new,aimed⟩ := first.each queue used
    obtain ⟨added',read',sorted',new',aimed'⟩ := second.each queue (by rwa [first.next])
    refine ⟨added ++ added',by rw [read',read,List.append_assoc],List.pairwise_append.mpr ⟨sorted,sorted',?_⟩,?_,?_⟩
    · intro message member message' member'
      obtain ⟨_,id,same,_,known⟩ := new message member
      obtain ⟨_,id',same',after,_⟩ := new' message' member'
      exact ⟨id,id',same,same',before_of_known known after⟩
    · intro message member
      rcases List.mem_append.mp member with old | later
      · exact ⟨(new message old).1,(new message old).2.later second.stamp⟩
      · exact ⟨(new' message later).1,(new' message later).2.earlier first.stamp⟩
    · intro some_
      by_cases none_ : added = []
      · exact aimed' (by simpa [none_] using some_)
      · exact aimed none_

theorem Adds.congr (adds : Adds codec aim m m') (contents : m''.contents = m'.contents) (stamp : lastId m'' = lastId m') :
    Adds codec aim m m'' := by
  obtain ⟨next,later,each⟩ := adds
  refine ⟨by rw [contents,next],by rwa [stamp],fun queue used => ?_⟩
  obtain ⟨added,read,sorted,new,aimed⟩ := each queue used
  refine ⟨added,by rw [contents,read],sorted,fun message member => ⟨(new message member).1,?_⟩,aimed⟩
  simpa only [Stamped,stamp] using (new message member).2

def Grew (m m' : StreamManager) (queue : Nat) : Prop := (m.contents.read queue).length < (m'.contents.read queue).length

theorem Adds.longer (adds : Adds codec aim m m') {queue : Nat} (used : queue < m.contents.next) :
    (m.contents.read queue).length ≤ (m'.contents.read queue).length := by
  obtain ⟨added,read,_⟩ := adds.each queue used
  simp [read]

theorem finish_adds (now : Int) {queue : Nat} {message : Message} (terminal : Terminal codec message) (aimed : aim queue) :
    Adds codec aim m (m.finish now queue message) ∧ Grew m (m.finish now queue message) queue := by
  obtain ⟨before,same⟩ := stamp_grows m now
  have shape : (m.finish now queue message).contents = m.contents.write queue (m.contents.read queue ++ [m.stamped now message]) := rfl
  have last : lastId (m.finish now queue message) = (m.generateId now).2 := same
  refine ⟨⟨rfl,?_,fun other used => ?_⟩,by simp [Grew,shape]⟩
  · rw [last]
    unfold MessageId.Before at *
    omega
  · by_cases equal : other = queue
    · subst equal
      refine ⟨[m.stamped now message],by simp [shape],List.pairwise_singleton _ _,?_,fun _ => aimed⟩
      intro added member
      rw [List.mem_singleton.mp member]
      exact ⟨terminal,(m.generateId now).2,rfl,before,by rw [last]; exact MessageId.before_irrefl _⟩
    · exact ⟨[],by rw [shape,Heap.read_write_other equal]; simp,.nil,by simp,by simp⟩

theorem finishAll_adds (clock : Clock) {message : Message} (terminal : Terminal codec message) {queues : List Nat}
    (aimed : ∀ queue ∈ queues, aim queue) (used : ∀ queue ∈ queues, queue < m.contents.next) :
    Adds codec aim m (m.finishAll clock message queues) ∧ ∀ queue ∈ queues, Grew m (m.finishAll clock message queues) queue := by
  induction queues generalizing m with
  | nil => exact ⟨.refl,by simp⟩
  | cons first rest ih =>
    obtain ⟨one,grew⟩ := finish_adds (m := m) (m.reading clock) terminal (aimed first List.mem_cons_self)
    obtain ⟨others,rest_grew⟩ := ih (m := m.finish (m.reading clock) first message) (fun queue member => aimed queue (List.mem_cons_of_mem _ member)) fun queue member => used queue (List.mem_cons_of_mem _ member)
    refine ⟨one.trans others,fun queue member => ?_⟩
    rcases List.mem_cons.mp member with rfl | later
    · exact Nat.lt_of_lt_of_le grew (others.longer (used queue List.mem_cons_self))
    · exact Nat.lt_of_le_of_lt (one.longer (used queue (List.mem_cons_of_mem _ later))) (rest_grew queue later)

end adding

-- Between the two, queues were let go after they had been told, and nothing
-- was registered.
structure Frees (codec : List UInt8) (aim : Nat → Prop) (m m' : StreamManager) : Prop where
  adds : Adds codec aim m m'
  fewer : ∀ holder, (registered m' holder).Sublist (registered m holder)
  told : ∀ queue, Held m queue → ¬ Held m' queue → Grew m m' queue

section freeing
variable {codec : List UInt8} {clock : Clock} {m m' m'' : StreamManager} {aim : Nat → Prop} {key : RunKey}

theorem Frees.refl : Frees codec aim m m := ⟨.refl,fun _ => .refl _,fun _ held free => absurd held free⟩

theorem held_used (owned : Owned m) {queue : Nat} (held : Held m queue) : queue < m.contents.next :=
  held.elim fun holder member => owned.used holder queue member

theorem served_held {queue : Nat} (member : queue ∈ m.getQueues key ++ m.getControlQueues key) : Held m queue := by
  rcases List.mem_append.mp member with mine | mine
  · exact ⟨.subscriber key,mine⟩
  · exact ⟨.listener key,mine⟩

theorem Frees.trans (owned : Owned m) (first : Frees codec aim m m') (second : Frees codec aim m' m'') : Frees codec aim m m'' := by
  refine ⟨first.adds.trans second.adds,fun holder => (second.fewer holder).trans (first.fewer holder),?_⟩
  intro queue held gone
  have used := held_used owned held
  by_cases still : Held m' queue
  · exact Nat.lt_of_le_of_lt (first.adds.longer used) (second.told queue still gone)
  · exact Nat.lt_of_lt_of_le (first.told queue held still) (second.adds.longer (by rwa [first.adds.next]))

theorem signalRun_adds (owned : Owned m) (aimed : ∀ queue ∈ m.getQueues key ++ m.getControlQueues key, aim queue) :
    Adds codec aim m (m.signalRun codec clock key) ∧
      ∀ queue ∈ m.getQueues key ++ m.getControlQueues key, Grew m (m.signalRun codec clock key) queue := by
  obtain ⟨served,heard⟩ := List.forall_mem_append.mp aimed
  have touched := finishAll_touched (m := m) clock ⟨.stream key.runId,codec,none⟩ (m.getQueues key)
  have listeners : (m.finishAll clock ⟨.stream key.runId,codec,none⟩ (m.getQueues key)).getControlQueues key =
      m.getControlQueues key := touched.registered (.listener key)
  have terminal : Terminal codec ⟨.stream key.runId,codec,none⟩ := rfl
  have control : Terminal codec (controlMessage key "done") := rfl
  obtain ⟨first,grew⟩ := finishAll_adds clock terminal served (owned.used (.subscriber key))
  unfold StreamManager.signalRun
  dsimp only
  rw [listeners]
  obtain ⟨second,grew'⟩ := finishAll_adds clock control heard fun queue member => by
    rw [first.next]
    exact owned.used (.listener key) queue member
  refine ⟨first.trans second,fun queue member => ?_⟩
  rcases List.mem_append.mp member with mine | mine
  · have used : queue < m.contents.next := owned.used (.subscriber key) queue mine
    exact Nat.lt_of_lt_of_le (grew queue mine) (second.longer (by rwa [first.next]))
  · exact Nat.lt_of_le_of_lt (first.longer (owned.used (.listener key) queue mine)) (grew' queue mine)

-- Clearing a run unregisters its queues and no others.
theorem clearRunState_registered (m : StreamManager) (key : RunKey) (holder : Holder) :
    registered (m.clearRunState key) holder =
      if holder = .subscriber key ∨ holder = .listener key then [] else registered m holder := by
  cases holder with
  | subscriber other =>
    simp only [registered,StreamManager.getQueues,StreamManager.clearRunState,RunMap.find_drop,Holder.subscriber.injEq,reduceCtorEq,or_false]
    by_cases same : key = other
    · simp [same]
    · rw [if_neg same,if_neg (Ne.symm same)]
  | listener other =>
    simp only [registered,StreamManager.getControlQueues,StreamManager.clearRunState,RunMap.find_drop,Holder.listener.injEq,reduceCtorEq,false_or]
    by_cases same : key = other
    · simp [same]
    · rw [if_neg same,if_neg (Ne.symm same)]
  | watcher other => simp [registered,StreamManager.threadQueues,StreamManager.clearRunState]

theorem deleteRun_registered (m : StreamManager) (key : RunKey) (holder : Holder) :
    registered (m.deleteRun codec clock key) holder =
      if holder = .subscriber key ∨ holder = .listener key then [] else registered m holder := by
  obtain ⟨told,pending,same,touched,_⟩ := deleteRun_shape codec clock m key
  rw [same]
  have cleared := clearRunState_registered told key holder
  rw [touched.registered] at cleared
  cases holder <;> exact cleared

theorem deleteRun_frees (owned : Owned m) (aimed : ∀ queue ∈ m.getQueues key ++ m.getControlQueues key, aim queue) :
    Frees codec aim m (m.deleteRun codec clock key) := by
  obtain ⟨adds,grew⟩ : Adds codec aim m (m.signalRun codec clock key) ∧ _ := signalRun_adds owned aimed
  have contents : (m.deleteRun codec clock key).contents = (m.signalRun codec clock key).contents ∧
      lastId (m.deleteRun codec clock key) = lastId (m.signalRun codec clock key) := by
    unfold StreamManager.deleteRun
    dsimp only
    split <;> exact ⟨rfl,rfl⟩
  refine ⟨?_,fun holder => ?_,fun queue held gone => ?_⟩
  · exact adds.congr contents.1 contents.2
  · rw [deleteRun_registered]
    split
    · exact List.nil_sublist _
    · exact .refl _
  · obtain ⟨holder,member⟩ := held
    rw [Grew,contents.1]
    refine grew queue ?_
    by_cases mine : holder = .subscriber key ∨ holder = .listener key
    · rcases mine with rfl | rfl
      · exact List.mem_append_left _ member
      · exact List.mem_append_right _ member
    · exact absurd ⟨holder,by rwa [deleteRun_registered,if_neg mine]⟩ gone

theorem deleteRuns_frees {keys : List RunKey} (maintained : Maintained m)
    (aimed : ∀ key ∈ keys, ∀ queue ∈ m.getQueues key ++ m.getControlQueues key, aim queue) :
    Frees codec aim m (keys.foldl (StreamManager.deleteRun codec clock) m) ∧ ∀ key ∈ keys,
      registered (keys.foldl (StreamManager.deleteRun codec clock) m) (.subscriber key) = [] ∧
      registered (keys.foldl (StreamManager.deleteRun codec clock) m) (.listener key) = [] := by
  induction keys generalizing m with
  | nil => exact ⟨.refl,by simp⟩
  | cons first rest ih =>
    have one : Frees codec aim m (m.deleteRun codec clock first) := deleteRun_frees maintained.owned (aimed first List.mem_cons_self)
    have next : Maintained (m.deleteRun codec clock first) := deleteRun_maintained maintained
    obtain ⟨others,cleared⟩ := ih next fun key member queue mine =>
      aimed key (List.mem_cons_of_mem _ member) queue (((one.fewer (.subscriber key)).append (one.fewer (.listener key))).subset mine)
    refine ⟨one.trans maintained.owned others,fun key member => ?_⟩
    rcases List.mem_cons.mp member with rfl | later
    · have bare : ∀ holder, registered (m.deleteRun codec clock key) holder = _ := deleteRun_registered m key
      refine ⟨List.sublist_nil.mp ?_,List.sublist_nil.mp ?_⟩
      · simpa [bare] using others.fewer (.subscriber key)
      · simpa [bare] using others.fewer (.listener key)
    · exact cleared key later

theorem find_runIds {α : Type} {map : RunMap α} {value : α} (found : map.find key = some value) : key.runId ∈ map.runIds key.threadId := by
  unfold RunMap.find at found
  obtain ⟨runs,thread,run⟩ := Option.bind_eq_some_iff.mp found
  rw [RunMap.runIds,thread,Option.getD_some,Dict.mem_keys]
  exact Dict.contains_iff.mpr ⟨value,run⟩

theorem find_keys {α : Type} {map : RunMap α} {value : α} (found : map.find key = some value) : key ∈ map.keys := by
  unfold RunMap.find at found
  obtain ⟨runs,thread,run⟩ := Option.bind_eq_some_iff.mp found
  refine List.mem_flatMap.mpr ⟨(key.threadId,runs),Dict.mem_iff.mpr thread,List.mem_map.mpr ⟨key.runId,?_,rfl⟩⟩
  exact Dict.mem_keys.mpr (Dict.contains_iff.mpr ⟨value,run⟩)

theorem listed_find {map : RunMap (List Nat)} {queue : Nat} (member : queue ∈ (map.find key).getD []) : ∃ queues, map.find key = some queues := by
  cases found : map.find key with
  | none => simp [found] at member
  | some queues => exact ⟨queues,rfl⟩

-- A run of the thread that is not released one by one has no queue.
theorem threadRuns_held {threadId : String} {queue : Nat} (thread : key.threadId = some threadId)
    (member : queue ∈ m.getQueues key ++ m.getControlQueues key) : key ∈ m.threadRuns threadId := by
  have named : key = ⟨some threadId,key.runId⟩ := by rw [← thread]
  unfold StreamManager.threadRuns
  rw [List.mem_dedup]
  refine List.mem_append_left _ (List.mem_map.mpr ⟨key.runId,?_,named.symm⟩)
  rcases List.mem_append.mp member with mine | mine
  · obtain ⟨_,found⟩ := listed_find mine
    simp [← thread,find_runIds found]
  · obtain ⟨_,found⟩ := listed_find mine
    simp [← thread,find_runIds found]

theorem withoutThread_registered {threadId : String} (cleared : ∀ key : RunKey, key.threadId = some threadId →
      registered m (.subscriber key) = [] ∧ registered m (.listener key) = []) (holder : Holder) :
    registered (withoutThread m threadId) holder = registered m holder := by
  cases holder with
  | subscriber key =>
    simp only [registered,StreamManager.getQueues,withoutThread,RunMap.find_erase]
    split
    · rename_i mine
      exact (cleared key mine.symm).1.symm
    · rfl
  | listener key =>
    simp only [registered,StreamManager.getControlQueues,withoutThread,RunMap.find_erase]
    split
    · rename_i mine
      exact (cleared key mine.symm).2.symm
    · rfl
  | watcher other => rfl

theorem eraseStream_registered (m : StreamManager) (threadId : String) (holder : Holder) :
    registered {m with threadStreams := m.threadStreams.erase threadId} holder =
      if holder = .watcher threadId then [] else registered m holder := by
  cases holder with
  | subscriber key => simp [registered,StreamManager.getQueues]
  | listener key => simp [registered,StreamManager.getControlQueues]
  | watcher other =>
    simp only [registered,StreamManager.threadQueues,Dict.get?_erase,Holder.watcher.injEq,beq_iff_eq]
    by_cases same : threadId = other
    · simp [same]
    · rw [if_neg same,if_neg (Ne.symm same)]

theorem deleteThread_frees (maintained : Maintained m) (order : SetOrder) (threadId : String) :
    Frees codec (fun queue => ∃ holder, Concerns threadId holder ∧ queue ∈ registered m holder) m
      (m.deleteThread codec clock order threadId) := by
  obtain ⟨freed,cleared⟩ : Frees codec (fun queue => ∃ holder, Concerns threadId holder ∧ queue ∈ registered m holder) m
      ((order.arrange (m.threadRuns threadId)).foldl (StreamManager.deleteRun codec clock) m) ∧ _ := by
    refine deleteRuns_frees maintained fun key member queue mine => ?_
    have thread := threadRuns_thread ((order.permutes _).mem_iff.mp member)
    rcases List.mem_append.mp mine with mine | mine
    · exact ⟨.subscriber key,thread,mine⟩
    · exact ⟨.listener key,thread,mine⟩
  obtain ⟨released,_⟩ : Maintained ((order.arrange (m.threadRuns threadId)).foldl
      (StreamManager.deleteRun codec clock) m) ∧ _ := deleteRuns_parts maintained _
  unfold StreamManager.deleteThread
  dsimp only
  generalize (order.arrange (m.threadRuns threadId)).foldl (StreamManager.deleteRun codec clock) m = r at freed cleared released ⊢
  have bare : ∀ key : RunKey, key.threadId = some threadId → registered r (.subscriber key) = [] ∧ registered r (.listener key) = [] := by
    intro key thread
    by_cases listed : key ∈ order.arrange (m.threadRuns threadId)
    · exact cleared key listed
    · have unheld : ∀ queue, queue ∉ m.getQueues key ++ m.getControlQueues key := fun queue member =>
        listed ((order.permutes _).mem_iff.mpr (threadRuns_held thread member))
      refine ⟨List.eq_nil_iff_forall_not_mem.mpr fun queue member => ?_,List.eq_nil_iff_forall_not_mem.mpr fun queue member => ?_⟩
      · exact unheld queue (List.mem_append_left _ ((freed.fewer (.subscriber key)).subset member))
      · exact unheld queue (List.mem_append_right _ ((freed.fewer (.listener key)).subset member))
  have places := withoutThread_registered bare
  refine freed.trans maintained.owned ?_
  have watchers : ∀ queue ∈ r.threadQueues threadId, ∃ holder, Concerns threadId holder ∧ queue ∈ registered m holder :=
    fun queue member => ⟨.watcher threadId,rfl,(freed.fewer (.watcher threadId)).subset member⟩
  have used : ∀ queue ∈ r.threadQueues threadId, queue < r.contents.next := released.owned.used (.watcher threadId)
  have closed : Terminal codec ⟨.closed,bytes "done",none⟩ := trivial
  obtain ⟨adds,grew⟩ := finishAll_adds (m := withoutThread r threadId) clock closed watchers used
  have touched := finishAll_touched (m := withoutThread r threadId) clock ⟨.closed,bytes "done",none⟩ (r.threadQueues threadId)
  have places' : ∀ holder, registered ((withoutThread r threadId).finishAll clock ⟨.closed,bytes "done",none⟩ (r.threadQueues threadId)) holder =
      registered r holder := fun holder => (touched.registered holder).trans (places holder)
  refine ⟨⟨adds.next,adds.stamp,adds.each⟩,fun holder => ?_,fun queue ⟨holder,member⟩ gone => ?_⟩
  · rw [eraseStream_registered]
    split
    · exact List.nil_sublist _
    · exact (places' holder) ▸ .refl _
  · by_cases watched : holder = .watcher threadId
    · subst watched
      exact grew queue member
    · refine absurd ⟨holder,?_⟩ gone
      rw [eraseStream_registered,if_neg watched]
      exact (places' holder).symm ▸ member

theorem signalRuns_adds {keys : List RunKey} (owned : Owned m)
    (aimed : ∀ key ∈ keys, ∀ queue ∈ m.getQueues key ++ m.getControlQueues key, aim queue) :
    Adds codec aim m (keys.foldl (StreamManager.signalRun codec clock) m) ∧
      (∀ holder, registered (keys.foldl (StreamManager.signalRun codec clock) m) holder = registered m holder) ∧
      (keys.foldl (StreamManager.signalRun codec clock) m).threadStreams = m.threadStreams ∧
      ∀ key ∈ keys, ∀ queue ∈ m.getQueues key ++ m.getControlQueues key,
        Grew m (keys.foldl (StreamManager.signalRun codec clock) m) queue := by
  induction keys generalizing m with
  | nil => exact ⟨.refl,fun _ => rfl,rfl,by simp⟩
  | cons first rest ih =>
    obtain ⟨one,grew⟩ : Adds codec aim m (m.signalRun codec clock first) ∧ _ := signalRun_adds owned (aimed first List.mem_cons_self)
    have touched : Touched m (m.signalRun codec clock first) _ := signalRun_touched
    have places : ∀ key, (m.signalRun codec clock first).getQueues key ++ (m.signalRun codec clock first).getControlQueues key =
        m.getQueues key ++ m.getControlQueues key := fun key =>
      congrArg₂ (· ++ ·) (touched.registered (.subscriber key)) (touched.registered (.listener key))
    have next : Owned (m.signalRun codec clock first) :=
      owned_shrinks owned one.next fun holder => (touched.registered holder) ▸ List.Subset.refl _
    obtain ⟨others,held,streams,rest_grew⟩ := ih next fun key member queue mine => aimed key (List.mem_cons_of_mem _ member) queue (places key ▸ mine)
    have same : (m.signalRun codec clock first).threadStreams = m.threadStreams := by
      obtain ⟨⟨_,_,_,shape⟩,_,_⟩ := touched
      rw [shape]
    refine ⟨one.trans others,fun holder => (held holder).trans (touched.registered holder),streams.trans same,fun key member queue mine => ?_⟩
    have used := held_used owned (served_held mine)
    rcases List.mem_cons.mp member with rfl | later
    · exact Nat.lt_of_lt_of_le (grew queue mine) (others.longer (by rwa [one.next]))
    · exact Nat.lt_of_le_of_lt (one.longer used) (rest_grew key later queue ((places key).symm ▸ mine))

theorem mem_streams (m : StreamManager) (queue : Nat) :
    queue ∈ m.threadStreams.entries.flatMap Prod.snd ↔ ∃ threadId, queue ∈ registered m (.watcher threadId) := by
  simp only [List.mem_flatMap,registered,StreamManager.threadQueues]
  constructor
  · rintro ⟨⟨threadId,queues⟩,row,member⟩
    exact ⟨threadId,by simpa [Dict.mem_iff.mp row] using member⟩
  · rintro ⟨threadId,member⟩
    cases found : m.threadStreams.get? threadId with
    | none => simp [found] at member
    | some queues => exact ⟨(threadId,queues),Dict.mem_iff.mpr found,by simpa [found] using member⟩

theorem close_frees (owned : Owned m) (order : SetOrder) : Frees codec (Held m) m (m.close codec clock order) := by
  have listed : ∀ key, (∃ queue, queue ∈ m.getQueues key ++ m.getControlQueues key) →
      key ∈ order.arrange (m.queues.keys ++ m.controlQueues.keys ++ m.controlKeys.keys ++ m.messageStores.keys).dedup := by
    rintro key ⟨queue,member⟩
    rw [(order.permutes _).mem_iff,List.mem_dedup]
    rcases List.mem_append.mp member with mine | mine
    · obtain ⟨_,found⟩ := listed_find mine
      simp [find_keys found]
    · obtain ⟨_,found⟩ := listed_find mine
      simp [find_keys found]
  have halted : Owned {m with stopped := true} :=
    owned_shrinks owned rfl fun holder => by cases holder <;> exact List.Subset.refl _
  unfold StreamManager.close
  dsimp only
  generalize order.arrange (m.queues.keys ++ m.controlQueues.keys ++ m.controlKeys.keys ++ m.messageStores.keys).dedup = runs at listed ⊢
  obtain ⟨adds,held,streams,grew⟩ : Adds codec (Held m) {m with stopped := true}
      (runs.foldl (StreamManager.signalRun codec clock) {m with stopped := true}) ∧ _ :=
    signalRuns_adds halted fun key _ queue mine => served_held mine
  generalize runs.foldl (StreamManager.signalRun codec clock) {m with stopped := true} = told at adds held streams grew ⊢
  have closed : Terminal codec ⟨.closed,bytes "done",none⟩ := trivial
  have same : ∀ holder, registered told holder = registered m holder := fun holder =>
    (held holder).trans (by cases holder <;> rfl)
  have watched : ∀ queue ∈ told.threadStreams.entries.flatMap Prod.snd, Held m queue := by
    intro queue member
    obtain ⟨threadId,there⟩ := (mem_streams told queue).mp member
    exact ⟨.watcher threadId,same _ ▸ there⟩
  have used : ∀ queue, Held m queue → queue < told.contents.next := fun queue holds => adds.next ▸ held_used owned holds
  obtain ⟨last,grew'⟩ := finishAll_adds clock closed watched fun queue member => used queue (watched queue member)
  have first : Adds codec (Held m) m told := ⟨adds.next,adds.stamp,adds.each⟩
  have whole := first.trans last
  refine ⟨⟨whole.next,whole.stamp,whole.each⟩,fun holder => ?_,fun queue holds _ => ?_⟩
  · cases holder <;> exact List.nil_sublist _
  · obtain ⟨holder,member⟩ := holds
    have before := used queue ⟨holder,member⟩
    cases holder with
    | subscriber key =>
      exact Nat.lt_of_lt_of_le (grew key (listed key ⟨queue,List.mem_append_left _ member⟩) queue (List.mem_append_left _ member)) (last.longer before)
    | listener key =>
      exact Nat.lt_of_lt_of_le (grew key (listed key ⟨queue,List.mem_append_right _ member⟩) queue (List.mem_append_right _ member)) (last.longer before)
    | watcher threadId =>
      have told_ := grew' queue ((mem_streams told queue).mpr ⟨threadId,(same _).symm ▸ member⟩)
      exact Nat.lt_of_le_of_lt (first.longer (held_used owned ⟨.watcher threadId,member⟩)) told_

end freeing

-- What any call of the manager does to the queues, before its deliveries.
structure Effect (codec : List UInt8) (call : Operation) (m m' : StreamManager) : Prop where
  next : m.contents.next ≤ m'.contents.next
  stamp : ¬ (lastId m').Before (lastId m)
  old : ∀ queue < m.contents.next, ∃ added, m'.contents.read queue = m.contents.read queue ++ added ∧ added.Pairwise Newer ∧
    (∀ message ∈ added, Terminal codec message ∧ Stamped m m' message) ∧ (added ≠ [] → Releases m queue call)
  kept : ∀ queue < m.contents.next, ¬ Held m queue → ¬ Held m' queue
  told : ∀ queue, Held m queue → ¬ Held m' queue → Removes queue call ∨ Grew m m' queue
  fresh : ∀ queue, m.contents.next ≤ queue → queue < m'.contents.next → Held m' queue ∧ m'.contents.read queue = [] ∨
    ∃ last, m'.contents.read queue = [last] ∧ Terminal codec last ∧ ∃ id, last.id = some id ∧ ¬ (lastId m').Before id
  single : (∀ holder, (registered m holder).Nodup) → ∀ holder, (registered m' holder).Nodup

section effects
variable {codec : List UInt8} {m m' : StreamManager} {call : Operation}

theorem Frees.effect {aim : Nat → Prop} (frees : Frees codec aim m m') (aims : ∀ queue, aim queue → Releases m queue call) :
    Effect codec call m m' := by
  refine ⟨frees.adds.next.ge,frees.adds.stamp,fun queue used => ?_,fun queue _ unheld ⟨holder,member⟩ => ?_,
    fun queue held gone => .inr (frees.told queue held gone),fun queue above below => ?_,fun single holder => ?_⟩
  · obtain ⟨added,read,sorted,new,aimed⟩ := frees.adds.each queue used
    exact ⟨added,read,sorted,new,fun some_ => aims queue (aimed some_)⟩
  · exact unheld ⟨holder,(frees.fewer holder).subset member⟩
  · rw [frees.adds.next] at below
    omega
  · exact (single holder).sublist (frees.fewer holder)

-- Neither queues nor registrations, whatever happens to the other maps.
theorem quiet_effect (contents : m'.contents = m.contents) (stamp : ¬ (lastId m').Before (lastId m))
    (same : ∀ holder, registered m' holder = registered m holder) : Effect codec call m m' := by
  have held : ∀ queue, Held m' queue ↔ Held m queue := by simp [Held,same]
  refine ⟨by rw [contents],stamp,fun queue _ => ⟨[],by simp [contents],.nil,by simp,by simp⟩,fun queue _ unheld => by rwa [held],
    fun queue before gone => absurd before (by rwa [held] at gone),fun queue above below => ?_,fun single holder => by
      rw [same]; exact single holder⟩
  rw [contents] at below
  omega

-- A call that takes a queue out of one place of the maps.
theorem remove_effect (queue : Nat) (contents : m'.contents = m.contents) (stamp : lastId m' = lastId m)
    (fewer : ∀ holder, registered m' holder = registered m holder ∨ registered m' holder = (registered m holder).erase queue)
    (removes : Removes queue call) : Effect codec call m m' := by
  have within : ∀ holder, (registered m' holder).Sublist (registered m holder) := by
    intro holder
    rcases fewer holder with same | erased
    · rw [same]
    · rw [erased]
      exact List.erase_sublist
  refine ⟨by rw [contents],by rw [stamp]; exact MessageId.before_irrefl _,fun other _ => ⟨[],by simp [contents],.nil,by simp,by simp⟩,
    fun other _ unheld ⟨holder,member⟩ => unheld ⟨holder,(within holder).subset member⟩,fun other before gone => ?_,
    fun other above below => ?_,fun single holder => (single holder).sublist (within holder)⟩
  · left
    obtain ⟨holder,member⟩ := before
    by_cases same : queue = other
    · exact same ▸ removes
    · refine absurd ⟨holder,?_⟩ gone
      rcases fewer holder with equal | erased
      · rwa [equal]
      · rw [erased]
        exact (List.mem_erase_of_ne (Ne.symm same)).mpr member
  · rw [contents] at below
    omega

-- A call that makes a queue: refused and told so, or registered.
theorem refused_effect (now : Int) {message : Message} (terminal : Terminal codec message) :
    Effect codec call m ({m with contents := (m.contents.alloc []).1}.finish now m.contents.next message) := by
  obtain ⟨before,last⟩ := stamp_grows m now
  have touched : Touched m ({m with contents := (m.contents.alloc []).1}.finish now m.contents.next message) _ :=
    (alloc_touched m).trans (finish_touched message now)
  have same := touched.registered
  have stamp : lastId ({m with contents := (m.contents.alloc []).1}.finish now m.contents.next message) = (m.generateId now).2 := last
  have read : ({m with contents := (m.contents.alloc []).1}.finish now m.contents.next message).contents.read m.contents.next =
      [m.stamped now message] := by
    simp [StreamManager.finish,StreamManager.deliver,StreamManager.generateId,StreamManager.stamped]
  refine ⟨Nat.le_succ _,?_,fun queue used => ?_,fun queue _ unheld => ?_,fun queue held gone => ?_,fun queue above below => ?_,
    fun single holder => by rw [same]; exact single holder⟩
  · rw [stamp]
    unfold MessageId.Before at *
    omega
  · have other := touched.others queue used (by simpa using Nat.ne_of_lt used)
    exact ⟨[],by rw [other,List.append_nil],.nil,by simp,by simp⟩
  · simpa [Held,same] using unheld
  · exact absurd (by simpa [Held,same] using held) gone
  · obtain rfl : queue = m.contents.next := by
      have bound : queue < m.contents.next + 1 := below
      omega
    refine .inr ⟨_,read,terminal,(m.generateId now).2,rfl,?_⟩
    rw [stamp]
    exact MessageId.before_irrefl _

theorem registered_effect {holder : Holder} (owned : Owned m) (registers : Registers m m' holder) (stamp : lastId m' = lastId m) :
    Effect codec call m m' := by
  obtain ⟨contents,here,there⟩ := registers
  have more : ∀ other queue, queue ∈ registered m' other → queue ∈ registered m other ∨ queue = m.contents.next := by
    intro other queue member
    by_cases same : other = holder
    · rw [same,here] at member
      rw [same]
      exact (List.mem_append.mp member).imp_right List.mem_singleton.mp
    · exact .inl (there other same ▸ member)
  have still : ∀ other, registered m other ⊆ registered m' other := by
    intro other
    by_cases same : other = holder
    · rw [same,here]
      exact List.subset_append_left _ _
    · rw [there other same]
      exact List.Subset.refl _
  refine ⟨by rw [contents]; exact Nat.le_succ _,by rw [stamp]; exact MessageId.before_irrefl _,fun queue used => ?_,
    fun queue used unheld ⟨other,member⟩ => ?_,fun queue ⟨other,member⟩ gone => absurd ⟨other,still other member⟩ gone,
    fun queue above below => .inl ?_,fun single other => ?_⟩
  · exact ⟨[],by rw [contents,Heap.read_alloc_old used,List.append_nil],.nil,by simp,by simp⟩
  · rcases more other queue member with old | new
    · exact unheld ⟨other,old⟩
    · omega
  · obtain rfl : queue = m.contents.next := by
      rw [contents,Heap.next_alloc] at below
      omega
    exact ⟨⟨holder,by rw [here]; simp⟩,by rw [contents,Heap.read_alloc_new]⟩
  · by_cases same : other = holder
    · rw [same,here]
      refine List.nodup_append.mpr ⟨single holder,List.nodup_singleton _,fun queue old new fresh equal => ?_⟩
      have used := owned.used holder queue old
      rw [List.mem_singleton.mp fresh] at equal
      omega
    · rw [there other same]
      exact single other

theorem add_effect (maintained : Maintained m) (w : Wake) (call : Operation)
    (adds : (∃ key, call = .addQueue key) ∨ (∃ key, call = .addControlQueue key) ∨ ∃ threadId, call = .addThreadStream threadId) :
    Effect codec call m (operate codec w m call).1 := by
  have owned := maintained.owned
  rcases adds with ⟨key,rfl⟩ | ⟨key,rfl⟩ | ⟨threadId,rfl⟩
  · simp only [operate,StreamManager.addQueue]
    split
    · exact refused_effect _ trivial
    · exact registered_effect owned (subscriber_registers m key) rfl
  · simp only [operate,StreamManager.addControlQueue]
    split
    · exact refused_effect _ rfl
    · exact registered_effect owned (listener_registers m key) rfl
  · simp only [operate,StreamManager.addThreadStream]
    split
    · exact refused_effect _ trivial
    · exact registered_effect owned (watcher_registers m threadId) rfl

theorem stamp_kept (m : StreamManager) (now : Int) : ¬ (lastId (m.generateId now).1).Before (lastId m) := by
  obtain ⟨before,last⟩ := stamp_grows m now
  rw [last]
  unfold MessageId.Before at *
  omega

theorem operate_effect (maintained : Maintained m) (w : Wake) (call : Operation) : Effect codec call m (operate codec w m call).1 := by
  cases call with
  | put key message resumable =>
    simp only [operate,StreamManager.put]
    split
    · exact quiet_effect rfl (MessageId.before_irrefl _) fun _ => rfl
    · have stamp := stamp_kept m (m.reading w.clock)
      cases resumable <;> split <;> exact quiet_effect rfl stamp fun holder => by cases holder <;> rfl
  | putThread threadId message =>
    simp only [operate,StreamManager.putThread]
    split
    · exact quiet_effect rfl (MessageId.before_irrefl _) fun _ => rfl
    · exact quiet_effect rfl (stamp_kept m (m.reading w.clock)) fun holder => by cases holder <;> rfl
  | addQueue key => exact add_effect maintained w _ (.inl ⟨key,rfl⟩)
  | addControlQueue key => exact add_effect maintained w _ (.inr (.inl ⟨key,rfl⟩))
  | addThreadStream threadId => exact add_effect maintained w _ (.inr (.inr ⟨threadId,rfl⟩))
  | removeQueue key queue => exact remove_effect queue rfl rfl (removeQueue_erased m key queue) rfl
  | removeControlQueue key queue =>
    have erased := removeControlQueue_erased m key queue
    simp only [operate,StreamManager.removeControlQueue_discards] at erased ⊢
    exact remove_effect queue rfl rfl erased rfl
  | removeThreadStream threadId queue =>
    have erased := removeThreadStream_erased m threadId queue
    simp only [operate,StreamManager.removeThreadStream] at erased ⊢
    cases found : m.threadStreams.get? threadId with
    | none => exact quiet_effect rfl (MessageId.before_irrefl _) fun _ => rfl
    | some queues =>
      simp only [found] at erased ⊢
      split
      · exact quiet_effect rfl (MessageId.before_irrefl _) fun _ => rfl
      · rename_i here
        rw [if_neg here] at erased
        exact remove_effect queue rfl rfl erased rfl
  | markRunActive key =>
    simp only [operate,StreamManager.markRunActive]
    split
    · exact quiet_effect rfl (MessageId.before_irrefl _) fun _ => rfl
    · exact quiet_effect rfl (MessageId.before_irrefl _) fun holder => by cases holder <;> rfl
  | markRunInactive key =>
    simp only [operate,StreamManager.markRunInactive]
    split
    · rename_i pending
      obtain ⟨queues,controlQueues,_,_⟩ := maintained.deleted key (by simpa using pending)
      refine quiet_effect rfl (MessageId.before_irrefl _) fun holder => ?_
      have cleared := clearRunState_registered m key holder
      have same : registered (m.clearRunState key) holder = registered m holder := by
        rw [cleared]
        split
        · rename_i mine
          rcases mine with rfl | rfl
          · simp [registered,StreamManager.getQueues,queues]
          · simp [registered,StreamManager.getControlQueues,controlQueues]
        · rfl
      cases holder <;> exact same
    · exact quiet_effect rfl (MessageId.before_irrefl _) fun holder => by cases holder <;> rfl
  | deleteRun key => exact (deleteRun_frees maintained.owned fun _ member => member).effect fun _ aimed => aimed
  | deleteThread threadId => exact (deleteThread_frees maintained w.order threadId).effect fun _ aimed => aimed
  | close => exact (close_frees maintained.owned w.order).effect fun _ aimed => aimed

-- The messages that a `put` sends: with a new id, once to each queue it chose.
theorem operate_flights (w : Wake) (single : ∀ holder, (registered m holder).Nodup) (call : Operation) :
    ((operate codec w m call).2.map Prod.fst).Nodup ∧
      ∀ row ∈ (operate codec w m call).2, Held m row.1 ∧ Stamped m (operate codec w m call).1 row.2 := by
  have sent : ∀ holder (m' : StreamManager) (message : Message), lastId m' = (m.generateId (m.reading w.clock)).2 →
      (((registered m holder).map fun queue => (queue,m.stamped (m.reading w.clock) message)).map Prod.fst).Nodup ∧
      ∀ row ∈ (registered m holder).map fun queue => (queue,m.stamped (m.reading w.clock) message), Held m row.1 ∧ Stamped m m' row.2 := by
    intro holder m' message last
    refine ⟨by simpa [Function.comp_def] using single holder,fun row member => ?_⟩
    obtain ⟨queue,there,rfl⟩ := List.mem_map.mp member
    refine ⟨⟨holder,there⟩,(m.generateId (m.reading w.clock)).2,rfl,(stamp_grows m _).1,?_⟩
    rw [last]
    exact MessageId.before_irrefl _
  cases call with
  | put key message resumable =>
    simp only [operate,StreamManager.put]
    split
    · exact ⟨.nil,by simp⟩
    · cases resumable <;> split
      · exact sent (.listener key) _ message rfl
      · exact sent (.subscriber key) _ message rfl
      · exact sent (.listener key) _ message rfl
      · exact sent (.subscriber key) _ message rfl
  | putThread threadId message =>
    simp only [operate,StreamManager.putThread]
    split
    · exact ⟨.nil,by simp⟩
    · exact sent (.watcher threadId) _ message rfl
  | _ => exact ⟨.nil,by simp [operate]⟩

theorem sent_spared {w : Wake} {row : Nat × Message} (sent : row ∈ (operate codec w m call).2) : ¬ Releases m row.1 call := by
  cases call <;> first | exact id | cases sent

end effects

-- What holds of the queues whatever is in flight.
structure Sound (m : StreamManager) : Prop where
  maintained : Maintained m
  single : ∀ holder, (registered m holder).Nodup
  ordered : ∀ queue < m.contents.next, (m.contents.read queue).Pairwise Newer
  known : ∀ queue < m.contents.next, ∀ message ∈ m.contents.read queue, ∃ id, message.id = some id ∧ ¬ (lastId m).Before id

-- What is in flight is newer than all that has arrived, and two messages in
-- flight to one queue differ.
def Awaited (m : StreamManager) : ManagerTask → Prop
  | .operation _ => True
  | .delivering queue message => queue < m.contents.next ∧ (∃ id, message.id = some id ∧ ¬ (lastId m).Before id) ∧
      ∀ earlier ∈ m.contents.read queue, Newer earlier message

def Distinct (task other : ManagerTask) : Prop :=
  ∀ queue message message', task = .delivering queue message → other = .delivering queue message' → message.id ≠ message'.id

section flow
variable {codec : List UInt8} {w : Wake} {m m' : StreamManager} {call : Operation}

theorem known_later {message : Message} (stamp : ¬ (lastId m').Before (lastId m)) (known : ∃ id, message.id = some id ∧ ¬ (lastId m).Before id) :
    ∃ id, message.id = some id ∧ ¬ (lastId m').Before id := by
  obtain ⟨id,same,bound⟩ := known
  exact ⟨id,same,fun before => bound (by unfold MessageId.Before lastId at *; omega)⟩

theorem newer_stamped {message later : Message} (known : ∃ id, message.id = some id ∧ ¬ (lastId m).Before id)
    (stamped : Stamped m m' later) : Newer message later := by
  obtain ⟨id,same,bound⟩ := known
  obtain ⟨id',same',after,_⟩ := stamped
  exact ⟨id,id',same,same',before_of_known bound after⟩

theorem Effect.sound (effect : Effect codec call m m') (sound : Sound m) (maintained : Maintained m') : Sound m' := by
  have each : ∀ queue < m'.contents.next, (m'.contents.read queue).Pairwise Newer ∧
      ∀ message ∈ m'.contents.read queue, ∃ id, message.id = some id ∧ ¬ (lastId m').Before id := by
    intro queue used
    by_cases before : queue < m.contents.next
    · obtain ⟨added,read,sorted,new,_⟩ := effect.old queue before
      rw [read]
      refine ⟨List.pairwise_append.mpr ⟨sound.ordered queue before,sorted,?_⟩,fun message member => ?_⟩
      · exact fun message member later added_ => newer_stamped (sound.known queue before message member) (new later added_).2
      · rcases List.mem_append.mp member with old | added_
        · exact known_later effect.stamp (sound.known queue before message old)
        · obtain ⟨id,same,_,bound⟩ := (new message added_).2
          exact ⟨id,same,bound⟩
    · rcases effect.fresh queue (Nat.le_of_not_lt before) used with ⟨_,bare⟩ | ⟨last,read,_,known⟩
      · rw [bare]
        exact ⟨.nil,by simp⟩
      · rw [read]
        exact ⟨List.pairwise_singleton _ _,fun message member => List.mem_singleton.mp member ▸ known⟩
  exact ⟨maintained,effect.single sound.single,fun queue used => (each queue used).1,fun queue used => (each queue used).2⟩

theorem releases_held {queue : Nat} (releases : Releases m queue call) : Held m queue := by
  cases call with
  | deleteRun key => exact served_held releases
  | deleteThread threadId =>
    obtain ⟨holder,_,member⟩ := releases
    exact ⟨holder,member⟩
  | close => exact releases
  | _ => cases releases

-- A queue that is not released is added nothing.
theorem Effect.read (effect : Effect codec call m m') {queue : Nat} (used : queue < m.contents.next) (spared : ¬ Releases m queue call) :
    m'.contents.read queue = m.contents.read queue := by
  obtain ⟨added,read,_,_,aimed⟩ := effect.old queue used
  rw [read,show added = [] from not_not.mp (spared ∘ aimed),List.append_nil]

theorem deliver_sound (sound : Sound m) {queue : Nat} {message : Message} (awaited : Awaited m (.delivering queue message)) :
    Sound (m.deliver queue message) := by
  obtain ⟨used,known,newer⟩ := awaited
  have touched : Touched m (m.deliver queue message) [queue] :=
    ⟨⟨_,_,_,rfl⟩,Nat.le_refl _,fun other _ apart => Heap.read_write_other (by simpa using apart)⟩
  refine ⟨touched.maintained sound.maintained,fun holder => touched.registered holder ▸ sound.single holder,fun other below => ?_,
    fun other below => ?_⟩
  · by_cases same : other = queue
    · subst same
      simp only [StreamManager.deliver,Heap.read_write_self]
      refine List.pairwise_append.mpr ⟨sound.ordered other used,List.pairwise_singleton _ _,fun earlier member last added => ?_⟩
      exact List.mem_singleton.mp added ▸ newer earlier member
    · rw [StreamManager.deliver,Heap.read_write_other same]
      exact sound.ordered other below
  · by_cases same : other = queue
    · subst same
      simp only [StreamManager.deliver,Heap.read_write_self]
      intro added member
      rcases List.mem_append.mp member with old | new
      · exact sound.known other used added old
      · exact List.mem_singleton.mp new ▸ known
    · rw [StreamManager.deliver,Heap.read_write_other same]
      exact sound.known other below

theorem distinct_symm (task other : ManagerTask) (distinct : Distinct task other) : Distinct other task :=
  fun queue message message' here there same => distinct queue message' message there here same.symm

-- A step beside a message in flight leaves it newer than what has arrived.
theorem resume_awaits {task other : ManagerTask} (sound : Sound m) (clear : Clear w m task other) (awaited : Awaited m task)
    (beside : Awaited m other) (distinct : Distinct task other) : Awaited (resume codec w m task).1 other := by
  cases other with
  | operation call => trivial
  | delivering queue message =>
    obtain ⟨used,known,newer⟩ := beside
    cases task with
    | operation call =>
      have effect : Effect codec call m _ := operate_effect sound.maintained w call
      refine ⟨Nat.lt_of_lt_of_le used effect.next,known_later effect.stamp known,fun earlier member => newer earlier ?_⟩
      rwa [← effect.read used (clear queue message rfl)]
    | delivering target first =>
      refine ⟨used,known,fun earlier member => ?_⟩
      by_cases same : queue = target
      · subst same
        simp only [resume,StreamManager.deliver,Heap.read_write_self] at member
        rcases List.mem_append.mp member with old | new
        · exact newer earlier old
        · rw [List.mem_singleton.mp new]
          obtain ⟨id,here,_⟩ := awaited.2.1
          obtain ⟨id',there,_⟩ := known
          refine ⟨id,id',here,there,?_⟩
          have unequal : id ≠ id' := fun equal => distinct queue first message rfl rfl (by rw [here,there,equal])
          have unordered : ¬ id'.Before id := fun before => clear queue message rfl rfl ⟨id',id,there,here,before⟩
          obtain ⟨ms,seq⟩ := id
          obtain ⟨ms',seq'⟩ := id'
          simp only [MessageId.Before,ne_eq,MessageId.mk.injEq] at unequal unordered ⊢
          omega
      · rw [resume,StreamManager.deliver,Heap.read_write_other same] at member
        exact newer earlier member

theorem sound_outline (codec : List UInt8) :
    TaskPool.Outline (resume codec) (fun task => ∃ call, task = .operation call) (fun _ _ _ => True) Clear Sound Awaited Distinct := by
  refine ⟨distinct_symm,?_,?_,?_,?_,?_,?_⟩
  · rintro m _ _ ⟨call,rfl⟩
    exact ⟨trivial,fun other queue message message' here => nomatch here⟩
  · intro w m task _ sound awaited
    cases task with
    | operation call => exact (operate_effect sound.maintained w call).sound sound (operate_maintained sound.maintained call)
    | delivering queue message => exact deliver_sound sound awaited
  · intro w m task _ sound awaited spawned member
    cases task with
    | operation call =>
      obtain ⟨⟨queue,message⟩,sent,rfl⟩ := List.mem_map.mp member
      have effect : Effect codec call m _ := operate_effect sound.maintained w call
      obtain ⟨held,stamped⟩ := (operate_flights w sound.single call).2 _ sent
      have used := held_used sound.maintained.owned held
      have ⟨id,same,_,bound⟩ := stamped
      refine ⟨Nat.lt_of_lt_of_le used effect.next,⟨id,same,bound⟩,fun earlier there => ?_⟩
      rw [resume,effect.read used (sent_spared sent)] at there
      exact newer_stamped (sound.known queue used earlier there) stamped
    | delivering queue message => cases member
  · intro w m task _ sound _
    cases task with
    | operation call =>
      have once : ((operate codec w m call).2.map Prod.fst).Nodup := (operate_flights w sound.single call).1
      refine List.pairwise_map.mpr ((List.pairwise_map.mp once).imp ?_)
      rintro ⟨queue,message⟩ ⟨queue',message'⟩ apart place first second here there
      cases here
      cases there
      exact absurd rfl apart
    | delivering queue message => exact .nil
  · intro w m task other _ clear sound mine theirs distinct
    exact resume_awaits sound clear mine theirs distinct
  · intro w m task other _ sound _ theirs _ spawned member queue message message' here there same
    subst there
    cases task with
    | operation call =>
      obtain ⟨⟨queue',message''⟩,sent,rfl⟩ := List.mem_map.mp member
      cases here
      obtain ⟨_,stamped⟩ := (operate_flights w sound.single call).2 _ sent
      obtain ⟨id,known,bound⟩ := theirs.2.1
      obtain ⟨id',stamp,after,_⟩ := stamped
      rw [known,stamp] at same
      cases same
      exact bound after
    | delivering queue message => cases member

end flow

section running
variable {codec : List UInt8} {taken : List (Pool × Event)} {p next : Pool} {event : Event} {queue : Nat}

-- A queue that was let go has its last message, and nothing is on its way.
structure Flow (codec : List UInt8) (taken : List (Pool × Event)) (p : Pool) : Prop where
  holds : TaskPool.Holds Sound Awaited Distinct p
  terminal : ∀ queue, LetGo codec taken p.shared queue → ∃ earlier last, p.shared.contents.read queue = earlier ++ [last] ∧ Terminal codec last
  flying : ∀ queue message, .delivering queue message ∈ p.tasks → ¬ LetGo codec taken p.shared queue
  final : ∀ step ∈ taken, ∀ queue, LetGo codec taken step.1.shared queue →
    LetGo codec taken p.shared queue ∧ p.shared.contents.read queue = step.1.shared.contents.read queue

theorem unremoved {step : Pool × Event} {m : StreamManager} (letGo : LetGo codec (taken ++ [step]) m queue) : LetGo codec taken m queue := by
  obtain ⟨used,unheld,unremoved⟩ := letGo
  refine ⟨used,unheld,fun ⟨old,member,rest⟩ => unremoved ⟨old,List.mem_append_left _ member,rest⟩⟩

-- Once a queue has been let go, a step leaves it alone.
theorem step_final (flow : Flow codec taken p) (step : TaskPool.advance (resume codec) p event = some next)
    (letGo : LetGo codec taken p.shared queue) : queue < next.shared.contents.next ∧ ¬ Held next.shared queue ∧
      next.shared.contents.read queue = p.shared.contents.read queue := by
  have ⟨used,unheld,_⟩ := letGo
  cases event with
  | call task =>
    cases Option.some.inj step
    exact ⟨used,unheld,rfl⟩
  | resume index w =>
    obtain ⟨before,task,after,split,_,rfl⟩ := TaskPool.resume_parts step
    cases task with
    | operation call =>
      have effect : Effect codec call p.shared _ := operate_effect flow.holds.shared.maintained w call
      exact ⟨Nat.lt_of_lt_of_le used effect.next,effect.kept queue used unheld,effect.read used fun releases => unheld (releases_held releases)⟩
    | delivering target message =>
      have apart : queue ≠ target := by
        rintro rfl
        exact flow.flying queue message (by simp [split]) letGo
      exact ⟨used,unheld,Heap.read_write_other apart⟩

-- What an operation lets go has been given a terminal message.
theorem operation_terminal {m : StreamManager} {w : Wake} {call : Operation} (sound : Sound m)
    (gone : ¬ Held (operate codec w m call).1 queue) (used : queue < (operate codec w m call).1.contents.next)
    (fresh : queue < m.contents.next → Held m queue ∧ ¬ Removes queue call) :
    (∃ earlier last, (operate codec w m call).1.contents.read queue = earlier ++ [last] ∧ Terminal codec last) ∧
      (queue < m.contents.next → Releases m queue call) := by
  have effect : Effect codec call m _ := operate_effect sound.maintained w call
  by_cases before : queue < m.contents.next
  · obtain ⟨held,stays⟩ := fresh before
    have grew := (effect.told queue held gone).resolve_left stays
    obtain ⟨added,read,_,new,aimed⟩ := effect.old queue before
    have some_ : added ≠ [] := by
      rintro rfl
      simp [Grew,read] at grew
    refine ⟨⟨m.contents.read queue ++ added.dropLast,added.getLast some_,?_,(new _ (List.getLast_mem some_)).1⟩,fun _ => aimed some_⟩
    rw [read,List.append_assoc,List.dropLast_append_getLast]
  · rcases effect.fresh queue (Nat.le_of_not_lt before) used with ⟨held,_⟩ | ⟨last,read,terminal,_⟩
    · exact absurd held gone
    · exact ⟨⟨[],last,read,terminal⟩,fun known => absurd known before⟩

-- A queue that a step lets go: told, and with nothing on its way.
theorem step_letGo (flow : Flow codec taken p) (orderly : Orderly (p,event)) (step : TaskPool.advance (resume codec) p event = some next)
    (letGo : LetGo codec (taken ++ [(p,event)]) next.shared queue) : LetGo codec taken p.shared queue ∨
      (∃ earlier last, next.shared.contents.read queue = earlier ++ [last] ∧ Terminal codec last) ∧
        ∀ message, .delivering queue message ∉ next.tasks := by
  cases event with
  | call task =>
    cases Option.some.inj step
    exact .inl (unremoved letGo)
  | resume index w =>
    obtain ⟨before,task,after,split,found,rfl⟩ := TaskPool.resume_parts step
    cases task with
    | delivering target message => exact .inl (unremoved letGo)
    | operation call =>
      have sound := flow.holds.shared
      by_cases already : LetGo codec taken p.shared queue
      · exact .inl already
      right
      have fresh : queue < p.shared.contents.next → Held p.shared queue ∧ ¬ Removes queue call := by
        intro used
        have held : Held p.shared queue := not_not.mp fun unheld => already ⟨used,unheld,(unremoved letGo).2.2⟩
        refine ⟨held,fun removes => letGo.2.2 ⟨_,List.mem_append_right _ (List.mem_singleton_self _),call,_,?_,removes,held,letGo.2.1⟩⟩
        exact ⟨index,w,rfl,found,rfl⟩
      obtain ⟨terminal,releases⟩ := operation_terminal sound letGo.2.1 letGo.1 fresh
      refine ⟨terminal,fun message member => ?_⟩
      have flying : ∀ task ∈ before ++ after, task ≠ .delivering queue message := by
        rintro task among rfl
        have there : .delivering queue message ∈ p.tasks := by
          rw [split]
          rcases List.mem_append.mp among with old | later
          · exact List.mem_append_left _ old
          · exact List.mem_append_right _ (List.mem_cons_of_mem _ later)
        have used : queue < p.shared.contents.next := (flow.holds.each _ there).1
        exact ((orderly _ found).2 _ there) queue message rfl (releases used)
      rcases List.mem_append.mp member with first | later
      · rcases List.mem_append.mp first with old | new
        · exact flying _ (List.mem_append_left _ old) rfl
        · obtain ⟨⟨queue',message'⟩,sent,same⟩ := List.mem_map.mp new
          cases same
          obtain ⟨held,_⟩ := (operate_flights w sound.single call).2 _ sent
          exact sent_spared sent (releases (held_used sound.maintained.owned held))
      · exact flying _ (List.mem_append_right _ later) rfl

theorem step_flying (flow : Flow codec taken p) (step : TaskPool.advance (resume codec) p event = some next)
    (orderly : Orderly (p,event)) (letGo : LetGo codec taken p.shared queue) (message : Message) : .delivering queue message ∉ next.tasks := by
  intro member
  cases event with
  | call task =>
    cases Option.some.inj step
    rcases List.mem_append.mp member with old | new
    · exact flow.flying queue message old letGo
    · obtain ⟨call,rfl⟩ := orderly
      simp at new
  | resume index w =>
    obtain ⟨before,task,after,split,_,rfl⟩ := TaskPool.resume_parts step
    have old : .delivering queue message ∉ before ++ task :: after := split ▸ fun there => flow.flying queue message there letGo
    rcases List.mem_append.mp member with first | later
    · rcases List.mem_append.mp first with there | new
      · exact old (List.mem_append_left _ there)
      · cases task with
        | operation call =>
          obtain ⟨⟨_,_⟩,sent,same⟩ := List.mem_map.mp new
          cases same
          exact letGo.2.1 ((operate_flights w flow.holds.shared.single call).2 _ sent).1
        | delivering target first => cases new
    · exact old (List.mem_append_right _ (List.mem_cons_of_mem _ later))

theorem step_flow (flow : Flow codec taken p) (orderly : Orderly (p,event)) (step : TaskPool.advance (resume codec) p event = some next) :
    Flow codec (taken ++ [(p,event)]) next := by
  refine ⟨TaskPool.outline_step (sound_outline codec) flow.holds orderly step,fun queue letGo => ?_,fun queue message member letGo => ?_,
    fun old member queue letGo => ?_⟩
  · rcases step_letGo flow orderly step letGo with already | ⟨terminal,_⟩
    · rw [(step_final flow step already).2.2]
      exact flow.terminal queue already
    · exact terminal
  · rcases step_letGo flow orderly step letGo with already | ⟨_,quiet⟩
    · exact step_flying flow step orderly already message member
    · exact quiet message member
  · have here : LetGo codec taken p.shared queue ∧ p.shared.contents.read queue = old.1.shared.contents.read queue := by
      rcases List.mem_append.mp member with earlier | last
      · exact flow.final old earlier queue (unremoved letGo)
      · rw [List.mem_singleton.mp last] at letGo ⊢
        exact ⟨unremoved letGo,rfl⟩
    obtain ⟨used,unheld,read⟩ := step_final flow step here.1
    exact ⟨⟨used,unheld,letGo.2.2⟩,read.trans here.2⟩

theorem start_flow (codec : List UInt8) : Flow codec [] start := by
  have bare : ∀ holder, registered start.shared holder = [] := fun holder => by cases holder <;> rfl
  have unused : ∀ queue, ¬ queue < start.shared.contents.next := Nat.not_lt_zero
  have sound : Sound start.shared := ⟨start_maintained,fun holder => bare holder ▸ .nil,fun queue used => absurd used (unused queue),fun queue used => absurd used (unused queue)⟩
  have idle : ∀ task, task ∉ start.tasks := fun _ => List.not_mem_nil
  exact ⟨⟨sound,fun task member => absurd member (idle task),.nil⟩,fun queue letGo => absurd letGo.1 (unused queue),fun _ _ member => absurd member (idle _),
    fun _ member => absurd member List.not_mem_nil⟩

theorem runs_flow (runs : TaskPool.Runs (resume codec) start taken p) (orderly : ∀ step ∈ taken, Orderly step) : Flow codec taken p := by
  induction runs with
  | nil => exact start_flow codec
  | step _ step ih =>
    exact step_flow (ih fun old member => orderly old (List.mem_append_left _ member)) (orderly _ (by simp)) step

-- In every run whose deletions meet nothing in flight to what they release.
theorem subscribers_released (runs : TaskPool.Runs (resume codec) start taken p) (orderly : ∀ step ∈ taken, Orderly step) :
    Released codec taken p.shared := by
  have flow := runs_flow runs orderly
  exact ⟨flow.holds.shared.ordered,flow.terminal,fun step member queue letGo => (flow.final step member queue letGo).2⟩

end running

def frame : Message := ⟨.stream "r",[1],none⟩

-- The message arrives before its run is deleted.
def delivered : List Event := turn (.addQueue toyKey) ++ turn (.put toyKey frame false) ++ [.resume 0 toyWake] ++ turn (.deleteRun toyKey)

theorem alone_orderly {p : Pool} {task : ManagerTask} {w : Wake} (alone : p.tasks = [task]) : Orderly (p,.resume 0 w) := by
  intro found here
  obtain rfl : task = found := by simpa [alone] using here
  refine ⟨trivial,fun other member queue message same => ?_⟩
  rw [alone,List.mem_singleton] at member
  rw [← member,same]
  rintro _ ⟨id,id',here,there,before⟩
  rw [here] at there
  cases there
  exact MessageId.before_irrefl _ before

theorem subscribers_released_toy : ∃ taken p, TaskPool.Runs (resume []) start taken p ∧
    (p.shared.contents.read 0).map Message.id = [some ⟨5,0⟩,some ⟨5,1⟩] ∧ Released [] taken p.shared := by
  have runs := TaskPool.perform_runs .nil (rfl : TaskPool.perform (resume []) start delivered = some _)
  refine ⟨_,_,runs,rfl,subscribers_released runs ?_⟩
  refine List.forall_mem_cons.mpr ⟨⟨_,rfl⟩,List.forall_mem_cons.mpr ⟨alone_orderly rfl,?_⟩⟩
  refine List.forall_mem_cons.mpr ⟨⟨_,rfl⟩,List.forall_mem_cons.mpr ⟨alone_orderly rfl,?_⟩⟩
  refine List.forall_mem_cons.mpr ⟨alone_orderly rfl,?_⟩
  refine List.forall_mem_cons.mpr ⟨⟨_,rfl⟩,List.forall_mem_cons.mpr ⟨alone_orderly rfl,?_⟩⟩
  exact fun _ none_ => absurd none_ List.not_mem_nil

-- The run is deleted while the message is in flight.
def overtaken : List Event := turn (.addQueue toyKey) ++ turn (.put toyKey frame false) ++
  [.call (.operation (.deleteRun toyKey)),.resume 1 toyWake,.resume 0 toyWake]

theorem late_message : ∃ taken p, TaskPool.Runs (resume []) start taken p ∧
    (p.shared.contents.read 0).map Message.id = [some ⟨5,1⟩,some ⟨5,0⟩] ∧ ¬ Released [] taken p.shared := by
  have runs := TaskPool.perform_runs .nil (rfl : TaskPool.perform (resume []) start overtaken = some _)
  refine ⟨_,_,runs,rfl,fun released => ?_⟩
  have newer := (List.pairwise_cons.mp (released.ordered 0 (by decide))).1 _ List.mem_cons_self
  obtain ⟨id,id',here,there,before⟩ := newer
  cases here
  cases there
  exact absurd before (by decide)

end InmemRuntime.SubscriberRelease
