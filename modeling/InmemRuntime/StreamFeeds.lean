import InmemRuntime.StreamClients
import InmemRuntime.StreamUpkeep

namespace InmemRuntime.StreamFeeds
open OrderedDict ObjectHeap Streams StreamUpkeep StreamClients

-- What waits in a queue or is on its way there.
def pend (s : Streaming) (queue : Nat) : List Message :=
  s.manager.contents.read queue ++ (s.flying.filter fun row => row.1 = queue).map Prod.snd

def lastId (m : StreamManager) : MessageId := ⟨m.lastMs,m.lastSeq⟩

def Earlier (one other : Option MessageId) : Prop := ∃ id id', one = some id ∧ other = some id' ∧ id.Before id'

def Newer (message other : Message) : Prop := Earlier message.id other.id

-- A message of the log as `publish` made it.
structure Published (codec : Codec) (m : StreamManager) (key : RunKey) (message : Message) : Prop where
  topic : message.topic = .stream key.runId
  data : ∃ event payload, message.data = codec.encode event payload
  id : ∃ id, message.id = some id ∧ ¬ (lastId m).Before id

-- What holds while nobody deletes, listens or closes.
structure Consistent (codec : Codec) (s : Streaming) : Prop where
  maintained : Maintained s.manager
  running : s.manager.stopped = false
  alive : s.manager.pendingRunDeletes = []
  unheard : s.manager.controlQueues = .empty
  flying : ∀ row ∈ s.flying, row.1 < s.manager.contents.next
  ordered : ∀ key, (s.manager.stored key).Pairwise Newer
  published : ∀ key, ∀ message ∈ s.manager.stored key, Published codec s.manager key message
  apart : ∀ key key' message message', message ∈ s.manager.stored key → message' ∈ s.manager.stored key' →
    message.id = message'.id → key = key'
  once : ∀ key, (s.manager.getQueues key).Nodup

-- Between the two, the queues aside are served as before and no log moves.
structure Quiet (codec : Codec) (s s' : Streaming) (aside : List Nat) : Prop where
  consistent : Consistent codec s'
  stored : ∀ key, s'.manager.stored key = s.manager.stored key
  stamp : lastId s'.manager = lastId s.manager
  runs : s'.runs = s.runs
  next : s.manager.contents.next ≤ s'.manager.contents.next
  keeps : ∀ holder queue, queue ∈ registered s.manager holder → queue ∉ aside →
    queue ∈ registered s'.manager holder ∧ pend s' queue = pend s queue

section ids
variable {m : StreamManager}

theorem stamp_grows (m : StreamManager) (now : Int) : (lastId m).Before (m.generateId now).2 ∧
    lastId (m.generateId now).1 = (m.generateId now).2 := by
  refine ⟨?_,rfl⟩
  unfold MessageId.Before lastId StreamManager.generateId
  dsimp only
  split
  · rename_i same
    exact .inr ⟨same.symm,by omega⟩
  · rename_i later
    left
    have bound : m.lastMs ≤ max now m.lastMs := le_max_right _ _
    omega

theorem before_of_known {id id' : MessageId} (known : ¬ (lastId m).Before id) (later : (lastId m).Before id') : id.Before id' := by
  unfold MessageId.Before lastId at *
  omega

end ids

section quiet
variable {codec : Codec} {s s' s'' : Streaming} {key : RunKey} {queue : Nat}

theorem Consistent.accepts (consistent : Consistent codec s) (key : RunKey) : s.manager.refuses key = false := by
  simp [StreamManager.refuses,consistent.running,consistent.alive]

theorem Quiet.refl (consistent : Consistent codec s) : Quiet codec s s [] :=
  ⟨consistent,fun _ => rfl,rfl,rfl,Nat.le_refl _,fun _ _ member _ => ⟨member,rfl⟩⟩

theorem Quiet.trans {aside aside' : List Nat} (first : Quiet codec s s' aside) (second : Quiet codec s' s'' aside') :
    Quiet codec s s'' (aside ++ aside') := by
  refine ⟨second.consistent,fun key => (second.stored key).trans (first.stored key),second.stamp.trans first.stamp,
    second.runs.trans first.runs,Nat.le_trans first.next second.next,?_⟩
  intro holder queue member free
  obtain ⟨before,after⟩ := not_or.mp fun there => free (List.mem_append.mpr there)
  obtain ⟨held,same⟩ := first.keeps holder queue member before
  obtain ⟨held',same'⟩ := second.keeps holder queue held after
  exact ⟨held',same'.trans same⟩

theorem Quiet.weaken {aside aside' : List Nat} (quiet : Quiet codec s s' aside) (within : aside ⊆ aside') :
    Quiet codec s s' aside' :=
  {quiet with keeps := fun holder queue member free => quiet.keeps holder queue member fun there => free (within there)}

-- A step of the manager that leaves logs, marks, ids and what flies alone.
theorem quiet_manager (consistent : Consistent codec s) {m : StreamManager} {aside : List Nat} (maintained : Maintained m)
    (stopped : m.stopped = s.manager.stopped) (pending : m.pendingRunDeletes = s.manager.pendingRunDeletes)
    (heard : m.controlQueues = s.manager.controlQueues) (stores : m.messageStores = s.manager.messageStores)
    (stamp : lastId m = lastId s.manager) (next : s.manager.contents.next ≤ m.contents.next)
    (once : ∀ key, (m.getQueues key).Nodup)
    (keeps : ∀ holder queue, queue ∈ registered s.manager holder → queue ∉ aside →
      queue ∈ registered m holder ∧ m.contents.read queue = s.manager.contents.read queue) :
    Quiet codec s {s with manager := m} aside := by
  have logs : ∀ key, m.stored key = s.manager.stored key := by
    intro key
    unfold StreamManager.stored
    rw [stores]
  refine ⟨⟨maintained,stopped.trans consistent.running,pending.trans consistent.alive,heard.trans consistent.unheard,
    ?_,?_,?_,?_,once⟩,logs,stamp,rfl,next,?_⟩
  · intro row member
    exact Nat.lt_of_lt_of_le (consistent.flying row member) next
  · intro key
    rw [logs]
    exact consistent.ordered key
  · intro key message member
    rw [logs] at member
    obtain ⟨topic,data,id,here,known⟩ := consistent.published key message member
    exact ⟨topic,data,id,here,by rwa [stamp]⟩
  · intro key key' message message' member member'
    rw [logs] at member member'
    exact consistent.apart key key' message message' member member'
  · intro holder queue member free
    obtain ⟨held,same⟩ := keeps holder queue member free
    refine ⟨held,?_⟩
    unfold pend
    rw [same]

-- A queue that was just made.
structure Fresh (codec : Codec) (s s' : Streaming) (holder : Holder) (queue : Nat) : Prop where
  quiet : Quiet codec s s' []
  new : queue = s.manager.contents.next
  grown : queue < s'.manager.contents.next
  held : queue ∈ registered s'.manager holder
  empty : pend s' queue = []

theorem flying_elsewhere (consistent : Consistent codec s) :
    (s.flying.filter fun row => row.1 = s.manager.contents.next) = [] := by
  apply List.filter_eq_nil_iff.mpr
  intro row member
  have bound := consistent.flying row member
  simpa using Nat.ne_of_lt bound

theorem addQueue_parts (consistent : Consistent codec s) (now : Int) (key : RunKey) : ∃ queues,
    s.manager.addQueue now key =
      ({s.manager with contents := (s.manager.contents.alloc []).1, queues},s.manager.contents.next) ∧
    ∀ other, (RunMap.find queues other).getD [] =
      if key = other then s.manager.getQueues key ++ [s.manager.contents.next] else s.manager.getQueues other := by
  refine ⟨s.manager.queues.set key (s.manager.getQueues key ++ [s.manager.contents.next]),?_,?_⟩
  · unfold StreamManager.addQueue
    rw [consistent.accepts key]
    rfl
  · intro other
    rw [RunMap.find_set]
    split
    · rfl
    · rfl

theorem addQueue_fresh (consistent : Consistent codec s) (now : Int) (key : RunKey) :
    Fresh codec s {s with manager := (s.manager.addQueue now key).1} (.subscriber key) (s.manager.addQueue now key).2 := by
  have maintained : Maintained (s.manager.addQueue now key).1 := addQueue_maintained consistent.maintained now
  obtain ⟨queues,shape,listed⟩ := addQueue_parts consistent now key
  rw [shape] at maintained ⊢
  refine ⟨quiet_manager consistent maintained rfl rfl rfl rfl rfl (Nat.le_succ _) ?_ ?_,rfl,Nat.lt_succ_self _,?_,?_⟩
  · intro other
    have single : ((RunMap.find queues other).getD []).Nodup := by
      rw [listed]
      split
      · apply List.Nodup.append (consistent.once key) (List.nodup_singleton _)
        intro queue old new
        rw [List.mem_singleton.mp new] at old
        exact Nat.lt_irrefl _ (consistent.maintained.owned.used (.subscriber key) _ old)
      · exact consistent.once other
    exact single
  · intro holder queue member _
    have old := consistent.maintained.owned.used holder queue member
    refine ⟨?_,Heap.read_alloc_old old⟩
    cases holder with
    | subscriber other =>
      have still : queue ∈ (RunMap.find queues other).getD [] := by
        rw [listed]
        split
        · rename_i same
          subst same
          exact List.mem_append_left _ member
        · exact member
      exact still
    | listener _ => exact member
    | watcher _ => exact member
  · have held : s.manager.contents.next ∈ (RunMap.find queues key).getD [] := by
      rw [listed,if_pos rfl]
      simp
    exact held
  · unfold pend
    dsimp only
    rw [flying_elsewhere consistent,Heap.read_alloc_new]
    rfl

theorem subscribe_fresh (consistent : Consistent codec s) (now : Int) (key : RunKey) :
    Fresh codec s {s with manager := (s.manager.subscribe now key).1} (.subscriber key) (s.manager.subscribe now key).2 := by
  have added := addQueue_fresh consistent now key
  have none_ : (s.manager.addQueue now key).1.getControlQueues key = [] := by
    unfold StreamManager.getControlQueues
    rw [added.quiet.consistent.unheard]
    rfl
  unfold StreamManager.subscribe
  dsimp only
  rw [none_]
  exact added

theorem addThreadStream_fresh (consistent : Consistent codec s) (now : Int) (threadId : String) :
    Fresh codec s {s with manager := (s.manager.addThreadStream now threadId).1} (.watcher threadId)
      (s.manager.addThreadStream now threadId).2 := by
  have maintained : Maintained (s.manager.addThreadStream now threadId).1 :=
    addThreadStream_maintained consistent.maintained now
  have shape : s.manager.addThreadStream now threadId = ({s.manager with
      contents := (s.manager.contents.alloc []).1
      threadStreams := s.manager.threadStreams.insert threadId (s.manager.threadQueues threadId ++ [s.manager.contents.next])},
      s.manager.contents.next) := by
    unfold StreamManager.addThreadStream
    exact if_neg (by simp [consistent.running])
  rw [shape] at maintained ⊢
  refine ⟨quiet_manager consistent maintained rfl rfl rfl rfl rfl (Nat.le_succ _) consistent.once ?_,rfl,
    Nat.lt_succ_self _,?_,?_⟩
  · intro holder queue member _
    have old := consistent.maintained.owned.used holder queue member
    refine ⟨?_,Heap.read_alloc_old old⟩
    cases holder with
    | subscriber _ => exact member
    | listener _ => exact member
    | watcher other =>
      simp only [registered,StreamManager.threadQueues,Dict.get?_insert]
      by_cases same : threadId = other
      · subst same
        rw [if_pos BEq.rfl]
        exact List.mem_append_left _ member
      · rw [if_neg (by simpa using same)]
        exact member
  · simp [registered,StreamManager.threadQueues]
  · unfold pend
    dsimp only
    rw [flying_elsewhere consistent,Heap.read_alloc_new]
    rfl

theorem removeQueue_quiet (consistent : Consistent codec s) (key : RunKey) (queue : Nat) :
    Quiet codec s {s with manager := s.manager.removeQueue key queue} [queue] := by
  have listed := RunMap.find_discard s.manager.queues key
  refine quiet_manager consistent (removeQueue_maintained consistent.maintained) rfl rfl rfl rfl rfl (Nat.le_refl _) ?_ ?_
  · intro other
    simp only [StreamManager.getQueues,StreamManager.removeQueue,listed]
    split
    · exact (consistent.once other).erase _
    · exact consistent.once other
  · intro holder other member free
    exact ⟨erased_stays (removeQueue_erased s.manager key queue) member (by simpa using free),rfl⟩

theorem removeThreadStream_quiet (consistent : Consistent codec s) (threadId : String) (queue : Nat) :
    Quiet codec s {s with manager := s.manager.removeThreadStream threadId queue} [queue] := by
  have maintained : Maintained (s.manager.removeThreadStream threadId queue) :=
    removeThreadStream_maintained consistent.maintained
  have erased := removeThreadStream_erased s.manager threadId queue
  unfold StreamManager.removeThreadStream at maintained erased ⊢
  cases found : s.manager.threadStreams.get? threadId with
  | none => exact (Quiet.refl consistent).weaken (by simp)
  | some queues =>
    simp only [found] at maintained erased ⊢
    split
    · exact (Quiet.refl consistent).weaken (by simp)
    · rename_i here
      rw [if_neg here] at maintained erased
      refine quiet_manager consistent maintained rfl rfl rfl rfl rfl (Nat.le_refl _) consistent.once ?_
      exact fun holder other member free => ⟨erased_stays erased member (by simpa using free),rfl⟩

theorem emptied_quiet (consistent : Consistent codec s) (queue : Nat) (left : List Message) :
    Quiet codec s (emptied s queue left) [queue] := by
  have touched : Touched s.manager {s.manager with contents := s.manager.contents.write queue left} [queue] := by
    refine ⟨⟨_,_,_,rfl⟩,Nat.le_refl _,?_⟩
    intro other _ apart
    exact Heap.read_write_other (by simpa using apart)
  refine quiet_manager consistent (touched.maintained consistent.maintained) rfl rfl rfl rfl rfl (Nat.le_refl _)
    consistent.once ?_
  intro holder other member free
  refine ⟨?_,Heap.read_write_other (by simpa using free)⟩
  rw [touched.registered holder]
  exact member

theorem emptied_pend (s : Streaming) (queue : Nat) (left : List Message) :
    pend (emptied s queue left) queue = left ++ (s.flying.filter fun row => row.1 = queue).map Prod.snd := by
  unfold pend emptied
  rw [Heap.read_write_self]

theorem deliver_quiet (consistent : Consistent codec s) : Quiet codec s (deliverNext s) [] := by
  unfold deliverNext
  cases flies : s.flying with
  | nil => exact Quiet.refl consistent
  | cons row rest =>
    obtain ⟨target,message⟩ := row
    have same : ∀ queue, pend ⟨s.manager.deliver target message,rest,s.runs⟩ queue = pend s queue := by
      intro queue
      unfold pend StreamManager.deliver
      rw [flies]
      by_cases equal : target = queue
      · subst equal
        simp
      · simp [equal,Heap.read_write_other (Ne.symm equal)]
    have touched : Touched s.manager (s.manager.deliver target message) [target] := by
      refine ⟨⟨_,_,_,rfl⟩,Nat.le_refl _,?_⟩
      intro other _ apart
      exact Heap.read_write_other (by simpa using apart)
    refine ⟨⟨touched.maintained consistent.maintained,consistent.running,consistent.alive,consistent.unheard,?_,
      consistent.ordered,?_,consistent.apart,consistent.once⟩,fun _ => rfl,rfl,rfl,Nat.le_refl _,?_⟩
    · intro row member
      exact consistent.flying row (by rw [flies]; exact List.mem_cons_of_mem _ member)
    · intro key message member
      obtain ⟨topic,data,id,here,known⟩ := consistent.published key message member
      exact ⟨topic,data,id,here,known⟩
    · intro holder queue member _
      refine ⟨?_,same queue⟩
      rw [touched.registered holder]
      exact member

-- A message that one run has published: in its log, and on the way to each of
-- its queues.
structure Fed (codec : Codec) (s s' : Streaming) (key : RunKey) (message : Message) : Prop where
  consistent : Consistent codec s'
  stored : ∀ other, s'.manager.stored other = if key = other then s.manager.stored key ++ [message] else s.manager.stored other
  stamp : message.id = some (lastId s'.manager)
  later : (lastId s.manager).Before (lastId s'.manager)
  runs : s'.runs = s.runs
  next : s'.manager.contents.next = s.manager.contents.next
  keeps : ∀ holder queue, queue ∈ registered s.manager holder → queue ∈ registered s'.manager holder ∧
    pend s' queue = pend s queue ++ if holder = .subscriber key then [message] else []

theorem chosen_queue (message : Message) {queues : List Nat} (once : queues.Nodup) (queue : Nat) :
    (((queues.map fun q => (q,message)).filter fun row => row.1 = queue).map Prod.snd) =
      if queue ∈ queues then [message] else [] := by
  induction queues with
  | nil => rfl
  | cons first rest ih =>
    obtain ⟨absent,tail⟩ := List.nodup_cons.mp once
    have later := ih tail
    by_cases same : first = queue
    · subst same
      rw [if_neg absent] at later
      simp only [List.map_cons,List.filter_cons,decide_true,↓reduceIte,List.mem_cons,true_or]
      rw [later]
    · have other : ¬ queue = first := fun equal => same equal.symm
      simp only [List.map_cons,List.filter_cons,same,decide_false,Bool.false_eq_true,↓reduceIte,List.mem_cons,other,false_or]
      exact later

theorem newer_of_later (consistent : Consistent codec s) {message : Message} {id : MessageId} (stamped : message.id = some id)
    (later : (lastId s.manager).Before id) (old : Message) (member : old ∈ s.manager.stored key) : Newer old message := by
  obtain ⟨_,_,id',here,known⟩ := consistent.published key old member
  exact ⟨id',id,here,stamped,before_of_known known later⟩

-- The logs when one of them has got a further message.
def Appends (s : Streaming) (key : RunKey) (message : Message) (logs : RunKey → List Message) : Prop :=
  ∀ other, logs other = if key = other then s.manager.stored key ++ [message] else s.manager.stored other

section appending
variable {message : Message} {logs : RunKey → List Message} {id : MessageId}

theorem appends_parts (appends : Appends s key message logs) {other : RunKey} {old : Message} (member : old ∈ logs other) :
    old ∈ s.manager.stored other ∨ key = other ∧ old = message := by
  rw [appends] at member
  split at member
  · rename_i same
    subst same
    rcases List.mem_append.mp member with before | new
    · exact .inl before
    · exact .inr ⟨rfl,List.mem_singleton.mp new⟩
  · exact .inl member

theorem appends_ordered (consistent : Consistent codec s) (appends : Appends s key message logs) (stamped : message.id = some id)
    (later : (lastId s.manager).Before id) (other : RunKey) : (logs other).Pairwise Newer := by
  rw [appends]
  split
  · refine List.pairwise_append.mpr ⟨consistent.ordered key,List.pairwise_singleton _ _,?_⟩
    intro old member new last_
    rw [List.mem_singleton.mp last_]
    exact newer_of_later consistent stamped later old member
  · exact consistent.ordered other

-- No message has the id that is given last.
theorem appends_apart (consistent : Consistent codec s) (appends : Appends s key message logs) (stamped : message.id = some id)
    (later : (lastId s.manager).Before id) (one two : RunKey) (old old' : Message) (member : old ∈ logs one) (member' : old' ∈ logs two)
    (same : old.id = old'.id) : one = two := by
  have fresh : ∀ other, ∀ old ∈ s.manager.stored other, old.id ≠ message.id := by
    intro other old member same
    obtain ⟨id,id',here,there,before⟩ := newer_of_later consistent stamped later old member
    rw [same,there] at here
    cases here
    exact MessageId.before_irrefl _ before
  rcases appends_parts appends member with before | ⟨rfl,rfl⟩
  · rcases appends_parts appends member' with before' | ⟨rfl,rfl⟩
    · exact consistent.apart one two old old' before before' same
    · exact absurd same (fresh one old before)
  · rcases appends_parts appends member' with before' | ⟨rfl,rfl⟩
    · exact absurd same.symm (fresh two old' before')
    · rfl

end appending

theorem publish_shape (consistent : Consistent codec s) (now : Int) (key : RunKey) (event : String) (payload : List UInt8)
    {message : Message} (made : s.manager.stamped now ⟨.stream key.runId,codec.encode event payload,none⟩ = message) :
    ∃ stores, publish codec now s key event payload true =
      ⟨{(s.manager.generateId now).1 with messageStores := stores},
        s.flying ++ (s.manager.getQueues key).map (fun queue => (queue,message)),s.runs⟩ ∧
      Appends s key message fun other => (RunMap.find stores other).getD [] := by
  have topic : message.topic = .stream key.runId := by rw [← made]; rfl
  refine ⟨s.manager.messageStores.set key (s.manager.stored key ++ [message]),?_,fun other => ?_⟩
  · unfold publish StreamManager.put
    rw [consistent.accepts key,made]
    simp only [Bool.false_eq_true,↓reduceIte,topic,Topic.isControl]
    rfl
  · dsimp only
    rw [RunMap.find_set]
    split
    · rfl
    · rfl

theorem publish_fed (consistent : Consistent codec s) (now : Int) (key : RunKey) (event : String) (payload : List UInt8) :
    Fed codec s (publish codec now s key event payload true) key
      (s.manager.stamped now ⟨.stream key.runId,codec.encode event payload,none⟩) := by
  generalize made : s.manager.stamped now ⟨.stream key.runId,codec.encode event payload,none⟩ = message
  obtain ⟨later,last⟩ := stamp_grows s.manager now
  have stamped : message.id = some (s.manager.generateId now).2 := by rw [← made]; rfl
  have topic : message.topic = .stream key.runId := by rw [← made]; rfl
  have data : message.data = codec.encode event payload := by rw [← made]; rfl
  have maintained : Maintained (publish codec now s key event payload true).manager :=
    put_maintained consistent.maintained now _ true
  obtain ⟨stores,shape,appends⟩ := publish_shape consistent now key event payload made
  rw [shape] at maintained ⊢
  refine ⟨⟨maintained,consistent.running,consistent.alive,consistent.unheard,?_,appends_ordered consistent appends stamped later,?_,
    appends_apart consistent appends stamped later,consistent.once⟩,appends,stamped,later,rfl,rfl,?_⟩
  · intro row member
    rcases List.mem_append.mp member with old | new
    · exact consistent.flying row old
    · obtain ⟨queue,chosen,rfl⟩ := List.mem_map.mp new
      exact consistent.maintained.owned.used (.subscriber key) queue chosen
  · intro other old member
    rcases appends_parts appends member with before | ⟨rfl,rfl⟩
    · obtain ⟨topic,data,id,here,known⟩ := consistent.published other old before
      refine ⟨topic,data,id,here,?_⟩
      have bound := before_of_known known later
      intro beyond
      exact MessageId.before_irrefl _ (bound.trans beyond)
    · exact ⟨topic,⟨event,payload,data⟩,_,stamped,MessageId.before_irrefl _⟩
  · intro holder queue member
    have still : queue ∈ registered {(s.manager.generateId now).1 with messageStores := stores} holder := by
      cases holder <;> exact member
    refine ⟨still,?_⟩
    unfold pend
    dsimp only
    rw [List.filter_append,List.map_append,chosen_queue message (consistent.once key),← List.append_assoc]
    congr 1
    by_cases mine : queue ∈ s.manager.getQueues key
    · have same := consistent.maintained.owned.apart holder (.subscriber key) queue member mine
      rw [if_pos mine,if_pos same]
    · have other : holder ≠ .subscriber key := by
        intro same
        subst same
        exact mine member
      rw [if_neg mine,if_neg other]

end quiet

end InmemRuntime.StreamFeeds
