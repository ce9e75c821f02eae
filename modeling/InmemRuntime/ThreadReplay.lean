import InmemRuntime.ClientQueues

namespace InmemRuntime.ThreadReplay
open OrderedDict ObjectHeap Streams StreamUpkeep StreamClients StreamFeeds ClientQueues

section client
variable (codec : Codec) (s : Streaming) (c : ThreadClient)

def logOf (runId : String) : List Message := s.manager.stored ⟨some c.threadId,runId⟩

def ids : List (Option MessageId) := c.yielded.map fun row => row.1.id

-- A message that the client is to get: after its cursor, of its modes, and no
-- control message.
def Owed (message : Message) : Prop := (c.cursor.map fun cursor => cursor.precedes message) = some true ∧
  ∃ event payload, codec.decode message.data = some (event,payload) ∧ event ≠ "control" ∧ c.keeps codec event payload = true

def Given (runId : String) (message : Message) : Prop := ∃ event payload, codec.decode message.data = some (event,payload) ∧
  (⟨event,payload,message.id⟩,runId) ∈ c.yielded

-- The run's done message has reached the client, as metadata.
def Told (runId : String) (done : Message) : Prop := codec.decode done.data = some ("control",bytes "done") ∧
  (⟨"metadata",runDone runId,done.id⟩,runId) ∈ c.yielded

-- Where a message is that the client is to get, unless it came after the end.
def Accounted (left : List (Message × String)) (runId : String) (message : Message) : Prop :=
  Given codec c runId message ∨ (message,runId) ∈ left ∨ (∃ queue, (runId,queue) ∈ c.created ∧ message ∈ pend s queue) ∨
    ∃ done ∈ logOf s c runId, Told codec c runId done ∧ Newer done message

def Closed (row : String × Nat) : Prop := row ∈ c.created ∧ ∃ done ∈ logOf s c row.1, Told codec c row.1 done ∧
  ∀ message ∈ pend s row.2, Newer done message

-- The client past its collecting of the log: `left` is still to be replayed,
-- and for `closing` the done message was the last one read.
structure Caught (left : List (Message × String)) (closing : List (String × Nat)) : Prop where
  modes : c.streamModes.contains "run_modes" = true
  told : ∀ row ∈ c.yielded, ∃ message ∈ logOf s c row.2, message.id = row.1.id
  once : (ids c).Nodup
  kept : ∀ row ∈ c.created, c.streamQueue ≠ some row.2 → pend s row.2 <:+ logOf s c row.1
  bare : ∀ row ∈ c.created, c.streamQueue = some row.2 → pend s row.2 = []
  unread : ∀ row ∈ c.created, ∀ message ∈ pend s row.2, message.id ∉ ids c
  single : (c.created.map Prod.fst).Nodup
  seen : ∀ row ∈ c.created, row.1 ∈ c.seen
  closed : ∀ row ∈ closing, Closed codec s c row
  account : ∀ runId, ∀ message ∈ logOf s c runId, Owed codec c message → Accounted codec s c left runId message

end client

section caught
variable {codec : Codec} {s : Streaming} {c : ThreadClient} {left : List (Message × String)} {closing : List (String × Nat)}

theorem Caught.phased (caught : Caught codec s c left closing) (phase : ThreadPhase) :
    Caught codec s {c with phase} left closing :=
  ⟨caught.modes,caught.told,caught.once,caught.kept,caught.bare,caught.unread,caught.single,caught.seen,caught.closed,caught.account⟩

theorem Caught.logged (caught : Caught codec s c left closing) {row : String × Nat} (mine : row ∈ c.created) {message : Message}
    (waits : message ∈ pend s row.2) : message ∈ logOf s c row.1 := by
  by_cases stream : c.streamQueue = some row.2
  · rw [caught.bare row mine stream] at waits
    cases waits
  · exact (caught.kept row mine stream).subset waits

theorem Caught.closes (caught : Caught codec s c left closing) (row : String × Nat) (closed : Closed codec s c row) :
    Caught codec s c left (closing ++ [row]) := by
  refine {caught with closed := ?_}
  intro other member
  rcases List.mem_append.mp member with old | new
  · exact caught.closed other old
  · rw [List.mem_singleton.mp new]
    exact closed

theorem newer_apart {message other : Message} (newer : Newer message other) : message.id ≠ other.id := by
  intro same
  obtain ⟨id,id',here,there,before⟩ := newer
  rw [same,there] at here
  cases here
  exact MessageId.before_irrefl _ before

theorem pend_emptied {queue other : Nat} (apart : other ≠ queue) (s : Streaming) (rest : List Message) :
    pend (emptied s queue rest) other = pend s other := by
  unfold pend emptied
  rw [Heap.read_write_other apart]

theorem emptied_whole {queue : Nat} {gone rest : List Message} (read : s.manager.contents.read queue = gone ++ rest) :
    pend s queue = gone ++ pend (emptied s queue rest) queue := by
  rw [emptied_pend]
  unfold pend
  rw [read,List.append_assoc]

theorem emptied_within {queue : Nat} {gone rest : List Message} (read : s.manager.contents.read queue = gone ++ rest) (other : Nat) :
    pend (emptied s queue rest) other <:+ pend s other := by
  by_cases same : other = queue
  · subst same
    exact ⟨gone,(emptied_whole read).symm⟩
  · exact ⟨[],by rw [List.nil_append,pend_emptied same]⟩

-- What a drain took off one queue, and what it showed of it.
structure Takes (codec : Codec) (s : Streaming) (c : ThreadClient) (row : String × Nat) (gone rest : List Message)
    (shown : Option (Frame × String)) : Prop where
  mine : row ∈ c.created
  read : s.manager.contents.read row.2 = gone ++ rest
  genuine : ∀ told, shown = some told → told.2 = row.1 ∧ ∃ message ∈ gone, message.id = told.1.id
  complete : ∀ message ∈ gone, Owed codec c message → ∃ event payload,
    codec.decode message.data = some (event,payload) ∧ shown = some (⟨event,payload,message.id⟩,row.1)

section taking
variable {row : String × Nat} {gone rest : List Message} {shown : Option (Frame × String)}

theorem Takes.waited (takes : Takes codec s c row gone rest shown) {message : Message} (took : message ∈ gone) :
    message ∈ pend s row.2 := by
  rw [emptied_whole takes.read]
  exact List.mem_append_left _ took

theorem takes_silent (mine : row ∈ c.created) (silent : ∀ message ∈ s.manager.contents.read row.2, ¬ Owed codec c message) :
    Takes codec s c row (s.manager.contents.read row.2) [] none := by
  refine ⟨mine,(List.append_nil _).symm,fun told shown => ?_,fun message member owed => absurd owed (silent message member)⟩
  cases shown

-- The last message that was taken is the one shown.
theorem takes_last {skipped left : List Message} {message : Message} {frame : Frame} (mine : row ∈ c.created)
    (read : s.manager.contents.read row.2 = skipped ++ message :: left) (silent : ∀ other ∈ skipped, ¬ Owed codec c other)
    (id : message.id = frame.id) (owes : Owed codec c message → ∃ event payload,
      codec.decode message.data = some (event,payload) ∧ frame = ⟨event,payload,message.id⟩) :
    Takes codec s c row (skipped ++ [message]) left (some (frame,row.1)) := by
  refine ⟨mine,by simpa using read,fun told same => ?_,fun other member owed => ?_⟩
  · cases same
    exact ⟨rfl,message,by simp,id⟩
  · rcases List.mem_append.mp member with before | last
    · exact absurd owed (silent other before)
    · obtain rfl := List.mem_singleton.mp last
      obtain ⟨event,payload,decoded,rfl⟩ := owes owed
      exact ⟨event,payload,decoded,rfl⟩

-- What still waits was not shown just now: it is another message of this run,
-- or one of another run.
theorem emptied_unread (consistent : Consistent codec s) (caught : Caught codec s c [] closing) (takes : Takes codec s c row gone rest shown)
    {other : String × Nat} (member : other ∈ c.created) {message : Message} (waits : message ∈ pend (emptied s row.2 rest) other.2) :
    message.id ∉ ids c ++ shown.toList.map fun told => told.1.id := by
  have old := (emptied_within takes.read other.2).subset waits
  intro there
  rcases List.mem_append.mp there with before | new
  · exact caught.unread other member message old before
  · obtain ⟨told,given,same_⟩ := List.mem_map.mp new
    obtain ⟨_,shown_,took,id⟩ := takes.genuine told (Option.mem_toList.mp given)
    have logged := caught.logged member old
    have logged_ := caught.logged takes.mine (takes.waited took)
    have key := consistent.apart _ _ shown_ message logged_ logged (id.trans same_)
    have equal : other = row :=
      List.inj_on_of_nodup_map caught.single member takes.mine (RunKey.mk.inj key).2.symm
    subst equal
    have stream : c.streamQueue ≠ some other.2 := by
      intro stream
      rw [caught.bare other member stream] at old
      cases old
    have sorted := (consistent.ordered ⟨some c.threadId,other.1⟩).sublist (caught.kept other member stream).sublist
    rw [emptied_whole takes.read] at sorted
    exact newer_apart ((List.pairwise_append.mp sorted).2.2 shown_ took message waits) (id.trans same_)

-- What is owed was shown before or is shown now, or it still waits.
theorem emptied_account (apart : (c.created.map Prod.snd).Nodup) (caught : Caught codec s c [] closing)
    (takes : Takes codec s c row gone rest shown) {runId : String} {message : Message} (logged : message ∈ logOf s c runId)
    (owed : Owed codec c message) :
    Accounted codec (emptied s row.2 rest) {c with yielded := c.yielded ++ shown.toList} [] runId message := by
  have more : ∀ {told}, told ∈ c.yielded → told ∈ c.yielded ++ shown.toList := fun member => List.mem_append_left _ member
  rcases caught.account runId message logged owed with ⟨event,payload,decoded,given⟩ | replayed | ⟨queue,created,waits⟩ | ended
  · exact .inl ⟨event,payload,decoded,more given⟩
  · cases replayed
  · by_cases equal : queue = row.2
    · have same : (runId,queue) = row := List.inj_on_of_nodup_map apart created takes.mine equal
      subst same
      rw [emptied_whole takes.read] at waits
      rcases List.mem_append.mp waits with took | still
      · obtain ⟨event,payload,decoded,shows⟩ := takes.complete message took owed
        refine .inl ⟨event,payload,decoded,List.mem_append_right _ ?_⟩
        rw [shows]
        exact List.mem_singleton.mpr rfl
      · exact .inr (.inr (.inl ⟨queue,created,still⟩))
    · refine .inr (.inr (.inl ⟨queue,created,?_⟩))
      rw [pend_emptied equal]
      exact waits
  · obtain ⟨done,here,⟨control,told⟩,newer⟩ := ended
    exact .inr (.inr (.inr ⟨done,here,⟨control,more told⟩,newer⟩))

theorem emptied_caught (consistent : Consistent codec s) (apart : (c.created.map Prod.snd).Nodup)
    (caught : Caught codec s c [] closing) (takes : Takes codec s c row gone rest shown) :
    Caught codec (emptied s row.2 rest) {c with yielded := c.yielded ++ shown.toList} [] closing := by
  have within : ∀ other : Nat, pend (emptied s row.2 rest) other <:+ pend s other := emptied_within takes.read
  have ids' : ids {c with yielded := c.yielded ++ shown.toList} = ids c ++ shown.toList.map fun told => told.1.id := by
    simp [ids]
  refine ⟨caught.modes,?_,?_,?_,?_,?_,caught.single,caught.seen,?_,fun _ _ => emptied_account apart caught takes⟩
  · intro told member
    rcases List.mem_append.mp member with old | new
    · exact caught.told told old
    · obtain ⟨runId,message,took,id⟩ := takes.genuine told (Option.mem_toList.mp new)
      refine ⟨message,?_,id⟩
      rw [runId]
      exact caught.logged takes.mine (takes.waited took)
  · rw [ids']
    apply List.Nodup.append caught.once
    · cases shown <;> simp
    · intro id old new
      obtain ⟨told,member,rfl⟩ := List.mem_map.mp new
      obtain ⟨_,message,took,id⟩ := takes.genuine told (Option.mem_toList.mp member)
      rw [← id] at old
      exact caught.unread row takes.mine message (takes.waited took) old
  · intro other member plain
    exact (within other.2).trans (caught.kept other member plain)
  · intro other member stream
    have none_ := within other.2
    rw [caught.bare other member stream] at none_
    exact List.suffix_nil.mp none_
  · intro other member message waits
    rw [ids']
    exact emptied_unread consistent caught takes member waits
  · intro other member
    obtain ⟨listed,done,logged,⟨control,told⟩,newer⟩ := caught.closed other member
    refine ⟨listed,done,logged,⟨control,List.mem_append_left _ told⟩,?_⟩
    exact fun message waits => newer message ((within other.2).subset waits)

end taking

end caught

section drain
variable {codec : Codec} {s : Streaming} {c : ThreadClient} {closing : List (String × Nat)}

theorem keeps_done (modes : c.streamModes.contains "run_modes" = true) (payload : List UInt8) :
    c.keeps codec "metadata" payload = true := by
  unfold ThreadClient.keeps
  rw [modes]
  rfl

-- A drain reads up to the first message that it shows.
theorem drain_parts (codec : Codec) (s : Streaming) (modes : c.streamModes.contains "run_modes" = true) (runId : String)
    (messages : List Message)
    (published : ∀ message ∈ messages, Published codec s.manager ⟨some c.threadId,runId⟩ message) :
    match c.drain codec messages with
    | .empty => ∀ message ∈ messages, ¬ Owed codec c message
    | .yields frame rest => ∃ skipped message event payload, messages = skipped ++ message :: rest ∧
        (∀ other ∈ skipped, ¬ Owed codec c other) ∧ codec.decode message.data = some (event,payload) ∧
        frame = ⟨event,payload,message.id⟩
    | .finishes told rest => ∃ skipped done, messages = skipped ++ done :: rest ∧ (∀ other ∈ skipped, ¬ Owed codec c other) ∧
        codec.decode done.data = some ("control",bytes "done") ∧ told = some (⟨"metadata",runDone runId,done.id⟩,runId)
    | .closes _ => False := by
  induction messages with
  | nil => exact fun _ member => (List.not_mem_nil member).elim
  | cons message rest ih =>
    obtain ⟨topic,⟨event,payload,data⟩,_⟩ := published message List.mem_cons_self
    have decoded : codec.decode message.data = some (event,payload) := by rw [data,codec.decodes]
    have later := ih fun other member => published other (List.mem_cons_of_mem _ member)
    unfold ThreadClient.drain
    rw [topic,if_neg (by simp),decoded]
    dsimp only
    by_cases done : event = "control" ∧ payload = bytes "done"
    · rw [if_pos done,keeps_done modes]
      refine ⟨[],message,rfl,fun _ none_ => (List.not_mem_nil none_).elim,?_,rfl⟩
      rw [decoded,done.1,done.2]
    · rw [if_neg done]
      by_cases keeps : c.keeps codec event payload = true
      · rw [if_pos keeps]
        exact ⟨[],message,event,payload,rfl,fun _ none_ => (List.not_mem_nil none_).elim,decoded,rfl⟩
      · rw [if_neg keeps]
        have silent : ¬ Owed codec c message := by
          intro ⟨_,event',payload',decoded',_,kept⟩
          rw [decoded] at decoded'
          cases decoded'
          exact keeps kept
        have grown : ∀ {skipped : List Message}, (∀ other ∈ skipped, ¬ Owed codec c other) →
            ∀ other ∈ message :: skipped, ¬ Owed codec c other := by
          intro skipped quiet other member
          rcases List.mem_cons.mp member with rfl | tail
          · exact silent
          · exact quiet other tail
        split at later
        · exact grown later
        · obtain ⟨skipped,shown,event',payload',rfl,quiet,here,same⟩ := later
          exact ⟨message :: skipped,shown,event',payload',rfl,grown quiet,here,same⟩
        · obtain ⟨skipped,done_,rfl,quiet,here,same⟩ := later
          exact ⟨message :: skipped,done_,rfl,grown quiet,here,same⟩
        · exact later

-- The phases past the replay.
def Live (codec : Codec) (s : Streaming) (c : ThreadClient) : Prop :=
  match c.phase with
  | .polling => Caught codec s c [] []
  | .draining _ retired => Caught codec s c [] retired
  | .finishing [] retired => Caught codec s c [] retired
  | .finishing (row :: _) retired => Caught codec s c [] (retired ++ [row])
  | _ => False

theorem removed_same (s : Streaming) (threadId : String) (rows : List (String × Nat)) :
    let m := rows.foldl (fun m row => m.removeQueue ⟨some threadId,row.1⟩ row.2) s.manager
    m.contents = s.manager.contents ∧ m.messageStores = s.manager.messageStores := by
  generalize s.manager = m
  induction rows generalizing m with
  | nil => exact ⟨rfl,rfl⟩
  | cons row rest ih => exact ih _

-- The end of a pass: the retired queues go, with nothing that is owed.
theorem retired_caught (caught : Caught codec s c [] closing) : Caught codec (c.goThrough codec s closing []).1
    (c.goThrough codec s closing []).2 [] [] := by
  unfold ThreadClient.goThrough
  obtain ⟨contents,stores⟩ := removed_same s c.threadId closing
  generalize removed : closing.foldl (fun m row => m.removeQueue ⟨some c.threadId,row.1⟩ row.2) s.manager = m at contents stores
  have pends : ∀ queue, pend {s with manager := m} queue = pend s queue := by
    intro queue
    unfold pend
    rw [contents]
  have logs : ∀ runId, s.manager.stored ⟨some c.threadId,runId⟩ = m.stored ⟨some c.threadId,runId⟩ := by
    intro runId
    unfold StreamManager.stored
    rw [stores]
  have fewer : (closing.foldl List.erase c.created).Sublist c.created := by
    rw [← List.diff_eq_foldl]
    exact List.diff_sublist _ _
  dsimp only
  have told := caught.told
  have kept := caught.kept
  have account := caught.account
  simp only [logOf,logs] at told kept account
  refine ⟨caught.modes,told,caught.once,?_,?_,?_,caught.single.sublist (fewer.map _),?_,?_,?_⟩
  · intro row member plain
    rw [pends]
    exact kept row (fewer.subset member) plain
  · intro row member stream
    rw [pends]
    exact caught.bare row (fewer.subset member) stream
  · intro row member message waits
    rw [pends] at waits
    exact caught.unread row (fewer.subset member) message waits
  · exact fun row member => caught.seen row (fewer.subset member)
  · exact fun row none_ => (List.not_mem_nil none_).elim
  · intro runId message logged owed
    rcases account runId message logged owed with given | replayed | ⟨queue,created,waits⟩ | ⟨done,here,tells,newer⟩
    · exact .inl given
    · exact .inr (.inl replayed)
    · by_cases gone : (runId,queue) ∈ closing
      · obtain ⟨_,done,here,tells,newer⟩ := caught.closed (runId,queue) gone
        refine .inr (.inr (.inr ⟨done,?_,tells,newer message waits⟩))
        unfold logOf at here ⊢
        rwa [logs] at here
      · refine .inr (.inr (.inl ⟨queue,?_,?_⟩))
        · have single := List.Nodup.of_map _ caught.single
          dsimp only
          rw [← List.diff_eq_foldl]
          exact single.mem_sdiff_iff.mpr ⟨created,gone⟩
        · rw [pends]
          exact waits
    · refine .inr (.inr (.inr ⟨done,?_,tells,newer⟩))
      unfold logOf at here ⊢
      rwa [logs] at here

theorem goThrough_live (consistent : Consistent codec s) (apart : (c.created.map Prod.snd).Nodup)
    (pass retired : List (String × Nat)) (listed : ∀ row ∈ pass, row ∈ c.created) (caught : Caught codec s c [] retired) :
    Live codec (c.goThrough codec s retired pass).1 (c.goThrough codec s retired pass).2 := by
  induction pass generalizing s with
  | nil => exact retired_caught caught
  | cons row rest ih =>
    have mine := listed row List.mem_cons_self
    have front : s.manager.contents.read row.2 <+: pend s row.2 := List.prefix_append _ _
    have parts := drain_parts codec s caught.modes row.1 (s.manager.contents.read row.2)
      fun message member => consistent.published _ message (caught.logged mine (front.subset member))
    unfold ThreadClient.goThrough
    split
    · rename_i drained
      rw [drained] at parts
      have next := emptied_caught consistent apart caught (takes_silent mine parts)
      simp only [Option.toList_none,List.append_nil] at next
      exact ih (emptied_quiet consistent row.2 []).consistent (fun other member => listed other (List.mem_cons_of_mem _ member)) next
    · rename_i frame left drained
      rw [drained] at parts
      obtain ⟨skipped,message,event,payload,read,quiet,decoded,rfl⟩ := parts
      have takes : Takes codec s c row (skipped ++ [message]) left (some (⟨event,payload,message.id⟩,row.1)) :=
        takes_last mine read quiet rfl fun _ => ⟨event,payload,decoded,rfl⟩
      exact (emptied_caught consistent apart caught takes).phased _
    · rename_i told left drained
      rw [drained] at parts
      obtain ⟨skipped,done,read,quiet,control,same⟩ := parts
      cases same
      have takes : Takes codec s c row (skipped ++ [done]) left (some (⟨"metadata",runDone row.1,done.id⟩,row.1)) := by
        refine takes_last mine read quiet rfl fun owed => ?_
        obtain ⟨_,event,payload,decoded,other_,_⟩ := owed
        rw [control] at decoded
        cases decoded
        exact absurd rfl other_
      have next := emptied_caught consistent apart caught takes
      refine (next.closes row ⟨mine,done,?_,⟨control,by simp⟩,?_⟩).phased _
      · apply caught.logged mine
        apply front.subset
        rw [read]
        simp
      · intro message waits
        have stream : c.streamQueue ≠ some row.2 := by
          intro stream
          have none_ := caught.bare row mine stream
          rw [none_] at front
          rw [List.prefix_nil.mp front] at read
          simp at read
        have sorted := (consistent.ordered ⟨some c.threadId,row.1⟩).sublist (caught.kept row mine stream).sublist
        rw [emptied_pend] at waits
        unfold pend at sorted
        rw [read,List.append_assoc,List.cons_append] at sorted
        exact (List.pairwise_cons.mp (List.pairwise_append.mp sorted).2.1).1 message waits
    · rename_i left drained
      rw [drained] at parts
      obtain ⟨_,_,_,_,_,same⟩ := parts
      cases same
    · rename_i left drained
      rw [drained] at parts
      exact parts.elim

end drain

section frames
variable {codec : Codec} {s s' : Streaming} {c : ThreadClient} {left : List (Message × String)} {closing : List (String × Nat)}

-- A step that leaves the client's queues as they were.
theorem caught_quiet {aside : List Nat} (quiet : Quiet codec s s' aside) (live : alive c.phase = true) (owns : Owns s (.thread c))
    (free : ∀ queue ∈ queuesOf (.thread c), queue ∉ aside) (caught : Caught codec s c left closing) :
    Caught codec s' c left closing := by
  have logs : ∀ runId, logOf s' c runId = logOf s c runId := fun runId => quiet.stored _
  have pends : ∀ row ∈ c.created, pend s' row.2 = pend s row.2 := by
    intro row member
    apply (quiet.keeps (place c row) row.2 (owned_row owns live member) (free row.2 ?_)).2
    rw [queues_thread live]
    exact List.mem_map.mpr ⟨row,member,rfl⟩
  refine ⟨caught.modes,?_,caught.once,?_,?_,?_,caught.single,caught.seen,?_,?_⟩
  · intro row member
    rw [logs]
    exact caught.told row member
  · intro row member plain
    rw [pends row member,logs]
    exact caught.kept row member plain
  · intro row member stream
    rw [pends row member]
    exact caught.bare row member stream
  · intro row member message waits
    rw [pends row member] at waits
    exact caught.unread row member message waits
  · intro row member
    obtain ⟨listed,done,logged,told,newer⟩ := caught.closed row member
    refine ⟨listed,done,?_,told,?_⟩
    · rw [logs]
      exact logged
    · intro message waits
      rw [pends row listed] at waits
      exact newer message waits
  · intro runId message logged owed
    rw [logs] at logged
    rcases caught.account runId message logged owed with given | replayed | ⟨queue,created,waits⟩ | ⟨done,here,rest⟩
    · exact .inl given
    · exact .inr (.inl replayed)
    · refine .inr (.inr (.inl ⟨queue,created,?_⟩))
      rw [pends (runId,queue) created]
      exact waits
    · refine .inr (.inr (.inr ⟨done,?_,rest⟩))
      rw [logs]
      exact here

-- A publication that the client is to get comes to a queue that it has, or
-- after the run's done message.
def Heard (codec : Codec) (s : Streaming) (c : ThreadClient) (runId : String) : Prop :=
  (∃ queue, (runId,queue) ∈ c.created ∧ c.streamQueue ≠ some queue) ∨ ∃ done ∈ logOf s c runId, Told codec c runId done

section feeding
variable {key : RunKey} {message : Message}

theorem fed_grown (fed : Fed codec s s' key message) {runId : String} {old : Message} (member : old ∈ logOf s c runId) :
    old ∈ logOf s' c runId := by
  unfold logOf at member ⊢
  rw [fed.stored]
  split
  · rename_i same
    rw [← same] at member
    exact List.mem_append_left _ member
  · exact member

theorem fed_pends (fed : Fed codec s s' key message) (live : alive c.phase = true) (owns : Owns s (.thread c)) {row : String × Nat}
    (member : row ∈ c.created) : pend s' row.2 = pend s row.2 ++ if place c row = .subscriber key then [message] else [] :=
  (fed.keeps (place c row) row.2 (owned_row owns live member)).2

theorem fed_waiting (fed : Fed codec s s' key message) (live : alive c.phase = true) (owns : Owns s (.thread c)) {row : String × Nat}
    (member : row ∈ c.created) {other : Message} (waits : other ∈ pend s' row.2) : other ∈ pend s row.2 ∨ other = message := by
  rw [fed_pends fed live owns member] at waits
  rcases List.mem_append.mp waits with old | new
  · exact .inl old
  · split at new
    · exact .inr (List.mem_singleton.mp new)
    · cases new

-- What was owed before is where it was, and the new message waits in a queue or
-- comes after the end.
theorem fed_account (consistent : Consistent codec s) (fed : Fed codec s s' key message) (live : alive c.phase = true)
    (owns : Owns s (.thread c)) (heard : key.threadId = some c.threadId → Owed codec c message → Heard codec s c key.runId)
    (caught : Caught codec s c left closing) {runId : String} {other : Message} (logged : other ∈ logOf s' c runId)
    (owed : Owed codec c other) : Accounted codec s' c left runId other := by
  have old : other ∈ logOf s c runId → Accounted codec s' c left runId other := by
    intro logged
    rcases caught.account runId other logged owed with given | replayed | ⟨queue,created,waits⟩ | ⟨done,here,rest⟩
    · exact .inl given
    · exact .inr (.inl replayed)
    · refine .inr (.inr (.inl ⟨queue,created,?_⟩))
      rw [fed_pends fed live owns created]
      exact List.mem_append_left _ waits
    · exact .inr (.inr (.inr ⟨done,fed_grown fed here,rest⟩))
  unfold logOf at logged
  rw [fed.stored] at logged
  split at logged
  · rename_i same
    subst same
    rcases List.mem_append.mp logged with before | new
    · exact old before
    · obtain rfl := List.mem_singleton.mp new
      rcases heard rfl owed with ⟨queue,created,plain⟩ | ⟨done,here,told⟩
      · refine .inr (.inr (.inl ⟨queue,created,?_⟩))
        rw [fed_pends fed live owns created]
        unfold place
        rw [if_neg plain,if_pos rfl]
        simp
      · exact .inr (.inr (.inr ⟨done,fed_grown fed here,told,newer_of_later consistent fed.stamp fed.later done here⟩))
  · exact old logged

theorem caught_fed (consistent : Consistent codec s) (fed : Fed codec s s' key message)
    (live : alive c.phase = true) (owns : Owns s (.thread c))
    (heard : key.threadId = some c.threadId → Owed codec c message → Heard codec s c key.runId)
    (caught : Caught codec s c left closing) : Caught codec s' c left closing := by
  have newer : ∀ runId, ∀ old ∈ logOf s c runId, Newer old message :=
    fun runId old member => newer_of_later consistent fed.stamp fed.later old member
  refine ⟨caught.modes,?_,caught.once,?_,?_,?_,caught.single,caught.seen,?_,
    fun _ _ => fed_account consistent fed live owns heard caught⟩
  · intro row member
    obtain ⟨old,logged,id⟩ := caught.told row member
    exact ⟨old,fed_grown fed logged,id⟩
  · intro row member plain
    have before := caught.kept row member plain
    have where_ : place c row = .subscriber ⟨some c.threadId,row.1⟩ := if_neg plain
    rw [fed_pends fed live owns member,where_]
    unfold logOf at before ⊢
    rw [fed.stored]
    by_cases same : key = ⟨some c.threadId,row.1⟩
    · subst same
      obtain ⟨front,split⟩ := before
      rw [if_pos rfl,if_pos rfl,← split,List.append_assoc]
      exact List.suffix_append _ _
    · rw [if_neg (fun equal => same (Holder.subscriber.inj equal).symm),if_neg same,List.append_nil]
      exact before
  · intro row member stream
    have where_ : place c row = .watcher c.threadId := if_pos stream
    rw [fed_pends fed live owns member,where_,if_neg (by simp),caught.bare row member stream]
    rfl
  · intro row member other waits
    rcases fed_waiting fed live owns member waits with old | rfl
    · exact caught.unread row member other old
    · intro there
      obtain ⟨told,given,same⟩ := List.mem_map.mp there
      obtain ⟨old,logged,id⟩ := caught.told told given
      exact newer_apart (newer _ old logged) (id.trans same)
  · intro row member
    obtain ⟨listed,done,logged,told,later⟩ := caught.closed row member
    refine ⟨listed,done,fed_grown fed logged,told,?_⟩
    intro other waits
    rcases fed_waiting fed live owns listed waits with old | rfl
    · exact later other old
    · exact newer _ done logged

end feeding

-- A new queue at the end of the client's rows.
theorem caught_grown (row : String × Nat) (stream : Option Nat) {holder : Holder} (made : Fresh codec s s' holder row.2)
    (live : alive c.phase = true) (owns : Owns s (.thread c)) (unseen : row.1 ∉ c.seen)
    (plain : ∀ old ∈ c.created, stream = some old.2 ↔ c.streamQueue = some old.2)
    (caught : Caught codec s c left []) :
    Caught codec s' {c with seen := c.seen ++ [row.1], created := c.created ++ [row], streamQueue := stream} left [] := by
  have here := caught_quiet made.quiet live owns (by simp) caught
  have nothing : pend s' row.2 = [] := made.empty
  refine ⟨here.modes,here.told,here.once,?_,?_,?_,?_,?_,fun _ none_ => (List.not_mem_nil none_).elim,?_⟩
  · intro other member apart
    rcases List.mem_append.mp member with old | new
    · exact here.kept other old fun same => apart ((plain other old).mpr same)
    · rw [List.mem_singleton.mp new,nothing]
      exact List.nil_suffix
  · intro other member same
    rcases List.mem_append.mp member with old | new
    · exact here.bare other old ((plain other old).mp same)
    · rw [List.mem_singleton.mp new]
      exact nothing
  · intro other member message waits
    rcases List.mem_append.mp member with old | new
    · exact here.unread other old message waits
    · rw [List.mem_singleton.mp new,nothing] at waits
      cases waits
  · rw [List.map_append]
    apply List.Nodup.append here.single (List.nodup_singleton _)
    intro runId old new
    obtain ⟨other,member,rfl⟩ := List.mem_map.mp old
    have seen := here.seen other member
    rw [List.mem_singleton.mp new] at seen
    exact unseen seen
  · intro other member
    rcases List.mem_append.mp member with old | new
    · exact List.mem_append_left _ (here.seen other old)
    · rw [List.mem_singleton.mp new]
      simp
  · intro runId message logged owed
    rcases here.account runId message logged owed with given | replayed | ⟨queue,created,waits⟩ | ended
    · exact .inl given
    · exact .inr (.inl replayed)
    · exact .inr (.inr (.inl ⟨queue,List.mem_append_left _ created,waits⟩))
    · exact .inr (.inr (.inr ended))

end frames

section poll
variable {codec : Codec} {s : Streaming} {c : ThreadClient} {w : Wake}

theorem watch_caught (consistent : Consistent codec s) (live : alive c.phase = true) (owns : Owns s (.thread c)) (now : Int)
    (caught : Caught codec s c [] []) : Caught codec (c.watch now s).1 (c.watch now s).2 [] [] := by
  unfold ThreadClient.watch
  split
  · exact caught
  · rename_i unseen
    have made := addThreadStream_fresh consistent now c.threadId
    have here : (s.manager.addThreadStream now c.threadId).2 ∈
        (s.manager.addThreadStream now c.threadId).1.threadQueues c.threadId := made.held
    have none_ : c.created = [] := (owns.orderly c rfl).unwatched (by simpa using unseen)
    dsimp only
    rw [if_pos (by simpa using here)]
    exact caught_grown (c.threadId,(s.manager.addThreadStream now c.threadId).2) _ made live owns (by simpa using unseen)
      (by simp [none_]) caught

theorem follow_caught (consistent : Consistent codec s) (live : alive c.phase = true) (owns : Owns s (.thread c))
    (seen : c.threadId ∈ c.seen) (now : Int) (runs : List RunKey) (caught : Caught codec s c [] []) :
    Caught codec (c.follow now s runs).1 (c.follow now s runs).2 [] [] := by
  induction runs generalizing s c with
  | nil => exact caught
  | cons key rest ih =>
    have first := (follow_moves consistent live owns seen now [key]).1
    unfold ThreadClient.follow at first ⊢
    split
    · rename_i unseen
      rw [if_pos unseen] at first
      have made := addQueue_fresh consistent now key
      have next := caught_grown (key.runId,(s.manager.addQueue now key).2) c.streamQueue made live owns unseen.2
        (fun _ _ => Iff.rfl) caught
      exact ih made.quiet.consistent (by exact live) first.owns (List.mem_append_left _ seen) next
    · exact ih consistent live owns seen caught

theorem poll_live (consistent : Consistent codec s) (live : alive c.phase = true) (owns : Owns s (.thread c))
    (caught : Caught codec s c [] []) : Live codec (c.poll codec w s).1 (c.poll codec w s).2 := by
  obtain ⟨seen,live',watched,followed,live''⟩ := poll_joins consistent live owns w.currentMs
  have apart := followed.owns.single
  rw [queues_thread live''] at apart
  unfold ThreadClient.poll
  apply goThrough_live followed.quiet.consistent apart _ [] (fun _ member => member)
  rw [← (watch_keeps w.currentMs s c).2.1] at seen
  apply follow_caught watched.quiet.consistent live' watched.owns seen
  exact watch_caught consistent live owns w.currentMs caught

end poll

-- What the replay shows of a message, if anything.
def shown (codec : Codec) (c : ThreadClient) (row : Message × String) : Option Frame :=
  match c.replayed codec row.1 row.2 with
  | .yields frame => some frame
  | _ => none

-- What the replay is still to show comes in the order of the numbers.
structure Ahead (codec : Codec) (s : Streaming) (c : ThreadClient) (left : List (Message × String)) : Prop where
  none_ : c.created = []
  logged : ∀ row ∈ left, row.1 ∈ logOf s c row.2
  sorted : (ids c ++ (left.filter fun row => (shown codec c row).isSome).map fun row => row.1.id).Pairwise Earlier

def Watches (codec : Codec) (s : Streaming) (c : ThreadClient) : Prop :=
  match c.phase with
  | .joining => c.created = [] ∧ c.yielded = []
  | .replaying left => Caught codec s c left [] ∧ Ahead codec s c left
  | _ => Live codec s c

section replay
variable {codec : Codec} {s : Streaming} {c : ThreadClient} {w : Wake}

theorem replayed_parts (codec : Codec) (s : Streaming) (modes : c.streamModes.contains "run_modes" = true) {row : Message × String}
    (published : Published codec s.manager ⟨some c.threadId,row.2⟩ row.1) :
    match c.replayed codec row.1 row.2 with
    | .yields frame => frame.id = row.1.id ∧ (Owed codec c row.1 → ∃ event payload,
        codec.decode row.1.data = some (event,payload) ∧ frame = ⟨event,payload,row.1.id⟩)
    | .skips => ¬ Owed codec c row.1
    | _ => False := by
  obtain ⟨_,⟨event,payload,data⟩,_⟩ := published
  have decoded : codec.decode row.1.data = some (event,payload) := by rw [data,codec.decodes]
  by_cases done : event = "control" ∧ payload = bytes "done"
  · have reads : c.replayed codec row.1 row.2 = .yields ⟨"metadata",runDone row.2,row.1.id⟩ := by
      simp [ThreadClient.replayed,decoded,done,keeps_done modes]
    rw [reads]
    refine ⟨rfl,fun ⟨_,event',_,decoded',other,_⟩ => ?_⟩
    rw [decoded,done.1] at decoded'
    cases decoded'
    exact absurd rfl other
  · have reads : c.replayed codec row.1 row.2 =
        if c.keeps codec event payload = true then .yields ⟨event,payload,row.1.id⟩ else .skips := by
      simp [ThreadClient.replayed,decoded,done]
    rw [reads]
    by_cases keeps : c.keeps codec event payload = true
    · rw [if_pos keeps]
      exact ⟨rfl,fun _ => ⟨event,payload,decoded,rfl⟩⟩
    · rw [if_neg keeps]
      intro ⟨_,event',payload',decoded',_,kept⟩
      rw [decoded] at decoded'
      cases decoded'
      exact keeps kept

theorem skipped_caught {row : Message × String} {rest : List (Message × String)} (silent : ¬ Owed codec c row.1)
    (caught : Caught codec s c (row :: rest) []) : Caught codec s c rest [] := by
  refine {caught with account := ?_}
  intro runId message logged owed
  rcases caught.account runId message logged owed with given | replayed | others
  · exact .inl given
  · rcases List.mem_cons.mp replayed with rfl | later
    · exact absurd owed silent
    · exact .inr (.inl later)
  · exact .inr (.inr others)

theorem shown_caught {row : Message × String} {rest : List (Message × String)} {frame : Frame} (id : frame.id = row.1.id)
    (shows : Owed codec c row.1 → ∃ event payload, codec.decode row.1.data = some (event,payload) ∧ frame = ⟨event,payload,row.1.id⟩)
    (none_ : c.created = []) (logged : row.1 ∈ logOf s c row.2) (unseen : row.1.id ∉ ids c)
    (caught : Caught codec s c (row :: rest) []) : Caught codec s {c with yielded := c.yielded ++ [(frame,row.2)]} rest [] := by
  have idle : ∀ other : String × Nat, other ∉ c.created := by simp [none_]
  refine ⟨caught.modes,?_,?_,fun other member => (idle other member).elim,fun other member => (idle other member).elim,
    fun other member => (idle other member).elim,caught.single,caught.seen,fun _ none_ => (List.not_mem_nil none_).elim,?_⟩
  · intro told member
    rcases List.mem_append.mp member with old | new
    · exact caught.told told old
    · rw [List.mem_singleton.mp new]
      exact ⟨row.1,logged,id.symm⟩
  · have both : (ids c ++ [row.1.id]).Nodup := List.Nodup.append caught.once (List.nodup_singleton _) (by simpa using unseen)
    simpa [ids,id] using both
  · intro runId message here owed
    rcases caught.account runId message here owed with ⟨event,payload,decoded,given⟩ | replayed | ⟨queue,created,_⟩ | ended
    · exact .inl ⟨event,payload,decoded,List.mem_append_left _ given⟩
    · rcases List.mem_cons.mp replayed with same | later
      · obtain ⟨event,payload,decoded,equal⟩ := shows (by rw [← same]; exact owed)
        rw [← same] at decoded equal
        refine .inl ⟨event,payload,decoded,List.mem_append_right _ ?_⟩
        rw [equal,← same]
        exact List.mem_singleton.mpr rfl
      · exact .inr (.inl later)
    · exact (idle _ created).elim
    · obtain ⟨done,old,⟨control,told⟩,newer⟩ := ended
      exact .inr (.inr (.inr ⟨done,old,⟨control,List.mem_append_left _ told⟩,newer⟩))

theorem replay_watches (consistent : Consistent codec s) (live : alive c.phase = true) (owns : Owns s (.thread c))
    (left : List (Message × String)) (caught : Caught codec s c left []) (ahead : Ahead codec s c left) :
    Watches codec (c.replay codec w s left).1 (c.replay codec w s left).2 := by
  induction left with
  | nil =>
    have lives := poll_live (w:=w) consistent live owns caught
    unfold Watches Live at *
    unfold ThreadClient.replay
    cases phase : (c.poll codec w s).2.phase <;> simp only [phase] at lives ⊢
    all_goals exact lives
  | cons row rest ih =>
    obtain ⟨none_,logged,sorted⟩ := ahead
    have mine := logged row List.mem_cons_self
    have later : ∀ other ∈ rest, other.1 ∈ logOf s c other.2 := fun other member => logged other (List.mem_cons_of_mem _ member)
    have parts := replayed_parts codec s caught.modes (consistent.published _ _ mine)
    unfold ThreadClient.replay
    cases reads : c.replayed codec row.1 row.2 with
    | yields frame =>
      rw [reads] at parts
      obtain ⟨id,shows⟩ := parts
      have here : (shown codec c row).isSome = true := by simp [shown,reads]
      rw [List.filter_cons_of_pos (by simpa using here),List.map_cons] at sorted
      have unseen : row.1.id ∉ ids c := by
        intro old
        obtain ⟨one,other,same,same',before⟩ := (List.pairwise_append.mp sorted).2.2 _ old _ List.mem_cons_self
        rw [same] at same'
        cases same'
        exact MessageId.before_irrefl _ before
      refine ⟨(shown_caught id shows none_ mine unseen caught).phased _,none_,later,?_⟩
      have next : ids {c with phase := .replaying rest, yielded := c.yielded ++ [(frame,row.2)]} = ids c ++ [row.1.id] := by
        simp [ids,id]
      rw [next,List.append_assoc]
      exact sorted
    | skips =>
      rw [reads] at parts
      have silent : (shown codec c row).isSome = false := by simp [shown,reads]
      rw [List.filter_cons_of_neg (by simp [silent])] at sorted
      exact ih (skipped_caught parts caught) ⟨none_,later,sorted⟩
    | ends =>
      rw [reads] at parts
      exact parts.elim
    | fails =>
      rw [reads] at parts
      exact parts.elim

end replay

section joining
variable {codec : Codec} {s : Streaming} {c : ThreadClient} {w : Wake}

def textOf (row : Message × String) : String := (row.1.id.map MessageId.text).getD ""

-- Of what the client is shown of the log, an earlier message has the lesser text.
def Alphabetical (codec : Codec) (s : Streaming) (c : ThreadClient) : Prop :=
  ∀ row ∈ c.collected s, ∀ other ∈ c.collected s, (shown codec c row).isSome = true → (shown codec c other).isSome = true →
    Earlier row.1.id other.1.id → textOf row < textOf other

theorem mem_collected {after : MessageId} (cursor : c.cursor = some (.after after)) {message : Message} {runId : String} :
    (message,runId) ∈ c.collected s ↔ message ∈ logOf s c runId ∧ (Cursor.after after).precedes message = true := by
  have part : ∀ runId, s.manager.restoreMessages ⟨some c.threadId,runId⟩ c.cursor =
      (logOf s c runId).filter (Cursor.after after).precedes := by
    intro runId
    rw [cursor]
    rfl
  have listed : ∀ {runId}, message ∈ logOf s c runId → runId ∈ s.manager.messageStores.runIds (some c.threadId) := by
    intro runId member
    unfold logOf StreamManager.stored RunMap.find at member
    unfold RunMap.runIds
    cases runs : s.manager.messageStores.get? (some c.threadId) with
    | none => simp [runs] at member
    | some runs_ =>
      rw [runs,Option.bind_some] at member
      cases found : runs_.get? runId with
      | none => simp [found] at member
      | some log => exact Dict.mem_keys.mpr (Dict.contains_iff.mpr ⟨log,found⟩)
  unfold ThreadClient.collected
  simp only [List.mem_insertionSort,List.mem_flatMap,List.mem_map,part,List.mem_filter]
  constructor
  · intro ⟨_,_,_,held,same⟩
    cases same
    exact held
  · intro held
    exact ⟨runId,listed held.1,message,held,rfl⟩

theorem collected_apart (consistent : Consistent codec s) {after : MessageId} (cursor : c.cursor = some (.after after)) :
    (c.collected s).Pairwise fun row other => row.1.id ≠ other.1.id := by
  unfold ThreadClient.collected
  refine (List.Perm.pairwise_iff (fun apart same => apart same.symm) (List.perm_insertionSort _ _)).mpr ?_
  have inside : ∀ runId, ∀ message ∈ s.manager.restoreMessages ⟨some c.threadId,runId⟩ c.cursor, message ∈ logOf s c runId := by
    intro runId message member
    rw [cursor] at member
    exact List.mem_of_mem_filter member
  refine List.pairwise_flatMap.mpr ⟨?_,?_⟩
  · intro runId _
    rw [cursor]
    apply List.pairwise_map.mpr
    exact ((consistent.ordered ⟨some c.threadId,runId⟩).sublist List.filter_sublist).imp newer_apart
  · refine (Dict.keys_nodup _).imp ?_
    intro runId runId' apart row member other member' same
    obtain ⟨message,held,rfl⟩ := List.mem_map.mp member
    obtain ⟨message',held',rfl⟩ := List.mem_map.mp member'
    have key := consistent.apart _ _ message message' (inside _ _ held) (inside _ _ held') same
    exact apart (RunKey.mk.inj key).2

theorem collected_sorted (consistent : Consistent codec s) {after : MessageId} (cursor : c.cursor = some (.after after))
    (alphabetical : Alphabetical codec s c) :
    (((c.collected s).filter fun row => (shown codec c row).isSome).map fun row => row.1.id).Pairwise Earlier := by
  have total : Std.Total fun row other : Message × String => textOf row ≤ textOf other := ⟨fun _ _ => String.le_total _ _⟩
  have trans_ : IsTrans (Message × String) fun row other => textOf row ≤ textOf other := ⟨fun _ _ _ => String.le_trans⟩
  have texts : (c.collected s).Pairwise fun row other => textOf row ≤ textOf other := List.pairwise_insertionSort _ _
  have both := (texts.and (collected_apart consistent cursor)).filter fun row => (shown codec c row).isSome
  refine List.pairwise_map.mpr (both.imp_of_mem ?_)
  intro row other member member' ⟨text,apart⟩
  obtain ⟨listed,shows⟩ := List.mem_filter.mp member
  obtain ⟨listed',shows'⟩ := List.mem_filter.mp member'
  obtain ⟨_,_,⟨id,stamped,_⟩⟩ := consistent.published _ _ ((mem_collected cursor).mp listed).1
  obtain ⟨_,_,⟨id',stamped',_⟩⟩ := consistent.published _ _ ((mem_collected cursor).mp listed').1
  by_cases before : id.Before id'
  · exact ⟨id,id',stamped,stamped',before⟩
  · have after_ : id'.Before id := by
      have different : id ≠ id' := fun same => apart (by rw [stamped,stamped',same])
      obtain ⟨ms,seq⟩ := id
      obtain ⟨ms',seq'⟩ := id'
      unfold MessageId.Before at *
      dsimp only at *
      by_cases sameMs : ms = ms'
      · have otherSeq : seq ≠ seq' := fun sameSeq => different (by rw [sameMs,sameSeq])
        omega
      · omega
    have less := alphabetical other listed' row listed shows' shows ⟨id',id,stamped',stamped,after_⟩
    exact absurd less (String.not_lt.mpr text)

-- A client that resumes at an id, in the modes of runs.
def Resumes (c : ThreadClient) : Prop := c.streamModes.contains "run_modes" = true ∧ ∃ id, c.cursor = some (.after id)

theorem joining_watches (consistent : Consistent codec s) (phase : c.phase = .joining) (owns : Owns s (.thread c))
    (resumes : Resumes c) (alphabetical : Alphabetical codec s c) (none_ : c.created = []) (nothing : c.yielded = []) :
    Watches codec (c.replay codec w s (c.collected s)).1 (c.replay codec w s (c.collected s)).2 := by
  obtain ⟨modes,after,cursor⟩ := resumes
  have idle : ∀ row : String × Nat, row ∉ c.created := by simp [none_]
  apply replay_watches consistent (by rw [phase]; rfl) owns
  · refine ⟨modes,by simp [nothing],by simp [ids,nothing],fun row member => (idle row member).elim,
      fun row member => (idle row member).elim,fun row member => (idle row member).elim,by simp [none_],
      fun row member => (idle row member).elim,fun _ member => (List.not_mem_nil member).elim,?_⟩
    intro runId message logged owed
    refine .inr (.inl ((mem_collected cursor).mpr ⟨logged,?_⟩))
    have restores := owed.1
    rw [cursor] at restores
    exact Option.some.inj restores
  · refine ⟨none_,fun row member => ((mem_collected cursor).mp member).1,?_⟩
    simp only [ids,nothing,List.map_nil,List.nil_append]
    exact collected_sorted consistent cursor alphabetical

theorem threadClient_watches (consistent : Consistent codec s) (owns : Owns s (.thread c))
    (care : c.phase = .joining → Resumes c ∧ Alphabetical codec s c) (watches : Watches codec s c) :
    Watches codec (threadClient codec w s c).1 (threadClient codec w s c).2 := by
  have pass : ∀ {s c}, Live codec s c → Watches codec s c := by
    intro s c lives
    unfold Watches Live at *
    cases phase : c.phase <;> simp only [phase] at lives ⊢
    all_goals exact lives
  have work := (owns.orderly c rfl).work
  have single := owns.single
  unfold threadClient
  unfold Watches Live at watches
  cases phase : c.phase with
  | joining =>
    simp only [phase] at watches
    obtain ⟨resumes,alphabetical⟩ := care phase
    exact joining_watches consistent phase owns resumes alphabetical watches.1 watches.2
  | replaying left =>
    simp only [phase] at watches
    exact replay_watches consistent (by rw [phase]; rfl) owns left watches.1 watches.2
  | polling =>
    simp only [phase] at watches
    exact pass (poll_live consistent (by rw [phase]; rfl) owns watches)
  | draining rows retired =>
    simp only [phase] at watches
    rw [queues_thread (by rw [phase]; rfl)] at single
    simp only [phase,workRows,List.mem_append] at work
    exact pass (goThrough_live consistent single rows retired (fun row member => work row (.inl member)) watches)
  | finishing rows retired =>
    rw [queues_thread (by rw [phase]; rfl)] at single
    simp only [phase,workRows,List.mem_append] at work
    cases rows with
    | nil =>
      simp only [phase] at watches
      exact pass (goThrough_live consistent single [] retired (fun _ member => (List.not_mem_nil member).elim) watches)
    | cons row rest =>
      simp only [phase] at watches
      apply pass
      apply goThrough_live consistent single rest _ fun other member => work other (.inl (List.mem_cons_of_mem _ member))
      unfold ThreadClient.retire
      split
      · exact {watches with closed := fun other member => watches.closed other (List.mem_append_left _ member)}
      · exact watches
  | ended ending =>
    simp only [phase] at watches

end joining

-- The condition on the replay of a client's log.
def allowed (codec : Codec) (_ : Wake) (s : Streaming) : StreamTask → Prop
  | .thread c => c.phase = .joining → Resumes c ∧ Alphabetical codec s c
  | _ => True

-- The condition on a publication, for each client that has collected its log.
def beside (codec : Codec) (w : Wake) (s : Streaming) : StreamTask → StreamTask → Prop
  | .publish key event payload _,.thread c => c.phase ≠ .joining → key.threadId = some c.threadId →
      Owed codec c (s.manager.stamped w.currentMs ⟨.stream key.runId,codec.encode event payload,none⟩) →
      Heard codec s c key.runId
  | _,_ => True

section others
variable {codec : Codec} {s s' : Streaming} {c : ThreadClient} {left : List (Message × String)}

theorem ahead_grows (grown : ∀ runId, ∀ message ∈ logOf s c runId, message ∈ logOf s' c runId) (ahead : Ahead codec s c left) :
    Ahead codec s' c left :=
  ⟨ahead.none_,fun row member => grown _ _ (ahead.logged row member),ahead.sorted⟩

theorem watches_later (grown : ∀ runId, ∀ message ∈ logOf s c runId, message ∈ logOf s' c runId)
    (later : c.phase ≠ .joining → ∀ {left closing}, alive c.phase = true → Caught codec s c left closing → Caught codec s' c left closing)
    (watches : Watches codec s c) : Watches codec s' c := by
  unfold Watches Live at *
  cases phase : c.phase with
  | joining =>
    simp only [phase] at watches ⊢
    exact watches
  | replaying left =>
    simp only [phase] at watches ⊢
    exact ⟨later (by simp [phase]) (by rw [phase]; rfl) watches.1,ahead_grows grown watches.2⟩
  | finishing rows retired =>
    cases rows <;> simp only [phase] at watches ⊢
    all_goals exact later (by simp [phase]) (by rw [phase]; rfl) watches
  | ended ending => simp only [phase] at watches
  | _ =>
    simp only [phase] at watches ⊢
    exact later (by simp [phase]) (by rw [phase]; rfl) watches

theorem watches_quiet {aside : List Nat} (quiet : Quiet codec s s' aside) (owns : Owns s (.thread c))
    (free : ∀ queue ∈ queuesOf (.thread c), queue ∉ aside) (watches : Watches codec s c) : Watches codec s' c := by
  refine watches_later ?_ (fun _ _ _ live caught => caught_quiet quiet live owns free caught) watches
  intro runId message member
  unfold logOf
  rw [quiet.stored]
  exact member

theorem watches_fed {key : RunKey} {message : Message} (consistent : Consistent codec s) (fed : Fed codec s s' key message)
    (owns : Owns s (.thread c)) (watches : Watches codec s c)
    (heard : c.phase ≠ .joining → key.threadId = some c.threadId → Owed codec c message → Heard codec s c key.runId) :
    Watches codec s' c := by
  refine watches_later ?_ (fun past _ _ live caught => caught_fed consistent fed live owns (heard past) caught) watches
  intro runId old member
  unfold logOf at member ⊢
  rw [fed.stored]
  split
  · rename_i same
    rw [same]
    exact List.mem_append_left _ member
  · exact member

def more (codec : Codec) (s : Streaming) : StreamTask → Prop
  | .thread c => Watches codec s c
  | _ => True

theorem outline : TaskPool.Outline (resume codec) fresh (allowed codec) (beside codec) (Consistent codec)
    (fun s task => (Owns s task ∧ Valid task) ∧ more codec s task) Apart := by
  refine TaskPool.outline_layer (ClientQueues.outline _ _) ?_ ?_ ?_
  · intro s task _ begins
    cases task with
    | thread c =>
      obtain ⟨_,_,_,rfl⟩ := begins
      exact ⟨rfl,rfl⟩
    | _ => trivial
  · intro w s task care consistent mine watches u spawned
    cases task with
    | publish key event payload resumable => simp [resume] at spawned
    | create key => simp [resume] at spawned
    | deliveries =>
      rw [List.mem_singleton.mp spawned]
      trivial
    | run c =>
      rw [List.mem_singleton.mp spawned]
      trivial
    | thread c =>
      rw [List.mem_singleton.mp spawned]
      exact threadClient_watches consistent mine.1 care watches
  · intro w s task other _ near consistent mine theirs apart watches
    cases other with
    | thread c =>
      have free : ∀ queue ∈ queuesOf (.thread c), queue ∉ queuesOf task := fun queue there here => apart queue here there
      cases task with
      | publish key event payload resumable =>
        obtain rfl : resumable = true := mine.2
        exact watches_fed consistent (publish_fed consistent w.currentMs key event payload) theirs.1 watches near
      | create key => exact watches_later (s:=s) (fun _ _ member => member) (fun _ _ _ _ caught =>
          ⟨caught.modes,caught.told,caught.once,caught.kept,caught.bare,caught.unread,caught.single,caught.seen,
            caught.closed,caught.account⟩) watches
      | deliveries => exact watches_quiet (deliver_quiet consistent) theirs.1 (by simp) watches
      | run other => exact watches_quiet (runClient_moves consistent mine.1).quiet theirs.1 free watches
      | thread other => exact watches_quiet (threadClient_moves consistent mine.1).quiet theirs.1 free watches
    | _ => trivial

end others

def remaining (c : ThreadClient) : List (Message × String) :=
  match c.phase with
  | .replaying left => left
  | _ => []

-- What a resumed client of a thread has been given: messages of the log, none
-- twice, in its replay by their numbers. What else it is to get is ahead of
-- it, in the replay or in its queues, and it goes on.
structure LosesNothing (codec : Codec) (s : Streaming) (c : ThreadClient) : Prop where
  genuine : ∀ row ∈ c.yielded, ∃ message ∈ logOf s c row.2, message.id = row.1.id
  ordered : ∀ left, c.phase = .replaying left → (ids c).Pairwise Earlier
  once : (ids c).Nodup
  complete : c.phase ≠ .joining → ∀ runId, ∀ message ∈ logOf s c runId, Owed codec c message →
    Accounted codec s c (remaining c) runId message
  goesOn : ∀ ending, c.phase ≠ .ended ending

section result
variable {codec : Codec} {s : Streaming} {c : ThreadClient}

theorem loses_nothing (watches : Watches codec s c) : LosesNothing codec s c := by
  have past : ∀ closing, Caught codec s c (remaining c) closing →
      (∀ left, c.phase = .replaying left → (ids c).Pairwise Earlier) → (∀ ending, c.phase ≠ .ended ending) → LosesNothing codec s c :=
    fun closing caught ordered goesOn => ⟨caught.told,ordered,caught.once,fun _ => caught.account,goesOn⟩
  unfold Watches Live at watches
  unfold remaining at past
  cases phase : c.phase with
  | joining =>
    simp only [phase] at watches
    refine ⟨by simp [watches.2],?_,by simp [ids,watches.2],fun other => absurd phase other,by simp [phase]⟩
    intro left other
    rw [phase] at other
    cases other
  | replaying left =>
    simp only [phase] at watches past
    exact past [] watches.1 (fun _ _ => (List.pairwise_append.mp watches.2.sorted).1) (by simp)
  | finishing rows retired =>
    cases rows <;> simp only [phase] at watches past
    all_goals exact past _ watches (by simp) (by simp)
  | ended ending => simp only [phase] at watches
  | _ =>
    simp only [phase] at watches past
    exact past _ watches (by simp) (by simp)

end result

-- Without the conditions: the runs that publish are there, and the client
-- resumes.
def resumes (_ : Wake) (s : Streaming) : StreamTask → Prop
  | .publish key _ _ _ => key ∈ s.runs
  | .thread c => c.phase = .joining → Resumes c
  | _ => True

def toyKey : RunKey := ⟨some "t","r"⟩

def wakes (now : Int) : Wake := ⟨now,false,none⟩

def joins (seq : Int) : StreamTask := .thread (watcher "t" ["run_modes"] (some (.after ⟨5,seq⟩)))

def creates : List Event := [.call (.create toyKey),.resume 1 (wakes 1)]

def tells (place : Nat) (now : Int) : List Event := [.call (.publish toyKey "values" [] true),.resume place (wakes now)]

def burst : Nat → List Event
  | 0 => []
  | n + 1 => tells 1 5 ++ burst n

theorem not_accounted {codec : Codec} {s : Streaming} {c : ThreadClient} {left : List (Message × String)} {runId : String}
    {message : Message} (unseen : message.id ∉ ids c) (untold : ∀ row ∈ c.yielded, row.1.event ≠ "metadata")
    (bare : ∀ row ∈ c.created, pend s row.2 = []) (none_ : left = []) : ¬ Accounted codec s c left runId message := by
  intro where_
  rcases where_ with ⟨event,payload,_,given⟩ | replayed | ⟨queue,created,waits⟩ | ⟨done,_,⟨_,told⟩,_⟩
  · exact unseen (List.mem_map.mpr ⟨_,given,rfl⟩)
  · rw [none_] at replayed
    cases replayed
  · rw [bare _ created] at waits
    cases waits
  · exact untold _ told rfl

end InmemRuntime.ThreadReplay
