import InmemRuntime.ClientQueues

namespace InmemRuntime.RunReplay
open OrderedDict ObjectHeap Streams StreamUpkeep StreamClients StreamFeeds ClientQueues

section log
variable (codec : Codec)

-- What a resumed client is to get of a log: the frames after its cursor that
-- its modes let through, up to the terminal control message.
def wanted (c : RunClient) : List Message → List Frame
  | [] => []
  | message :: rest =>
    if c.restores message then
      match c.reading codec message with
      | .ends => []
      | .yields frame => frame :: wanted c rest
      | _ => wanted c rest
    else wanted c rest

def Concluded (c : RunClient) (log : List Message) : Prop :=
  ∃ message ∈ log, c.restores message = true ∧ c.reading codec message = .ends

-- Nothing of the list is for the client, whatever its cursor.
def Unread (c : RunClient) (messages : List Message) : Prop := ∀ message ∈ messages, c.reading codec message = .skips

def Spent (c : RunClient) (messages : List Message) : Prop :=
  ∀ message ∈ messages, c.restores message = true → c.reading codec message = .skips

end log

section lists
variable {codec : Codec} {c : RunClient}

theorem concluded_append (log rest : List Message) : Concluded codec c (log ++ rest) ↔ Concluded codec c log ∨ Concluded codec c rest := by
  unfold Concluded
  constructor
  · intro ⟨message,member,ends⟩
    rcases List.mem_append.mp member with first | second
    · exact .inl ⟨message,first,ends⟩
    · exact .inr ⟨message,second,ends⟩
  · intro either
    rcases either with ⟨message,member,ends⟩ | ⟨message,member,ends⟩
    · exact ⟨message,List.mem_append_left _ member,ends⟩
    · exact ⟨message,List.mem_append_right _ member,ends⟩

theorem wanted_append {log : List Message} (open_ : ¬ Concluded codec c log) (rest : List Message) :
    wanted codec c (log ++ rest) = wanted codec c log ++ wanted codec c rest := by
  induction log with
  | nil => rfl
  | cons message log ih =>
    have later := ih fun ⟨ending,member,ends⟩ => open_ ⟨ending,List.mem_cons_of_mem _ member,ends⟩
    simp only [List.cons_append,wanted]
    split
    · rename_i restores
      split
      · rename_i ends
        exact absurd ⟨message,List.mem_cons_self,restores,ends⟩ open_
      · rw [later]
        rfl
      · exact later
    · exact later

theorem wanted_concluded {log : List Message} (ended : Concluded codec c log) (rest : List Message) :
    wanted codec c (log ++ rest) = wanted codec c log := by
  induction log with
  | nil =>
    obtain ⟨_,member,_⟩ := ended
    cases member
  | cons message log ih =>
    simp only [List.cons_append,wanted]
    by_cases here : c.restores message = true ∧ c.reading codec message = .ends
    · rw [if_pos here.1,if_pos here.1,here.2]
    · have later := ih (by
        obtain ⟨ending,member,ends⟩ := ended
        rcases List.mem_cons.mp member with rfl | tail
        · exact absurd ends here
        · exact ⟨ending,tail,ends⟩)
      rw [later]

-- One message that is shown, and one that ends the log.
theorem wanted_one {message : Message} {frame : Frame} (restores : c.restores message = true)
    (reads : c.reading codec message = .yields frame) : wanted codec c [message] = [frame] := by
  unfold wanted
  rw [if_pos restores,reads]
  rfl

theorem open_one {message : Message} {frame : Frame} (reads : c.reading codec message = .yields frame) : ¬ Concluded codec c [message] := by
  intro ⟨other,member,_,ends⟩
  rw [List.mem_singleton.mp member,reads] at ends
  cases ends

theorem wanted_ended {message : Message} (restores : c.restores message = true) (reads : c.reading codec message = .ends)
    (rest : List Message) : wanted codec c (message :: rest) = [] := by
  unfold wanted
  rw [if_pos restores,reads]

theorem spent_wanted {messages : List Message} (spent : Spent codec c messages) :
    wanted codec c messages = [] ∧ ¬ Concluded codec c messages := by
  constructor
  · induction messages with
    | nil => rfl
    | cons message rest ih =>
      have later := ih fun other member => spent other (List.mem_cons_of_mem _ member)
      unfold wanted
      split
      · rename_i restores
        rw [spent message List.mem_cons_self restores]
        exact later
      · exact later
  · intro ⟨message,member,restores,ends⟩
    rw [spent message member restores] at ends
    cases ends

theorem unread_spent {messages : List Message} (unread : Unread codec c messages) : Spent codec c messages :=
  fun message member _ => unread message member

-- What the replay loop does with the rest of the log.
theorem replay_parts (codec : Codec) (position : Nat) (rest : List Message) :
    match c.replay codec position rest with
    | .yields frame next => ∃ skipped message after, rest = skipped ++ message :: after ∧ Spent codec c skipped ∧
        c.restores message = true ∧ c.reading codec message = .yields frame ∧ next = position + skipped.length + 1
    | .exhausted => Spent codec c rest
    | .ended => ∃ skipped message after, rest = skipped ++ message :: after ∧ Spent codec c skipped ∧
        c.restores message = true ∧ c.reading codec message = .ends
    | .failed => ∃ message ∈ rest, c.reading codec message = .fails := by
  induction rest generalizing position with
  | nil => exact fun _ member => (List.not_mem_nil member).elim
  | cons message rest ih =>
    have later := ih (position+1)
    have onward : (c.restores message = true → c.reading codec message = .skips) →
        (match c.replay codec (position+1) rest with
        | .yields frame next => ∃ skipped found after, message :: rest = skipped ++ found :: after ∧ Spent codec c skipped ∧
            c.restores found = true ∧ c.reading codec found = .yields frame ∧ next = position + skipped.length + 1
        | .exhausted => Spent codec c (message :: rest)
        | .ended => ∃ skipped found after, message :: rest = skipped ++ found :: after ∧ Spent codec c skipped ∧
            c.restores found = true ∧ c.reading codec found = .ends
        | .failed => ∃ found ∈ message :: rest, c.reading codec found = .fails) := by
      intro passed
      have grown : ∀ {messages}, Spent codec c messages → Spent codec c (message :: messages) := by
        intro messages spent other member
        rcases List.mem_cons.mp member with rfl | tail
        · exact passed
        · exact spent other tail
      split at later
      · obtain ⟨skipped,found,after,rfl,spent,restores,reads,rfl⟩ := later
        exact ⟨message :: skipped,found,after,rfl,grown spent,restores,reads,by simp only [List.length_cons]; omega⟩
      · exact grown later
      · obtain ⟨skipped,found,after,rfl,spent,restores,reads⟩ := later
        exact ⟨message :: skipped,found,after,rfl,grown spent,restores,reads⟩
      · obtain ⟨found,member,reads⟩ := later
        exact ⟨found,List.mem_cons_of_mem _ member,reads⟩
    unfold RunClient.replay
    by_cases restores : c.restores message = true
    · rw [if_neg (by simp [restores])]
      cases reads : c.reading codec message with
      | ends => exact ⟨[],message,rest,rfl,fun _ member => (List.not_mem_nil member).elim,restores,reads⟩
      | skips => exact onward fun _ => reads
      | yields frame => exact ⟨[],message,rest,rfl,fun _ member => (List.not_mem_nil member).elim,restores,reads,rfl⟩
      | fails => exact ⟨message,List.mem_cons_self,reads⟩
    · rw [if_pos (by simp [restores])]
      exact onward fun yes => absurd yes restores

end lists

-- What waits for a client of a run.
def pendOf (s : Streaming) (c : RunClient) : List Message :=
  match runQueue c.phase with
  | some queue => pend s queue
  | none => []

-- A cursor that the log has reached, and a run that can be resumed.
structure Ready (c : RunClient) (last : MessageId) : Prop where
  cursor : ∃ id, c.cursor = some (.after id) ∧ ¬ last.Before id
  found : ∃ active, c.found = some ⟨true,active⟩

-- Between the replay and the end: what was read is behind the client, and what
-- waits for it is the rest of the log.
def Live (codec : Codec) (log waiting : List Message) (last : MessageId) (c : RunClient) : Prop :=
  Ready c last ∧ ∃ read, log = read ++ waiting ∧ c.yielded = wanted codec c read ∧
    ¬ Concluded codec c read ∧ ∀ message ∈ waiting, c.restores message = true ∨ c.reading codec message = .skips

-- Where a client stands to the log of its run. A run that is there is never
-- reported missing.
def Sound (codec : Codec) (log waiting : List Message) (last : MessageId) (c : RunClient) : Prop :=
  match c.phase with
  | .subscribing => c.yielded = []
  | .joining _ => c.yielded = [] ∧ waiting <:+ log
  | .replaying _ copy position => copy = none ∧ Ready c last ∧ c.yielded = wanted codec c (log.take position) ∧
      ¬ Concluded codec c (log.take position) ∧ position ≤ log.length ∧ waiting <:+ log
  | .waiting _ | .looking _ => Live codec log waiting last c
  | .reporting _ => False
  | .ended ending => c.yielded = wanted codec c log ∧ (ending = .done → Concluded codec c log)

-- A client that resumes: its cursor is the id of a stored message, and its
-- run is there and can be resumed.
def Resumes (w : Wake) (s : Streaming) (c : RunClient) : Prop :=
  match c.phase with
  | .joining _ => (∃ id, c.cursor = some (.after id) ∧ ∃ message ∈ s.manager.stored c.key, message.id = some id) ∧
      ∃ active, w.found = some ⟨true,active⟩
  | .looking _ => ∃ active, w.found = some ⟨true,active⟩
  | _ => True

-- When its replay is through, nothing for the client waits in its queue as
-- well; and a look finds the run settled only when nothing for it is left in the
-- queue or on its way.
def Careful (codec : Codec) (w : Wake) (s : Streaming) (c : RunClient) : Prop :=
  match c.phase with
  | .joining queue => Spent codec c (s.manager.stored c.key) → Unread codec c (pend s queue)
  | .replaying queue _ position =>
      Spent codec c ((s.manager.stored c.key).drop position) → Unread codec c (pend s queue)
  | .looking queue => w.found = some ⟨true,false⟩ → Spent codec c (pend s queue)
  | _ => True

section alike
variable {codec : Codec} {c c' : RunClient}

structure Alike (c c' : RunClient) : Prop where
  streamMode : c'.streamMode = c.streamMode
  cursor : c'.cursor = c.cursor

theorem Alike.reading (alike : Alike c c') (message : Message) : c'.reading codec message = c.reading codec message := by
  unfold RunClient.reading
  rw [alike.streamMode]

theorem Alike.restores (alike : Alike c c') (message : Message) : c'.restores message = c.restores message := by
  unfold RunClient.restores
  rw [alike.cursor]

theorem Alike.wanted (alike : Alike c c') (log : List Message) : wanted codec c' log = wanted codec c log := by
  induction log with
  | nil => rfl
  | cons message rest ih => simp only [RunReplay.wanted,alike.restores,@Alike.reading codec _ _ alike,ih]

theorem Alike.spent (alike : Alike c c') (messages : List Message) : Spent codec c' messages ↔ Spent codec c messages := by
  simp only [Spent,alike.restores,alike.reading]

theorem Alike.unread (alike : Alike c c') (messages : List Message) : Unread codec c' messages ↔ Unread codec c messages := by
  simp only [Unread,alike.reading]

theorem Alike.concluded (alike : Alike c c') (log : List Message) : Concluded codec c' log ↔ Concluded codec c log := by
  simp only [Concluded,alike.restores,alike.reading]

end alike

section sound
variable {codec : Codec} {c : RunClient} {log waiting : List Message} {last : MessageId}

theorem ready_grows {id : MessageId} (ready : Ready c last) (later : last.Before id) : Ready c id := by
  obtain ⟨⟨cursor,same,reached⟩,found⟩ := ready
  refine ⟨⟨cursor,same,?_⟩,found⟩
  intro beyond
  exact reached (later.trans beyond)

theorem restores_later {message : Message} {id : MessageId} (ready : Ready c last) (stamped : message.id = some id)
    (later : last.Before id) : c.restores message = true := by
  obtain ⟨cursor,same,reached⟩ := ready.cursor
  have beyond : cursor.Before id := by
    unfold MessageId.Before at *
    omega
  simp [RunClient.restores,same,Cursor.precedes,stamped,beyond]

theorem live_fed (live : Live codec log waiting last c) {message : Message} {id : MessageId} (stamped : message.id = some id)
    (later : last.Before id) : Live codec (log ++ [message]) (waiting ++ [message]) id c := by
  obtain ⟨ready,read,rfl,yielded,open_,restored⟩ := live
  refine ⟨ready_grows ready later,read,by simp,yielded,open_,?_⟩
  intro other member
  rcases List.mem_append.mp member with old | new
  · exact restored other old
  · rw [List.mem_singleton.mp new]
    exact .inl (restores_later ready stamped later)

-- A new message in the log and on its way to the client.
theorem sound_fed (sound : Sound codec log waiting last c) {message : Message} {id : MessageId} (stamped : message.id = some id)
    (later : last.Before id) (served : List Message) (same : runQueue c.phase ≠ none → served = waiting ++ [message])
    (care : ∀ ending, c.phase = .ended ending → ending ≠ .done → Concluded codec c log ∨
      ∀ frame, c.reading codec message ≠ .yields frame) :
    Sound codec (log ++ [message]) served id c := by
  unfold Sound at *
  cases phase : c.phase with
  | subscribing =>
    rw [phase] at sound
    exact sound
  | joining queue =>
    rw [phase] at sound
    rw [same (by rw [phase]; simp [runQueue])]
    obtain ⟨none_,front,rfl⟩ := sound
    exact ⟨none_,front,by simp⟩
  | replaying queue copy position =>
    rw [phase] at sound
    rw [same (by rw [phase]; simp [runQueue])]
    obtain ⟨plain,ready,yielded,open_,bound,front,rfl⟩ := sound
    have taken := @List.take_append_of_le_length _ _ [message] _ bound
    refine ⟨plain,ready_grows ready later,?_,?_,?_,front,by simp⟩
    · rw [taken]
      exact yielded
    · rw [taken]
      exact open_
    · rw [List.length_append]
      omega
  | waiting queue =>
    rw [phase] at sound
    rw [same (by rw [phase]; simp [runQueue])]
    exact live_fed sound stamped later
  | looking queue =>
    rw [phase] at sound
    rw [same (by rw [phase]; simp [runQueue])]
    exact live_fed sound stamped later
  | reporting queue =>
    rw [phase] at sound
    exact sound
  | ended ending =>
    rw [phase] at sound
    obtain ⟨yielded,done⟩ := sound
    have unread : ∀ {messages}, Concluded codec c messages ∨ (∀ frame, c.reading codec message ≠ .yields frame) →
        wanted codec c (messages ++ [message]) = wanted codec c messages := by
      intro messages either
      by_cases concluded : Concluded codec c messages
      · exact wanted_concluded concluded _
      · rw [wanted_append concluded]
        have nothing : wanted codec c [message] = [] := by
          unfold wanted
          split
          · split
            · rfl
            · rename_i frame reads
              rcases either with ended | silent
              · exact absurd ended concluded
              · exact absurd reads (silent frame)
            · rfl
          · rfl
        rw [nothing,List.append_nil]
    by_cases finished : ending = .done
    · have concluded := done finished
      refine ⟨?_,fun _ => (concluded_append _ _).mpr (.inl concluded)⟩
      rw [unread (.inl concluded)]
      exact yielded
    · refine ⟨?_,fun same => absurd same finished⟩
      rw [unread (care ending phase finished)]
      exact yielded

end sound

def SoundAt (codec : Codec) (s : Streaming) (c : RunClient) : Prop :=
  Sound codec (s.manager.stored c.key) (pendOf s c) (lastId s.manager) c

section step
variable {codec : Codec} {s : Streaming} {c : RunClient} {queue : Nat} {w : Wake}

theorem reading_published {m : StreamManager} {key : RunKey} {message : Message} (published : Published codec m key message) :
    c.reading codec message ≠ .fails := by
  obtain ⟨_,⟨event,payload,data⟩,_⟩ := published
  unfold RunClient.reading
  rw [data,codec.decodes]
  dsimp only
  split
  · split <;> simp
  · split <;> simp

theorem soundAt_replaying {c' : RunClient} {position : Nat} (phase : c'.phase = .replaying queue none position) (alike : Alike c c')
    (key : c'.key = c.key) (found : c'.found = c.found) (ready : Ready c (lastId s.manager))
    (yielded : c'.yielded = wanted codec c ((s.manager.stored c.key).take position))
    (open_ : ¬ Concluded codec c ((s.manager.stored c.key).take position)) (bound : position ≤ (s.manager.stored c.key).length)
    (behind : pend s queue <:+ s.manager.stored c.key) : SoundAt codec s c' := by
  unfold SoundAt Sound pendOf
  rw [phase,key]
  refine ⟨rfl,⟨?_,?_⟩,?_,?_,bound,behind⟩
  · rw [alike.cursor]
    exact ready.cursor
  · rw [found]
    exact ready.found
  · rw [alike.wanted]
    exact yielded
  · rw [alike.concluded]
    exact open_

theorem soundAt_live {c' : RunClient} {read : List Message} (phase : c'.phase = .waiting queue ∨ c'.phase = .looking queue)
    (alike : Alike c c') (key : c'.key = c.key) (found : ∃ active, c'.found = some ⟨true,active⟩) (ready : Ready c (lastId s.manager))
    (split : s.manager.stored c.key = read ++ pend s queue) (yielded : c'.yielded = wanted codec c read)
    (open_ : ¬ Concluded codec c read)
    (restored : ∀ message ∈ pend s queue, c.restores message = true ∨ c.reading codec message = .skips) : SoundAt codec s c' := by
  have live : Live codec (s.manager.stored c'.key) (pend s queue) (lastId s.manager) c' := by
    rw [key]
    refine ⟨⟨?_,found⟩,read,split,?_,?_,?_⟩
    · rw [alike.cursor]
      exact ready.cursor
    · rw [alike.wanted]
      exact yielded
    · rw [alike.concluded]
      exact open_
    · intro message member
      rw [alike.restores,alike.reading]
      exact restored message member
  unfold SoundAt Sound pendOf
  rcases phase with waits | looks
  · rw [waits]
    exact live
  · rw [looks]
    exact live

theorem soundAt_left {c' : RunClient} {ending : Ending} (alike : Alike c c') (key : c'.key = c.key)
    (yielded : c'.yielded = wanted codec c (s.manager.stored c.key))
    (done : ending = .done → Concluded codec c (s.manager.stored c.key)) :
    SoundAt codec (leave s c' queue ending).1 (leave s c' queue ending).2 := by
  have left : Alike c (leave s c' queue ending).2 := ⟨alike.streamMode,alike.cursor⟩
  have logs : (leave s c' queue ending).1.manager.stored (leave s c' queue ending).2.key = s.manager.stored c.key := by
    unfold leave
    dsimp only
    rw [key]
    rfl
  unfold SoundAt
  rw [logs]
  refine ⟨?_,?_⟩
  · rw [left.wanted]
    exact yielded
  · rw [left.concluded]
    exact done

theorem goReplay_sound (consistent : Consistent codec s) {position : Nat} (bound : position ≤ (s.manager.stored c.key).length)
    (ready : Ready c (lastId s.manager)) (yielded : c.yielded = wanted codec c ((s.manager.stored c.key).take position))
    (open_ : ¬ Concluded codec c ((s.manager.stored c.key).take position)) (behind : pend s queue <:+ s.manager.stored c.key)
    (care : Spent codec c ((s.manager.stored c.key).drop position) → Unread codec c (pend s queue)) :
    SoundAt codec (goReplay codec s c queue none position).1 (goReplay codec s c queue none position).2 := by
  have parts := replay_parts codec (c:=c) position ((s.manager.stored c.key).drop position)
  have whole := List.take_append_drop position (s.manager.stored c.key)
  unfold goReplay
  simp only [Option.getD_none]
  split
  · rename_i frame next found
    rw [found] at parts
    obtain ⟨skipped,message,after,split,spent,restores,reads,rfl⟩ := parts
    have taken : (s.manager.stored c.key).take (position + skipped.length + 1) =
        (s.manager.stored c.key).take position ++ (skipped ++ [message]) := by
      rw [Nat.add_assoc,List.take_add,split]
      congr 1
      rw [show skipped ++ message :: after = (skipped ++ [message]) ++ after by simp]
      exact List.take_left' (by simp)
    obtain ⟨nothing,still⟩ := spent_wanted spent
    have quiet : ¬ Concluded codec c (skipped ++ [message]) := by
      rw [concluded_append]
      exact fun either => either.elim still (open_one reads)
    refine soundAt_replaying (s:=s) (c:=c) rfl ⟨rfl,rfl⟩ rfl rfl ready ?_ ?_ ?_ behind
    · rw [taken,wanted_append open_,wanted_append still,nothing,wanted_one restores reads,yielded]
      rfl
    · rw [taken,concluded_append]
      exact fun either => either.elim open_ quiet
    · have length := congrArg List.length split
      rw [List.length_drop,List.length_append,List.length_cons] at length
      omega
  · rename_i found
    rw [found] at parts
    obtain ⟨nothing,still⟩ := spent_wanted parts
    have unread := care parts
    obtain ⟨read,same⟩ := behind
    have closed : ¬ Concluded codec c (s.manager.stored c.key) := by
      rw [← whole,concluded_append]
      exact fun either => either.elim open_ still
    have all : wanted codec c (s.manager.stored c.key) = c.yielded := by
      rw [← whole,wanted_append open_,nothing,List.append_nil,yielded]
    have early : ¬ Concluded codec c read := fun before => closed (by rw [← same]; exact (concluded_append _ _).mpr (.inl before))
    refine soundAt_live (s:=s) (c:=c) (.inl rfl) ⟨rfl,rfl⟩ rfl ready.found ready same.symm ?_ early ?_
    · rw [← same,wanted_append early,(spent_wanted (unread_spent unread)).1,List.append_nil] at all
      exact all.symm
    · exact fun message member => .inr (unread message member)
  · rename_i found
    rw [found] at parts
    obtain ⟨skipped,message,after,split,spent,restores,reads⟩ := parts
    obtain ⟨nothing,still⟩ := spent_wanted spent
    have ended : Concluded codec c (s.manager.stored c.key) := by
      rw [← whole,concluded_append]
      exact .inr ⟨message,by rw [split]; simp,restores,reads⟩
    refine soundAt_left (s:=s) (c:=c) ⟨rfl,rfl⟩ rfl ?_ fun _ => ended
    rw [← whole,wanted_append open_,split,wanted_append still,nothing,wanted_ended restores reads,yielded]
    simp
  · rename_i found
    rw [found] at parts
    obtain ⟨message,member,fails⟩ := parts
    exact absurd fails (reading_published (consistent.published c.key message (List.mem_of_mem_drop member)))

theorem goLive_sound (consistent : Consistent codec s) (phase : c.phase = .waiting queue) (sound : SoundAt codec s c) :
    SoundAt codec (goLive codec w s c queue).1 (goLive codec w s c queue).2 := by
  have here := sound
  unfold SoundAt Sound pendOf at here
  rw [phase] at here
  obtain ⟨ready,read,split,yielded,open_,restored⟩ := here
  dsimp only [runQueue] at split restored
  unfold goLive
  by_cases expired : w.expired = true
  · rw [if_pos expired]
    exact soundAt_live (s:=s) (c:=c) (.inr rfl) ⟨rfl,rfl⟩ rfl ready.found ready split yielded open_ restored
  rw [if_neg expired]
  cases contents : s.manager.contents.read queue with
  | nil => exact sound
  | cons message rest =>
    have waiting : pend s queue = message :: pend (emptied s queue rest) queue := by
      rw [emptied_pend]
      unfold pend
      rw [contents]
      rfl
    rw [waiting] at split restored
    have published := consistent.published c.key message (by rw [split]; simp)
    have onward : (emptied s queue rest).manager.stored c.key = (read ++ [message]) ++ pend (emptied s queue rest) queue :=
      split.trans (by simp)
    have later : ∀ other ∈ pend (emptied s queue rest) queue, c.restores other = true ∨ c.reading codec other = .skips :=
      fun other member => restored other (List.mem_cons_of_mem _ member)
    have mine := restored message List.mem_cons_self
    dsimp only
    rw [if_neg (by rw [published.topic]; simp)]
    cases reads : c.reading codec message with
    | ends =>
      have restores : c.restores message = true := mine.resolve_right (by simp [reads])
      refine soundAt_left (s:=emptied s queue rest) (c:=c) ⟨rfl,rfl⟩ rfl ?_ fun _ => ?_
      · have all : wanted codec c (s.manager.stored c.key) = wanted codec c read := by
          rw [split,wanted_append open_,wanted_ended restores reads,List.append_nil]
        exact yielded.trans all.symm
      · exact ⟨message,by rw [onward]; simp,restores,reads⟩
    | skips =>
      have spent : Spent codec c [message] := fun other member _ => by rw [List.mem_singleton.mp member]; exact reads
      refine soundAt_live (s:=emptied s queue rest) (c:=c) (.inl phase) ⟨rfl,rfl⟩ rfl ready.found ready onward ?_ ?_ later
      · rw [wanted_append open_,(spent_wanted spent).1,List.append_nil]
        exact yielded
      · rw [concluded_append]
        exact fun either => either.elim open_ (spent_wanted spent).2
    | fails => exact absurd reads (reading_published published)
    | yields frame =>
      obtain ⟨active,found⟩ := ready.found
      have restores : c.restores message = true := mine.resolve_right (by simp [reads])
      rw [found]
      refine soundAt_live (s:=emptied s queue rest) (c:=c) (.inl phase) ⟨rfl,rfl⟩ rfl ⟨active,rfl⟩ ready onward ?_ ?_ later
      · rw [wanted_append open_,wanted_one restores reads,← yielded]
        rfl
      · rw [concluded_append]
        exact fun either => either.elim open_ (open_one reads)

-- A look at a run that is still active leads back to the queue, at one that is
-- settled out of the join.
theorem goLook_sound (phase : c.phase = .looking queue) (sound : SoundAt codec s c) (resumes : Resumes w s c)
    (care : Careful codec w s c) : SoundAt codec (goLook codec w s c queue).1 (goLook codec w s c queue).2 := by
  unfold SoundAt Sound pendOf at sound
  unfold Careful at care
  unfold Resumes at resumes
  rw [phase] at sound care resumes
  obtain ⟨ready,read,split,yielded,open_,restored⟩ := sound
  obtain ⟨active,found⟩ := resumes
  dsimp only [runQueue] at split restored care
  unfold goLook
  rw [found] at care ⊢
  dsimp only
  cases active with
  | true => exact soundAt_live (s:=s) (c:=c) (.inl rfl) ⟨rfl,rfl⟩ rfl ⟨true,rfl⟩ ready split yielded open_ restored
  | false =>
    refine soundAt_left (s:=s) (c:=c) ⟨rfl,rfl⟩ rfl ?_ (by simp)
    rw [split,wanted_append open_,(spent_wanted (care rfl)).1,List.append_nil]
    exact yielded

theorem runClient_sound (consistent : Consistent codec s) (sound : SoundAt codec s c) (resumes : Resumes w s c)
    (care : Careful codec w s c) : SoundAt codec (runClient codec w s c).1 (runClient codec w s c).2 := by
  have here := sound
  unfold SoundAt Sound pendOf at here
  have cares := care
  unfold Careful at cares
  have begins := resumes
  unfold Resumes at begins
  unfold runClient
  cases phase : c.phase with
  | subscribing =>
    rw [phase] at here
    have added := subscribe_fresh consistent w.currentMs c.key
    refine ⟨here,?_⟩
    have empty := added.empty
    simp only [pendOf,runQueue]
    rw [empty]
    exact List.nil_suffix
  | joining queue =>
    rw [phase] at here cares begins
    obtain ⟨yielded,behind⟩ := here
    obtain ⟨⟨id,cursor,message,stored,stamped⟩,active,found⟩ := begins
    have held : (s.manager.messageStores.find c.key).isNone = false := by
      cases none_ : s.manager.messageStores.find c.key with
      | none => simp [StreamManager.stored,none_] at stored
      | some _ => rfl
    have plain : c.copied s = none := by simp [RunClient.copied,cursor,held]
    have reached : ¬ (lastId s.manager).Before id := by
      obtain ⟨_,_,id',here,known⟩ := consistent.published c.key message stored
      rw [stamped] at here
      cases here
      exact known
    dsimp only
    rw [plain]
    generalize same : {c with found := w.found, phase := .joining queue} = c'
    have alike : Alike c c' := by rw [← same]; exact ⟨rfl,rfl⟩
    have key : c'.key = c.key := by rw [← same]
    have nothing : c'.yielded = [] := by rw [← same]; exact yielded
    have ready : Ready c' (lastId s.manager) := by rw [← same]; exact ⟨⟨id,cursor,reached⟩,active,found⟩
    refine goReplay_sound consistent (Nat.zero_le _) ready ?_ ?_ ?_ ?_
    · rw [nothing]
      rfl
    · intro concluded
      obtain ⟨_,member,_⟩ := concluded
      cases member
    · rw [key]
      exact behind
    · rw [key,List.drop_zero,alike.spent,alike.unread]
      exact cares
  | replaying queue copy position =>
    rw [phase] at here cares
    obtain ⟨rfl,ready,yielded,open_,bound,behind⟩ := here
    exact goReplay_sound consistent bound ready yielded open_ behind cares
  | waiting queue => exact goLive_sound consistent phase sound
  | looking queue => exact goLook_sound phase sound resumes care
  | reporting queue =>
    rw [phase] at here
    exact here.elim
  | ended ending => exact sound

end step

def more (codec : Codec) (s : Streaming) : StreamTask → Prop
  | .run c => SoundAt codec s c
  | _ => True

def resumes (w : Wake) (s : Streaming) : StreamTask → Prop
  | .run c => Resumes w s c
  | _ => True

def allowed (codec : Codec) (w : Wake) (s : Streaming) : StreamTask → Prop
  | .run c => Resumes w s c ∧ Careful codec w s c
  | _ => True

-- Nothing for a client is published once the run was settled and the client
-- has gone, unless after the terminal message.
def beside (codec : Codec) (_ : Wake) (s : Streaming) : StreamTask → StreamTask → Prop
  | .publish key event _ _,.run c => c.key = key → ∀ ending, c.phase = .ended ending → ending ≠ .done →
      Concluded codec c (s.manager.stored c.key) ∨ event = "control" ∨ modeMatches event c.streamMode = false
  | _,_ => True

section others
variable {codec : Codec} {s s' : Streaming} {c : RunClient}

theorem soundAt_quiet {aside : List Nat} (quiet : Quiet codec s s' aside) (owns : Owns s (.run c))
    (free : ∀ queue ∈ queuesOf (.run c), queue ∉ aside) (sound : SoundAt codec s c) : SoundAt codec s' c := by
  have same : pendOf s' c = pendOf s c := by
    unfold pendOf
    cases waits : runQueue c.phase with
    | none => rfl
    | some queue =>
      have mine : queue ∈ queuesOf (.run c) := by simp [run_queue waits]
      exact (quiet.keeps (.subscriber c.key) queue (owned_queue owns waits) (free queue mine)).2
  unfold SoundAt at *
  rw [same,quiet.stored,quiet.stamp]
  exact sound

theorem sound_later {log waiting : List Message} {last id : MessageId} (sound : Sound codec log waiting last c)
    (later : last.Before id) : Sound codec log waiting id c := by
  unfold Sound at *
  cases phase : c.phase with
  | subscribing => rw [phase] at sound; exact sound
  | joining queue => rw [phase] at sound; exact sound
  | replaying queue copy position =>
    rw [phase] at sound
    obtain ⟨plain,ready,rest⟩ := sound
    exact ⟨plain,ready_grows ready later,rest⟩
  | waiting queue =>
    rw [phase] at sound
    exact ⟨ready_grows sound.1 later,sound.2⟩
  | looking queue =>
    rw [phase] at sound
    exact ⟨ready_grows sound.1 later,sound.2⟩
  | reporting queue => rw [phase] at sound; exact sound
  | ended ending => rw [phase] at sound; exact sound

theorem reading_silent {message : Message} {event : String} {payload : List UInt8} (data : message.data = codec.encode event payload)
    (silent : event = "control" ∨ modeMatches event c.streamMode = false) (frame : Frame) :
    c.reading codec message ≠ .yields frame := by
  unfold RunClient.reading
  rw [data,codec.decodes]
  dsimp only
  split
  · split <;> simp
  · rename_i other
    rw [if_neg (by simpa using silent.resolve_left other)]
    simp

theorem soundAt_fed {key : RunKey} {message : Message} {event : String} {payload : List UInt8} (fed : Fed codec s s' key message)
    (data : message.data = codec.encode event payload) (owns : Owns s (.run c)) (sound : SoundAt codec s c)
    (care : c.key = key → ∀ ending, c.phase = .ended ending → ending ≠ .done →
      Concluded codec c (s.manager.stored c.key) ∨ event = "control" ∨ modeMatches event c.streamMode = false) :
    SoundAt codec s' c := by
  have waits : ∀ queue, runQueue c.phase = some queue → pend s' queue = pend s queue ++ if c.key = key then [message] else [] := by
    intro queue waiting
    have kept := (fed.keeps (.subscriber c.key) queue (owned_queue owns waiting)).2
    simpa using kept
  unfold SoundAt at *
  rw [fed.stored]
  by_cases mine : key = c.key
  · subst mine
    rw [if_pos rfl]
    refine sound_fed sound fed.stamp fed.later _ ?_ ?_
    · intro holding
      unfold pendOf
      cases waiting : runQueue c.phase with
      | none => exact absurd waiting holding
      | some queue =>
        have kept := waits queue waiting
        rw [if_pos rfl] at kept
        exact kept
    · intro ending phase other
      rcases care rfl ending phase other with ended | silent
      · exact .inl ended
      · exact .inr (reading_silent data silent)
  · have same : pendOf s' c = pendOf s c := by
      unfold pendOf
      cases waiting : runQueue c.phase with
      | none => rfl
      | some queue =>
        have kept := waits queue waiting
        rw [if_neg (Ne.symm mine),List.append_nil] at kept
        exact kept
    rw [if_neg mine,same]
    exact sound_later sound fed.later

theorem outline : TaskPool.Outline (resume codec) fresh (allowed codec) (beside codec) (Consistent codec)
    (fun s task => (Owns s task ∧ Valid task) ∧ more codec s task) Apart := by
  refine TaskPool.outline_layer (ClientQueues.outline _ _) ?_ ?_ ?_
  · intro s task _ begins
    cases task with
    | run c =>
      obtain ⟨_,_,_,_,rfl⟩ := begins
      rfl
    | _ => trivial
  · intro w s task care consistent mine sound u spawned
    cases task with
    | publish key event payload resumable => simp [resume] at spawned
    | create key => simp [resume] at spawned
    | deliveries =>
      rw [List.mem_singleton.mp spawned]
      trivial
    | run c =>
      rw [List.mem_singleton.mp spawned]
      exact runClient_sound consistent sound care.1 care.2
    | thread c =>
      rw [List.mem_singleton.mp spawned]
      trivial
  · intro w s task other _ near consistent mine theirs apart sound
    cases other with
    | run c =>
      have free : ∀ queue ∈ queuesOf (.run c), queue ∉ queuesOf task := fun queue there here => apart queue here there
      cases task with
      | publish key event payload resumable =>
        obtain rfl : resumable = true := mine.2
        exact soundAt_fed (publish_fed consistent w.currentMs key event payload) rfl theirs.1 sound near
      | create key => exact sound
      | deliveries => exact soundAt_quiet (deliver_quiet consistent) theirs.1 (by simp) sound
      | run other => exact soundAt_quiet (runClient_moves consistent mine.1).quiet theirs.1 free sound
      | thread other => exact soundAt_quiet (threadClient_moves consistent mine.1).quiet theirs.1 free sound
    | _ => trivial

end others

-- What a resumed client has been given: the wanted frames of the log, from the
-- first one on, each once and in order. In its live phase, also while it looks
-- at the run, the others wait in the queue; when it has ended there are no others.
structure ExactlyOnce (codec : Codec) (s : Streaming) (c : RunClient) : Prop where
  ordered : (c.yielded.map Frame.id).Pairwise Earlier
  genuine : c.yielded <+: wanted codec c (s.manager.stored c.key)
  ahead : ∀ queue, c.phase = .waiting queue ∨ c.phase = .looking queue →
    wanted codec c (s.manager.stored c.key) = c.yielded ++ wanted codec c (pend s queue)
  complete : ∀ ending, c.phase = .ended ending → c.yielded = wanted codec c (s.manager.stored c.key)

section result
variable {codec : Codec} {s : Streaming} {c : RunClient}

theorem reading_id {message : Message} {frame : Frame} (reads : c.reading codec message = .yields frame) :
    frame.id = message.id := by
  unfold RunClient.reading at reads
  split at reads
  · cases reads
  · split at reads
    · split at reads <;> cases reads
    · split at reads
      · cases reads
        rfl
      · cases reads

theorem wanted_ids (log : List Message) : ((wanted codec c log).map Frame.id).Sublist (log.map Message.id) := by
  induction log with
  | nil => exact .slnil
  | cons message rest ih =>
    simp only [wanted,List.map_cons]
    split
    · split
      · exact List.nil_sublist _
      · rename_i frame reads
        rw [List.map_cons,reading_id reads]
        exact ih.cons_cons _
      · exact ih.cons _
    · exact ih.cons _

theorem ahead (sound : SoundAt codec s c) {queue : Nat} (phase : c.phase = .waiting queue ∨ c.phase = .looking queue) :
    wanted codec c (s.manager.stored c.key) = c.yielded ++ wanted codec c (pend s queue) := by
  have live : Live codec (s.manager.stored c.key) (pend s queue) (lastId s.manager) c := by
    unfold SoundAt Sound pendOf at sound
    rcases phase with waits | looks
    · rw [waits] at sound
      exact sound
    · rw [looks] at sound
      exact sound
  obtain ⟨_,read,split,yielded,open_,_⟩ := live
  rw [split,wanted_append open_,yielded]

theorem exactly_once (consistent : Consistent codec s) (sound : SoundAt codec s c) : ExactlyOnce codec s c := by
  have genuine : c.yielded <+: wanted codec c (s.manager.stored c.key) := by
    have here := sound
    unfold SoundAt Sound at here
    cases phase : c.phase with
    | subscribing => rw [phase] at here; rw [here]; exact List.nil_prefix
    | joining queue => rw [phase] at here; rw [here.1]; exact List.nil_prefix
    | replaying queue copy position =>
      rw [phase] at here
      obtain ⟨_,_,yielded,open_,_,_⟩ := here
      rw [yielded,← List.take_append_drop position (s.manager.stored c.key),wanted_append (by simpa using open_)]
      simp
    | waiting queue =>
      rw [ahead sound (.inl phase)]
      exact List.prefix_append _ _
    | looking queue =>
      rw [ahead sound (.inr phase)]
      exact List.prefix_append _ _
    | reporting queue =>
      rw [phase] at here
      exact here.elim
    | ended ending =>
      rw [phase] at here
      exact ⟨[],by rw [List.append_nil,here.1]⟩
  refine ⟨?_,genuine,fun _ phase => ahead sound phase,?_⟩
  · have sorted : ((s.manager.stored c.key).map Message.id).Pairwise Earlier :=
      List.pairwise_map.mpr (consistent.ordered c.key)
    exact (sorted.sublist (wanted_ids _)).sublist (genuine.sublist.map _)
  · intro ending phase
    unfold SoundAt Sound at sound
    rw [phase] at sound
    exact sound.1

end result

def toyKey : RunKey := ⟨some "t","r"⟩

def wakes (now : Int) : Wake := ⟨now,false,some ⟨true,true⟩⟩

def joins : StreamTask := .run (subscriber toyKey [] (some (.after ⟨1,0⟩)) false)

-- A publication at its time, as the task at the place it gets.
def tells (place : Nat) (now : Int) (payload : List UInt8) : List Event :=
  [.call (.publish toyKey "values" payload true),.resume place (wakes now)]

def going : StreamTask → Bool
  | .run ⟨_,_,_,_,_,.ended _,_⟩ => false
  | _ => true

theorem respects_going {codec : Codec} {p : Pool} {index : Nat} {w : Wake} {task : StreamTask}
    (found : p.tasks[index]? = some task) (ok : allowed codec w p.shared task) (all : p.tasks.all going = true) :
    TaskPool.Respects fresh (allowed codec) (beside codec) (p,.resume index w) := by
  refine TaskPool.respects_resume found ok fun other member => ?_
  have open_ := List.all_eq_true.mp all other member
  cases task with
  | publish key event payload resumable =>
    cases other with
    | run c =>
      intro _ ending phase
      obtain ⟨_,_,_,_,_,_,_⟩ := c
      cases phase
      cases open_
    | _ => trivial
  | _ => trivial

end InmemRuntime.RunReplay
