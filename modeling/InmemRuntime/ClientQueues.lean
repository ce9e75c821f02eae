import InmemRuntime.StreamFeeds

namespace InmemRuntime.ClientQueues
open OrderedDict ObjectHeap Streams StreamUpkeep StreamClients StreamFeeds

def runQueue : RunPhase → Option Nat
  | .joining queue | .replaying queue _ _ | .waiting queue | .looking queue | .reporting queue => some queue
  | _ => none

-- Where a queue of a thread's client is registered.
def place (c : ThreadClient) (row : String × Nat) : Holder :=
  if c.streamQueue = some row.2 then .watcher c.threadId else .subscriber ⟨some c.threadId,row.1⟩

def alive : ThreadPhase → Bool
  | .ended _ => false
  | _ => true

def threadRows (c : ThreadClient) : List (String × Nat) := if alive c.phase then c.created else []

-- The queues that a task has been given and not given back.
def held : StreamTask → List (Holder × Nat)
  | .run c => (runQueue c.phase).toList.map fun queue => (.subscriber c.key,queue)
  | .thread c => (threadRows c).map fun row => (place c row,row.2)
  | _ => []

def queuesOf (task : StreamTask) : List Nat := (held task).map Prod.snd

def workRows : ThreadPhase → List (String × Nat)
  | .draining pass retired | .finishing pass retired => pass ++ retired
  | _ => []

-- What one pass of a thread's client may rely on.
structure Orderly (s : Streaming) (c : ThreadClient) : Prop where
  work : ∀ row ∈ workRows c.phase, row ∈ c.created
  unwatched : c.threadId ∉ c.seen → c.created = []
  stream : ∀ queue, c.streamQueue = some queue → queue < s.manager.contents.next

structure Owns (s : Streaming) (task : StreamTask) : Prop where
  registered : ∀ row ∈ held task, row.2 ∈ registered s.manager row.1
  single : (queuesOf task).Nodup
  orderly : ∀ c, task = .thread c → Orderly s c

def Apart (task other : StreamTask) : Prop := ∀ queue ∈ queuesOf task, queue ∉ queuesOf other

-- A client's step disturbs its own queues only, and takes no other's.
structure Moves (codec : Codec) (s s' : Streaming) (task task' : StreamTask) : Prop where
  quiet : Quiet codec s s' (queuesOf task)
  owns : Owns s' task'
  fresh : ∀ queue ∈ queuesOf task', queue ∈ queuesOf task ∨ s.manager.contents.next ≤ queue

section moves
variable {codec : Codec} {s s' s'' : Streaming} {task task' task'' : StreamTask}

theorem Moves.trans (consistent : Consistent codec s) (first : Moves codec s s' task task') (second : Moves codec s' s'' task' task'') :
    Moves codec s s'' task task'' := by
  refine ⟨?_,second.owns,?_⟩
  · have both := first.quiet.trans second.quiet
    refine {both with keeps := ?_}
    intro holder queue member free
    have used := consistent.maintained.owned.used holder queue member
    apply both.keeps holder queue member
    intro there
    rcases List.mem_append.mp there with mine | later
    · exact free mine
    · rcases first.fresh queue later with mine | new
      · exact free mine
      · exact Nat.lt_irrefl _ (Nat.lt_of_lt_of_le used new)
  · intro queue member
    rcases second.fresh queue member with middle | new
    · exact first.fresh queue middle
    · exact .inr (Nat.le_trans first.quiet.next new)

theorem moves_within (quiet : Quiet codec s s' (queuesOf task)) (owns : Owns s' task') (within : queuesOf task' ⊆ queuesOf task) :
    Moves codec s s' task task' :=
  ⟨quiet,owns,fun _ member => .inl (within member)⟩

end moves

section run
variable {codec : Codec} {s : Streaming} {c : RunClient} {queue : Nat} {w : Wake}

theorem run_owns (waits : runQueue c.phase = some queue) (held : queue ∈ s.manager.getQueues c.key) : Owns s (.run c) := by
  refine ⟨?_,?_,fun _ other => by cases other⟩
  · intro row member
    simp only [ClientQueues.held,waits,Option.toList_some,List.map_cons,List.map_nil,List.mem_singleton] at member
    rw [member]
    exact held
  · simp [queuesOf,ClientQueues.held,waits]

theorem run_queue (waits : runQueue c.phase = some queue) : queuesOf (.run c) = [queue] := by
  simp [queuesOf,held,waits]

theorem owned_queue (owns : Owns s (.run c)) (waits : runQueue c.phase = some queue) : queue ∈ s.manager.getQueues c.key :=
  owns.registered (.subscriber c.key,queue) (by simp [held,waits])

theorem leave_moves (consistent : Consistent codec s) {before : RunClient} (waits : runQueue before.phase = some queue) (ending : Ending) :
    Moves codec s (leave s c queue ending).1 (.run before) (.run (leave s c queue ending).2) := by
  have nothing : queuesOf (.run (leave s c queue ending).2) = [] := rfl
  refine moves_within ?_ ⟨by simp [held,leave,runQueue],by simp [nothing],fun _ other => by cases other⟩ (by simp [nothing])
  rw [run_queue waits]
  exact removeQueue_quiet consistent c.key queue

theorem stays_moves (consistent : Consistent codec s) {before after : RunClient} (waits : runQueue before.phase = some queue)
    (still : runQueue after.phase = some queue) (same : after.key = before.key) (owns : Owns s (.run before)) :
    Moves codec s s (.run before) (.run after) := by
  refine moves_within ((Quiet.refl consistent).weaken (by simp)) ?_ ?_
  · exact run_owns still (same ▸ owned_queue owns waits)
  · rw [run_queue waits,run_queue still]
    exact List.Subset.refl _

theorem goReplay_moves (consistent : Consistent codec s) {before : RunClient} (waits : runQueue before.phase = some queue)
    (same : c.key = before.key) (owns : Owns s (.run before)) (copy : Option (List Message)) (position : Nat) :
    Moves codec s (goReplay codec s c queue copy position).1 (.run before) (.run (goReplay codec s c queue copy position).2) := by
  unfold goReplay
  split
  · exact stays_moves consistent waits rfl same owns
  · exact stays_moves consistent waits rfl same owns
  · exact leave_moves consistent waits .done
  · exact leave_moves consistent waits .failed

theorem goLive_moves (consistent : Consistent codec s) (waits : c.phase = .waiting queue) (owns : Owns s (.run c)) :
    Moves codec s (goLive codec w s c queue).1 (.run c) (.run (goLive codec w s c queue).2) := by
  have mine : runQueue c.phase = some queue := by rw [waits]; rfl
  unfold goLive
  split
  · exact stays_moves consistent mine rfl rfl owns
  · split
    · exact stays_moves consistent mine mine rfl owns
    · rename_i message rest _
      have popped : Quiet codec s (emptied s queue rest) (queuesOf (.run c)) := by
        rw [run_queue mine]
        exact emptied_quiet consistent queue rest
      have listed : queue ∈ s.manager.getQueues c.key := owned_queue owns mine
      have here : queue ∈ (emptied s queue rest).manager.getQueues c.key := listed
      have keep : ∀ c' : RunClient, runQueue c'.phase = some queue → c'.key = c.key →
          Moves codec s (emptied s queue rest) (.run c) (.run c') := by
        intro c' still same
        refine moves_within popped (run_owns still (same ▸ here)) ?_
        rw [run_queue mine,run_queue still]
        exact List.Subset.refl _
      have stop : ∀ ending, Moves codec s (leave (emptied s queue rest) c queue ending).1 (.run c)
          (.run (leave (emptied s queue rest) c queue ending).2) := by
        intro ending
        exact (keep c mine rfl).trans consistent (leave_moves popped.consistent mine ending)
      dsimp only
      split
      · exact stop .closed
      · split
        · exact stop .done
        · exact keep c mine rfl
        · exact stop .failed
        · split
          · exact stop .failed
          · exact keep _ mine rfl

theorem goLook_moves (consistent : Consistent codec s) (looks : c.phase = .looking queue) (owns : Owns s (.run c)) :
    Moves codec s (goLook codec w s c queue).1 (.run c) (.run (goLook codec w s c queue).2) := by
  have mine : runQueue c.phase = some queue := by rw [looks]; rfl
  unfold goLook
  dsimp only
  split
  · split
    · exact leave_moves consistent mine .missing
    · exact stays_moves consistent mine rfl rfl owns
  · split
    · exact stays_moves consistent mine rfl rfl owns
    · exact leave_moves consistent mine .settled

theorem runClient_moves (consistent : Consistent codec s) (owns : Owns s (.run c)) :
    Moves codec s (runClient codec w s c).1 (.run c) (.run (runClient codec w s c).2) := by
  unfold runClient
  cases phase : c.phase with
  | subscribing =>
    have added := subscribe_fresh consistent w.currentMs c.key
    refine ⟨added.quiet.weaken (by simp),run_owns rfl added.held,?_⟩
    intro queue member
    simp only [run_queue (c:={c with phase := .joining (s.manager.subscribe w.currentMs c.key).2}) rfl,List.mem_singleton] at member
    rw [member,added.new]
    exact .inr (Nat.le_refl _)
  | joining queue => exact goReplay_moves consistent (by rw [phase]; rfl) (by rfl) owns _ _
  | replaying queue copy position => exact goReplay_moves consistent (by rw [phase]; rfl) (by rfl) owns _ _
  | waiting queue => exact goLive_moves consistent phase owns
  | looking queue => exact goLook_moves consistent phase owns
  | reporting queue => exact leave_moves consistent (by rw [phase]; rfl) .missing
  | ended ending => exact ⟨(Quiet.refl consistent).weaken (by simp),owns,fun _ member => .inl member⟩

end run

section thread
variable {codec : Codec} {s : Streaming} {c : ThreadClient} {w : Wake}

theorem queues_thread (live : alive c.phase = true) : queuesOf (.thread c) = c.created.map Prod.snd := by
  simp [queuesOf,held,threadRows,live]

theorem removeQueues_quiet (consistent : Consistent codec s) (threadId : String) (rows : List (String × Nat)) :
    Quiet codec s {s with manager := rows.foldl (fun m row => m.removeQueue ⟨some threadId,row.1⟩ row.2) s.manager}
      (rows.map Prod.snd) := by
  induction rows generalizing s with
  | nil => exact Quiet.refl consistent
  | cons row rest ih =>
    have first := removeQueue_quiet consistent ⟨some threadId,row.1⟩ row.2
    exact first.trans (ih first.consistent)

theorem giveBack_moves (consistent : Consistent codec s) (live : alive c.phase = true) (orderly : Orderly s c) (ending : Ending) :
    Moves codec s (c.giveBack s ending).1 (.thread c) (.thread (c.giveBack s ending).2) := by
  have released : ∀ (rows : List (String × Nat)) s, Consistent codec s → Quiet codec s {s with
      manager := rows.foldl (fun m row => if c.streamQueue = some row.2 then m.removeThreadStream c.threadId row.2
        else m.removeQueue ⟨some c.threadId,row.1⟩ row.2) s.manager} (rows.map Prod.snd) := by
    intro rows
    induction rows with
    | nil => exact fun s consistent => Quiet.refl consistent
    | cons row rest ih =>
      intro s consistent
      rw [List.foldl_cons]
      split
      · have first := removeThreadStream_quiet consistent c.threadId row.2
        exact first.trans (ih _ first.consistent)
      · have first := removeQueue_quiet consistent ⟨some c.threadId,row.1⟩ row.2
        exact first.trans (ih _ first.consistent)
  have quiet := released c.created s consistent
  have nothing : queuesOf (.thread (c.giveBack s ending).2) = [] := rfl
  refine moves_within ?_ ⟨by simp [held,threadRows,ThreadClient.giveBack,alive],by simp [nothing],?_⟩ (by simp [nothing])
  · rw [queues_thread live]
    exact quiet
  · intro after same
    cases same
    exact ⟨by simp [workRows,ThreadClient.giveBack],orderly.unwatched,fun queue known => Nat.lt_of_lt_of_le (orderly.stream queue known) quiet.next⟩

-- The client goes on in another phase, and its queues are as they were.
theorem rows_moves {s' : Streaming} (quiet : Quiet codec s s' (queuesOf (.thread c))) (live : alive c.phase = true)
    (owns : Owns s (.thread c)) {after : ThreadClient} (live' : alive after.phase = true)
    (thread : after.threadId = c.threadId) (stream : after.streamQueue = c.streamQueue)
    (within : after.created ⊆ c.created) (single : (after.created.map Prod.snd).Nodup)
    (still : ∀ row ∈ after.created, row.2 ∈ registered s'.manager (place c row))
    (work : ∀ row ∈ workRows after.phase, row ∈ after.created) (seen : after.seen = c.seen) :
    Moves codec s s' (.thread c) (.thread after) := by
  have orderly := owns.orderly c rfl
  refine moves_within quiet ⟨?_,?_,?_⟩ ?_
  · intro row member
    simp only [held,threadRows,live',↓reduceIte] at member
    obtain ⟨row,listed,rfl⟩ := List.mem_map.mp member
    have same : place after row = place c row := by simp [place,stream,thread]
    rw [same]
    exact still row listed
  · rw [queues_thread live']
    exact single
  · intro other equal
    cases equal
    refine ⟨work,?_,?_⟩
    · intro unseen
      rw [seen,thread] at unseen
      have none_ := orderly.unwatched unseen
      exact List.eq_nil_iff_forall_not_mem.mpr fun row member => by simpa [none_] using within member
    · intro queue known
      rw [stream] at known
      exact Nat.lt_of_lt_of_le (orderly.stream queue known) quiet.next
  · rw [queues_thread live,queues_thread live']
    exact List.map_subset _ within

theorem owned_row (owns : Owns s (.thread c)) (live : alive c.phase = true) {row : String × Nat} (member : row ∈ c.created) :
    row.2 ∈ registered s.manager (place c row) := by
  apply owns.registered (place c row,row.2)
  simp only [held,threadRows,live,↓reduceIte]
  exact List.mem_map.mpr ⟨row,member,rfl⟩

-- Emptying one of its queues leaves a client all of them.
theorem emptied_moves (consistent : Consistent codec s) (live : alive c.phase = true) (owns : Owns s (.thread c))
    {row : String × Nat} (mine : row ∈ c.created) (left : List Message) {after : ThreadClient}
    (live' : alive after.phase = true) (thread : after.threadId = c.threadId)
    (stream : after.streamQueue = c.streamQueue) (same : after.created = c.created)
    (work : ∀ row ∈ workRows after.phase, row ∈ c.created) (seen : after.seen = c.seen) :
    Moves codec s (emptied s row.2 left) (.thread c) (.thread after) := by
  have single := owns.single
  rw [queues_thread live] at single
  have quiet : Quiet codec s (emptied s row.2 left) (queuesOf (.thread c)) := by
    apply (emptied_quiet consistent row.2 left).weaken
    rw [queues_thread live]
    intro queue equal
    rw [List.mem_singleton.mp equal]
    exact List.mem_map.mpr ⟨row,mine,rfl⟩
  refine rows_moves quiet live owns live' thread stream (by rw [same]; exact List.Subset.refl _) (by rw [same]; exact single)
    ?_ (by rw [same]; exact work) seen
  intro other member
  rw [same] at member
  have here := owned_row owns live member
  generalize place c other = holder at here ⊢
  cases holder <;> exact here

theorem goThrough_moves (consistent : Consistent codec s) (live : alive c.phase = true) (owns : Owns s (.thread c))
    (pass retired : List (String × Nat)) (listed : ∀ row ∈ pass, row ∈ c.created) (done : ∀ row ∈ retired, row ∈ c.created) :
    Moves codec s (c.goThrough codec s retired pass).1 (.thread c) (.thread (c.goThrough codec s retired pass).2) := by
  induction pass generalizing s retired with
  | nil =>
    unfold ThreadClient.goThrough
    have single := owns.single
    rw [queues_thread live] at single
    have remain : ∀ row, row ∈ retired.foldl List.erase c.created ↔ row ∈ c.created ∧ row ∉ retired := by
      intro row
      rw [← List.diff_eq_foldl]
      exact (List.Nodup.of_map _ single).mem_sdiff_iff
    have within : retired.foldl List.erase c.created ⊆ c.created := fun row member => ((remain row).mp member).1
    have removed := removeQueues_quiet consistent c.threadId retired
    have quiet : Quiet codec s _ (queuesOf (.thread c)) :=
      removed.weaken (by rw [queues_thread live]; exact List.map_subset _ done)
    refine rows_moves quiet live owns rfl rfl rfl within ?_ ?_ (by simp [workRows]) rfl
    · rw [← List.diff_eq_foldl]
      exact single.sublist ((List.diff_sublist _ _).map _)
    · intro row member
      obtain ⟨old,kept⟩ := (remain row).mp member
      apply (removed.keeps (place c row) row.2 (owned_row owns live old) ?_).1
      intro there
      obtain ⟨other,gone,same⟩ := List.mem_map.mp there
      have equal : other = row := List.inj_on_of_nodup_map single (done other gone) old same
      exact kept (equal ▸ gone)
  | cons row rest ih =>
    have mine : row ∈ c.created := listed row List.mem_cons_self
    have later : ∀ other ∈ rest, other ∈ c.created := fun other member => listed other (List.mem_cons_of_mem _ member)
    have retire : ∀ other ∈ c.retire row retired, other ∈ c.created := by
      intro other member
      unfold ThreadClient.retire at member
      split at member
      · exact done other member
      · rcases List.mem_append.mp member with old | new
        · exact done other old
        · rw [List.mem_singleton.mp new]
          exact mine
    have work : ∀ other ∈ row :: rest ++ retired, other ∈ c.created := by
      intro other member
      rcases List.mem_append.mp member with first | second
      · exact listed other first
      · exact done other second
    have on : ∀ left, Moves codec s (emptied s row.2 left) (.thread c) (.thread c) := fun left =>
      emptied_moves consistent live owns mine left live rfl rfl rfl (owns.orderly c rfl).work rfl
    unfold ThreadClient.goThrough
    split
    · exact (on []).trans consistent (ih (on []).quiet.consistent (on []).owns retired later done)
    · exact emptied_moves consistent live owns mine _ rfl rfl rfl rfl work rfl
    · exact emptied_moves consistent live owns mine _ rfl rfl rfl rfl work rfl
    · rename_i left _
      exact (on left).trans consistent (ih (on left).quiet.consistent (on left).owns _ later retire)
    · rename_i left _
      exact (on left).trans consistent (giveBack_moves (on left).quiet.consistent live ((on left).owns.orderly c rfl) .closed)

-- A new queue at the end of a client's rows.
theorem grown_moves (consistent : Consistent codec s) (live : alive c.phase = true) (owns : Owns s (.thread c)) {s' : Streaming}
    {row : String × Nat} {after : ThreadClient} (made : Fresh codec s s' (place after row) row.2)
    (live' : alive after.phase = true) (grown : after.created = c.created ++ [row])
    (places : ∀ old ∈ c.created, place after old = place c old) (work : workRows after.phase = workRows c.phase)
    (seen : after.threadId ∈ after.seen) (stream : ∀ queue, after.streamQueue = some queue → queue < s'.manager.contents.next) :
    Moves codec s s' (.thread c) (.thread after) := by
  have single := owns.single
  rw [queues_thread live] at single
  have used : ∀ old ∈ c.created, old.2 < s.manager.contents.next :=
    fun old member => consistent.maintained.owned.used _ _ (owned_row owns live member)
  refine ⟨made.quiet.weaken (by simp),⟨?_,?_,?_⟩,?_⟩
  · intro holding member
    simp only [held,threadRows,live',↓reduceIte,grown] at member
    obtain ⟨listed,there,rfl⟩ := List.mem_map.mp member
    rcases List.mem_append.mp there with old | new
    · have here := owned_row owns live old
      rw [← places listed old] at here
      exact (made.quiet.keeps _ _ here (by simp)).1
    · rw [List.mem_singleton.mp new]
      exact made.held
  · rw [queues_thread live',grown,List.map_append]
    apply List.Nodup.append single (List.nodup_singleton _)
    intro queue old new
    obtain ⟨listed,there,rfl⟩ := List.mem_map.mp old
    have bound := used listed there
    rw [List.mem_singleton.mp new,made.new] at bound
    exact Nat.lt_irrefl _ bound
  · intro other equal
    cases equal
    refine ⟨?_,fun unseen => absurd seen unseen,stream⟩
    intro working member
    rw [work] at member
    rw [grown]
    exact List.mem_append_left _ ((owns.orderly c rfl).work working member)
  · intro queue member
    rw [queues_thread live',grown] at member
    obtain ⟨listed,there,rfl⟩ := List.mem_map.mp member
    rcases List.mem_append.mp there with old | new
    · rw [queues_thread live]
      exact .inl (List.mem_map.mpr ⟨listed,old,rfl⟩)
    · rw [List.mem_singleton.mp new,made.new]
      exact .inr (Nat.le_refl _)

theorem stays_thread (consistent : Consistent codec s) (owns : Owns s (.thread c)) : Moves codec s s (.thread c) (.thread c) :=
  ⟨(Quiet.refl consistent).weaken (by simp),owns,fun _ member => .inl member⟩

theorem watch_moves (consistent : Consistent codec s) (live : alive c.phase = true) (owns : Owns s (.thread c)) (now : Int) :
    Moves codec s (c.watch now s).1 (.thread c) (.thread (c.watch now s).2) := by
  unfold ThreadClient.watch
  split
  · exact stays_thread consistent owns
  · rename_i unseen
    have made := addThreadStream_fresh consistent now c.threadId
    have here : (s.manager.addThreadStream now c.threadId).2 ∈
        (s.manager.addThreadStream now c.threadId).1.threadQueues c.threadId := made.held
    have none_ : c.created = [] := (owns.orderly c rfl).unwatched (by simpa using unseen)
    have place_ : place {c with
        seen := c.seen ++ [c.threadId]
        created := c.created ++ [(c.threadId,(s.manager.addThreadStream now c.threadId).2)]
        streamQueue := some (s.manager.addThreadStream now c.threadId).2}
        (c.threadId,(s.manager.addThreadStream now c.threadId).2) = .watcher c.threadId := if_pos rfl
    dsimp only
    rw [if_pos (by simpa using here)]
    refine grown_moves consistent live owns ?_ live rfl ?_ rfl ?_ ?_
    · rw [place_]
      exact made
    · simp [none_]
    · simp
    · intro queue same
      obtain rfl := Option.some.inj same
      exact made.grown

theorem watch_keeps (now : Int) (s : Streaming) (c : ThreadClient) : (c.watch now s).2.phase = c.phase ∧
    (c.watch now s).2.threadId = c.threadId ∧ c.threadId ∈ (c.watch now s).2.seen := by
  unfold ThreadClient.watch
  split
  · rename_i seen
    exact ⟨rfl,rfl,by simpa using seen⟩
  · exact ⟨rfl,rfl,by simp⟩

theorem follow_moves (consistent : Consistent codec s) (live : alive c.phase = true) (owns : Owns s (.thread c))
    (seen : c.threadId ∈ c.seen) (now : Int) (runs : List RunKey) :
    Moves codec s (c.follow now s runs).1 (.thread c) (.thread (c.follow now s runs).2) ∧
      (c.follow now s runs).2.phase = c.phase := by
  induction runs generalizing s c with
  | nil => exact ⟨stays_thread consistent owns,rfl⟩
  | cons key rest ih =>
    unfold ThreadClient.follow
    split
    · rename_i unseen
      have made := addQueue_fresh consistent now key
      have stream := (owns.orderly c rfl).stream
      have same : (⟨some c.threadId,key.runId⟩ : RunKey) = key := by rw [← unseen.1]
      have other : c.streamQueue ≠ some (s.manager.addQueue now key).2 := by
        intro equal
        have bound := stream _ equal
        rw [made.new] at bound
        exact Nat.lt_irrefl _ bound
      have first : Moves codec s {s with manager := (s.manager.addQueue now key).1} (.thread c) (.thread {c with
          seen := c.seen ++ [key.runId]
          created := c.created ++ [(key.runId,(s.manager.addQueue now key).2)]}) := by
        refine grown_moves consistent live owns ?_ live rfl (fun _ _ => rfl) rfl (List.mem_append_left _ seen) ?_
        · unfold place
          rw [if_neg other,same]
          exact made
        · intro queue known
          exact Nat.lt_of_lt_of_le (stream queue known) made.quiet.next
      obtain ⟨later,phase⟩ := ih first.quiet.consistent (by exact live) first.owns (List.mem_append_left _ seen)
      exact ⟨first.trans consistent later,phase⟩
    · exact ih consistent live owns seen

-- A poll first looks for the thread's stream and for new runs.
theorem poll_joins (consistent : Consistent codec s) (live : alive c.phase = true) (owns : Owns s (.thread c)) (now : Int) :
    c.threadId ∈ (c.watch now s).2.seen ∧ alive (c.watch now s).2.phase = true ∧
      Moves codec s (c.watch now s).1 (.thread c) (.thread (c.watch now s).2) ∧
      Moves codec (c.watch now s).1 ((c.watch now s).2.follow now (c.watch now s).1 (c.watch now s).1.runs).1
        (.thread (c.watch now s).2) (.thread ((c.watch now s).2.follow now (c.watch now s).1 (c.watch now s).1.runs).2) ∧
      alive ((c.watch now s).2.follow now (c.watch now s).1 (c.watch now s).1.runs).2.phase = true := by
  have watched := watch_moves consistent live owns now
  obtain ⟨phase,thread,seen⟩ := watch_keeps now s c
  have live' : alive (c.watch now s).2.phase = true := by rw [phase]; exact live
  obtain ⟨followed,phase'⟩ := follow_moves watched.quiet.consistent live' watched.owns (thread.symm ▸ seen) now (c.watch now s).1.runs
  exact ⟨seen,live',watched,followed,by rw [phase']; exact live'⟩

theorem poll_moves (consistent : Consistent codec s) (live : alive c.phase = true) (owns : Owns s (.thread c)) :
    Moves codec s (c.poll codec w s).1 (.thread c) (.thread (c.poll codec w s).2) := by
  obtain ⟨_,_,watched,followed,live'⟩ := poll_joins consistent live owns w.currentMs
  have both := watched.trans consistent followed
  unfold ThreadClient.poll
  apply both.trans consistent
  exact goThrough_moves followed.quiet.consistent live' followed.owns _ [] (fun _ member => member) (by simp)

theorem replay_moves (consistent : Consistent codec s) (live : alive c.phase = true) (owns : Owns s (.thread c))
    (left : List (Message × String)) :
    Moves codec s (c.replay codec w s left).1 (.thread c) (.thread (c.replay codec w s left).2) := by
  have single := owns.single
  rw [queues_thread live] at single
  induction left with
  | nil => exact poll_moves consistent live owns
  | cons row rest ih =>
    unfold ThreadClient.replay
    split
    · exact rows_moves ((Quiet.refl consistent).weaken (by simp)) live owns rfl rfl rfl (List.Subset.refl _) single
        (fun _ member => owned_row owns live member) (by simp [workRows]) rfl
    · exact giveBack_moves consistent live (owns.orderly c rfl) .failed
    · exact ih

theorem threadClient_moves (consistent : Consistent codec s) (owns : Owns s (.thread c)) :
    Moves codec s (threadClient codec w s c).1 (.thread c) (.thread (threadClient codec w s c).2) := by
  have work := (owns.orderly c rfl).work
  unfold threadClient
  cases phase : c.phase with
  | joining => exact replay_moves consistent (by rw [phase]; rfl) owns _
  | replaying left => exact replay_moves consistent (by rw [phase]; rfl) owns left
  | polling => exact poll_moves consistent (by rw [phase]; rfl) owns
  | draining pass retired =>
    simp only [phase,workRows,List.mem_append] at work
    exact goThrough_moves consistent (by rw [phase]; rfl) owns pass retired (fun row member => work row (.inl member))
      fun row member => work row (.inr member)
  | finishing pass retired =>
    simp only [phase,workRows,List.mem_append] at work
    cases pass with
    | nil => exact goThrough_moves consistent (by rw [phase]; rfl) owns [] retired (by simp) fun row member => work row (.inr member)
    | cons row rest =>
      refine goThrough_moves consistent (by rw [phase]; rfl) owns rest _ (fun other member => work other (.inl (List.mem_cons_of_mem _ member))) ?_
      intro other member
      unfold ThreadClient.retire at member
      split at member
      · exact work other (.inr member)
      · rcases List.mem_append.mp member with old | new
        · exact work other (.inr old)
        · rw [List.mem_singleton.mp new]
          exact work row (.inl List.mem_cons_self)
  | ended ending => exact stays_thread consistent owns

end thread

-- Calls start without a queue, and what they publish can be resumed.
def fresh : StreamTask → Prop
  | .publish _ _ _ resumable => resumable = true
  | .create _ => True
  | .deliveries => False
  | .run c => ∃ key streamMode cursor ignore404, c = subscriber key streamMode cursor ignore404
  | .thread c => ∃ threadId streamModes cursor, c = watcher threadId streamModes cursor

section outline
variable {codec : Codec}

def Valid : StreamTask → Prop
  | .publish _ _ _ resumable => resumable = true
  | _ => True

theorem moves_keeps {s s' : Streaming} {task task' other : StreamTask} (consistent : Consistent codec s)
    (moves : Moves codec s s' task task') (owns : Owns s other) (apart : Apart task other) :
    Owns s' other ∧ Apart task' other := by
  have used : ∀ row ∈ held other, row.2 < s.manager.contents.next :=
    fun row member => consistent.maintained.owned.used row.1 row.2 (owns.registered row member)
  refine ⟨⟨?_,owns.single,?_⟩,?_⟩
  · intro row member
    apply (moves.quiet.keeps row.1 row.2 (owns.registered row member) ?_).1
    intro mine
    exact apart row.2 mine (List.mem_map.mpr ⟨row,member,rfl⟩)
  · intro c same
    obtain ⟨work,unwatched,stream⟩ := owns.orderly c same
    exact ⟨work,unwatched,fun queue known => Nat.lt_of_lt_of_le (stream queue known) moves.quiet.next⟩
  · intro queue member theirs
    rcases moves.fresh queue member with mine | new
    · exact apart queue mine theirs
    · obtain ⟨row,listed,rfl⟩ := List.mem_map.mp theirs
      exact Nat.lt_irrefl _ (Nat.lt_of_lt_of_le (used row listed) new)

theorem empty_owns {s : Streaming} {task : StreamTask} (none_ : held task = [])
    (orderly : ∀ c, task = .thread c → Orderly s c) : Owns s task ∧ ∀ other, Apart task other ∧ Apart other task := by
  have nothing : queuesOf task = [] := by simp [queuesOf,none_]
  refine ⟨⟨by simp [none_],by simp [nothing],orderly⟩,fun other => ⟨?_,?_⟩⟩
  · simp [Apart,nothing]
  · simp [Apart,nothing]

theorem fresh_owns (s : Streaming) {task : StreamTask} (begins : fresh task) :
    (Owns s task ∧ ∀ other, Apart task other ∧ Apart other task) ∧ Valid task := by
  cases task with
  | publish key event payload resumable => exact ⟨empty_owns rfl (fun _ other => by cases other),begins⟩
  | create key => exact ⟨empty_owns rfl (fun _ other => by cases other),trivial⟩
  | deliveries => exact begins.elim
  | run c =>
    obtain ⟨_,_,_,_,rfl⟩ := begins
    exact ⟨empty_owns rfl (fun _ other => by cases other),trivial⟩
  | thread c =>
    obtain ⟨_,_,_,rfl⟩ := begins
    refine ⟨empty_owns rfl ?_,trivial⟩
    intro c same
    cases same
    exact ⟨by simp [watcher,workRows],fun _ => rfl,fun _ known => by cases known⟩

theorem idle_owns {s : Streaming} {task : StreamTask} (none_ : held task = []) (plain : ∀ c, task ≠ .thread c) : Owns s task :=
  (empty_owns none_ fun c same => absurd same (plain c)).1

-- What any other task finds after a step: its queues, and nobody else at them.
theorem step_keeps (w : Wake) {s : Streaming} {task other : StreamTask} (consistent : Consistent codec s) (mine : Owns s task)
    (valid : Valid task) (owns : Owns s other) (apart : Apart task other) :
    Owns (resume codec w s task).1 other ∧ ∀ u ∈ (resume codec w s task).2, Apart u other := by
  cases task with
  | publish key event payload resumable =>
    obtain rfl : resumable = true := valid
    have fed := publish_fed consistent w.currentMs key event payload
    refine ⟨⟨fun row member => (fed.keeps row.1 row.2 (owns.registered row member)).1,owns.single,?_⟩,by simp [resume]⟩
    intro c same
    obtain ⟨work,unwatched,stream⟩ := owns.orderly c same
    exact ⟨work,unwatched,fun queue known => fed.next ▸ stream queue known⟩
  | create key => exact ⟨⟨owns.registered,owns.single,fun c same => ⟨(owns.orderly c same).work,
      (owns.orderly c same).unwatched,(owns.orderly c same).stream⟩⟩,by simp [resume]⟩
  | deliveries =>
    have quiet := deliver_quiet consistent
    refine ⟨⟨fun row member => (quiet.keeps row.1 row.2 (owns.registered row member) (by simp)).1,owns.single,?_⟩,?_⟩
    · intro c same
      obtain ⟨work,unwatched,stream⟩ := owns.orderly c same
      exact ⟨work,unwatched,fun queue known => Nat.lt_of_lt_of_le (stream queue known) quiet.next⟩
    · intro u spawned
      rw [List.mem_singleton.mp spawned]
      exact apart
  | run c =>
    obtain ⟨kept,free⟩ := moves_keeps consistent (runClient_moves (w:=w) consistent mine) owns apart
    exact ⟨kept,fun u spawned => by rw [List.mem_singleton.mp spawned]; exact free⟩
  | thread c =>
    obtain ⟨kept,free⟩ := moves_keeps consistent (threadClient_moves (w:=w) consistent mine) owns apart
    exact ⟨kept,fun u spawned => by rw [List.mem_singleton.mp spawned]; exact free⟩

theorem step_consistent (w : Wake) {s : Streaming} {task : StreamTask} (consistent : Consistent codec s) (mine : Owns s task)
    (valid : Valid task) : Consistent codec (resume codec w s task).1 ∧
      ∀ u ∈ (resume codec w s task).2, Owns (resume codec w s task).1 u ∧ Valid u := by
  cases task with
  | publish key event payload resumable =>
    obtain rfl : resumable = true := valid
    exact ⟨(publish_fed consistent w.currentMs key event payload).consistent,by simp [resume]⟩
  | create key =>
    obtain ⟨maintained,running,alive,unheard,flying,ordered,published,apart,once⟩ := consistent
    exact ⟨⟨maintained,running,alive,unheard,flying,ordered,published,apart,once⟩,by simp [resume]⟩
  | deliveries =>
    refine ⟨(deliver_quiet consistent).consistent,fun u spawned => ?_⟩
    rw [List.mem_singleton.mp spawned]
    exact ⟨idle_owns rfl (fun _ same => by cases same),trivial⟩
  | run c =>
    have moves := runClient_moves (w:=w) consistent mine
    refine ⟨moves.quiet.consistent,fun u spawned => ?_⟩
    rw [List.mem_singleton.mp spawned]
    exact ⟨moves.owns,trivial⟩
  | thread c =>
    have moves := threadClient_moves (w:=w) consistent mine
    refine ⟨moves.quiet.consistent,fun u spawned => ?_⟩
    rw [List.mem_singleton.mp spawned]
    exact ⟨moves.owns,trivial⟩

-- Whatever else a run of the pool may be asked to respect.
theorem outline (allowed : Wake → Streaming → StreamTask → Prop) (beside : Wake → Streaming → StreamTask → StreamTask → Prop) :
    TaskPool.Outline (resume codec) fresh allowed beside (Consistent codec) (fun s task => Owns s task ∧ Valid task) Apart := by
  refine ⟨?_,?_,?_,?_,?_,?_,?_⟩
  · exact fun task other apart queue theirs mine => apart queue mine theirs
  · intro s task _ begins
    obtain ⟨⟨owns,apart⟩,valid⟩ := fresh_owns s begins
    exact ⟨⟨owns,valid⟩,fun other => (apart other).1⟩
  · exact fun w s task _ consistent mine => (step_consistent w consistent mine.1 mine.2).1
  · exact fun w s task _ consistent mine => (step_consistent w consistent mine.1 mine.2).2
  · intro w s task _ _ _
    cases task <;> simp [resume]
  · exact fun w s task other _ _ consistent mine theirs apart =>
      ⟨(step_keeps w consistent mine.1 mine.2 theirs.1 apart).1,theirs.2⟩
  · exact fun w s task other _ consistent mine theirs apart => (step_keeps w consistent mine.1 mine.2 theirs.1 apart).2

theorem start_consistent : Consistent codec start.shared := by
  have logs : ∀ key, start.shared.manager.stored key = [] := fun _ => rfl
  refine ⟨?_,rfl,rfl,rfl,?_,?_,?_,?_,?_⟩
  · exact bare_maintained ⟨rfl,rfl,rfl,rfl,rfl,rfl,rfl⟩
  · exact fun row member => (List.not_mem_nil member).elim
  · exact fun key => .nil
  · exact fun key message member => (List.not_mem_nil member).elim
  · exact fun key _ message _ member => (List.not_mem_nil member).elim
  · exact fun key => List.nodup_nil

-- Nobody holds anything at the start, and the one task has nothing more to keep.
theorem start_holds {more : Streaming → StreamTask → Prop} (first : more start.shared .deliveries) :
    TaskPool.Holds (Consistent codec) (fun s task => (Owns s task ∧ Valid task) ∧ more s task) Apart start := by
  refine ⟨start_consistent,fun task member => ?_,List.pairwise_singleton _ _⟩
  rw [List.mem_singleton.mp member]
  exact ⟨⟨idle_owns rfl (fun _ same => by cases same),trivial⟩,first⟩

end outline

end InmemRuntime.ClientQueues
