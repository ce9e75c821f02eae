import InmemRuntime.RecordCreation
import InmemRuntime.ThreadRecords

namespace InmemRuntime.RecordIds
open OrderedDict ObjectHeap ThreadTtl RuntimeStore Serving ThreadOps RunOps StoreWrites ThreadRecords AssistantOps RecordCreation

section store
variable {J : Type} {s s' : Store J} {mine : Option String}

def threadIds (s : Store J) : List String := s.liveThreads.map fun ref => (s.thread ref).threadId

def cronIds (s : Store J) : List String := s.crons.map Cron.cronId

def anything : Permit := ⟨fun _ => True,fun _ _ _ => True,fun _ _ => True⟩

theorem findThread_absent {threadId : String} : s.findThread threadId = none ↔ threadId ∉ threadIds s := by
  rw [Store.findThread_none]
  simp [threadIds]

-- Ids may go, and one that was absent may come, which is `mine`.
structure Effect (s s' : Store J) (mine : Option String) : Prop where
  grows : Extends s s'
  threads : (threadIds s').Sublist (threadIds s) ∨
    ∃ id, mine = some id ∧ id ∉ threadIds s ∧ threadIds s' = threadIds s ++ [id]
  crons : (cronIds s').Sublist (cronIds s)

theorem Effect.refl (s : Store J) (mine : Option String) : Effect s s mine := ⟨.refl s,.inl (.refl _),.refl _⟩

theorem threadIds_same (threads : s'.threads = s.threads) (live : s'.liveThreads = s.liveThreads) : threadIds s' = threadIds s := by
  unfold threadIds Store.thread
  rw [threads,live]

theorem effect_same (threads : s'.threads = s.threads) (live : s'.liveThreads = s.liveThreads) (crons : s'.crons = s.crons) :
    Effect s s' mine := by
  have ids : cronIds s' = cronIds s := congrArg (List.map Cron.cronId) crons
  exact ⟨extends_same threads live,.inl (threadIds_same threads live ▸ .refl _),ids ▸ .refl _⟩

-- What comes after touches neither threads nor crons.
theorem Effect.then {s'' : Store J} (effect : Effect s s' mine) (threads : s''.threads = s'.threads)
    (live : s''.liveThreads = s'.liveThreads) (crons : s''.crons = s'.crons) : Effect s s'' mine := by
  refine ⟨effect.grows.trans (extends_same threads live),?_,?_⟩
  · rw [threadIds_same threads live]
    exact effect.threads
  · unfold cronIds
    rw [crons]
    exact effect.crons

theorem threadIds_updateThread {ref : Nat} {f : Thread J → Thread J} (same : ∀ t, (f t).threadId = t.threadId) :
    threadIds (s.updateThread ref f) = threadIds s := List.map_congr_left fun other _ => Store.threadId_updateThread same other

theorem effect_update {ref : Nat} {f : Thread J → Thread J} (same : ∀ t, (f t).threadId = t.threadId) :
    Effect s (s.updateThread ref f) mine := by
  have write : Write anything s (s.updateThread ref f) := .thread same
  have keeps : threadIds (s.updateThread ref f) = threadIds s := threadIds_updateThread same
  exact ⟨write_extends write,.inl (keeps ▸ .refl _),.refl _⟩

theorem threadIds_append (used : LiveUsed s) (thread : Thread J) : threadIds (s.appendThread thread) = threadIds s ++ [thread.threadId] := by
  unfold threadIds
  rw [live_appendThread,List.map_append]
  have old : s.liveThreads.map (fun ref => ((s.appendThread thread).thread ref).threadId) =
      s.liveThreads.map fun ref => (s.thread ref).threadId := by
    refine List.map_congr_left fun ref member => ?_
    exact congrArg Thread.threadId (Store.thread_allocThread_old (used ref member))
  rw [old]
  exact congrArg (_ ++ [·]) (congrArg Thread.threadId (Store.thread_allocThread_new s thread))

theorem effect_append (used : LiveUsed s) (thread : Thread J) (absent : thread.threadId ∉ threadIds s) :
    Effect s (s.appendThread thread) (some thread.threadId) :=
  ⟨appendThread_extends s thread,.inr ⟨_,rfl,absent,threadIds_append used thread⟩,.refl _⟩

-- A record takes the place of one with its id.
theorem threadIds_replace (used : LiveUsed s) (list : Nat) {threadId : String} {thread : Thread J} (same : thread.threadId = threadId) :
    threadIds (replaceThread s list threadId thread) = threadIds s := by
  have old : ∀ ref < s.threads.next, (replaceThread s list threadId thread).thread ref = s.thread ref :=
    fun ref bound => Store.thread_allocThread_old bound
  have new : (replaceThread s list threadId thread).thread s.threads.next = thread := Store.thread_allocThread_new s thread
  unfold threadIds
  by_cases bound : list = s.boundThreads
  · subst bound
    rw [live_replaceThread_bound]
    have each : ∀ refs : List Nat, (∀ ref ∈ refs, ref < s.threads.next) →
        (replaceFirst (s.isThread threadId) s.threads.next refs).map
          (fun ref => ((replaceThread s s.boundThreads threadId thread).thread ref).threadId) =
        refs.map fun ref => (s.thread ref).threadId := by
      intro refs within
      induction refs with
      | nil => rfl
      | cons ref rest ih =>
        have here := old ref (within ref List.mem_cons_self)
        have later := ih fun other member => within other (List.mem_cons_of_mem _ member)
        have tail : rest.map (fun ref => ((replaceThread s s.boundThreads threadId thread).thread ref).threadId) =
            rest.map fun ref => (s.thread ref).threadId :=
          List.map_congr_left fun other member => by rw [old other (within other (List.mem_cons_of_mem _ member))]
        unfold replaceFirst
        split
        · rename_i fits
          rw [List.map_cons,List.map_cons,new,tail,same]
          exact congrArg (· :: _) (by simpa [Store.isThread] using fits : (s.thread ref).threadId = threadId).symm
        · rw [List.map_cons,List.map_cons,here,later]
    exact each s.liveThreads used
  · rw [live_replaceThread_stale bound]
    exact List.map_congr_left fun ref member => by rw [old ref (used ref member)]

theorem effect_replace (used : LiveUsed s) (list : Nat) {threadId : String} {thread : Thread J} (same : thread.threadId = threadId) :
    Effect s (replaceThread s list threadId thread) mine := by
  have write : Write anything s (replaceThread s list threadId thread) := .replaced
  exact ⟨write_extends write,.inl (threadIds_replace used list same ▸ .refl _),.refl _⟩

theorem effect_remove (s : Store J) (threadId : String) (matching : Nat) : Effect s (removeThread s threadId matching) mine := by
  have write : Write anything s (removeThread s threadId matching) := .removed fun _ _ _ => trivial
  refine ⟨write_extends write,.inl ?_,?_⟩
  · unfold threadIds
    have live : (removeThread s threadId matching).liveThreads = s.liveThreads.filter fun ref => ref != matching := by
      simp [removeThread,Store.liveThreads,Store.rebindThreads]
    rw [live]
    exact List.filter_sublist.map _
  · exact List.filter_sublist.map _

end store

section tasks
variable {J : Type}

-- The thread id that a call may still append a record with.
def idOf : Creator J → Option String
  | .put (.called call) | .put (.authorizing call) | .put (.waiting call _) => some call.threadId
  | .copy (.authorizingRead _ newId) | .copy (.authorizingCreate _ newId _) => some newId
  | .putRun (.called call) | .putRun (.authorizing call _) | .putRun (.authorizingAssistant call _ _) => call.threadId
  | .putRun (.waiting call _ _) => call.threadId
  | .putRun (.logging _ _ threadId _) => some threadId
  | _ => none

-- It comes from `uuid4`.
def drawn : Creator J → Bool
  | .copy (.authorizingRead _ _) | .copy (.authorizingCreate _ _ _) => true
  | .putRun (.logging call _ _ _) => call.threadId.isNone
  | _ => false

-- The next step may ask `uuid4` for it.
def draws : Creator J → Bool
  | .copy (.called _) => true
  | .putRun (.logging _ _ _ _) => false
  | .putRun (.called call) | .putRun (.authorizing call _) | .putRun (.authorizingAssistant call _ _) => call.threadId.isNone
  | .putRun (.waiting call _ _) => call.threadId.isNone
  | _ => false

-- The next step appends without looking.
def unchecked : Creator J → Bool
  | .copy (.authorizingCreate _ _ _) | .putRun (.logging _ _ _ _) => true
  | _ => false

end tasks

section steps
variable {J τ ρ : Type} {w : Wake J} {s : Server J} {wrap : τ → Creator J} {task : Creator J}

-- What a call goes on as has its id, or the one that it has just drawn.
def Lineage (w : Wake J) (task u : Creator J) : Prop :=
  idOf u = none ∨ idOf u = idOf task ∧ (drawn u = true → drawn task = true) ∨ draws task = true ∧ idOf u = some w.newId

structure Does (w : Wake J) (s : Server J) (wrap : τ → Creator J) (task : Creator J) (result : Server J × Outcome τ ρ) : Prop where
  effect : Effect s.store result.1.store (idOf task)
  goesOn : ∀ next, result.2 = .suspended next → Lineage w task (wrap next) ∧ (drawn (wrap next) = true → result.1 = s)

theorem does_raised (fault : Fault) : Does w s wrap task (s,(.raised fault : Outcome τ ρ)) := ⟨.refl _ _,nofun⟩

theorem does_returned (value : ρ) : Does w s wrap task (s,(.returned value : Outcome τ ρ)) := ⟨.refl _ _,nofun⟩

theorem does_suspended {next : τ} (lineage : Lineage w task (wrap next)) :
    Does w s wrap task (s,(.suspended next : Outcome τ ρ)) := by
  refine ⟨.refl _ _,fun other same => ?_⟩
  cases same
  exact ⟨lineage,fun _ => rfl⟩

theorem does_store {store : Store J} (effect : Effect s.store store (idOf task)) (value : ρ) :
    Does w s wrap task (s.withStore store,(.returned value : Outcome τ ρ)) := ⟨effect,nofun⟩

theorem external_does {go : Server J × Outcome τ ρ} (goes : Does w s wrap task go) : Does w s wrap task (external w s go) := by
  unfold external
  split
  · exact does_raised _
  · exact goes

theorem authorized_does {go : Filters J → Server J × Outcome τ ρ} (goes : ∀ filters, Does w s wrap task (go filters)) :
    Does w s wrap task (authorized w s go) := by
  unfold authorized
  split
  · exact does_raised _
  · exact goes _

theorem gated_does {threadId : String} {again : τ} {go : Server J × Outcome τ ρ} (lineage : Lineage w task (wrap again))
    (goes : Does w s wrap task go) : Does w s wrap task (gated s threadId again go) := by
  unfold gated
  split
  · exact does_suspended lineage
  · exact goes

theorem overrideTtl_does {store : Store J} {wrap : τ → Creator J} (effect : Effect s.store store (idOf task)) (now : Int)
    (threadId : String) (ttl : Option TtlConfig) (value : List Nat) :
    Does w s wrap task (overrideTtl (s.withStore store) now threadId ttl value) := by
  unfold overrideTtl
  split
  · exact does_store effect value
  · split
    · exact ⟨effect,nofun⟩
    · exact ⟨effect.then rfl rfl rfl,nofun⟩

theorem put_does (used : LiveUsed s.store) (task : PutTask J) : Does w s .put (.put task) (stepPut w s task) := by
  have puts : ∀ now call filters, idOf (.put task) = some call.threadId → Does w s .put (.put task) (putThread s now call filters) := by
    intro now call filters mine
    unfold putThread
    split
    · rename_i none_
      refine overrideTtl_does ?_ _ _ _ _
      rw [mine]
      exact effect_append used _ (findThread_absent.mp none_)
    · split
      · exact does_raised _
      · split
        · exact does_raised _
        · exact does_returned _
  cases task with
  | called call => exact does_suspended (.inr (.inl ⟨rfl,nofun⟩))
  | authorizing call => exact authorized_does fun _ => gated_does (.inr (.inl ⟨rfl,nofun⟩)) (puts _ _ _ rfl)
  | waiting call filters => exact gated_does (.inr (.inl ⟨rfl,nofun⟩)) (puts _ _ _ rfl)

theorem copy_does (used : LiveUsed s.store) (task : CopyTask J)
    (free : unchecked (.copy task) = true → ∀ id, idOf (.copy task) = some id → id ∉ threadIds s.store) :
    Does w s .copy (.copy task) (stepCopy w s task) := by
  cases task with
  | called call => exact does_suspended (.inr (.inr ⟨rfl,rfl⟩))
  | authorizingRead call newId => exact authorized_does fun _ => does_suspended (.inr (.inl ⟨rfl,fun _ => rfl⟩))
  | authorizingCreate call newId filters =>
    refine authorized_does fun _ => ?_
    split
    · exact does_returned _
    · split
      · exact does_returned _
      · rename_i ref _ _
        have copied := effect_append used (copiedThread (s.store.thread ref) newId w.now) (free rfl newId rfl)
        refine ⟨copied.then rfl rfl rfl,fun next same => ?_⟩
        dsimp only at same
        split at same
        · cases same
          exact ⟨.inl rfl,nofun⟩
        · cases same
  | checkpointer ref => exact external_does (does_returned _)

theorem patch_does (used : LiveUsed s.store) (task : PatchTask J) : Does w s .patch (.patch task) (stepPatch w s task) := by
  have patches : ∀ now call list filters, Does w s .patch (.patch task) (patchThread s now call list filters) := by
    intro now call list filters
    unfold patchThread
    split
    · exact does_returned _
    · split
      · exact does_returned _
      · rename_i ref found _
        have same : (patched (s.store.thread ref) call.metadata now).threadId = call.threadId := by
          simpa [patched,Store.isThread] using List.find?_some found
        exact overrideTtl_does (effect_replace used list same) _ _ _ _
  cases task with
  | called call =>
    dsimp only [stepPatch]
    split
    · exact does_returned _
    · exact does_suspended (.inl rfl)
  | authorizing call list => exact authorized_does fun _ => gated_does (.inl rfl) (patches _ _ _ _)
  | waiting call list filters => exact gated_does (.inl rfl) (patches _ _ _ _)

theorem delete_does (task : DeleteTask) : Does w s .delete (.delete task) (stepDelete w s task) := by
  cases task with
  | called threadId => exact does_suspended (.inl rfl)
  | authorizing threadId matching =>
    refine authorized_does fun filters => ?_
    split
    · exact does_raised _
    · split
      · exact does_raised _
      · exact does_suspended (.inl rfl)
  | checkpoints threadId matching => exact external_does (does_suspended (.inl rfl))
  | streams threadId matching => exact external_does (does_store (effect_remove _ _ _) _)

theorem insertRun_effect {store : Store J} {mine : Option String} (effect : Effect s.store store mine) (now : Int)
    (call : PutRunCall J) (threadId : String) : Effect s.store (insertRun store now call threadId).1 mine := by
  unfold insertRun
  dsimp only
  split
  · exact effect
  · exact effect.then rfl rfl rfl

theorem gatedPutRun_does {text : String → J} (call : PutRunCall J) (assistant : Assistant J) (filters : Filters J)
    (mine : idOf task = call.threadId) (asks : draws task = call.threadId.isNone) :
    Does w s .putRun task (gatedPutRun text w s call assistant filters) := by
  have puts : Does w s .putRun task (putRun text w s call assistant filters) := by
    unfold putRun
    split
    · rename_i none_
      rw [none_] at asks
      exact does_suspended (.inr (.inr ⟨asks,rfl⟩))
    · rename_i threadId named
      split
      · rename_i ref _
        split
        · exact does_returned _
        · have marked : Effect s.store (s.store.updateThread ref (markBusy text w.now assistant)) (idOf task) :=
            effect_update (markBusy_threadId _ w.now assistant)
          exact does_store (insertRun_effect marked w.now call threadId) _
      · split
        · refine does_suspended (.inr (.inl ⟨?_,fun random => ?_⟩))
          · rw [mine,named]
            rfl
          · rw [drawn,named] at random
            cases random
        · exact does_returned _
  unfold gatedPutRun
  split
  · exact puts
  · exact gated_does (.inr (.inl ⟨mine.symm,nofun⟩)) puts

theorem putRun_does {text : String → J} (used : LiveUsed s.store) (task : PutRunTask J)
    (free : unchecked (.putRun task) = true → ∀ id, idOf (.putRun task) = some id → id ∉ threadIds s.store) :
    Does w s .putRun (.putRun task) (stepPutRun text w s task) := by
  cases task with
  | called call =>
    dsimp only [stepPutRun]
    split
    · exact does_returned _
    · exact does_suspended (.inr (.inl ⟨rfl,nofun⟩))
  | authorizing call assistant =>
    refine authorized_does fun filters => ?_
    split
    · exact gatedPutRun_does _ _ _ rfl rfl
    · exact does_suspended (.inr (.inl ⟨rfl,nofun⟩))
  | authorizingAssistant call assistant filters =>
    refine authorized_does fun assistantFilters => ?_
    split
    · exact does_returned _
    · exact gatedPutRun_does _ _ _ rfl rfl
  | waiting call assistant filters => exact gatedPutRun_does _ _ _ rfl rfl
  | logging call assistant threadId createdAt =>
    have appended := effect_append used (newThread text call assistant threadId createdAt) (free rfl threadId rfl)
    exact does_store (insertRun_effect appended w.now call threadId) _

end steps

section records
variable {J : Type} {json : Json J} {graphs : Graphs} {w : Wake J} {s : Records J}

structure Unique (s : Records J) : Prop where
  threads : (threadIds s.server.store).Nodup
  assistants : (s.tables.assistants.map AssistantRecord.assistantId).Nodup
  crons : (cronIds s.server.store).Nodup

-- What a step does to the ids of threads, and that it does not hurt the others.
structure Moves (s s' : Records J) (mine : Option String) : Prop where
  grows : Extends s.server.store s'.server.store
  threads : (threadIds s'.server.store).Sublist (threadIds s.server.store) ∨
    ∃ id, mine = some id ∧ id ∉ threadIds s.server.store ∧ threadIds s'.server.store = threadIds s.server.store ++ [id]
  assistants : (s.tables.assistants.map AssistantRecord.assistantId).Nodup →
    (s'.tables.assistants.map AssistantRecord.assistantId).Nodup
  crons : (cronIds s.server.store).Nodup → (cronIds s'.server.store).Nodup

theorem append_nodup {rows : List String} {id : String} (single : rows.Nodup) (absent : id ∉ rows) : (rows ++ [id]).Nodup := by
  refine List.nodup_append.mpr ⟨single,List.pairwise_singleton _ _,?_⟩
  intro row old last member
  rw [List.mem_singleton.mp member]
  rintro rfl
  exact absent old

theorem Moves.unique {s' : Records J} {mine : Option String} (moves : Moves s s' mine) (unique : Unique s) : Unique s' := by
  refine ⟨?_,moves.assistants unique.assistants,moves.crons unique.crons⟩
  rcases moves.threads with fewer | ⟨id,_,absent,same⟩
  · exact unique.threads.sublist fewer
  · rw [same]
    exact append_nodup unique.threads absent

theorem served_moves {τ ρ : Type} {wrap : τ → Creator J} {task : Creator J} {result : Server J × Outcome τ ρ}
    (does : Does w s.server wrap task result) : Moves s (served s wrap result).1 (idOf task) :=
  ⟨does.effect.grows,does.effect.threads,id,fun single => single.sublist does.effect.crons⟩

theorem served_lineage {τ ρ : Type} {wrap : τ → Creator J} {task : Creator J} {result : Server J × Outcome τ ρ}
    (does : Does w s.server wrap task result) :
    ∀ u ∈ (served s wrap result).2, Lineage w task u ∧ (drawn u = true → (served s wrap result).1 = s) := by
  intro u member
  obtain ⟨server,outcome⟩ := result
  cases outcome with
  | suspended next =>
    rw [List.mem_singleton.mp member]
    obtain ⟨lineage,still⟩ := does.goesOn next rfl
    refine ⟨lineage,fun random => ?_⟩
    rw [served,still random]
  | returned value => cases member
  | raised fault => cases member

theorem putAssistant_moves [DecidableEq J] (task : PutAssistantTask J) : Moves s (stepPutAssistant json w s task).1 none := by
  have effect := Effect.refl s.server.store none
  cases task with
  | called call => exact ⟨effect.grows,effect.threads,id,id⟩
  | authorizing call =>
    dsimp only [stepPutAssistant]
    split
    · exact ⟨effect.grows,effect.threads,id,id⟩
    · rename_i filters _
      have viewed : ∀ tables, Effect s.server.store (withTables json s tables).server.store none := fun tables =>
        effect_same rfl rfl rfl
      refine ⟨(viewed _).grows,(viewed _).threads,fun single => ?_,id⟩
      unfold withTables putAssistant
      dsimp only
      split
      · exact single
      · split
        · split
          · exact single
          · split <;> exact single
        · rename_i absent
          rw [List.map_append]
          refine append_nodup single fun held => ?_
          obtain ⟨a,stored,same⟩ := List.mem_map.mp held
          have other := List.find?_eq_none.mp absent a stored
          have named : a.assistantId = call.assistantId := same
          exact other (by simpa using named)

theorem insertCron_moves (call : PutCronCall J) (cronId : String) (filters : Filters J) :
    Moves s (insertCron w s call cronId filters).1 none := by
  have effect := Effect.refl s.server.store none
  have stays : Moves s s none := ⟨effect.grows,effect.threads,id,id⟩
  unfold insertCron
  split
  · split <;> exact stays
  · rename_i absent
    split
    · exact stays
    · refine ⟨extends_same rfl rfl,.inl (.refl _),id,fun single => ?_⟩
      unfold cronIds
      dsimp only [Server.store_withStore]
      rw [List.map_append]
      refine append_nodup single fun held => ?_
      obtain ⟨cron,stored,same⟩ := List.mem_map.mp held
      have other := List.find?_eq_none.mp absent cron stored
      exact other (by simpa using same)

theorem putCron_moves (task : PutCronTask J) : Moves s (stepPutCron graphs w s task).1 none := by
  have effect := Effect.refl s.server.store none
  have stays : Moves s s none := ⟨effect.grows,effect.threads,id,id⟩
  have validates : ∀ call cronId filters assistantId assistantFilters,
      Moves s (validateAssistant w s call cronId filters assistantId assistantFilters).1 none := by
    intro call cronId filters assistantId assistantFilters
    unfold validateAssistant
    split
    · exact stays
    · split
      · exact stays
      · split
        · exact insertCron_moves _ _ _
        · exact stays
  cases task with
  | called call => exact stays
  | authorizing call cronId =>
    dsimp only [stepPutCron]
    split
    · exact stays
    · exact stays
    · exact stays
    · split
      · exact validates _ _ _ _ _
      · exact stays
  | authorizingAssistant call cronId filters assistantId =>
    dsimp only [stepPutCron]
    split
    · exact stays
    · exact validates _ _ _ _ _
  | authorizingThread call cronId filters threadId =>
    dsimp only [stepPutCron]
    split
    · exact stays
    · split
      · exact stays
      · split
        · exact stays
        · exact insertCron_moves _ _ _

theorem resume_moves [DecidableEq J] (used : LiveUsed s.server.store) (task : Creator J)
    (free : unchecked task = true → ∀ id, idOf task = some id → id ∉ threadIds s.server.store) :
    Moves s (resume json graphs w s task).1 (idOf task) := by
  cases task with
  | put task => exact served_moves (put_does used task)
  | copy task => exact served_moves (copy_does used task free)
  | patch task => exact served_moves (patch_does used task)
  | delete task => exact served_moves (delete_does task)
  | putRun task => exact served_moves (putRun_does used task free)
  | putAssistant task => exact putAssistant_moves task
  | putCron task => exact putCron_moves task

theorem resume_lineage [DecidableEq J] (used : LiveUsed s.server.store) (task : Creator J)
    (free : unchecked task = true → ∀ id, idOf task = some id → id ∉ threadIds s.server.store) :
    ∀ u ∈ (resume json graphs w s task).2, Lineage w task u ∧ (drawn u = true → (resume json graphs w s task).1 = s) := by
  cases task with
  | put task => exact served_lineage (put_does used task)
  | copy task => exact served_lineage (copy_does used task free)
  | patch task => exact served_lineage (patch_does used task)
  | delete task => exact served_lineage (delete_does task)
  | putRun task => exact served_lineage (putRun_does used task free)
  | putAssistant task =>
    intro u member
    obtain ⟨_,_,rfl⟩ := List.mem_map.mp member
    exact ⟨.inl rfl,nofun⟩
  | putCron task =>
    intro u member
    dsimp only [resume] at member
    unfold suspended at member
    split at member
    · rw [List.mem_singleton.mp member]
      exact ⟨.inl rfl,nofun⟩
    · cases member
    · cases member

-- A call goes on as one task at most.
theorem resume_single [DecidableEq J] (w : Wake J) (s : Records J) (task : Creator J) :
    (resume json graphs w s task).2.length ≤ 1 := by
  have single : ∀ {τ ρ : Type} (wrap : τ → Creator J) (outcome : Outcome τ ρ), (suspended wrap outcome).length ≤ 1 := by
    intro τ ρ wrap outcome
    cases outcome <;> simp [suspended]
  cases task with
  | putAssistant task =>
    dsimp only [resume]
    rw [List.length_map]
    cases (stepPutAssistant json w s task).2 <;> simp
  | _ => exact single _ _

end records

section result
variable {J : Type}

-- What `uuid4` is relied on for: nobody else has an id that it draws, or names
-- one that it has drawn for a call which has not used it yet.
def Uuids : Pool J × Event J → Prop
  | (p,.call task) => ∀ t ∈ p.tasks, drawn t = true → ∀ id, idOf t = some id → idOf task ≠ some id
  | (p,.resume index w) => ∀ task, p.tasks[index]? = some task → draws task = true →
      w.newId ∉ threadIds p.shared.server.store ∧ ∀ t ∈ p.tasks, idOf t ≠ some w.newId

-- When `Runs.put` goes on after its log line, no thread of the id that its
-- caller gave has come in between.
def Unclaimed (_ : Wake J) (s : Records J) : Creator J → Prop
  | .putRun (.logging call _ threadId _) => call.threadId ≠ none → threadId ∉ threadIds s.server.store
  | _ => True

def Allowed : Pool J × Event J → Prop := TaskPool.Meets (fun task => task.fresh = true) Unclaimed

def Permitted (step : Pool J × Event J) : Prop := Uuids step ∧ Allowed step

def Sound (s : Records J) : Prop := LiveUsed s.server.store ∧ Unique s

-- A drawn id waits for its record.
def Waits (s : Records J) (t : Creator J) : Prop := drawn t = true → ∀ id, idOf t = some id → id ∉ threadIds s.server.store

def Apart (t t' : Creator J) : Prop := drawn t = true ∨ drawn t' = true → ∀ id, idOf t = some id → idOf t' ≠ some id

theorem apart_symm {t t' : Creator J} (apart : Apart t t') : Apart t' t :=
  fun random id mine theirs => apart random.symm id theirs mine

theorem single_apart {tasks : List (Creator J)} (single : tasks.length ≤ 1) : tasks.Pairwise Apart := by
  cases tasks with
  | nil => exact .nil
  | cons t rest =>
    obtain rfl : rest = [] := List.length_eq_zero_iff.mp (by simpa using single)
    exact List.pairwise_singleton _ _

theorem fresh_given {task : Creator J} (fresh : task.fresh = true) : drawn task = false := by
  cases task with
  | copy task => cases task <;> first | rfl | cases fresh
  | putRun task => cases task <;> first | rfl | cases fresh
  | _ => rfl

theorem unchecked_free {w : Wake J} {s : Records J} {task : Creator J} (waits : Waits s task) (unclaimed : Unclaimed w s task) :
    unchecked task = true → ∀ id, idOf task = some id → id ∉ threadIds s.server.store := by
  intro looks id mine
  cases task with
  | copy task =>
    cases task with
    | authorizingCreate call newId filters => exact waits rfl id mine
    | _ => cases looks
  | putRun task =>
    cases task with
    | logging call assistant threadId createdAt =>
      cases named : call.threadId with
      | none =>
        apply waits _ id mine
        rw [drawn,named]
        rfl
      | some _ =>
        cases mine
        exact unclaimed (by rw [named]; exact Option.some_ne_none _)
    | _ => cases looks
  | _ => cases looks

theorem lineage_apart {w : Wake J} {task u t : Creator J} (lineage : Lineage w task u) (apart : Apart task t)
    (unused : draws task = true → idOf t ≠ some w.newId) : Apart u t := by
  intro random id mine theirs
  rcases lineage with none_ | ⟨same,still⟩ | ⟨asks,new⟩
  · rw [none_] at mine
    cases mine
  · exact apart (random.imp still (fun theirs => theirs)) id (same ▸ mine) theirs
  · rw [new] at mine
    cases mine
    exact unused asks theirs

theorem moves_waits {s s' : Records J} {task t : Creator J} (moves : Moves s s' (idOf task)) (waits : Waits s t)
    (apart : Apart task t) : Waits s' t := by
  intro random id mine held
  rcases moves.threads with fewer | ⟨other,same,_,grown⟩
  · exact waits random id mine (fewer.subset held)
  · rw [grown] at held
    rcases List.mem_append.mp held with old | new
    · exact waits random id mine old
    · rw [List.mem_singleton.mp new] at mine
      exact apart (.inr random) other same mine

variable [DecidableEq J] {json : Json J} {graphs : Graphs}

theorem advance_holds {p next : Pool J} {event : Event J} (holds : TaskPool.Holds Sound Waits Apart p)
    (permitted : Permitted (p,event))
    (step : TaskPool.advance (resume json graphs) p event = some next) : TaskPool.Holds Sound Waits Apart next := by
  obtain ⟨uuids,allowed⟩ := permitted
  cases event with
  | call task =>
    cases Option.some.inj step
    have given : drawn task = false := fresh_given allowed
    refine TaskPool.holds_call holds (fun random => ?_) fun t member random id theirs mine => ?_
    · rw [given] at random
      cases random
    · rw [given] at random
      exact uuids t member (random.resolve_right Bool.false_ne_true) id theirs mine
  | resume index w =>
    obtain ⟨before,task,after,split,found,rfl⟩ := TaskPool.resume_parts step
    obtain ⟨s,tasks⟩ := p
    dsimp only at split holds
    subst split
    obtain ⟨used,unique⟩ := holds.shared
    have waits : Waits s task := holds.each task (by simp)
    have free := unchecked_free waits (allowed task found)
    have moves : Moves s (resume json graphs w s task).1 (idOf task) := resume_moves used task free
    have lineage : ∀ u ∈ (resume json graphs w s task).2, Lineage w task u ∧ (drawn u = true → (resume json graphs w s task).1 = s) :=
      resume_lineage used task free
    refine TaskPool.holds_resume (fun _ _ => apart_symm) holds ⟨moves.grows.live used,moves.unique unique⟩ ?_ ?_ ?_
    · intro u spawned random id mine
      obtain ⟨lineage,still⟩ := lineage u spawned
      rw [still random]
      rcases lineage with none_ | ⟨same,older⟩ | ⟨asks,new⟩
      · rw [none_] at mine
        cases mine
      · exact waits (older random) id (same ▸ mine)
      · rw [new] at mine
        cases mine
        exact (uuids task found asks).1
    · exact single_apart (resume_single w s task)
    · intro t member theirs apart
      refine ⟨moves_waits moves theirs apart,fun u spawned => lineage_apart (lineage u spawned).1 apart fun asks => ?_⟩
      refine (uuids task found asks).2 t ?_
      rcases List.mem_append.mp member with old | later
      · exact List.mem_append_left _ old
      · exact List.mem_append_right _ (List.mem_cons_of_mem _ later)

theorem record_ids_unique (json : Json J) (graphs : Graphs) (start : Records J) (used : LiveUsed start.server.store)
    (begins : Unique start) (taken : List (Pool J × Event J)) (p : Pool J) (runs : Runs json graphs ⟨start,[]⟩ taken p)
    (uuids : ∀ step ∈ taken, Uuids step) (allowed : ∀ step ∈ taken, Allowed step) :
    Unique p.shared ∧ ∀ step ∈ taken, Unique step.1.shared := by
  have empty : TaskPool.Holds Sound Waits Apart (⟨start,[]⟩ : Pool J) := ⟨⟨used,begins⟩,fun _ none_ => (List.not_mem_nil none_).elim,.nil⟩
  obtain ⟨here,earlier⟩ := TaskPool.runs_invariant runs empty
    (fun _ _ _ holds permitted step => advance_holds holds permitted step)
    fun step member => show Permitted step from ⟨uuids step member,allowed step member⟩
  exact ⟨here.shared.2,fun step member => (earlier step member).shared.2⟩

end result

-- Texts as JSON values, and a server that has one system assistant.
def texts : Json String := ⟨fun text => text != "","",id⟩

def noGraphs : Graphs := ⟨.ok,[]⟩

def opened : Records String := ⟨.start {Store.empty with assistants := [⟨"a","g",true,.empty⟩]},.empty,.empty⟩

def quiet : Wake String := .quiet 0

theorem opened_unique : Unique opened := ⟨.nil,.nil,.nil⟩

theorem opened_used : LiveUsed opened.server.store := fun _ none_ => (List.not_mem_nil none_).elim

-- Nobody asks `uuid4` for anything.
theorem uuids_given {step : Pool String × Event String} (given : (step.1.tasks.all fun t => !(drawn t || draws t)) = true) :
    Uuids step := by
  have plain : ∀ t ∈ step.1.tasks, drawn t = false ∧ draws t = false := by simpa using given
  obtain ⟨p,event⟩ := step
  cases event with
  | call task =>
    intro t member random
    rw [(plain t member).1] at random
    cases random
  | resume index w =>
    intro task found asks
    rw [(plain task (List.mem_of_getElem? found)).2] at asks
    cases asks

def putThenCopy : List (Event String) :=
  [.call (.put (.called ⟨"t",.empty,.raise,none⟩)),.resume 0 quiet,.resume 0 quiet,.call (.copy (.called ⟨"t",false⟩)),
    .resume 0 {quiet with newId := "u"},.resume 0 quiet,.resume 0 quiet]

theorem record_ids_unique_toy : ∃ taken p, Runs texts noGraphs ⟨opened,[]⟩ taken p ∧
    threadIds p.shared.server.store = ["t","u"] ∧ Unique p.shared := by
  have runs := TaskPool.perform_runs .nil
    (rfl : TaskPool.perform (resume texts noGraphs) ⟨opened,[]⟩ putThenCopy = some _)
  refine ⟨_,_,runs,by decide,(record_ids_unique texts noGraphs opened opened_used opened_unique _ _ runs ?_ ?_).1⟩
  · iterate 4 refine List.forall_mem_cons.mpr ⟨uuids_given rfl,?_⟩
    refine List.forall_mem_cons.mpr ⟨?_,?_⟩
    · intro task found _
      cases found
      refine ⟨by decide,fun t member => ?_⟩
      rw [List.mem_singleton.mp member]
      exact nofun
    · iterate 2
        refine List.forall_mem_cons.mpr ⟨fun task found asks => ?_,?_⟩
        · cases found
          cases asks
      exact fun _ none_ => (List.not_mem_nil none_).elim
  · refine List.forall_mem_cons.mpr ⟨rfl,?_⟩
    iterate 2 refine List.forall_mem_cons.mpr ⟨fun task found => by cases found; trivial,?_⟩
    refine List.forall_mem_cons.mpr ⟨rfl,?_⟩
    iterate 3 refine List.forall_mem_cons.mpr ⟨fun task found => by cases found; trivial,?_⟩
    exact fun _ none_ => (List.not_mem_nil none_).elim

-- Two calls of `Runs.put` look for the thread, then both create it.
def put (runId : String) : Creator String :=
  .putRun (.called ⟨"a",some "t",some runId,.pending,.empty,.empty,false,.create,0⟩)

def putTwice : List (Event String) :=
  [.call (put "r1"),.call (put "r2"),.resume 0 quiet,.resume 1 quiet,.resume 0 quiet,.resume 1 quiet,.resume 0 quiet,.resume 0 quiet]

theorem created_twice : ∃ taken p, Runs texts noGraphs ⟨opened,[]⟩ taken p ∧ taken.map Prod.snd = putTwice ∧
    (∀ step ∈ taken, Uuids step) ∧ ¬ Unique p.shared := by
  have runs := TaskPool.perform_runs .nil
    (rfl : TaskPool.perform (resume texts noGraphs) ⟨opened,[]⟩ putTwice = some _)
  refine ⟨_,_,runs,rfl,?_,fun unique => absurd unique.threads (by decide)⟩
  iterate 8 refine List.forall_mem_cons.mpr ⟨uuids_given rfl,?_⟩
  exact fun _ none_ => (List.not_mem_nil none_).elim

end InmemRuntime.RecordIds
