import InmemRuntime.PoolHistory

namespace InmemRuntime.PoolContents
open OrderedDict ObjectHeap Persistence SystemAssistants PoolCycles SingleWriter PoolRestarts PoolHistory

theorem filled_fills {J : Type} (bare : J) : Fills Assistant.isSystem (filled bare) := ⟨fun _ => rfl,fun _ => rfl⟩

section contents
variable {J : Type} {r r' r'' : Registry (Content J)} {names : List String} {slot slot' : Option Component}

-- What the operations see of a component, or would see of one that they open.
def contents (r : Registry (Content J)) (names : List String) : Option Component → List (Content J)
  | none => names.map fun f => (r.file f).getD (.entries [])
  | some c => c.dicts.map (contentOf r)

def Blank (rows : List (Content J)) : Prop := ∀ content ∈ rows, content = .entries []

structure SameRecords (bare : J) (before after : GlobalStore J) : Prop where
  runs : after.runs = before.runs
  threads : after.threads = before.threads
  assistants : Keeps Assistant.isSystem (filled bare) before.assistants after.assistants
  versions : after.assistantVersions = before.assistantVersions
  crons : after.crons = before.crons
  ttls : after.threadTtls = before.threadTtls

-- What the operations see before a stop and after the next start.
structure Restored (bare : J) (before after : Process J) : Prop where
  records : SameRecords bare (contentOf before.registry globalStore).store (contentOf after.registry globalStore).store
  counts : (contentOf after.registry retryCounter).counts = (contentOf before.registry retryCounter).counts
  checkpoints : contents after.registry checkpointFiles after.memory = contents before.registry checkpointFiles before.memory
  items : contents after.registry storeFiles after.store = contents before.registry storeFiles before.store

structure OnDisk (before after : Process J) : Prop where
  records : after.registry.file OPS_FILENAME = some (contentOf before.registry globalStore)
  counts : after.registry.file RETRY_COUNTER_FILENAME = some (contentOf before.registry retryCounter)
  checkpoints : contents after.registry checkpointFiles none = contents before.registry checkpointFiles before.memory
  items : contents after.registry storeFiles none = contents before.registry storeFiles before.store

-- The files of a component that this process has had hold nothing.
structure Unread (s : Process J) : Prop where
  memory : s.memory ≠ none → Blank (contents s.registry checkpointFiles none)
  store : s.store ≠ none → Blank (contents s.registry storeFiles none)

-- Nothing is in the files that a start does not load.
structure Restartable (s : Process J) : Prop extends Unread s where
  counts : ∀ content, s.registry.file RETRY_COUNTER_FILENAME = some content → content.counts = .empty

-- A component that was closed holds nothing that a stop would have to write.
structure Kept (s : Process J) : Prop where
  memory : ∀ c, s.memory = some c → c.closed = true → Blank (contents s.registry checkpointFiles s.memory)
  store : ∀ c, s.store = some c → c.closed = true → Blank (contents s.registry storeFiles s.store)

theorem files_attached {c : Component} (attached : Attached r names c) (r' : Registry (Content J)) :
    contents r' names none = c.dicts.map fun d => (r'.file (r.dicts.read d).filename).getD (.entries []) := by
  unfold contents
  rw [← attached.names,List.map_map]
  rfl

theorem blank_file {c : Component} (attached : Attached r names c) (blank : Blank (contents r' names none)) :
    ∀ d ∈ c.dicts, (r'.file (r.dicts.read d).filename).getD (.entries []) = .entries [] := by
  rw [files_attached attached] at blank
  exact fun d member => blank _ (List.mem_map_of_mem member)

theorem rested_disk (held : Slot r names true slot) (rested : Rested r r' names slot slot') (spent : Spent r slot)
    (kept : ∀ c, slot = some c → c.closed = true → Blank (contents r names slot)) :
    contents r' names none = contents r names slot := by
  cases slot with
  | none =>
    cases slot' with
    | none => exact List.map_congr_left fun f member => by rw [rested f member]
    | some c' => exact rested.elim
  | some c =>
    cases slot' with
    | none => exact rested.elim
    | some c' =>
      rw [files_attached held.1]
      refine List.map_congr_left fun d member => ?_
      obtain ⟨_,_,file⟩ := rested.2 d member
      rw [file]
      cases closed : c.closed with
      | false => rfl
      | true =>
        have empty := spent c rfl closed d member
        have blank := kept c rfl closed _ (List.mem_map_of_mem member)
        exact empty.trans blank.symm

theorem rested_restored {other : List String} (held : Slot r names true slot) (rested : Rested r r' names slot slot')
    (after : Slot r' names false slot') (spares : Spares r' r'' other) (disjoint : ∀ f ∈ names, f ∉ other)
    (unread : slot' ≠ none → Blank (contents r' names none)) : contents r'' names slot' = contents r names slot := by
  cases slot with
  | none =>
    cases slot' with
    | none => exact List.map_congr_left fun f member => by rw [spares.file f (disjoint f member),rested f member]
    | some c' => exact rested.elim
  | some c =>
    cases slot' with
    | none => exact rested.elim
    | some c' =>
      have blank := blank_file held.1 (unread nofun)
      change c'.dicts.map (contentOf r'') = c.dicts.map (contentOf r)
      rw [rested.1]
      refine List.map_congr_left fun d member => ?_
      obtain ⟨content,_,file⟩ := rested.2 d member
      rw [(spared_content spares disjoint after.1 d (by rw [rested.1]; exact member)).1,content]
      cases closed : c.closed with
      | true => rfl
      | false =>
        have empty := blank d member
        rw [file,closed] at empty
        have same : contentOf r d = .entries [] := empty
        rw [same]
        rfl

theorem counts_clear (content : Content J) : content.clear.counts = .empty := by
  cases content <;> rfl

end contents

section attempts
variable {J : Type} {settings : Settings J} {s : Process J}

abbrev Rising (numbers : List (String × Nat)) : Prop := numbers.Pairwise fun a b => a.1 = b.1 → a.2 < b.2

-- What `Runs.next` returns in the course of a cycle: a run, and its attempt.
def returned (settings : Settings J) (s : Process J) : List (Operation J) → List (String × Nat)
  | [] => []
  | operation :: rest =>
    let after := operate settings s operation
    (match operation with
      | .next runId => [(runId,attempts after.registry runId)]
      | _ => []) ++ returned settings after rest

theorem attempts_increment (r : Registry (Content J)) (runId other : String) :
    attempts (increment r runId) other = if runId = other then attempts r runId + 1 else attempts r other := by
  unfold increment
  rw [attempts,content_setContent]
  simp only [Content.counts,Dict.get?_insert,beq_iff_eq]
  split <;> rfl

theorem operate_attempts (running : Running settings s) (operation : Operation J) (runId : String) :
    attempts s.registry runId ≤ attempts (operate settings s operation).registry runId := by
  by_cases next : ∃ other, operation = .next other
  · obtain ⟨other,rfl⟩ := next
    simp only [operate,attempts_increment]
    split
    · rename_i same
      rw [same]
      exact Nat.le_succ _
    · exact Nat.le_refl _
  · have same := operate_counts running operation fun other equal => next ⟨other,equal⟩
    unfold attempts
    rw [same]

-- Within a cycle, each number lies above what was counted at its start and not
-- above what is counted at its end.
structure Counted (low high : String → Nat) (numbers : List (String × Nat)) : Prop where
  rising : Rising numbers
  grows : ∀ runId, low runId ≤ high runId
  within : ∀ x ∈ numbers, low x.1 < x.2 ∧ x.2 ≤ high x.1

theorem counted_append {low middle high : String → Nat} {first second : List (String × Nat)} (one : Counted low middle first)
    (two : Counted middle high second) : Counted low high (first ++ second) := by
  refine ⟨List.pairwise_append.mpr ⟨one.rising,two.rising,?_⟩,fun runId => Nat.le_trans (one.grows runId) (two.grows runId),?_⟩
  · intro x before y after same
    have upper := (one.within x before).2
    have lower := (two.within y after).1
    rw [same] at upper
    omega
  · intro x member
    rcases List.mem_append.mp member with before | after
    · have := one.within x before
      have := two.grows x.1
      omega
    · have := two.within x after
      have := one.grows x.1
      omega

theorem returned_counted (running : Running settings s) (operations : List (Operation J)) :
    Counted (attempts s.registry) (attempts (operations.foldl (operate settings) s).registry) (returned settings s operations) := by
  induction operations generalizing s with
  | nil => exact ⟨.nil,fun _ => Nat.le_refl _,by simp [returned]⟩
  | cons operation rest ih =>
    apply counted_append _ (ih (operate_running running operation))
    have grows := operate_attempts running operation
    cases operation with
    | next runId =>
      refine ⟨List.pairwise_singleton _ _,grows,?_⟩
      intro x member
      rw [List.mem_singleton.mp member]
      refine ⟨?_,Nat.le_refl _⟩
      simp only [operate,attempts_increment,if_true]
      omega
    | _ => exact ⟨.nil,grows,by simp⟩

theorem counted_rows {ρ : Type} {low high : ρ → String → Nat} {numbers : ρ → List (String × Nat)} (rows : List ρ)
    (each : ∀ row ∈ rows, Counted (low row) (high row) (numbers row))
    (linked : ∀ before first second after, rows = before ++ first :: second :: after → high first = low second) :
    Rising (rows.flatMap numbers) ∧ ∀ row rest, rows = row :: rest → ∃ last, Counted (low row) last (rows.flatMap numbers) := by
  induction rows with
  | nil => exact ⟨.nil,by simp⟩
  | cons first rest ih =>
    have here := each first List.mem_cons_self
    have later := ih (fun row member => each row (List.mem_cons_of_mem _ member))
      fun before a b after split => linked (first :: before) a b after (by rw [split]; rfl)
    have whole : ∃ last, Counted (low first) last ((first :: rest).flatMap numbers) := by
      cases rest with
      | nil => exact ⟨high first,by simpa using here⟩
      | cons second others =>
        obtain ⟨last,counted⟩ := later.2 second others rfl
        rw [← linked [] first second others rfl] at counted
        exact ⟨last,counted_append here counted⟩
    refine ⟨whole.elim fun _ counted => counted.rising,?_⟩
    intro row others split
    cases split
    exact whole

end attempts

section result
variable {J : Type} {settings : Settings J} {s : Process J}

-- A pool that may be started.
structure Ready (settings : Settings J) (s : Process J) : Prop extends Steady false s where
  fresh : s.storeConfig = none → settings.storeConfig = none ∨ s.store = none

theorem imported_ready (settings : Settings J) (disk : List (Write (Content J))) : Ready settings (imported disk) := by
  have bare : Marked {Persistence.start ⟨"",(.entries [] : Content J),none⟩ with disk} :=
    ⟨(fun _ _ found => by cases found),(fun _ _ found => by cases found),fun _ _ found => by cases found⟩
  refine ⟨⟨make_marked (make_marked bare _ _) _ _,rfl,⟨Nat.zero_lt_succ 1,rfl,rfl⟩,⟨Nat.lt_succ_self 1,rfl,rfl⟩,fun _ _ => rfl,fun _ _ => rfl⟩,?_⟩
  exact fun _ => .inr rfl

theorem spent_unread {r : Registry (Content J)} {names : List String} {slot : Option Component} (held : Slot r names false slot)
    (unread : slot ≠ none → Blank (contents r names none)) : Spent r slot := by
  intro c same _ d member
  subst same
  exact blank_file held.1 (unread nofun) d member

theorem cycle_onDisk (runs : Running settings s) (kept : Kept s) : OnDisk s (stopPool s) := by
  have stopped := stopPool_stopped runs.toSteady
  exact ⟨stopped.records,stopped.counts,rested_disk runs.memory stopped.memory runs.spentMemory kept.memory,
    rested_disk runs.store stopped.store runs.spentStore kept.store⟩

variable [DecidableEq J]

theorem ready_running (ready : Ready settings s) (unread : Unread s) (operations : List (Operation J)) :
    Running settings (running settings s operations) :=
  operations_running (startPool_running settings ready.toSteady ready.fresh (spent_unread ready.memory unread.memory)
    (spent_unread ready.store unread.store)) operations

theorem cycle_ready (ready : Ready settings s) (unread : Unread s) (operations : List (Operation J)) :
    Ready settings (cycle settings s operations) := by
  have runs := ready_running ready unread operations
  have stopped := stopPool_stopped runs.toSteady
  refine ⟨stopped.steady,fun none_ => .inl (runs.configured ?_)⟩
  rw [← stopped.config]
  exact none_

theorem startPool_configured (configured : s.storeConfig = none → settings.storeConfig = none) :
    startPool settings s = {s with registry := enrolled settings s.registry} := by
  obtain ⟨registry,memory,store,config⟩ := s
  cases config with
  | some path => rfl
  | none =>
    rw [startPool_eq,configured rfl]

theorem restart_restored (runs : Running settings s) (restartable : Restartable (stopPool s)) :
    Restored settings.bare s (startPool settings (stopPool s)) := by
  have stopped := stopPool_stopped runs.toSteady
  have configured : (stopPool s).storeConfig = none → settings.storeConfig = none := by
    rw [stopped.config]
    exact runs.configured
  rw [startPool_configured configured]
  generalize stopPool s = s' at restartable stopped ⊢
  have steady := stopped.steady
  have after := enrolled_enrolled settings steady.marked steady.alive steady.counted steady.recorded
  have kept : found s'.registry = (contentOf s.registry globalStore).store := by
    unfold found
    rw [stopped.records]
    rfl
  refine ⟨?_,?_,?_,?_⟩
  · dsimp only
    rw [after.records,kept]
    exact ⟨rfl,rfl,removeSystem_keeps (filled_fills settings.bare) [] false _,rfl,rfl,rfl⟩
  · dsimp only
    rw [after.counts,stopped.cleared,counts_clear,restartable.counts _ stopped.counts]
  · exact rested_restored runs.memory stopped.memory steady.memory after.spares (by decide) restartable.memory
  · exact rested_restored runs.store stopped.store steady.store after.spares (by decide) restartable.store

-- Over all cycles: what the pool shows, what is on the disk, and the attempts.
structure LosesNothing (settings : Settings J) (taken : List (Process J × List (Operation J))) : Prop where
  restored : ∀ before first second after, taken = before ++ first :: second :: after →
    Restored settings.bare (running settings first.1 first.2) (startPool settings second.1)
  onDisk : ∀ row ∈ taken, OnDisk (running settings row.1 row.2) (cycle settings row.1 row.2)
  attempts : Rising (taken.flatMap fun row => returned settings (startPool settings row.1) row.2)

theorem restarts_lose_nothing (settings : Settings J) (disk : List (Write (Content J)))
    (taken : List (Process J × List (Operation J))) (s : Process J) (runs : Cycles settings disk taken s)
    (restartable : ∀ before first second after, taken = before ++ first :: second :: after → Restartable second.1)
    (kept : ∀ row ∈ taken, Kept (running settings row.1 row.2)) : LosesNothing settings taken := by
  have unread : ∀ row ∈ taken, Unread row.1 := by
    intro row member
    obtain ⟨before,after,split⟩ := List.append_of_mem member
    rcases List.eq_nil_or_concat before with rfl | ⟨init,last,rfl⟩
    · have first := Histories.runs_first runs
      rw [split] at first
      have start : row.1 = imported disk := first
      rw [start]
      exact ⟨fun some_ => absurd rfl some_,fun some_ => absurd rfl some_⟩
    · exact (restartable init last row after (by simp [split])).toUnread
  obtain ⟨_,ready⟩ := Histories.runs_invariant runs (imported_ready settings disk)
    (fun _ operations ready unread => cycle_ready ready unread operations) unread
  have restored : ∀ before first second after, taken = before ++ first :: second :: after →
      Restored settings.bare (running settings first.1 first.2) (startPool settings second.1) := by
    intro before first second after split
    have next := Histories.runs_linked runs before first (second :: after) split
    have here : first ∈ taken := by simp [split]
    have same : second.1 = stopPool (running settings first.1 first.2) := next.symm
    have allowed := restartable before first second after split
    rw [same] at allowed ⊢
    exact restart_restored (ready_running (ready first here) (unread first here) first.2) allowed
  refine ⟨restored,fun row member => cycle_onDisk (ready_running (ready row member) (unread row member) row.2) (kept row member),?_⟩
  refine (counted_rows taken (fun row member => returned_counted (ready_running (ready row member) (unread row member) []) row.2) ?_).1
  intro before first second after split
  funext runId
  have same := (restored before first second after split).counts
  unfold PoolCycles.attempts
  rw [show (startPool settings second.1) = running settings second.1 [] from rfl] at same
  rw [same]
  rfl

end result

-- A process without a configured Store; records are numbers.
def plain : Settings Nat := ⟨none,0,fun _ ttl => ttl⟩

def quiet : List (Operation Nat) := [.records ⟨[1],[2],[⟨some "system",none,3⟩,⟨some "user",some 4,5⟩],[6],[7],[(8,9)]⟩]

def busy : List (Operation Nat) := [.checkpointer,.checkpoint 0 [(1,2)],.next "r",.flush,.next "r"]

def cycles (operations : List (List (Operation Nat))) : List (Process Nat × List (Operation Nat)) :=
  Histories.trace (cycle plain) (imported []) operations

theorem cycles_runs (operations : List (List (Operation Nat))) :
    Cycles plain [] (cycles operations) (operations.foldl (cycle plain) (imported [])) := Histories.runs_trace .nil operations

theorem restarts_lose_nothing_toy : returned plain (startPool plain (cycle plain (imported []) quiet)) busy = [("r",1),("r",2)] ∧
    LosesNothing plain (cycles [quiet,busy]) := by
  refine ⟨by decide +kernel,restarts_lose_nothing plain [] _ _ (cycles_runs _) ?_ ?_⟩
  · intro before first second after split
    have place : second = (cycle plain (imported []) quiet,busy) := by
      rcases before with - | ⟨row,before⟩
      · cases split
        rfl
      · have short := congrArg List.length split
        simp only [cycles,Histories.trace,List.length_cons,List.length_append,List.length_nil] at short
        omega
    rw [place]
    refine ⟨⟨fun some_ => absurd rfl some_,fun some_ => absurd rfl some_⟩,?_⟩
    intro content file
    have counts : (Registry.file (cycle plain (imported []) quiet).registry RETRY_COUNTER_FILENAME).map Content.counts = some .empty := rfl
    rw [file] at counts
    exact Option.some.inj counts
  · intro row member
    rcases List.mem_cons.mp member with rfl | later
    · refine ⟨?_,?_⟩
      all_goals intro c same _; cases same
    · rw [List.mem_singleton.mp later]
      refine ⟨?_,?_⟩
      all_goals intro c same closed; cases same
      cases closed

-- The second start forgets the attempts and the checkpoints of the first cycle.
theorem restart_forgets : ∃ taken s, Cycles plain [] taken s ∧ taken.map Prod.snd = [busy,[]] ∧ ¬ LosesNothing plain taken := by
  refine ⟨cycles [busy,[]],_,cycles_runs _,rfl,fun nothing => ?_⟩
  have restored := nothing.restored [] (imported [],busy) (cycle plain (imported []) busy,[]) [] rfl
  have counts := congrArg (fun counts : Dict String Nat => counts.get? "r") restored.counts
  have apart : (none : Option Nat) = some 2 := counts
  cases apart

end InmemRuntime.PoolContents
