import InmemRuntime.PoolRestarts

namespace InmemRuntime.PoolHistory
open OrderedDict ObjectHeap Persistence PoolCycles SingleWriter PoolRestarts

section process
variable {J : Type} {settings : Settings J} {s : Process J} {r : Registry (Content J)} {names : List String}

-- The dict that a write of a component reaches is one of its own.
theorem writeRows_cases (r : Registry (Content J)) (slot : Option Component) (place : Nat) (rows : List (J × J)) :
    writeRows r slot place rows = r ∨
      ∃ c d, slot = some c ∧ d ∈ c.dicts ∧ writeRows r slot place rows = r.setContent d (.entries rows) := by
  unfold writeRows
  split
  · exact .inl rfl
  · rename_i d held
    obtain ⟨c,same,at_⟩ := Option.bind_eq_some_iff.mp held
    exact .inr ⟨c,d,same,List.mem_of_getElem? at_,rfl⟩

theorem counts_apart {slot : Option Component} (counted : Home r retryCounter RETRY_COUNTER_FILENAME true)
    (outside : RETRY_COUNTER_FILENAME ∉ names) (held : Slot r names true slot) (place : Nat) (rows : List (J × J)) :
    contentOf (writeRows r slot place rows) retryCounter = contentOf r retryCounter := by
  rcases writeRows_cases r slot place rows with same | ⟨c,d,rfl,member,same⟩
  · rw [same]
  · rw [same]
    apply (setContent_spares r d (.entries rows)).content retryCounter counted.used
    rw [counted.name]
    intro shared
    exact outside (List.mem_singleton.mp shared ▸ held.1.named member)

theorem writeRows_running {slot : Option Component} (running : Running settings s) (place : Nat) (rows : List (J × J)) :
    Running settings {s with registry := writeRows s.registry slot place rows} := by
  rcases writeRows_cases s.registry slot place rows with same | ⟨_,d,_,_,same⟩
  · rw [same]
    exact running
  · rw [same]
    exact running_content running d _

theorem spent_open (ds : List Nat) : Spent r (some ⟨ds,false⟩) := by
  intro c same closed
  cases same
  cases closed

theorem openSaver_running (running : Running settings s) (none_ : s.memory = none) :
    Running settings (openSaver s) ∧ Spares s.registry (openSaver s).registry checkpointFiles := by
  obtain ⟨spares,steady⟩ := openSaver_steady running.toSteady none_
  exact ⟨⟨steady,spent_open _,spent_spared spares store_apart running.store running.spentStore,running.configured⟩,spares⟩

theorem openStore_running (running : Running settings s) (none_ : s.store = none) :
    Running settings (openStore settings s) ∧ Spares s.registry (openStore settings s).registry storeFiles := by
  have free : ∀ f ∈ storeFiles, s.registry.current f = none := by
    have held := running.store
    rw [none_] at held
    exact held
  obtain ⟨registry,ds,shape,opened⟩ := openStore_opened settings running.marked running.alive free
  obtain ⟨spares,marked,attached⟩ := opened
  rw [shape]
  refine ⟨⟨⟨marked,spares.alive.trans running.alive,home_spared spares retry_apart.2.1 running.counted,
    home_spared spares ops_apart.2.1 running.recorded,slot_spared spares checkpoint_apart running.memory,attached,
    fun off => by cases off⟩,spent_spared spares checkpoint_apart running.memory running.spentMemory,spent_open ds,
    running.configured⟩,spares⟩

theorem flush_running (running : Running settings s) :
    Running settings {s with registry := s.registry.flushRegisteredOnce []} := by
  obtain ⟨dicts,alive,marked,current,file⟩ := flush_keeps s.registry running.alive running.marked
  exact running_same running marked alive (by rw [dicts]) (fun d => by rw [dicts]) current file

theorem operate_running (running : Running settings s) (operation : Operation J) : Running settings (operate settings s operation) := by
  cases operation with
  | records store => exact running_content running _ _
  | next runId => exact running_content running _ _
  | checkpointer =>
    simp only [operate]
    cases none_ : s.memory with
    | none => exact (openSaver_running running none_).1
    | some c => exact running
  | checkpoint place rows => exact writeRows_running running place rows
  | store =>
    simp only [operate]
    cases none_ : s.store with
    | none => exact (openStore_running running none_).1
    | some c => exact running
  | item place rows => exact writeRows_running running place rows
  | flush => exact flush_running running

theorem operations_running (running : Running settings s) (operations : List (Operation J)) :
    Running settings (operations.foldl (operate settings) s) := by
  induction operations generalizing s with
  | nil => exact running
  | cons operation rest ih => exact ih (operate_running running operation)

-- Only `Runs.next` touches the retry counters.
theorem operate_counts (running : Running settings s) (operation : Operation J) (other : ∀ runId, operation ≠ .next runId) :
    contentOf (operate settings s operation).registry retryCounter = contentOf s.registry retryCounter := by
  have named := running.counted.name
  cases operation with
  | records store =>
    apply (setContent_spares s.registry globalStore (.records store)).content retryCounter running.counted.used
    rw [named,running.recorded.name]
    exact retry_apart.2.2
  | next runId => exact absurd rfl (other runId)
  | checkpointer =>
    simp only [operate]
    cases none_ : s.memory with
    | none => exact (openSaver_running running none_).2.content _ running.counted.used (by rw [named]; exact retry_apart.1)
    | some c => rfl
  | checkpoint place rows => exact counts_apart running.counted retry_apart.1 running.memory place rows
  | store =>
    simp only [operate]
    cases none_ : s.store with
    | none => exact (openStore_running running none_).2.content _ running.counted.used (by rw [named]; exact retry_apart.2.1)
    | some c => rfl
  | item place rows => exact counts_apart running.counted retry_apart.2.1 running.store place rows
  | flush =>
    have dicts := (flush_keeps s.registry running.alive running.marked).1
    exact congrArg (fun h => (h.read retryCounter).content) dicts

-- What stopping leaves of `MEMORY` or `STORE`, and of its files.
def Rested (r r' : Registry (Content J)) (names : List String) : Option Component → Option Component → Prop
  | none,none => ∀ f ∈ names, r'.file f = r.file f
  | some c,some c' => c'.dicts = c.dicts ∧ ∀ d ∈ c.dicts,
    contentOf r' d = (if c.closed then contentOf r d else (contentOf r d).clear) ∧
    (r'.dicts.read d).filename = (r.dicts.read d).filename ∧
    r'.file (r.dicts.read d).filename = if c.closed then r.file (r.dicts.read d).filename else some (contentOf r d)
  | _,_ => False

def shutSlot (r : Registry (Content J)) : Option Component → Registry (Content J) × Option Component
  | none => (r,none)
  | some c => ((closeComponent r c).1,some (closeComponent r c).2)

theorem closeStore_eq (s : Process J) : closeStore s =
    {s with registry := (shutSlot s.registry s.store).1, store := (shutSlot s.registry s.store).2} := by
  obtain ⟨registry,memory,store,config⟩ := s
  cases store <;> rfl

theorem closeMemory_eq (s : Process J) : closeMemory s =
    {s with registry := (shutSlot s.registry s.memory).1, memory := (shutSlot s.registry s.memory).2} := by
  obtain ⟨registry,memory,store,config⟩ := s
  cases memory <;> rfl

theorem shutSlot_rested (marked : Marked r) (single : names.Nodup) {slot : Option Component} (held : Slot r names true slot) :
    Spares r (shutSlot r slot).1 names ∧ Marked (shutSlot r slot).1 ∧ Slot (shutSlot r slot).1 names false (shutSlot r slot).2 ∧
      Rested r (shutSlot r slot).1 names slot (shutSlot r slot).2 := by
  cases slot with
  | none => exact ⟨(Spares.refl r).weaken (by simp),marked,held,fun _ _ => rfl⟩
  | some c =>
    have shut := closeComponent_shut marked single held.1
    refine ⟨shut.spares,shut.marked,⟨shut.attached,fun _ => shut.closed⟩,shut.dicts,?_⟩
    exact fun d member => ⟨shut.content d member,shut.spares.filename d (held.1.used d member),shut.file d member⟩

theorem rested_spared {r' r'' r''' : Registry (Content J)} {other other' : List String} {slot slot' : Option Component}
    (before : Spares r r' other) (after : Spares r'' r''' other') (disjoint : ∀ f ∈ names, f ∉ other)
    (disjoint' : ∀ f ∈ names, f ∉ other') (held : Slot r names true slot) (next : r'.dicts.next ≤ r''.dicts.next)
    (rested : Rested r' r'' names slot slot') : Rested r r''' names slot slot' := by
  cases slot with
  | none =>
    cases slot' with
    | none => exact fun f member => (after.file f (disjoint' f member)).trans ((rested f member).trans (before.file f (disjoint f member)))
    | some c' => exact rested
  | some c =>
    cases slot' with
    | none => exact rested
    | some c' =>
      refine ⟨rested.1,fun d member => ?_⟩
      obtain ⟨content,name,file⟩ := rested.2 d member
      have used := held.1.used d member
      have named := held.1.named member
      have same := before.filename d used
      have later : d < r''.dicts.next := Nat.lt_of_lt_of_le (Nat.lt_of_lt_of_le used before.next) next
      have kept := before.content d used (disjoint _ named)
      rw [same] at name file
      rw [kept] at content file
      refine ⟨?_,(after.filename d later).trans name,?_⟩
      · rw [after.content d later (by rw [name]; exact disjoint' _ named)]
        exact content
      · rw [after.file _ (disjoint' _ named),file,before.file _ (disjoint _ named)]

-- A stop of the pool: what it leaves, and what is on the disk after it.
structure Stopped (s s' : Process J) : Prop where
  steady : Steady false s'
  config : s'.storeConfig = s.storeConfig
  records : s'.registry.file OPS_FILENAME = some (contentOf s.registry globalStore)
  counts : s'.registry.file RETRY_COUNTER_FILENAME = some (contentOf s.registry retryCounter)
  cleared : contentOf s'.registry retryCounter = (contentOf s.registry retryCounter).clear
  memory : Rested s.registry s'.registry checkpointFiles s.memory s'.memory
  store : Rested s.registry s'.registry storeFiles s.store s'.store

theorem stopPool_stopped (steady : Steady true s) : Stopped s (stopPool s) := by
  obtain ⟨registry,memory,store,config⟩ := s
  obtain ⟨marked,alive,counted,recorded,checkpoints,items⟩ := steady
  dsimp only at marked alive counted recorded checkpoints items
  unfold stopPool
  dsimp only
  rw [closeStore_eq,closeMemory_eq]
  dsimp only
  have owner : registry.current (registry.dicts.read globalStore).filename = some globalStore := by
    rw [recorded.name]
    exact recorded.owner
  obtain ⟨spares1,marked1,content1,file1,current1⟩ := close_handed marked owner
  rw [recorded.name] at spares1 file1 current1
  generalize registry.closePersistentDict clearing globalStore false = r1 at spares1 marked1 content1 file1 current1 ⊢
  have counted1 := home_spared spares1 retry_apart.2.2 counted
  have owner1 : r1.current (r1.dicts.read retryCounter).filename = some retryCounter := by
    rw [counted1.name]
    exact counted1.owner
  obtain ⟨spares2,marked2,content2,file2,current2⟩ := close_handed marked1 owner1
  rw [counted1.name] at spares2 file2 current2
  rw [spares1.content _ counted.used (by rw [counted.name]; exact retry_apart.2.2)] at content2 file2
  generalize r1.closePersistentDict clearing retryCounter false = r2 at spares2 marked2 content2 file2 current2 ⊢
  have both := spares1.trans spares2
  have store_files : ∀ f ∈ storeFiles, f ∉ [OPS_FILENAME] ++ [RETRY_COUNTER_FILENAME] := by decide
  have checkpoint_files : ∀ f ∈ checkpointFiles, f ∉ [OPS_FILENAME] ++ [RETRY_COUNTER_FILENAME] := by decide
  have held2 := slot_spared both store_files items
  obtain ⟨spares3,marked3,slot3,rested3⟩ := shutSlot_rested marked2 store_single held2
  generalize shutSlot r2 store = shut3 at spares3 marked3 slot3 rested3 ⊢
  have three := both.trans spares3
  have held3 := slot_spared spares3 checkpoint_apart (slot_spared both checkpoint_files checkpoints)
  obtain ⟨spares4,marked4,slot4,rested4⟩ := shutSlot_rested marked3 checkpoint_single held3
  generalize shutSlot shut3.1 memory = shut4 at spares4 marked4 slot4 rested4 ⊢
  have last := spares3.trans spares4
  have retryOut : RETRY_COUNTER_FILENAME ∉ storeFiles ++ checkpointFiles := by decide
  have opsOut : OPS_FILENAME ∉ storeFiles ++ checkpointFiles := by decide
  have usedCount := Nat.lt_of_lt_of_le counted.used both.next
  have nameCount := (both.filename _ counted.used).trans counted.name
  have usedRecords := Nat.lt_of_lt_of_le recorded.used both.next
  have nameRecords := (both.filename _ recorded.used).trans recorded.name
  have counted2 : Home r2 retryCounter RETRY_COUNTER_FILENAME false := ⟨usedCount,nameCount,current2⟩
  have recorded2 : Home r2 globalStore OPS_FILENAME false :=
    ⟨usedRecords,nameRecords,(spares2.current _ ops_apart.2.2).trans current1⟩
  have resting : Rested registry shut4.1 checkpointFiles memory shut4.2 :=
    rested_spared three (Spares.refl shut4.1) (by decide) (by simp) checkpoints spares4.next rested4
  have resting' : Rested registry shut4.1 storeFiles store shut3.2 :=
    rested_spared both spares4 store_files store_apart items spares3.next rested3
  refine ⟨⟨marked4,last.alive.trans (both.alive.trans alive),home_spared last retryOut counted2,home_spared last opsOut recorded2,
    slot4,slot_spared spares4 store_apart slot3⟩,rfl,?_,?_,?_,resting,resting'⟩
  · rw [last.file _ opsOut,spares2.file _ ops_apart.2.2]
    exact file1
  · rw [last.file _ retryOut]
    exact file2
  · rw [last.content _ usedCount (by rw [nameCount]; exact retryOut)]
    exact content2

end process

end InmemRuntime.PoolHistory
