import InmemRuntime.PoolCycles
import InmemRuntime.SingleWriter

namespace InmemRuntime.PoolRestarts
open OrderedDict ObjectHeap Persistence PoolCycles SingleWriter

section spares
variable {J : Type} {r r' r'' : Registry (Content J)} {d : Nat} {names : List String}

-- From one registry to the other, only dicts of these files and the files
-- themselves are touched.
structure Spares (r r' : Registry (Content J)) (names : List String) : Prop where
  next : r.dicts.next ≤ r'.dicts.next
  alive : r'.collected = r.collected
  filename : ∀ d < r.dicts.next, (r'.dicts.read d).filename = (r.dicts.read d).filename
  content : ∀ d < r.dicts.next, (r.dicts.read d).filename ∉ names → contentOf r' d = contentOf r d
  current : ∀ f, f ∉ names → r'.current f = r.current f
  file : ∀ f, f ∉ names → r'.file f = r.file f

theorem Spares.refl (r : Registry (Content J)) : Spares r r [] :=
  ⟨Nat.le_refl _,rfl,fun _ _ => rfl,fun _ _ _ => rfl,fun _ _ => rfl,fun _ _ => rfl⟩

theorem Spares.trans {names' : List String} (first : Spares r r' names) (second : Spares r' r'' names') :
    Spares r r'' (names ++ names') := by
  refine ⟨Nat.le_trans first.next second.next,second.alive.trans first.alive,?_,?_,?_,?_⟩
  · intro d used
    exact (second.filename d (Nat.lt_of_lt_of_le used first.next)).trans (first.filename d used)
  · intro d used outside
    obtain ⟨before,after⟩ := not_or.mp fun inside => outside (List.mem_append.mpr inside)
    have later := second.content d (Nat.lt_of_lt_of_le used first.next) (by rw [first.filename d used]; exact after)
    exact later.trans (first.content d used before)
  · intro f outside
    obtain ⟨before,after⟩ := not_or.mp fun inside => outside (List.mem_append.mpr inside)
    exact (second.current f after).trans (first.current f before)
  · intro f outside
    obtain ⟨before,after⟩ := not_or.mp fun inside => outside (List.mem_append.mpr inside)
    exact (second.file f after).trans (first.file f before)

theorem Spares.weaken {names' : List String} (spares : Spares r r' names) (within : names ⊆ names') : Spares r r' names' :=
  ⟨spares.next,spares.alive,spares.filename,fun d used outside => spares.content d used fun inside => outside (within inside),
    fun f outside => spares.current f fun inside => outside (within inside),
    fun f outside => spares.file f fun inside => outside (within inside)⟩

-- One dict is written, and one file after it.
theorem spares_written (dict : PersistentDict (Content J)) {stores : Dict String Nat} {disk : List (Write (Content J))}
    (name : dict.filename = (r.dicts.read d).filename)
    (current : ∀ f, f ≠ dict.filename → stores.get? f = r.stores.get? f)
    (file : ∀ f, f ≠ dict.filename → (disk.filter fun write => write.filename = f) = r.disk.filter fun write => write.filename = f) :
    Spares r ⟨r.dicts.write d dict,r.collected,stores,disk⟩ [dict.filename] := by
  refine ⟨Nat.le_refl _,rfl,?_,?_,?_,?_⟩
  · intro other _
    by_cases same : other = d
    · subst same
      simpa using name
    · rw [Heap.read_write_other same]
  · intro other _ outside
    have apart : other ≠ d := by
      rintro rfl
      exact outside (by simp [name])
    exact congrArg PersistentDict.content (Heap.read_write_other apart)
  · intro f outside
    unfold Registry.current
    rw [current f (by simpa using outside)]
  · intro f outside
    unfold Registry.file
    rw [file f (by simpa using outside)]

theorem setContent_spares (r : Registry (Content J)) (d : Nat) (content : Content J) :
    Spares r (r.setContent d content) [(r.dicts.read d).filename] :=
  spares_written {r.dicts.read d with content} rfl (fun _ _ => rfl) fun _ _ => rfl

theorem setContent_same (r : Registry (Content J)) (d : Nat) (content : Content J) (f : String) :
    (r.setContent d content).current f = r.current f ∧ (r.setContent d content).file f = r.file f := ⟨rfl,rfl⟩

theorem content_setContent (r : Registry (Content J)) (d : Nat) (content : Content J) :
    contentOf (r.setContent d content) d = content := by
  simp [contentOf,Registry.setContent]

-- `load` in terms of the content that results.
theorem load_eq (r : Registry (Content J)) (d : Nat) :
    load r d = r.setContent d ((r.file (r.dicts.read d).filename).getD (contentOf r d)) := by
  unfold load
  cases r.file (r.dicts.read d).filename with
  | some content => rfl
  | none => simp [Registry.setContent,contentOf,Heap.write]

theorem load_marked (marked : Marked r) (d : Nat) : Marked (load r d) := by
  rw [load_eq]
  exact marked_content marked _

-- The owner of a file is closed.
structure Handed (r r' : Registry (Content J)) (d : Nat) : Prop where
  spares : Spares r r' [(r.dicts.read d).filename]
  marked : Marked r'
  content : contentOf r' d = (contentOf r d).clear
  file : r'.file (r.dicts.read d).filename = some (contentOf r d)
  current : r'.current (r.dicts.read d).filename = none

theorem close_handed (marked : Marked r) (owner : r.current (r.dicts.read d).filename = some d) :
    Handed r (r.closePersistentDict clearing d false) d := by
  have file : (r.closePersistentDict clearing d false).file (r.dicts.read d).filename = some (contentOf r d) :=
    close_file marked owner
  have still : Marked (r.closePersistentDict clearing d false) := close_marked marked false
  have mark := marked.owner _ _ (current_some.mp owner).1
  have shape : r.closePersistentDict clearing d false =
      ⟨r.dicts.write d ⟨(r.dicts.read d).filename,(contentOf r d).clear,none⟩,r.collected,
        r.stores.erase (r.dicts.read d).filename,r.disk ++ [written r d]⟩ := by
    simp [Registry.closePersistentDict,mark,owner,written,Registry.setOwner,Registry.setContent,Registry.sync,contentOf,clearing,
      Heap.write]
  rw [shape] at file still ⊢
  refine ⟨?_,still,by simp [contentOf],file,?_⟩
  · refine spares_written ⟨(r.dicts.read d).filename,(contentOf r d).clear,none⟩ rfl ?_ ?_
    · intro f apart
      rw [Dict.get?_erase,if_neg (by simpa using Ne.symm apart)]
    · intro f apart
      rw [List.filter_append,List.filter_cons_of_neg (by simp [written,Ne.symm apart])]
      simp
  · simp [Registry.current,Dict.get?_erase]

theorem register_owner (marked : Marked r) (used : d < r.dicts.next) (alive : d ∉ r.collected)
    (free : r.current (r.dicts.read d).filename = none) :
    Spares r (r.registerPersistentDict d) [(r.dicts.read d).filename] ∧ Marked (r.registerPersistentDict d) ∧
      (r.registerPersistentDict d).current (r.dicts.read d).filename = some d ∧
      contentOf (r.registerPersistentDict d) d = contentOf r d ∧ (r.registerPersistentDict d).disk = r.disk := by
  have still := register_marked marked used
  have shape : r.registerPersistentDict d = ⟨r.dicts.write d ⟨(r.dicts.read d).filename,contentOf r d,some true⟩,r.collected,
      r.stores.insert (r.dicts.read d).filename d,r.disk⟩ := by
    simp [Registry.registerPersistentDict,free,Registry.setOwner,contentOf]
  rw [shape] at still ⊢
  refine ⟨?_,still,?_,by simp [contentOf],rfl⟩
  · refine spares_written ⟨(r.dicts.read d).filename,contentOf r d,some true⟩ rfl ?_ fun _ _ => rfl
    intro f apart
    rw [Dict.get?_insert,if_neg (by simpa using Ne.symm apart)]
  · simp [Registry.current,alive]

theorem make_spares (r : Registry (Content J)) (filename : String) (content : Content J) :
    Spares r (make r filename content).1 [] :=
  ⟨Nat.le_succ _,rfl,fun _ used => congrArg PersistentDict.filename (Heap.read_alloc_old used),
    fun _ used _ => congrArg PersistentDict.content (Heap.read_alloc_old used),fun _ _ => rfl,fun _ _ => rfl⟩

theorem make_marked (marked : Marked r) (filename : String) (content : Content J) : Marked (make r filename content).1 :=
  @step_marked _ clearing _ (.create filename content) marked

theorem flush_keeps (r : Registry (Content J)) (alive : r.collected = []) (marked : Marked r) :
    (r.flushRegisteredOnce []).dicts = r.dicts ∧ (r.flushRegisteredOnce []).collected = [] ∧ Marked (r.flushRegisteredOnce []) ∧
      (∀ f, (r.flushRegisteredOnce []).current f = r.current f) ∧
      ∀ f, r.current f = none → (r.flushRegisteredOnce []).file f = r.file f := by
  have flushed := flush_flushed r []
  refine ⟨flushed.dicts,flushed.collected.trans alive,@step_marked _ clearing _ (.flush []) marked,?_,?_⟩
  · intro f
    cases owner : r.current f with
    | some d =>
      obtain ⟨registered,living⟩ := current_some.mp owner
      refine current_some.mpr ⟨flushed.live f d registered living,?_⟩
      rw [flushed.collected]
      exact living
    | none =>
      apply Option.eq_none_iff_forall_ne_some.mpr
      intro d found
      rw [current_kept found flushed.stores flushed.collected] at owner
      cases owner
  · intro f free
    have none_ : ((r.stores.entries.filter (flushes r [])).map fun row => written r row.2).filter
        (fun write => write.filename = f) = [] := by
      apply List.filter_eq_nil_iff.mpr
      intro write member
      obtain ⟨row,kept,rfl⟩ := List.mem_map.mp member
      have registered := Dict.mem_iff.mp (List.mem_filter.mp kept).1
      have name : (written r row.2).filename = row.1 := marked.filename _ _ registered
      have owner : r.current row.1 = some row.2 := current_some.mpr ⟨registered,by simp [alive]⟩
      rw [name]
      intro same
      rw [show row.1 = f by simpa using same,free] at owner
      cases owner
    unfold Registry.file
    rw [flushed.disk,List.filter_append,none_,List.append_nil]

end spares

section components
variable {J : Type} {r r' : Registry (Content J)} {names other : List String} {c : Component}

-- The dicts of a component, each for its file, and registered while it is open.
structure Attached (r : Registry (Content J)) (names : List String) (c : Component) : Prop where
  used : ∀ d ∈ c.dicts, d < r.dicts.next
  names : c.dicts.map (fun d => (r.dicts.read d).filename) = names
  owner : ∀ d ∈ c.dicts, r.current (r.dicts.read d).filename = if c.closed then none else some d

theorem Attached.named (attached : Attached r names c) {d : Nat} (member : d ∈ c.dicts) : (r.dicts.read d).filename ∈ names := by
  rw [← attached.names]
  exact List.mem_map.mpr ⟨d,member,rfl⟩

theorem attached_spared (spares : Spares r r' other) (disjoint : ∀ f ∈ names, f ∉ other) (attached : Attached r names c) :
    Attached r' names c := by
  refine ⟨fun d member => Nat.lt_of_lt_of_le (attached.used d member) spares.next,?_,?_⟩
  · rw [← attached.names]
    exact List.map_congr_left fun d member => spares.filename d (attached.used d member)
  · intro d member
    rw [spares.filename d (attached.used d member),spares.current _ (disjoint _ (attached.named member))]
    exact attached.owner d member

theorem spared_content (spares : Spares r r' other) (disjoint : ∀ f ∈ names, f ∉ other) (attached : Attached r names c) :
    ∀ d ∈ c.dicts, contentOf r' d = contentOf r d ∧ r'.file (r.dicts.read d).filename = r.file (r.dicts.read d).filename :=
  fun d member => ⟨spares.content d (attached.used d member) (disjoint _ (attached.named member)),
    spares.file _ (disjoint _ (attached.named member))⟩

structure Opened (r r' : Registry (Content J)) (names : List String) (ds : List Nat) : Prop where
  spares : Spares r r' names
  marked : Marked r'
  attached : Attached r' names ⟨ds,false⟩

theorem openEach_opened {enter : Registry (Content J) → Nat → Registry (Content J)}
    (enters : ∀ r d, Marked r → d < r.dicts.next → r.collected = [] → r.current (r.dicts.read d).filename = none →
      Spares r (enter r d) [(r.dicts.read d).filename] ∧ Marked (enter r d) ∧
      (enter r d).current (r.dicts.read d).filename = some d)
    (single : names.Nodup) (marked : Marked r) (alive : r.collected = []) (free : ∀ f ∈ names, r.current f = none) :
    Opened r (openEach enter r names).1 names (openEach enter r names).2 := by
  induction names generalizing r with
  | nil => exact ⟨Spares.refl r,marked,⟨by simp [openEach],rfl,by simp [openEach]⟩⟩
  | cons filename rest ih =>
    obtain ⟨apart,tail⟩ := List.nodup_cons.mp single
    unfold openEach
    have making := make_spares r filename (.entries [])
    have name : ((make r filename (.entries [])).1.dicts.read r.dicts.next).filename = filename := by
      simp [make,Registry.create]
    obtain ⟨spares,marked',owner⟩ := enters (make r filename (.entries [])).1 r.dicts.next (make_marked marked _ _)
      (Nat.lt_succ_self _) alive (by rw [name]; exact free filename List.mem_cons_self)
    rw [name] at spares owner
    have others : ∀ f ∈ rest, (enter (make r filename (.entries [])).1 r.dicts.next).current f = none := by
      intro f member
      have different : f ≠ filename := fun same => apart (same ▸ member)
      rw [spares.current f (by simpa using different)]
      exact free f (List.mem_cons_of_mem _ member)
    have later := ih tail marked' (spares.alive.trans alive) others
    have used : r.dicts.next < (enter (make r filename (.entries [])).1 r.dicts.next).dicts.next :=
      Nat.lt_of_lt_of_le (Nat.lt_succ_self _) spares.next
    have named : (((openEach enter (enter (make r filename (.entries [])).1 r.dicts.next) rest).1).dicts.read r.dicts.next).filename =
        filename := by
      rw [later.spares.filename _ used,spares.filename _ (Nat.lt_succ_self _),name]
    refine ⟨?_,later.marked,?_,?_,?_⟩
    · exact (making.trans (spares.trans later.spares)).weaken (by simp)
    · intro d member
      rcases List.mem_cons.mp member with rfl | old
      · exact Nat.lt_of_lt_of_le used later.spares.next
      · exact later.attached.used d old
    · have remaining := later.attached.names
      dsimp only [make] at remaining named ⊢
      rw [List.map_cons,named,remaining]
    · intro d member
      rcases List.mem_cons.mp member with rfl | old
      · have kept := (later.spares.current filename apart).trans owner
        dsimp only [make] at named kept ⊢
        rw [named]
        exact kept
      · exact later.attached.owner d old

-- All dicts of a component are closed, one after the other.
structure AllHanded (r r' : Registry (Content J)) (ds : List Nat) : Prop where
  spares : Spares r r' (ds.map fun d => (r.dicts.read d).filename)
  marked : Marked r'
  content : ∀ d ∈ ds, contentOf r' d = (contentOf r d).clear
  file : ∀ d ∈ ds, r'.file (r.dicts.read d).filename = some (contentOf r d)
  current : ∀ d ∈ ds, r'.current (r.dicts.read d).filename = none

theorem closeAll_handed (ds : List Nat) (marked : Marked r) (used : ∀ d ∈ ds, d < r.dicts.next)
    (single : (ds.map fun d => (r.dicts.read d).filename).Nodup)
    (owner : ∀ d ∈ ds, r.current (r.dicts.read d).filename = some d) :
    AllHanded r (ds.foldl (fun r d => r.closePersistentDict clearing d false) r) ds := by
  induction ds generalizing r with
  | nil => exact ⟨Spares.refl r,marked,by simp,by simp,by simp⟩
  | cons d rest ih =>
    obtain ⟨apart,tail⟩ := List.nodup_cons.mp single
    have first := close_handed marked (owner d List.mem_cons_self)
    have later : ∀ e ∈ rest, e < r.dicts.next := fun e member => used e (List.mem_cons_of_mem _ member)
    have outside : ∀ e ∈ rest, (r.dicts.read e).filename ∉ [(r.dicts.read d).filename] := by
      intro e member same
      exact apart (List.mem_map.mpr ⟨e,member,List.mem_singleton.mp same⟩)
    have same : ∀ e ∈ rest, ((r.closePersistentDict clearing d false).dicts.read e).filename = (r.dicts.read e).filename :=
      fun e member => first.spares.filename e (later e member)
    have names : rest.map (fun e => ((r.closePersistentDict clearing d false).dicts.read e).filename) =
        rest.map fun e => (r.dicts.read e).filename := List.map_congr_left same
    have others := ih first.marked (fun e member => Nat.lt_of_lt_of_le (later e member) first.spares.next) (by rw [names]; exact tail)
      (by
        intro e member
        rw [same e member,first.spares.current _ (outside e member)]
        exact owner e (List.mem_cons_of_mem _ member))
    have spares := others.spares
    rw [names] at spares
    have mine := used d List.mem_cons_self
    rw [List.foldl_cons]
    refine ⟨first.spares.trans spares,others.marked,?_,?_,?_⟩
    · intro e member
      rcases List.mem_cons.mp member with rfl | old
      · rw [spares.content e (Nat.lt_of_lt_of_le mine first.spares.next) (by rw [first.spares.filename e mine]; exact apart)]
        exact first.content
      · rw [others.content e old,first.spares.content e (later e old) (outside e old)]
    · intro e member
      rcases List.mem_cons.mp member with rfl | old
      · rw [spares.file _ apart]
        exact first.file
      · have here := others.file e old
        rw [same e old,first.spares.content e (later e old) (outside e old)] at here
        exact here
    · intro e member
      rcases List.mem_cons.mp member with rfl | old
      · rw [spares.current _ apart]
        exact first.current
      · have here := others.current e old
        rw [same e old] at here
        exact here

-- What closing a component does; a closed one stays as it is.
structure Shut (r r' : Registry (Content J)) (names : List String) (c c' : Component) : Prop where
  spares : Spares r r' names
  marked : Marked r'
  attached : Attached r' names c'
  dicts : c'.dicts = c.dicts
  closed : c'.closed = true
  content : ∀ d ∈ c.dicts, contentOf r' d = if c.closed then contentOf r d else (contentOf r d).clear
  file : ∀ d ∈ c.dicts, r'.file (r.dicts.read d).filename =
    if c.closed then r.file (r.dicts.read d).filename else some (contentOf r d)

theorem closeComponent_shut (marked : Marked r) (single : names.Nodup) (attached : Attached r names c) :
    Shut r (closeComponent r c).1 names c (closeComponent r c).2 := by
  unfold closeComponent
  cases state : c.closed with
  | true => exact ⟨(Spares.refl r).weaken (by simp),marked,attached,rfl,state,by simp [state],by simp [state]⟩
  | false =>
    have owner : ∀ d ∈ c.dicts, r.current (r.dicts.read d).filename = some d := by
      intro d member
      rw [attached.owner d member,state]
      rfl
    have handed := closeAll_handed c.dicts marked attached.used (by rw [attached.names]; exact single) owner
    have spares := handed.spares
    rw [attached.names] at spares
    refine ⟨spares,handed.marked,⟨?_,?_,?_⟩,rfl,rfl,?_,?_⟩
    · exact fun d member => Nat.lt_of_lt_of_le (attached.used d member) spares.next
    · rw [← attached.names]
      exact List.map_congr_left fun d member => spares.filename d (attached.used d member)
    · intro d member
      have here := handed.current d member
      rw [← spares.filename d (attached.used d member)] at here
      exact here
    · intro d member
      rw [state]
      exact handed.content d member
    · intro d member
      rw [state]
      exact handed.file d member

end components

theorem checkpoint_single : checkpointFiles.Nodup := by decide

theorem store_single : storeFiles.Nodup := by decide

theorem checkpoint_apart : ∀ f ∈ checkpointFiles, f ∉ storeFiles := by decide

theorem store_apart : ∀ f ∈ storeFiles, f ∉ checkpointFiles := by decide

theorem ops_apart : OPS_FILENAME ∉ checkpointFiles ∧ OPS_FILENAME ∉ storeFiles ∧ OPS_FILENAME ∉ [RETRY_COUNTER_FILENAME] := by decide

theorem retry_apart : RETRY_COUNTER_FILENAME ∉ checkpointFiles ∧ RETRY_COUNTER_FILENAME ∉ storeFiles ∧
    RETRY_COUNTER_FILENAME ∉ [OPS_FILENAME] := by decide

section process
variable {J : Type} {s : Process J} {r r' : Registry (Content J)} {names other : List String} {on : Bool}

structure Home (r : Registry (Content J)) (d : Nat) (filename : String) (on : Bool) : Prop where
  used : d < r.dicts.next
  name : (r.dicts.read d).filename = filename
  owner : r.current filename = if on then some d else none

def Slot (r : Registry (Content J)) (names : List String) (on : Bool) : Option Component → Prop
  | none => ∀ f ∈ names, r.current f = none
  | some c => Attached r names c ∧ (on = false → c.closed = true)

-- The files of a closed component hold nothing.
def Spent (r : Registry (Content J)) (slot : Option Component) : Prop :=
  ∀ c, slot = some c → c.closed = true → ∀ d ∈ c.dicts, (r.file (r.dicts.read d).filename).getD (.entries []) = .entries []

-- Between operations, and while the pool is stopped.
structure Steady (on : Bool) (s : Process J) : Prop where
  marked : Marked s.registry
  alive : s.registry.collected = []
  counted : Home s.registry retryCounter RETRY_COUNTER_FILENAME on
  recorded : Home s.registry globalStore OPS_FILENAME on
  memory : Slot s.registry checkpointFiles on s.memory
  store : Slot s.registry storeFiles on s.store

structure Running (settings : Settings J) (s : Process J) : Prop extends Steady true s where
  spentMemory : Spent s.registry s.memory
  spentStore : Spent s.registry s.store
  configured : s.storeConfig = none → settings.storeConfig = none

theorem home_spared {d : Nat} {filename : String} (spares : Spares r r' names) (outside : filename ∉ names)
    (home : Home r d filename on) : Home r' d filename on :=
  ⟨Nat.lt_of_lt_of_le home.used spares.next,(spares.filename d home.used).trans home.name,
    (spares.current filename outside).trans home.owner⟩

theorem slot_spared {slot : Option Component} (spares : Spares r r' other) (disjoint : ∀ f ∈ names, f ∉ other)
    (held : Slot r names on slot) : Slot r' names on slot := by
  cases slot with
  | none => exact fun f member => (spares.current f (disjoint f member)).trans (held f member)
  | some c => exact ⟨attached_spared spares disjoint held.1,held.2⟩

theorem spent_spared {slot : Option Component} (spares : Spares r r' other) (disjoint : ∀ f ∈ names, f ∉ other)
    (held : Slot r names on slot) (spent : Spent r slot) : Spent r' slot := by
  intro c same closed d member
  subst same
  have named := held.1.named member
  rw [spares.filename d (held.1.used d member),spares.file _ (disjoint _ named)]
  exact spent c rfl closed d member

-- Contents may change, and files that somebody owns.
theorem running_same {settings : Settings J} (running : Running settings s) (marked : Marked r') (alive : r'.collected = [])
    (next : r'.dicts.next = s.registry.dicts.next)
    (filename : ∀ d, (r'.dicts.read d).filename = (s.registry.dicts.read d).filename)
    (current : ∀ f, r'.current f = s.registry.current f)
    (file : ∀ f, s.registry.current f = none → r'.file f = s.registry.file f) : Running settings {s with registry := r'} := by
  have home : ∀ {d name}, Home s.registry d name true → Home r' d name true := by
    intro d name home
    exact ⟨next ▸ home.used,(filename d).trans home.name,(current name).trans home.owner⟩
  have attached : ∀ {names c}, Attached s.registry names c → Attached r' names c := by
    intro names c attached
    refine ⟨fun d member => next ▸ attached.used d member,?_,?_⟩
    · rw [← attached.names]
      exact List.map_congr_left fun d _ => filename d
    · intro d member
      rw [filename d,current]
      exact attached.owner d member
  have slot : ∀ {names o}, Slot s.registry names true o → Slot r' names true o := by
    intro names o held
    cases o with
    | none => exact fun f member => (current f).trans (held f member)
    | some c => exact ⟨attached held.1,held.2⟩
  have spent : ∀ {names o}, Slot s.registry names true o → Spent s.registry o → Spent r' o := by
    intro names o held spent c same closed d member
    subst same
    have free := held.1.owner d member
    rw [closed] at free
    rw [filename d,file _ free]
    exact spent c rfl closed d member
  exact ⟨⟨marked,alive,home running.counted,home running.recorded,slot running.memory,slot running.store⟩,
    spent running.memory running.spentMemory,spent running.store running.spentStore,running.configured⟩

theorem running_content {settings : Settings J} (running : Running settings s) (d : Nat) (content : Content J) :
    Running settings {s with registry := s.registry.setContent d content} := by
  refine running_same running (marked_content running.marked content) running.alive rfl ?_ (fun _ => rfl) fun _ _ => rfl
  intro e
  have same : ({s.registry.dicts.read d with content} : PersistentDict (Content J)).filename =
      (s.registry.dicts.read d).filename := rfl
  exact Heap.read_write_field PersistentDict.filename same e

theorem enters_saver (r : Registry (Content J)) (d : Nat) (marked : Marked r) (used : d < r.dicts.next) (alive : r.collected = [])
    (free : r.current (r.dicts.read d).filename = none) :
    Spares r (load (r.registerPersistentDict d) d) [(r.dicts.read d).filename] ∧
      Marked (load (r.registerPersistentDict d) d) ∧
      (load (r.registerPersistentDict d) d).current (r.dicts.read d).filename = some d := by
  obtain ⟨spares,marked',owner,_,_⟩ := register_owner marked used (by simp [alive]) free
  have loaded := load_marked marked' d
  rw [load_eq] at loaded ⊢
  have content := setContent_spares (r.registerPersistentDict d) d
    (((r.registerPersistentDict d).file ((r.registerPersistentDict d).dicts.read d).filename).getD
      (contentOf (r.registerPersistentDict d) d))
  rw [spares.filename d used] at content loaded ⊢
  exact ⟨(spares.trans content).weaken (by simp),loaded,owner⟩

theorem enters_store (r : Registry (Content J)) (d : Nat) (marked : Marked r) (used : d < r.dicts.next) (alive : r.collected = [])
    (free : r.current (r.dicts.read d).filename = none) :
    Spares r (r.registerPersistentDict d) [(r.dicts.read d).filename] ∧ Marked (r.registerPersistentDict d) ∧
      (r.registerPersistentDict d).current (r.dicts.read d).filename = some d := by
  obtain ⟨spares,marked',owner,_,_⟩ := register_owner marked used (by simp [alive]) free
  exact ⟨spares,marked',owner⟩

-- A steady process opens its checkpointer.
theorem openSaver_steady (steady : Steady true s) (none_ : s.memory = none) :
    Spares s.registry (openSaver s).registry checkpointFiles ∧ Steady true (openSaver s) := by
  have free : ∀ f ∈ checkpointFiles, s.registry.current f = none := by
    have held := steady.memory
    rw [none_] at held
    exact held
  have opened := openEach_opened enters_saver checkpoint_single steady.marked steady.alive free
  unfold openSaver
  dsimp only
  generalize openEach (fun r d => load (r.registerPersistentDict d) d) s.registry checkpointFiles = result at opened ⊢
  obtain ⟨spares,marked,attached⟩ := opened
  exact ⟨spares,marked,spares.alive.trans steady.alive,home_spared spares retry_apart.1 steady.counted,
    home_spared spares ops_apart.1 steady.recorded,⟨attached,fun off => by cases off⟩,
    slot_spared spares store_apart steady.store⟩

theorem opened_content {ds : List Nat} {d : Nat} (opened : Opened r r' names ds) (fresh : d ∈ ds) (content : Content J) :
    Opened r (r'.setContent d content) names ds := by
  have spares := setContent_spares r' d content
  have named := opened.attached.named fresh
  refine ⟨(opened.spares.trans spares).weaken ?_,marked_content opened.marked content,?_,?_,?_⟩
  · intro f member
    rcases List.mem_append.mp member with old | new
    · exact old
    · rw [List.mem_singleton.mp new]
      exact named
  · exact fun e member => Nat.lt_of_lt_of_le (opened.attached.used e member) spares.next
  · rw [← opened.attached.names]
    exact List.map_congr_left fun e member => spares.filename e (opened.attached.used e member)
  · intro e member
    rw [spares.filename e (opened.attached.used e member),(setContent_same r' d content _).1]
    exact opened.attached.owner e member

theorem opened_loads {ds : List Nat} (opened : Opened r r' names ds) (todo : List Nat) (fresh : ∀ d ∈ todo, d ∈ ds) :
    Opened r (todo.foldl load r') names ds := by
  induction todo generalizing r' with
  | nil => exact opened
  | cons d rest ih =>
    rw [List.foldl_cons,load_eq]
    exact ih (opened_content opened (fresh d List.mem_cons_self) _) fun e member => fresh e (List.mem_cons_of_mem _ member)

theorem openStore_opened (settings : Settings J) (marked : Marked s.registry) (alive : s.registry.collected = [])
    (free : ∀ f ∈ storeFiles, s.registry.current f = none) : ∃ registry ds,
    openStore settings s = {s with registry, store := some ⟨ds,false⟩} ∧ Opened s.registry registry storeFiles ds := by
  have opened := openEach_opened enters_store store_single marked alive free
  unfold openStore
  dsimp only
  generalize openEach Registry.registerPersistentDict s.registry storeFiles = result at opened ⊢
  have loaded := opened_loads opened result.2 fun _ member => member
  refine ⟨_,result.2,rfl,?_⟩
  split
  · rename_i data vectors ttl same
    refine opened_content loaded ?_ _
    rw [same]
    simp
  · exact loaded

-- What the start of the pool does to the two dicts of `database`.
def enrolled [DecidableEq J] (settings : Settings J) (r : Registry (Content J)) : Registry (Content J) :=
  let loaded := load r globalStore
  let store := (contentOf loaded globalStore).store
  let kept := loaded.setContent globalStore (.records {store with assistants := dropSystem settings.bare store.assistants})
  (kept.registerPersistentDict globalStore).registerPersistentDict retryCounter

-- The records that a start finds: those of the file, if there is one.
def found (r : Registry (Content J)) : GlobalStore J := ((r.file OPS_FILENAME).getD (contentOf r globalStore)).store

structure Enrolled [DecidableEq J] (settings : Settings J) (r r' : Registry (Content J)) : Prop where
  spares : Spares r r' [OPS_FILENAME,RETRY_COUNTER_FILENAME]
  marked : Marked r'
  counted : Home r' retryCounter RETRY_COUNTER_FILENAME true
  recorded : Home r' globalStore OPS_FILENAME true
  counts : contentOf r' retryCounter = contentOf r retryCounter
  records : contentOf r' globalStore = .records {found r with assistants := dropSystem settings.bare (found r).assistants}

theorem enrolled_enrolled [DecidableEq J] (settings : Settings J) (marked : Marked r) (alive : r.collected = [])
    (counted : Home r retryCounter RETRY_COUNTER_FILENAME false) (recorded : Home r globalStore OPS_FILENAME false) :
    Enrolled settings r (enrolled settings r) := by
  have load_spares := setContent_spares r globalStore ((r.file (r.dicts.read globalStore).filename).getD (contentOf r globalStore))
  have loaded_marked := load_marked marked globalStore
  rw [load_eq] at loaded_marked
  rw [recorded.name] at load_spares loaded_marked
  have read : contentOf (r.setContent globalStore ((r.file OPS_FILENAME).getD (contentOf r globalStore))) globalStore =
      (r.file OPS_FILENAME).getD (contentOf r globalStore) := content_setContent _ _ _
  unfold enrolled
  dsimp only
  rw [load_eq,recorded.name,read]
  generalize made : r.setContent globalStore ((r.file OPS_FILENAME).getD (contentOf r globalStore)) = r2 at load_spares loaded_marked ⊢
  have current2 : ∀ f, r2.current f = r.current f := by
    intro f
    rw [← made]
    rfl
  generalize kept : (Content.records {found r with assistants := dropSystem settings.bare (found r).assistants}) = content
  have same : (Content.records {((r.file OPS_FILENAME).getD (contentOf r globalStore)).store with
      assistants := dropSystem settings.bare ((r.file OPS_FILENAME).getD (contentOf r globalStore)).store.assistants}) = content := kept
  rw [same]
  have set_spares := setContent_spares r2 globalStore content
  rw [load_spares.filename _ recorded.used,recorded.name] at set_spares
  have set_marked : Marked (r2.setContent globalStore content) := marked_content loaded_marked content
  have set_content := content_setContent r2 globalStore content
  have set_current : ∀ f, (r2.setContent globalStore content).current f = r.current f := current2
  generalize r2.setContent globalStore content = r3 at set_spares set_marked set_content set_current ⊢
  have both := load_spares.trans set_spares
  have used3 := Nat.lt_of_lt_of_le recorded.used both.next
  have name3 : (r3.dicts.read globalStore).filename = OPS_FILENAME := (both.filename _ recorded.used).trans recorded.name
  have alive3 : r3.collected = [] := both.alive.trans alive
  obtain ⟨spares4,marked4,owner4,content4,_⟩ := register_owner set_marked used3 (by simp [alive3])
    (by rw [name3,set_current]; exact recorded.owner)
  rw [name3] at spares4 owner4
  generalize r3.registerPersistentDict globalStore = r4 at spares4 marked4 owner4 content4 ⊢
  have three := both.trans spares4
  have usedCount := Nat.lt_of_lt_of_le counted.used three.next
  have nameCount : (r4.dicts.read retryCounter).filename = RETRY_COUNTER_FILENAME :=
    (three.filename _ counted.used).trans counted.name
  have free4 : r4.current RETRY_COUNTER_FILENAME = none := by
    rw [spares4.current _ retry_apart.2.2,set_current]
    exact counted.owner
  obtain ⟨spares5,marked5,owner5,content5,_⟩ := register_owner marked4 usedCount
    (by simp [spares4.alive.trans alive3]) (by rw [nameCount]; exact free4)
  rw [nameCount] at spares5 owner5
  have all := three.trans spares5
  have usedRecords := Nat.lt_of_lt_of_le used3 spares4.next
  have nameRecords : (r4.dicts.read globalStore).filename = OPS_FILENAME := (spares4.filename _ used3).trans name3
  refine ⟨all.weaken (by simp),marked5,⟨Nat.lt_of_lt_of_le usedCount spares5.next,(spares5.filename _ usedCount).trans nameCount,owner5⟩,
    ⟨Nat.lt_of_lt_of_le usedRecords spares5.next,(spares5.filename _ usedRecords).trans nameRecords,?_⟩,?_,?_⟩
  · rw [spares5.current _ ops_apart.2.2]
    exact owner4
  · rw [content5,three.content _ counted.used]
    rw [counted.name]
    simpa using retry_apart.2.2
  · rw [spares5.content _ usedRecords (by rw [nameRecords]; exact ops_apart.2.2),content4]
    exact set_content.trans kept.symm

-- The configuration, which may open the Store of a process that has none.
theorem configure_steady (settings : Settings J) (steady : Steady false s)
    (fresh : s.storeConfig = none → settings.storeConfig = none ∨ s.store = none) :
    let s' := match s.storeConfig,settings.storeConfig with
      | none,some path => setStoreConfig settings s path
      | _,_ => s
    Spares s.registry s'.registry storeFiles ∧ Marked s'.registry ∧ s'.memory = s.memory ∧
      Slot s'.registry storeFiles true s'.store ∧ (s'.storeConfig = none → settings.storeConfig = none) ∧
      (s'.store = s.store ∧ s'.registry = s.registry ∨ ∃ ds, s'.store = some ⟨ds,false⟩) ∧
      ((s.storeConfig = none → settings.storeConfig = none) → s' = s) := by
  have same : Slot s.registry storeFiles true s.store := by
    have held := steady.store
    cases state : s.store with
    | none =>
      rw [state] at held
      exact held
    | some c =>
      rw [state] at held
      exact ⟨held.1,fun on => by cases on⟩
  have stays : (s.storeConfig = none → settings.storeConfig = none) →
      Spares s.registry s.registry storeFiles ∧ Marked s.registry ∧ s.memory = s.memory ∧
      Slot s.registry storeFiles true s.store ∧ (s.storeConfig = none → settings.storeConfig = none) ∧
      (s.store = s.store ∧ s.registry = s.registry ∨ ∃ ds, s.store = some ⟨ds,false⟩) ∧
      ((s.storeConfig = none → settings.storeConfig = none) → s = s) := fun configured =>
    ⟨(Spares.refl _).weaken (by simp),steady.marked,rfl,same,configured,.inl ⟨rfl,rfl⟩,fun _ => rfl⟩
  dsimp only
  split
  · rename_i path none_ given
    unfold setStoreConfig
    have unset : s.store = none := by
      rcases fresh none_ with absent | unset
      · rw [given] at absent
        cases absent
      · exact unset
    dsimp only
    split
    · refine ⟨(Spares.refl _).weaken (by simp),steady.marked,rfl,same,(fun other => by cases other),.inl ⟨rfl,rfl⟩,?_⟩
      intro configured
      have absent := configured none_
      rw [given] at absent
      cases absent
    · have free : ∀ f ∈ storeFiles, s.registry.current f = none := by
        have held := steady.store
        rw [unset] at held
        exact held
      have shut : closeStore {s with storeConfig := some path} = {s with storeConfig := some path} := by
        simp [closeStore,unset]
      rw [shut]
      obtain ⟨registry,ds,shape,opened⟩ := openStore_opened (s:={s with storeConfig := some path}) settings steady.marked
        steady.alive free
      rw [shape]
      refine ⟨opened.spares,opened.marked,rfl,⟨opened.attached,fun on => by cases on⟩,(fun other => by cases other),
        .inr ⟨ds,rfl⟩,?_⟩
      intro configured
      have absent := configured none_
      rw [given] at absent
      cases absent
  · rename_i other
    apply stays
    intro none_
    cases given : settings.storeConfig with
    | none => rfl
    | some path => exact absurd given (other path none_)

theorem startPool_eq [DecidableEq J] (settings : Settings J) (s : Process J) : startPool settings s =
    (let s' := match s.storeConfig,settings.storeConfig with
      | none,some path => setStoreConfig settings s path
      | _,_ => s
    {s' with registry := enrolled settings s'.registry}) := rfl

theorem startPool_running [DecidableEq J] (settings : Settings J) (steady : Steady false s)
    (fresh : s.storeConfig = none → settings.storeConfig = none ∨ s.store = none)
    (spentMemory : Spent s.registry s.memory) (spentStore : Spent s.registry s.store) : Running settings (startPool settings s) := by
  rw [startPool_eq]
  obtain ⟨spares,marked,memory,store,configured,opened,_⟩ := configure_steady settings steady fresh
  generalize (match s.storeConfig,settings.storeConfig with
      | none,some path => setStoreConfig settings s path
      | _,_ => s) = s' at spares marked memory store configured opened ⊢
  have counted := home_spared spares retry_apart.2.1 steady.counted
  have recorded := home_spared spares ops_apart.2.1 steady.recorded
  have after := enrolled_enrolled settings marked (spares.alive.trans steady.alive) counted recorded
  have checkpoint_files : ∀ f ∈ checkpointFiles, f ∉ [OPS_FILENAME,RETRY_COUNTER_FILENAME] := by decide
  have store_files : ∀ f ∈ storeFiles, f ∉ [OPS_FILENAME,RETRY_COUNTER_FILENAME] := by decide
  have slot : Slot s'.registry checkpointFiles true s'.memory := by
    rw [memory]
    have held := slot_spared spares checkpoint_apart steady.memory
    cases state : s.memory with
    | none =>
      rw [state] at held
      exact held
    | some c =>
      rw [state] at held
      exact ⟨held.1,fun on => by cases on⟩
  refine ⟨⟨after.marked,after.spares.alive.trans (spares.alive.trans steady.alive),after.counted,after.recorded,
    slot_spared after.spares checkpoint_files slot,slot_spared after.spares store_files store⟩,?_,?_,configured⟩
  · apply spent_spared after.spares checkpoint_files slot
    rw [memory]
    exact spent_spared spares checkpoint_apart steady.memory spentMemory
  · apply spent_spared after.spares store_files store
    rcases opened with ⟨same,registry⟩ | ⟨ds,made⟩
    · rw [same,registry]
      exact spentStore
    · intro c equal closed
      rw [made] at equal
      cases equal
      cases closed

end process

end InmemRuntime.PoolRestarts
