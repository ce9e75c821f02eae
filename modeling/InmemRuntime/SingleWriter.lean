import InmemRuntime.Persistence

namespace InmemRuntime.SingleWriter
open OrderedDict ObjectHeap Persistence

section registry
variable {α : Type} {clearing : Clearing α} {r : Registry α} {d : Nat}

-- Who is registered holds the mark of an owner, for the file it is registered
-- under.
structure Marked (r : Registry α) : Prop where
  used : ∀ filename d, r.stores.get? filename = some d → d < r.dicts.next
  filename : ∀ filename d, r.stores.get? filename = some d → (r.dicts.read d).filename = filename
  owner : ∀ filename d, r.stores.get? filename = some d → (r.dicts.read d).owner = some true

theorem current_some {filename : String} : r.current filename = some d ↔
    r.stores.get? filename = some d ∧ d ∉ r.collected := by
  simp [Registry.current,Option.filter_eq_some_iff]

theorem current_other {filename : String} : (r.current filename).any (· ≠ d) = true ↔
    ∃ other, r.current filename = some other ∧ other ≠ d := by
  cases r.current filename <;> simp

-- A change of one dict that keeps its filename, and its mark if it is registered.
theorem marked_written {dict : PersistentDict α} (marked : Marked r) (filename : dict.filename = (r.dicts.read d).filename)
    (owner : r.stores.get? (r.dicts.read d).filename = some d → dict.owner = some true) :
    Marked {r with dicts := r.dicts.write d dict} := by
  refine ⟨marked.used,?_,?_⟩
  · intro name other registered
    by_cases same : other = d
    · subst same
      simpa [filename] using marked.filename name other registered
    · rw [Heap.read_write_other same]
      exact marked.filename name other registered
  · intro name other registered
    by_cases same : other = d
    · subst same
      have here := marked.filename name other registered
      rw [Heap.read_write_self]
      exact owner (here.symm ▸ registered)
    · rw [Heap.read_write_other same]
      exact marked.owner name other registered

theorem marked_content (marked : Marked r) (content : α) : Marked (r.setContent d content) :=
  marked_written marked rfl fun registered => marked.owner _ _ registered

theorem marked_erase (marked : Marked r) (filename : String) : Marked {r with stores := r.stores.erase filename} := by
  have kept : ∀ name other, (r.stores.erase filename).get? name = some other → r.stores.get? name = some other := by
    intro name other found
    rw [Dict.get?_erase] at found
    split at found
    · cases found
    · exact found
  exact ⟨fun name other found => marked.used name other (kept name other found),
    fun name other found => marked.filename name other (kept name other found),
    fun name other found => marked.owner name other (kept name other found)⟩

theorem register_marked (marked : Marked r) (known : d < r.dicts.next) : Marked (r.registerPersistentDict d) := by
  unfold Registry.registerPersistentDict
  dsimp only
  split
  · rename_i denied
    obtain ⟨other,registered,apart⟩ := current_other.mp denied
    refine marked_written marked rfl fun mine => ?_
    rw [(current_some.mp registered).1] at mine
    exact absurd (Option.some.inj mine) apart
  · have found : ∀ name other, (r.stores.insert (r.dicts.read d).filename d).get? name = some other →
        (name = (r.dicts.read d).filename ∧ other = d) ∨ r.stores.get? name = some other := by
      intro name other registered
      rw [Dict.get?_insert] at registered
      split at registered
      · rename_i same
        exact .inl ⟨(eq_of_beq same).symm,(Option.some.inj registered).symm⟩
      · exact .inr registered
    refine ⟨?_,?_,?_⟩
    · intro name other registered
      rcases found name other registered with ⟨_,rfl⟩ | old
      · exact known
      · exact marked.used name other old
    · intro name other registered
      rcases found name other registered with ⟨rfl,rfl⟩ | old
      · simp [Registry.setOwner]
      · by_cases same : other = d
        · subst same
          simpa [Registry.setOwner] using marked.filename name other old
        · simpa [Registry.setOwner,Heap.read_write_other same] using marked.filename name other old
    · intro name other registered
      by_cases same : other = d
      · subst same
        simp [Registry.setOwner]
      · rcases found name other registered with ⟨_,equal⟩ | old
        · exact absurd equal same
        · simpa [Registry.setOwner,Heap.read_write_other same] using marked.owner name other old

theorem close_marked (marked : Marked r) (fails : Bool) : Marked (r.closePersistentDict clearing d fails) := by
  unfold Registry.closePersistentDict
  dsimp only
  split
  · exact marked_content marked _
  · split
    · rename_i other
      obtain ⟨other,registered,apart⟩ := current_other.mp other
      apply marked_content
      refine marked_written marked rfl fun mine => ?_
      rw [(current_some.mp registered).1] at mine
      exact absurd (Option.some.inj mine) apart
    · split
      · exact marked
      · have erased := marked_erase marked (r.dicts.read d).filename
        have written : Marked ⟨r.dicts.write d ⟨(r.dicts.read d).filename,clearing.clear (r.dicts.read d).content,none⟩,
            r.collected,r.stores.erase (r.dicts.read d).filename,r.disk⟩ := by
          refine marked_written erased rfl fun mine => ?_
          simp [Dict.get?_erase] at mine
        refine ⟨written.used,?_,?_⟩
        · intro name other registered
          simpa [Registry.setOwner,Registry.setContent,Registry.sync,Heap.write] using written.filename name other registered
        · intro name other registered
          simpa [Registry.setOwner,Registry.setContent,Registry.sync,Heap.write] using written.owner name other registered

def written (r : Registry α) (d : Nat) : Write α := ⟨(r.dicts.read d).filename,d,(r.dicts.read d).content⟩

def flushes (r : Registry α) (failing : List Nat) (row : String × Nat) : Bool :=
  !r.collected.contains row.2 && !failing.contains row.2

-- What a flush does: it writes for the live, and forgets the dead.
structure Flushed (r r' : Registry α) (failing : List Nat) (rows : List (String × Nat)) : Prop where
  dicts : r'.dicts = r.dicts
  collected : r'.collected = r.collected
  disk : r'.disk = r.disk ++ (rows.filter (flushes r failing)).map fun row => written r row.2
  stores : ∀ filename d, r'.stores.get? filename = some d → r.stores.get? filename = some d
  live : ∀ filename d, r.stores.get? filename = some d → d ∉ r.collected → r'.stores.get? filename = some d

theorem flushRows (r : Registry α) (failing : List Nat) (rows : List (String × Nat))
    (distinct : rows.Pairwise fun row other => (row.1 == other.1) = false) (here : ∀ row ∈ rows, r.stores.get? row.1 = some row.2) :
    Flushed r (rows.foldl (Registry.flushOne failing) r) failing rows := by
  induction rows generalizing r with
  | nil => exact ⟨rfl,rfl,by simp,fun _ _ found => found,fun _ _ found _ => found⟩
  | cons row rest ih =>
    obtain ⟨apart,tail⟩ := List.pairwise_cons.mp distinct
    have others : ∀ other ∈ rest, r.stores.get? other.1 = some other.2 := fun other member => here other (List.mem_cons_of_mem _ member)
    have first : Registry.flushOne failing r row = if r.collected.contains row.2 then {r with stores := r.stores.erase row.1}
        else if failing.contains row.2 then r else r.sync row.2 := by
      unfold Registry.flushOne
      rw [if_neg (by simp [here row List.mem_cons_self])]
    rw [List.foldl_cons,first]
    split
    · rename_i dead
      have dead_ : row.2 ∈ r.collected := by simpa using dead
      have next := ih {r with stores := r.stores.erase row.1} tail (by
        intro other member
        rw [Dict.get?_erase,apart other member]
        exact others other member)
      refine ⟨next.dicts,next.collected,?_,?_,?_⟩
      · rw [next.disk,List.filter_cons_of_neg (by simp [flushes,dead_])]
        rfl
      · intro filename d found
        have old := next.stores filename d found
        rw [Dict.get?_erase] at old
        split at old
        · cases old
        · exact old
      · intro filename d found alive
        apply next.live filename d _ alive
        rw [Dict.get?_erase]
        split
        · rename_i same
          rw [← eq_of_beq same,here row List.mem_cons_self] at found
          cases found
          exact absurd dead_ alive
        · exact found
    · rename_i alive
      have alive_ : row.2 ∉ r.collected := by simpa using alive
      split
      · rename_i fails
        have next := ih r tail others
        refine {next with disk := ?_}
        rw [next.disk,List.filter_cons_of_neg (by simp [flushes] at fails ⊢; exact fun _ => fails)]
      · rename_i succeeds
        have next := ih (r.sync row.2) tail others
        refine ⟨next.dicts,next.collected,?_,next.stores,next.live⟩
        rw [next.disk,List.filter_cons_of_pos (by simp [flushes,alive_] at succeeds ⊢; exact succeeds)]
        exact List.append_assoc _ [written r row.2] _

theorem flush_flushed (r : Registry α) (failing : List Nat) :
    Flushed r (r.flushRegisteredOnce failing) failing r.stores.entries :=
  flushRows r failing _ r.stores.distinct fun _ member => Dict.mem_iff.mp member

theorem step_marked (call : Call α) (marked : Marked r) : Marked (step clearing r call) := by
  cases call with
  | create filename content =>
    have old : ∀ name d, r.stores.get? name = some d → (r.dicts.alloc ⟨filename,content,none⟩).1.read d = r.dicts.read d :=
      fun name d registered => Heap.read_alloc_old (marked.used name d registered)
    refine ⟨fun name d registered => Nat.lt_succ_of_lt (marked.used name d registered),?_,?_⟩
    · intro name d registered
      have same := old name d registered
      simpa [step,Registry.create,same] using marked.filename name d registered
    · intro name d registered
      have same := old name d registered
      simpa [step,Registry.create,same] using marked.owner name d registered
  | mutate d content =>
    unfold step
    dsimp only
    split
    · exact marked_content marked content
    · exact marked
  | register d =>
    unfold step
    dsimp only
    split
    · rename_i live
      exact register_marked marked (by simp [Registry.live] at live; exact live.1)
    · exact marked
  | unregister d =>
    unfold step Registry.unregisterPersistentDict
    dsimp only
    split
    · split
      · exact marked_erase marked _
      · exact marked
    · exact marked
  | close d fails =>
    unfold step
    dsimp only
    split
    · exact close_marked marked fails
    · exact marked
  | flush failing =>
    have flushed := flush_flushed r failing
    unfold step
    dsimp only
    refine ⟨?_,?_,?_⟩
    · intro name d registered
      rw [flushed.dicts]
      exact marked.used name d (flushed.stores name d registered)
    · intro name d registered
      rw [flushed.dicts]
      exact marked.filename name d (flushed.stores name d registered)
    · intro name d registered
      rw [flushed.dicts]
      exact marked.owner name d (flushed.stores name d registered)
  | collect d => exact ⟨marked.used,marked.filename,marked.owner⟩

end registry

-- A dict is closed while it is the registered owner, or after it was denied,
-- or while another live dict owns its file.
def Careful (r : Registry α) : Call α → Prop
  | .close d _ => (r.dicts.read d).owner = some false ∨ r.current (r.dicts.read d).filename ≠ none
  | _ => True

-- A write of the registered owner at that moment, of the content it then has,
-- in a flush or when it is closed.
structure Owned (row : Registry α × Call α) (write : Write α) : Prop where
  owner : row.1.current write.filename = some write.writer
  content : write = written row.1 write.writer
  call : (∃ failing, row.2 = .flush failing) ∨ row.2 = .close write.writer false

section steps
variable {α : Type} {clearing : Clearing α} {r : Registry α} {d : Nat}

theorem current_kept {r' : Registry α} {filename : String} (found : r'.current filename = some d)
    (stores : ∀ filename d, r'.stores.get? filename = some d → r.stores.get? filename = some d)
    (collected : r'.collected = r.collected) : r.current filename = some d := by
  obtain ⟨registered,alive⟩ := current_some.mp found
  rw [collected] at alive
  exact current_some.mpr ⟨stores filename d registered,alive⟩

theorem erased_stores (filename : String) : ∀ name d, (r.stores.erase filename).get? name = some d → r.stores.get? name = some d := by
  intro name d found
  rw [Dict.get?_erase] at found
  split at found
  · cases found
  · exact found

-- Only a registration makes an owner.
theorem gained {call : Call α} {filename : String} (out : r.current filename ≠ some d)
    (in_ : (step clearing r call).current filename = some d) : call = .register d := by
  unfold step at in_
  cases call with
  | create name content => exact absurd in_ out
  | mutate other content =>
    dsimp only at in_
    split at in_ <;> exact absurd in_ out
  | register other =>
    dsimp only at in_
    split at in_
    · unfold Registry.registerPersistentDict at in_
      dsimp only at in_
      split at in_
      · exact absurd in_ out
      · obtain ⟨registered,alive⟩ := current_some.mp in_
        rw [Dict.get?_insert] at registered
        split at registered
        · rw [Option.some.inj registered]
        · exact absurd (current_some.mpr ⟨registered,alive⟩) out
    · exact absurd in_ out
  | unregister other =>
    dsimp only at in_
    unfold Registry.unregisterPersistentDict at in_
    split at in_
    · dsimp only at in_
      split at in_
      · exact absurd (show r.current filename = some d from current_kept in_ (erased_stores _) rfl) out
      · exact absurd in_ out
    · exact absurd in_ out
  | close other fails =>
    dsimp only at in_
    unfold Registry.closePersistentDict at in_
    split at in_
    · dsimp only at in_
      split at in_
      · exact absurd in_ out
      · split at in_
        · exact absurd in_ out
        · split at in_
          · exact absurd in_ out
          · exact absurd (show r.current filename = some d from current_kept in_ (erased_stores _) rfl) out
    · exact absurd in_ out
  | flush failing =>
    have flushed := flush_flushed r failing
    exact absurd (current_kept in_ flushed.stores flushed.collected) out
  | collect other =>
    obtain ⟨registered,alive⟩ := current_some.mp in_
    have before : r.current filename = some d := current_some.mpr ⟨registered,fun dead => alive (List.mem_cons_of_mem _ dead)⟩
    exact absurd before out

theorem close_disk (clearing : Clearing α) (r : Registry α) (d : Nat) (fails : Bool) : (r.closePersistentDict clearing d fails).disk = r.disk ∨
    ((r.closePersistentDict clearing d fails).disk = r.disk ++ [written r d] ∧ fails = false ∧
      (r.dicts.read d).owner ≠ some false ∧ ∀ other, r.current (r.dicts.read d).filename = some other → other = d) := by
  unfold Registry.closePersistentDict
  dsimp only
  split
  · exact .inl rfl
  · rename_i allowed
    split
    · exact .inl rfl
    · rename_i alone
      split
      · exact .inl rfl
      · rename_i succeeds
        refine .inr ⟨rfl,by simpa using succeeds,allowed,?_⟩
        intro other registered
        by_cases same : other = d
        · exact same
        · exact absurd (current_other.mpr ⟨other,registered,same⟩) alone

-- A close without care is what goes wrong: it writes, and its dict is no owner.
theorem close_exact (clearing : Clearing α) (live : r.live d = true) :
    Careful r (.close d false) ↔ ∀ fresh, (step clearing r (.close d false)).disk = r.disk ++ fresh →
      ∀ write ∈ fresh, r.current write.filename = some write.writer := by
  have here : step clearing r (.close d false) = r.closePersistentDict clearing d false := if_pos live
  rw [here]
  constructor
  · intro careful fresh shape write member
    rcases close_disk clearing r d false with none_ | ⟨one,_,marked,alone⟩
    · rw [none_] at shape
      rw [List.self_eq_append_right.mp shape] at member
      cases member
    · rw [one,List.append_cancel_left_eq] at shape
      rw [← shape] at member
      rw [List.mem_singleton.mp member]
      rcases careful with denied | owned
      · exact absurd denied marked
      · obtain ⟨other,registered⟩ := Option.ne_none_iff_exists'.mp owned
        rw [alone other registered] at registered
        exact registered
  · intro all
    by_cases denied : (r.dicts.read d).owner = some false
    · exact .inl denied
    · right
      intro none_
      have shape : (r.closePersistentDict clearing d false).disk = r.disk ++ [written r d] := by
        simp [Registry.closePersistentDict,denied,none_,written,Registry.setOwner,Registry.setContent,Registry.sync]
      have owned := all [written r d] shape (written r d) List.mem_cons_self
      rw [show (written r d).filename = (r.dicts.read d).filename from rfl,none_] at owned
      cases owned

theorem step_owned {call : Call α} (marked : Marked r) (careful : Careful r call) :
    ∃ fresh, (step clearing r call).disk = r.disk ++ fresh ∧ ∀ write ∈ fresh, Owned (r,call) write := by
  have nothing : (step clearing r call).disk = r.disk →
      ∃ fresh, (step clearing r call).disk = r.disk ++ fresh ∧ ∀ write ∈ fresh, Owned (r,call) write :=
    fun same => ⟨[],by rw [same,List.append_nil],fun _ none_ => (List.not_mem_nil none_).elim⟩
  cases call with
  | create filename content => exact nothing rfl
  | mutate other content =>
    apply nothing
    unfold step
    dsimp only
    split <;> rfl
  | register other =>
    apply nothing
    unfold step Registry.registerPersistentDict
    dsimp only
    split
    · split <;> rfl
    · rfl
  | unregister other =>
    apply nothing
    unfold step Registry.unregisterPersistentDict
    dsimp only
    split
    · split <;> rfl
    · rfl
  | close other fails =>
    unfold step at nothing ⊢
    dsimp only at nothing ⊢
    split
    · rename_i live
      rw [if_pos live] at nothing
      rcases close_disk clearing r other fails with none_ | ⟨one,rfl,allowed,alone⟩
      · exact nothing none_
      · refine ⟨[written r other],one,?_⟩
        intro write member
        rw [List.mem_singleton.mp member]
        refine ⟨?_,rfl,.inr rfl⟩
        rcases careful with denied | owned
        · exact absurd denied allowed
        · obtain ⟨owner,registered⟩ := Option.ne_none_iff_exists'.mp owned
          rw [alone owner registered] at registered
          exact registered
    · rename_i gone
      rw [if_neg gone] at nothing
      exact nothing rfl
  | flush failing =>
    have flushed := flush_flushed r failing
    refine ⟨_,flushed.disk,?_⟩
    intro write member
    obtain ⟨row,kept,rfl⟩ := List.mem_map.mp member
    obtain ⟨listed,flushes_⟩ := List.mem_filter.mp kept
    have registered := Dict.mem_iff.mp listed
    have alive : row.2 ∉ r.collected := by
      simp only [flushes,Bool.and_eq_true,Bool.not_eq_true',List.contains_eq_mem,decide_eq_false_iff_not] at flushes_
      exact flushes_.1
    refine ⟨?_,rfl,.inl ⟨failing,rfl⟩⟩
    have name : (written r row.2).filename = row.1 := marked.filename row.1 row.2 registered
    rw [name]
    exact current_some.mpr ⟨registered,alive⟩
  | collect other => exact nothing rfl

end steps

def Wrote (clearing : Clearing α) (row : Registry α × Call α) (write : Write α) : Prop :=
  ∃ fresh, (step clearing row.1 row.2).disk = row.1.disk ++ fresh ∧ write ∈ fresh

-- What a call leaves without its registration.
def Dismisses (r : Registry α) (d : Nat) (call : Call α) : Prop :=
  call = .close d false ∨ call = .unregister d ∨
    call = .register d ∧ ∃ other, other ≠ d ∧ r.current (r.dicts.read d).filename = some other

-- Files are written by their owners only, who write what they hold; and a dict
-- that is no owner does not write before it is registered with success.
structure WrittenByOwners (clearing : Clearing α) (taken : List (Registry α × Call α)) (r : Registry α) : Prop where
  written : ∀ row ∈ taken, ∃ fresh, (step clearing row.1 row.2).disk = row.1.disk ++ fresh ∧ ∀ write ∈ fresh, Owned row write
  content : ∀ filename content, r.file filename = some content →
    ∃ row ∈ taken, ∃ write, Owned row write ∧ write.filename = filename ∧ write.content = content
  flushed : ∀ row ∈ taken, ∀ failing, row.2 = .flush failing → ∀ filename d, row.1.current filename = some d → d ∉ failing →
    (step clearing row.1 row.2).file filename = some (row.1.dicts.read d).content
  closed : ∀ row ∈ taken, ∀ d, row.2 = .close d false → row.1.live d = true →
    row.1.current (row.1.dicts.read d).filename = some d →
    (step clearing row.1 row.2).file (row.1.dicts.read d).filename = some (row.1.dicts.read d).content
  dismissed : ∀ row ∈ taken, ∀ d, row.1.live d = true → Dismisses row.1 d row.2 →
    (step clearing row.1 row.2).current (row.1.dicts.read d).filename ≠ some d
  regained : ∀ before first middle last after, taken = before ++ first :: (middle ++ last :: after) →
    ∀ write, Wrote clearing last write → first.1.current write.filename ≠ some write.writer →
    ∃ row ∈ first :: middle, row.2 = .register write.writer ∧ row.1.current write.filename ≠ some write.writer ∧
      (step clearing row.1 row.2).current write.filename = some write.writer

section result
variable {α : Type} {clearing : Clearing α} {r : Registry α} {d : Nat}

theorem file_fresh {disk fresh : List (Write α)} (write : Write α) (member : write ∈ fresh)
    (only : ∀ other ∈ fresh, other.filename = write.filename → other = write) :
    (((disk ++ fresh).filter fun other => other.filename = write.filename).getLast?).map Write.content = some write.content := by
  have here : write ∈ fresh.filter fun other => other.filename = write.filename := List.mem_filter.mpr ⟨member,by simp⟩
  have some_ := List.ne_nil_of_mem here
  have last := List.getLast_mem some_
  obtain ⟨listed,named⟩ := List.mem_filter.mp last
  have same := only _ listed (by simpa using named)
  rw [List.filter_append,List.getLast?_append,List.getLast?_eq_getLast_of_ne_nil some_,same]
  rfl

theorem flush_file (marked : Marked r) {failing : List Nat} {filename : String} (owner : r.current filename = some d)
    (succeeds : d ∉ failing) : (r.flushRegisteredOnce failing).file filename = some (r.dicts.read d).content := by
  obtain ⟨registered,alive⟩ := current_some.mp owner
  have flushed := flush_flushed r failing
  have name : (written r d).filename = filename := marked.filename filename d registered
  unfold Registry.file
  rw [flushed.disk,← name]
  refine file_fresh (written r d) ?_ ?_
  · refine List.mem_map.mpr ⟨(filename,d),List.mem_filter.mpr ⟨Dict.mem_iff.mpr registered,?_⟩,rfl⟩
    simp [flushes,alive,succeeds]
  · intro other member same
    obtain ⟨row,kept,rfl⟩ := List.mem_map.mp member
    have registered' := Dict.mem_iff.mp (List.mem_filter.mp kept).1
    have name' : (written r row.2).filename = row.1 := marked.filename row.1 row.2 registered'
    rw [name',name] at same
    rw [same,registered] at registered'
    rw [← Option.some.inj registered']

theorem close_file (marked : Marked r) (owner : r.current (r.dicts.read d).filename = some d) :
    (r.closePersistentDict clearing d false).file (r.dicts.read d).filename = some (r.dicts.read d).content := by
  have mark := marked.owner _ _ (current_some.mp owner).1
  have shape : (r.closePersistentDict clearing d false).disk = r.disk ++ [written r d] := by
    simp [Registry.closePersistentDict,mark,owner,written,Registry.setOwner,Registry.setContent,Registry.sync]
  unfold Registry.file
  rw [shape]
  exact file_fresh (written r d) List.mem_cons_self fun other member _ => List.mem_singleton.mp member

theorem dismissed_out (marked : Marked r) {call : Call α} (live : r.live d = true) (dismisses : Dismisses r d call) :
    (step clearing r call).current (r.dicts.read d).filename ≠ some d := by
  have erased : ∀ {r' : Registry α}, r'.stores = r.stores.erase (r.dicts.read d).filename →
      r'.current (r.dicts.read d).filename ≠ some d := by
    intro r' same found
    have registered := (current_some.mp found).1
    rw [same,Dict.get?_erase,if_pos BEq.rfl] at registered
    cases registered
  rcases dismisses with rfl | rfl | ⟨rfl,other,apart,registered⟩
  · unfold step
    dsimp only
    rw [if_pos live]
    unfold Registry.closePersistentDict
    dsimp only
    split
    · rename_i denied
      intro owner
      have mark := marked.owner _ _ (current_some.mp owner).1
      rw [denied] at mark
      cases mark
    · split
      · rename_i other
        obtain ⟨other,registered,apart⟩ := current_other.mp other
        intro owner
        have same : r.current (r.dicts.read d).filename = some d := owner
        rw [registered] at same
        exact apart (Option.some.inj same)
      · exact erased rfl
  · unfold step
    dsimp only
    rw [if_pos live]
    unfold Registry.unregisterPersistentDict
    dsimp only
    split
    · exact erased rfl
    · rename_i none_
      exact none_
  · unfold step
    dsimp only
    rw [if_pos live]
    unfold Registry.registerPersistentDict
    dsimp only
    rw [if_pos (current_other.mpr ⟨other,registered,apart⟩)]
    intro owner
    have same : r.current (r.dicts.read d).filename = some d := owner
    rw [registered] at same
    exact apart (Option.some.inj same)

theorem start_marked (nothing : PersistentDict α) : Marked (start nothing) :=
  ⟨(fun _ _ found => by cases found),(fun _ _ found => by cases found),(fun _ _ found => by cases found)⟩

-- Every write that the disk has is some step's.
theorem disk_written {taken : List (Registry α × Call α)} {first r : Registry α} (bare : first.disk = [])
    (runs : Runs clearing first taken r)
    (written : ∀ row ∈ taken, ∃ fresh, (step clearing row.1 row.2).disk = row.1.disk ++ fresh ∧ ∀ write ∈ fresh, Owned row write) :
    ∀ write ∈ r.disk, ∃ row ∈ taken, Owned row write := by
  induction runs with
  | nil =>
    intro write member
    rw [bare] at member
    cases member
  | @step taken s prior event ih =>
    intro write member
    obtain ⟨fresh,shape,owned⟩ := written (s,event) (by simp)
    rw [shape] at member
    rcases List.mem_append.mp member with old | new
    · obtain ⟨row,listed,here⟩ := ih (fun row listed => written row (List.mem_append_left _ listed)) write old
      exact ⟨row,List.mem_append_left _ listed,here⟩
    · exact ⟨(s,event),by simp,owned write new⟩

theorem single_writer (clearing : Clearing α) (nothing : PersistentDict α) (r : Registry α) (taken : List (Registry α × Call α))
    (runs : Runs clearing (start nothing) taken r) (careful : ∀ row ∈ taken, Careful row.1 row.2) :
    WrittenByOwners clearing taken r := by
  obtain ⟨_,marked⟩ := Histories.runs_invariant runs (start_marked nothing)
    (fun _ event marked (_ : True) => step_marked event marked) fun _ _ => trivial
  have written : ∀ row ∈ taken, ∃ fresh, (step clearing row.1 row.2).disk = row.1.disk ++ fresh ∧ ∀ write ∈ fresh, Owned row write :=
    fun row member => step_owned (marked row member) (careful row member)
  refine ⟨written,?_,?_,?_,fun row member d live => dismissed_out (marked row member) live,?_⟩
  · intro filename content found
    unfold Registry.file at found
    obtain ⟨write,last,rfl⟩ := Option.map_eq_some_iff.mp found
    obtain ⟨listed,named⟩ := List.mem_filter.mp (List.mem_of_getLast? last)
    obtain ⟨row,member,owned⟩ := disk_written rfl runs written write listed
    exact ⟨row,member,write,owned,by simpa using named,rfl⟩
  · intro row member failing call filename d owner succeeds
    rw [call]
    exact flush_file (marked row member) owner succeeds
  · intro row member d call live owner
    rw [call]
    unfold step
    dsimp only
    rw [if_pos live]
    exact close_file (marked row member) owner
  · intro before first middle last after split write wrote out
    have member : last ∈ taken := by simp [split]
    obtain ⟨fresh,shape,owned⟩ := written last member
    obtain ⟨fresh',shape',writes⟩ := wrote
    rw [shape,List.append_cancel_left_eq] at shape'
    rw [← shape'] at writes
    obtain ⟨row,listed,none_,found⟩ := Histories.runs_switch runs before first middle last after split
      (fun r : Registry α => r.current write.filename = some write.writer) out (owned write writes).owner
    exact ⟨row,listed,gained none_ found,none_,found⟩

end result

-- A dict whose content is a list, and what clearing leaves of it.
def lists : Clearing (List Nat) := ⟨[],fun _ => []⟩

def calls (closed : Nat) : List (Call (List Nat)) :=
  [.create "f" [1],.create "f" [2],.register 0,.register 1,.mutate 0 [3],.close 0 false,.close closed false]

def reached (closed : Nat) : Registry (List Nat) := (calls closed).foldl (step lists) (start ⟨"",[],none⟩)

theorem reached_runs (closed : Nat) : Runs lists (start ⟨"",[],none⟩)
    (Histories.trace (step lists) (start ⟨"",[],none⟩) (calls closed)) (reached closed) :=
  Histories.runs_trace .nil (calls closed)

-- The owner is closed, then the dict that was denied.
theorem single_writer_toy : (reached 1).file "f" = some [3] ∧
    WrittenByOwners lists (Histories.trace (step lists) (start ⟨"",[],none⟩) (calls 1)) (reached 1) := by
  refine ⟨by decide,single_writer lists ⟨"",[],none⟩ _ _ (reached_runs 1) ?_⟩
  iterate 5 refine List.forall_mem_cons.mpr ⟨trivial,?_⟩
  refine List.forall_mem_cons.mpr ⟨.inr (by decide),?_⟩
  exact List.forall_mem_cons.mpr ⟨.inl (by decide),fun _ none_ => (List.not_mem_nil none_).elim⟩

-- The owner is closed twice: the second time it writes what the first one left.
theorem closed_twice_clobbers : ∃ taken, Runs lists (start ⟨"",[],none⟩) taken (reached 0) ∧ taken.map Prod.snd = calls 0 ∧
    (reached 0).file "f" = some [] ∧ ¬ WrittenByOwners lists taken (reached 0) := by
  refine ⟨_,reached_runs 0,rfl,by decide,fun writer => ?_⟩
  obtain ⟨fresh,shape,owned⟩ := writer.written _ (List.mem_of_getElem? (i:=6) rfl)
  have whole : ([⟨"f",0,[3]⟩] : List (Write (List Nat))) ++ [⟨"f",0,[]⟩] = [⟨"f",0,[3]⟩] ++ fresh := shape
  have member : ⟨"f",0,[]⟩ ∈ fresh := List.append_cancel_left whole ▸ .head _
  have owner := (owned _ member).owner
  cases owner

end InmemRuntime.SingleWriter
