import InmemRuntime.ObjectHeap
import Mathlib.Data.List.Nodup

namespace SharedTable
open ObjectHeap
universe u v
variable {α : Type u} {κ : Type v}

-- Shared records in a shared list. The bound list is extended in place, and it
-- may be replaced while somebody still goes through the old one.
structure Table (α : Type u) where
  records : Heap α
  lists : Heap (List Nat)
  bound : Nat

namespace Table
variable (t : Table α)

def record (ref : Nat) : α := t.records.read ref
def held (list : Nat) : List Nat := t.lists.read list
def refs : List Nat := t.held t.bound
def contents : List α := t.refs.map t.record

def find? (named : α → Bool) : Option Nat := t.refs.find? fun ref => named (t.record ref)
def write (ref : Nat) (object : α) : Table α := {t with records := t.records.write ref object}

def append (object : α) : Table α :=
  {t with records := (t.records.alloc object).1, lists := t.lists.write t.bound (t.refs ++ [t.records.next])}

def rebind (keep : α → Bool) : Table α :=
  {t with lists := (t.lists.alloc (t.refs.filter fun ref => keep (t.record ref))).1, bound := t.lists.next}

end Table

-- In every list there has been the keys of the records are different.
structure Sound (key : α → κ) (t : Table α) : Prop where
  bound : t.bound < t.lists.next
  used : ∀ list < t.lists.next, ∀ ref ∈ t.held list, ref < t.records.next
  keys : ∀ list < t.lists.next, ((t.held list).map fun ref => key (t.record ref)).Nodup

structure Extends (key : α → κ) (t t' : Table α) : Prop where
  lists : t.lists.next ≤ t'.lists.next
  records : t.records.next ≤ t'.records.next
  grown : ∀ list < t.lists.next, t.held list <+: t'.held list
  keys : ∀ ref < t.records.next, key (t'.record ref) = key (t.record ref)

section operations
variable {key : α → κ} {t : Table α} {ref : Nat} {object : α}

theorem Extends.refl (key : α → κ) (t : Table α) : Extends key t t :=
  ⟨Nat.le_refl _,Nat.le_refl _,fun _ _ => List.prefix_rfl,fun _ _ => rfl⟩

theorem Extends.trans {a b c : Table α} (first : Extends key a b) (second : Extends key b c) : Extends key a c where
  lists := Nat.le_trans first.lists second.lists
  records := Nat.le_trans first.records second.records
  grown list known := (first.grown list known).trans (second.grown list (Nat.lt_of_lt_of_le known first.lists))
  keys ref used := (second.keys ref (Nat.lt_of_lt_of_le used first.records)).trans (first.keys ref used)

theorem key_write (same : key object = key (t.record ref)) (other : Nat) : key ((t.write ref object).record other) = key (t.record other) := by
  by_cases here : other = ref
  · rw [here]
    exact (congrArg key (Heap.read_write_self _ _ _)).trans same
  · exact congrArg key (Heap.read_write_other here)

theorem sound_write (sound : Sound key t) (same : key object = key (t.record ref)) : Sound key (t.write ref object) where
  bound := sound.bound
  used := sound.used
  keys list known := by
    rw [List.map_congr_left fun other _ => key_write same other]
    exact sound.keys list known

theorem extends_write (same : key object = key (t.record ref)) : Extends key t (t.write ref object) :=
  ⟨Nat.le_refl _,Nat.le_refl _,fun _ _ => List.prefix_rfl,fun other _ => key_write same other⟩

theorem record_append_old (used : ref < t.records.next) : (t.append object).record ref = t.record ref := Heap.read_alloc_old used

theorem record_append_new (t : Table α) (object : α) : (t.append object).record t.records.next = object := Heap.read_alloc_new _ _

theorem refs_append (t : Table α) (object : α) : (t.append object).refs = t.refs ++ [t.records.next] := Heap.read_write_self _ _ _

theorem held_append_other {list : Nat} (apart : list ≠ t.bound) : (t.append object).held list = t.held list := Heap.read_write_other apart

theorem grown_append (t : Table α) (object : α) (list : Nat) : t.held list <+: (t.append object).held list := by
  by_cases same : list = t.bound
  · rw [same]
    exact ⟨_,(refs_append t object).symm⟩
  · exact (held_append_other same).symm ▸ List.prefix_rfl

theorem extends_append (t : Table α) (object : α) (key : α → κ) : Extends key t (t.append object) :=
  ⟨Nat.le_refl _,Nat.le_succ _,fun list _ => grown_append t object list,fun _ used => congrArg key (record_append_old used)⟩

theorem keys_append {refs : List Nat} (used : ∀ ref ∈ refs, ref < t.records.next) :
    (refs.map fun ref => key ((t.append object).record ref)) = refs.map fun ref => key (t.record ref) :=
  List.map_congr_left fun ref member => congrArg key (record_append_old (used ref member))

theorem sound_append (sound : Sound key t) (fresh : ∀ ref ∈ t.refs, key (t.record ref) ≠ key object) : Sound key (t.append object) where
  bound := sound.bound
  used list known := by
    intro ref member
    by_cases same : list = t.bound
    · rw [same,show (t.append object).held t.bound = _ from refs_append t object] at member
      rcases List.mem_append.mp member with old | new
      · exact Nat.lt_succ_of_lt (sound.used _ sound.bound ref old)
      · rw [List.mem_singleton.mp new]
        exact Nat.lt_succ_self _
    · rw [held_append_other same] at member
      exact Nat.lt_succ_of_lt (sound.used list known ref member)
  keys list known := by
    by_cases same : list = t.bound
    · have used : ∀ ref ∈ t.refs, ref < t.records.next := sound.used _ sound.bound
      rw [same,show (t.append object).held t.bound = _ from refs_append t object,List.map_append,keys_append used]
      refine List.Nodup.append (sound.keys _ sound.bound) (List.nodup_singleton _) fun k old new => ?_
      obtain ⟨ref,member,rfl⟩ := List.mem_map.mp old
      rw [List.map_singleton,record_append_new] at new
      exact fresh ref member (List.mem_singleton.mp new)
    · rw [held_append_other same,keys_append (sound.used list known)]
      exact sound.keys list known

theorem refs_rebind (t : Table α) (keep : α → Bool) : (t.rebind keep).refs = t.refs.filter fun ref => keep (t.record ref) :=
  Heap.read_alloc_new _ _

theorem held_rebind_old {keep : α → Bool} {list : Nat} (known : list < t.lists.next) : (t.rebind keep).held list = t.held list :=
  Heap.read_alloc_old known

theorem extends_rebind (t : Table α) (keep : α → Bool) (key : α → κ) : Extends key t (t.rebind keep) where
  lists := Nat.le_succ _
  records := Nat.le_refl _
  grown _ known := (held_rebind_old known).symm ▸ List.prefix_rfl
  keys _ _ := rfl

theorem sound_rebind (sound : Sound key t) (keep : α → Bool) : Sound key (t.rebind keep) where
  bound := Nat.lt_succ_self _
  used list known := by
    rcases Nat.lt_succ_iff_lt_or_eq.mp known with old | rfl
    · rw [held_rebind_old old]
      exact sound.used list old
    · rw [show (t.rebind keep).held t.lists.next = _ from refs_rebind t keep]
      exact fun ref member => sound.used _ sound.bound ref (List.mem_filter.mp member).1
  keys list known := by
    rcases Nat.lt_succ_iff_lt_or_eq.mp known with old | rfl
    · rw [held_rebind_old old]
      exact sound.keys list old
    · rw [show (t.rebind keep).held t.lists.next = _ from refs_rebind t keep]
      exact (sound.keys _ sound.bound).sublist (List.filter_sublist.map _)

end operations

section contents
variable {key : α → κ} {t : Table α}

theorem find_contents (t : Table α) (named : α → Bool) : t.contents.find? named = (t.find? named).map t.record := List.find?_map ..

theorem contents_append (sound : Sound key t) (object : α) : (t.append object).contents = t.contents ++ [object] := by
  have used : ∀ ref ∈ t.refs, ref < t.records.next := sound.used _ sound.bound
  unfold Table.contents
  rw [refs_append,List.map_append,List.map_singleton,record_append_new]
  rw [List.map_congr_left fun ref member => record_append_old (used ref member)]

theorem contents_rebind (t : Table α) (keep : α → Bool) : (t.rebind keep).contents = t.contents.filter keep := by
  unfold Table.contents
  rw [refs_rebind,List.filter_map]
  rfl

end contents

section walking

-- An iterator of a list object: the list and the index it has got to.
structure Cursor where
  list : Nat
  index : Nat

-- The first wanted record, with the index after it.
def seek (t : Table α) (wanted : α → Bool) : List Nat → Nat → Option (Nat × Nat)
  | [],_ => none
  | ref :: rest,index => if wanted (t.record ref) then some (ref,index + 1) else seek t wanted rest (index + 1)

def Cursor.advance (t : Table α) (wanted : α → Bool) (c : Cursor) : Option (Nat × Cursor) :=
  (seek t wanted ((t.held c.list).drop c.index) c.index).map fun row => (row.1,{c with index := row.2})

variable {key : α → κ} {t : Table α} {wanted : α → Bool} {c : Cursor} {ref : Nat}

theorem seek_some {refs : List Nat} {index next : Nat} (found : seek t wanted refs index = some (ref,next)) :
    ∃ skipped rest, refs = skipped ++ ref :: rest ∧ next = index + skipped.length + 1 ∧ wanted (t.record ref) = true ∧
      ∀ other ∈ skipped, wanted (t.record other) = false := by
  induction refs generalizing index with
  | nil => cases found
  | cons first rest ih =>
    rw [seek] at found
    split at found
    · rename_i here
      cases found
      exact ⟨[],rest,rfl,rfl,here,by simp⟩
    · rename_i passed
      obtain ⟨skipped,later,rfl,rfl,here,skips⟩ := ih found
      refine ⟨first :: skipped,later,rfl,by rw [List.length_cons]; omega,here,?_⟩
      exact List.forall_mem_cons.mpr ⟨by simpa using passed,skips⟩

theorem seek_none {refs : List Nat} {index : Nat} (none_ : seek t wanted refs index = none) :
    ∀ other ∈ refs, wanted (t.record other) = false := by
  induction refs generalizing index with
  | nil => simp
  | cons first rest ih =>
    rw [seek] at none_
    split at none_
    · cases none_
    · rename_i passed
      exact List.forall_mem_cons.mpr ⟨by simpa using passed,ih none_⟩

-- What an iterator has behind it: it took some of the records in their order,
-- and `passed` is known of those it did not take.
structure Walked (t : Table α) (c : Cursor) (taken : List Nat) (passed : Nat → Prop) : Prop where
  list : c.list < t.lists.next
  inside : c.index ≤ (t.held c.list).length
  order : taken.Sublist ((t.held c.list).take c.index)
  rest : ∀ ref ∈ (t.held c.list).take c.index, ref ∉ taken → passed ref

variable {taken : List Nat} {passed passed' : Nat → Prop}

theorem walked_start {list : Nat} (known : list < t.lists.next) : Walked t ⟨list,0⟩ [] passed :=
  ⟨known,Nat.zero_le _,by simp,by simp⟩

theorem Walked.imp (walked : Walked t c taken passed) (weaker : ∀ ref, passed ref → passed' ref) : Walked t c taken passed' :=
  ⟨walked.list,walked.inside,walked.order,fun ref member out => weaker ref (walked.rest ref member out)⟩

theorem Walked.extends {t' : Table α} (walked : Walked t c taken passed) (extends_ : Extends key t t') : Walked t' c taken passed := by
  obtain ⟨more,same⟩ := extends_.grown c.list walked.list
  have kept : (t'.held c.list).take c.index = (t.held c.list).take c.index := by
    rw [← same,List.take_append_of_le_length walked.inside]
  refine ⟨Nat.lt_of_lt_of_le walked.list extends_.lists,?_,?_,?_⟩
  · rw [← same,List.length_append]
    exact Nat.le_add_right_of_le walked.inside
  · rw [kept]
    exact walked.order
  · rw [kept]
    exact walked.rest

theorem Walked.advance (walked : Walked t c taken passed) {c' : Cursor} (found : c.advance t wanted = some (ref,c')) :
    c'.list = c.list ∧ ref ∈ t.held c.list ∧ wanted (t.record ref) = true ∧
      Walked t c' (taken ++ [ref]) fun other => passed other ∨ other ∈ t.held c.list ∧ wanted (t.record other) = false := by
  obtain ⟨⟨ref,next⟩,sought,same⟩ := Option.map_eq_some_iff.mp found
  cases same
  obtain ⟨skipped,rest,split_,rfl,here,skips⟩ := seek_some sought
  have whole : t.held c.list = (t.held c.list).take c.index ++ (skipped ++ [ref]) ++ rest := by
    rw [List.append_assoc,List.append_assoc,List.singleton_append,← split_,List.take_append_drop]
  have length : ((t.held c.list).take c.index ++ (skipped ++ [ref])).length = c.index + skipped.length + 1 := by
    rw [List.length_append,List.length_take,List.length_append,List.length_singleton,Nat.min_eq_left walked.inside]
    omega
  have front : (t.held c.list).take (c.index + skipped.length + 1) = (t.held c.list).take c.index ++ (skipped ++ [ref]) := by
    exact (congrArg (List.take _) whole).trans (List.take_left' length)
  have inside : ∀ other ∈ skipped ++ [ref], other ∈ t.held c.list := fun other member => by
    rw [whole]
    exact List.mem_append_left _ (List.mem_append_right _ member)
  refine ⟨rfl,inside ref (by simp),here,walked.list,?_,?_,?_⟩
  · rw [← length]
    conv_rhs => rw [whole]
    simp only [List.length_append]
    omega
  · dsimp only
    rw [front]
    exact walked.order.append (List.sublist_append_right _ _)
  · dsimp only
    rw [front]
    intro other member out
    rw [List.mem_append,not_or] at out
    rcases List.mem_append.mp member with old | new
    · exact .inl (walked.rest other old out.1)
    · have skip : other ∈ skipped := (List.mem_append.mp new).resolve_right out.2
      exact .inr ⟨inside other new,skips other skip⟩

theorem Walked.ends (walked : Walked t c taken passed) (none_ : c.advance t wanted = none) :
    taken.Sublist (t.held c.list) ∧ ∀ other ∈ t.held c.list, other ∉ taken → passed other ∨ wanted (t.record other) = false := by
  refine ⟨walked.order.trans (List.take_sublist _ _),fun other member out => ?_⟩
  rw [← List.take_append_drop c.index (t.held c.list)] at member
  rcases List.mem_append.mp member with behind | ahead
  · exact .inl (walked.rest other behind out)
  · exact .inr (seek_none (Option.map_eq_none_iff.mp none_) other ahead)

end walking
end SharedTable
