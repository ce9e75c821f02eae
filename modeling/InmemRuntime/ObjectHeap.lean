import Mathlib.Logic.Function.Basic

namespace ObjectHeap
universe u

-- Mutable objects by reference. References at `next` and above are not in use;
-- what `read` says of them is not meant.
structure Heap (α : Type u) where
  read : Nat → α
  next : Nat

variable {α : Type u}

namespace Heap

def write (h : Heap α) (ref : Nat) (object : α) : Heap α := {h with read := Function.update h.read ref object}

def alloc (h : Heap α) (object : α) : Heap α × Nat := (⟨Function.update h.read h.next object,h.next+1⟩,h.next)

@[simp] theorem read_write_self (h : Heap α) (ref : Nat) (object : α) : (h.write ref object).read ref = object := by
  simp [write]

theorem read_write_other {h : Heap α} {ref other : Nat} {object : α} (apart : other ≠ ref) :
    (h.write ref object).read other = h.read other := by
  simp [write,apart]

@[simp] theorem next_write (h : Heap α) (ref : Nat) (object : α) : (h.write ref object).next = h.next := rfl

@[simp] theorem alloc_ref (h : Heap α) (object : α) : (h.alloc object).2 = h.next := rfl

@[simp] theorem read_alloc_new (h : Heap α) (object : α) : (h.alloc object).1.read h.next = object := by
  simp [alloc]

theorem read_alloc_old {h : Heap α} {ref : Nat} {object : α} (used : ref < h.next) :
    (h.alloc object).1.read ref = h.read ref := by
  simp [alloc,Nat.ne_of_lt used]

@[simp] theorem next_alloc (h : Heap α) (object : α) : (h.alloc object).1.next = h.next + 1 := rfl

-- A reading that writes respect is the same for every object after a write.
theorem read_write_field {β : Type u} (field : α → β) {h : Heap α} {ref : Nat} {object : α}
    (same : field object = field (h.read ref)) (other : Nat) : field ((h.write ref object).read other) = field (h.read other) := by
  by_cases equal : other = ref
  · rw [equal,read_write_self,same]
  · rw [read_write_other equal]

end Heap
end ObjectHeap
