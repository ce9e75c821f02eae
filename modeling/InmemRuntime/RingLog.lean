import Mathlib.Data.List.Basic

namespace RingLog
universe u
variable {α : Type u}

-- A bounded buffer beside a count of all that was ever put into it.
structure Ring (α : Type u) where
  items : List α
  total : Nat

-- What a buffer of that size keeps of a list.
def keepLast (capacity : Nat) (items : List α) : List α := items.drop (items.length - capacity)

def numbered (start : Nat) : List α → List (Nat × α)
  | [] => []
  | a :: rest => (start+1,a) :: numbered (start+1) rest

namespace Ring

def empty : Ring α := ⟨[],0⟩

def push (capacity : Nat) (r : Ring α) (a : α) : Ring α := ⟨keepLast capacity (r.items ++ [a]),r.total+1⟩

-- How many have left the buffer.
def start (r : Ring α) : Nat := r.total - r.items.length

-- Those in the buffer, by their numbers among all, from one on.
def rows (r : Ring α) : List (Nat × α) := numbered r.start r.items

-- Those of them that come after a cursor.
def later (r : Ring α) (cursor : Nat) : List (Nat × α) := numbered (r.start + (cursor - r.start)) (r.items.drop (cursor - r.start))

end Ring

-- The buffer is the end of the list of all that was put in.
structure Holds (capacity : Nat) (r : Ring α) (log : List α) : Prop where
  total : r.total = log.length
  items : r.items = keepLast capacity log

section buffer
variable {capacity start cursor i : Nat} {a : α} {r : Ring α} {log items : List α}

theorem empty_holds : Holds capacity (.empty : Ring α) [] := ⟨rfl,by simp [Ring.empty,keepLast]⟩

theorem push_holds (holds : Holds capacity r log) (a : α) : Holds capacity (r.push capacity a) (log ++ [a]) := by
  refine ⟨by simp [Ring.push,holds.total],?_⟩
  unfold Ring.push keepLast
  dsimp only
  rw [holds.items,keepLast]
  by_cases few : log.length < capacity
  · have none_ : log.length - capacity = 0 := by omega
    simp [none_]
  · have kept : log.drop (log.length - capacity) ++ [a] = (log ++ [a]).drop (log.length - capacity) := by
      rw [List.drop_append_of_le_length (by omega)]
    rw [kept,List.drop_drop]
    congr 1
    simp only [List.length_drop,List.length_append,List.length_singleton]
    omega

theorem start_eq (holds : Holds capacity r log) : r.start = log.length - capacity := by
  have length : r.items.length = log.length - (log.length - capacity) := by rw [holds.items,keepLast,List.length_drop]
  rw [Ring.start,holds.total,length]
  omega

theorem mem_numbered : (i,a) ∈ numbered start items ↔ start < i ∧ items[i - start - 1]? = some a := by
  induction items generalizing start with
  | nil => simp [numbered]
  | cons first rest ih =>
    rw [numbered,List.mem_cons,ih,Prod.mk.injEq]
    constructor
    · intro held
      rcases held with ⟨rfl,rfl⟩ | ⟨above,found⟩
      · exact ⟨Nat.lt_succ_self _,by simp⟩
      · obtain ⟨k,same⟩ : ∃ k, i - start - 1 = k + 1 := ⟨i - start - 2,by omega⟩
        refine ⟨by omega,?_⟩
        rw [same,List.getElem?_cons_succ]
        rwa [show i - (start+1) - 1 = k by omega] at found
    · intro ⟨above,found⟩
      by_cases here : i = start+1
      · subst here
        exact .inl ⟨rfl,by simpa [eq_comm] using found⟩
      · right
        obtain ⟨k,same⟩ : ∃ k, i - start - 1 = k + 1 := ⟨i - start - 2,by omega⟩
        rw [same,List.getElem?_cons_succ] at found
        refine ⟨by omega,?_⟩
        rwa [show i - (start+1) - 1 = k by omega]

theorem numbered_sorted (start : Nat) (items : List α) : ((numbered start items).map Prod.fst).Pairwise (· < ·) := by
  induction items generalizing start with
  | nil => exact .nil
  | cons first rest ih =>
    rw [numbered,List.map_cons,List.pairwise_cons]
    refine ⟨fun j member => ?_,ih _⟩
    obtain ⟨⟨j,b⟩,listed,rfl⟩ := List.mem_map.mp member
    exact (mem_numbered.mp listed).1

-- After a cursor come all that are still there and have a higher number.
theorem mem_later (holds : Holds capacity r log) :
    (i,a) ∈ r.later cursor ↔ cursor < i ∧ log.length - capacity < i ∧ log[i-1]? = some a := by
  rw [Ring.later,mem_numbered,holds.items,keepLast,start_eq holds,List.drop_drop,List.getElem?_drop]
  constructor
  · intro ⟨above,found⟩
    refine ⟨by omega,by omega,?_⟩
    rwa [show log.length - capacity + (cursor - (log.length - capacity)) +
      (i - (log.length - capacity + (cursor - (log.length - capacity))) - 1) = i - 1 by omega] at found
  · intro ⟨late,buffered,found⟩
    refine ⟨by omega,?_⟩
    rwa [show log.length - capacity + (cursor - (log.length - capacity)) +
      (i - (log.length - capacity + (cursor - (log.length - capacity))) - 1) = i - 1 by omega]

theorem later_zero (r : Ring α) : r.later 0 = r.rows := by simp [Ring.later,Ring.rows]

end buffer

-- What a reader has been given who follows the buffer from a cursor on and has
-- looked into it up to a bound: nothing twice, nothing wrong, and all that is
-- still there.
structure Follows (capacity initial bound : Nat) (log : List α) (given : List (Nat × α)) : Prop where
  started : initial ≤ bound
  bounded : bound ≤ log.length
  sorted : (given.map Prod.fst).Pairwise (· < ·)
  within : ∀ row ∈ given, initial < row.1 ∧ row.1 ≤ bound
  exact_ : ∀ row ∈ given, log[row.1 - 1]? = some row.2
  covered : ∀ i, initial < i → i ≤ bound → log.length - capacity < i → ∃ a, (i,a) ∈ given

section following
variable {capacity initial bound : Nat} {log : List α} {given : List (Nat × α)}

theorem follows_start (known : initial ≤ log.length) : Follows capacity initial initial log [] :=
  ⟨Nat.le_refl _,known,.nil,by simp,by simp,fun i above below _ => absurd above (Nat.not_lt.mpr below)⟩

-- What leaves the buffer meanwhile was given, or is lost.
theorem follows_grow (follows : Follows capacity initial bound log given) (more : List α) :
    Follows capacity initial bound (log ++ more) given := by
  refine ⟨follows.started,?_,follows.sorted,follows.within,fun row member => ?_,fun i above below buffered => ?_⟩
  · have bounded := follows.bounded
    rw [List.length_append]
    omega
  · have held := follows.exact_ row member
    obtain ⟨inside,_⟩ := List.getElem?_eq_some_iff.mp held
    rw [List.getElem?_append_left inside]
    exact held
  · refine follows.covered i above below ?_
    rw [List.length_append] at buffered
    omega

theorem follows_look {r : Ring α} (holds : Holds capacity r log) (follows : Follows capacity initial bound log given) :
    Follows capacity initial log.length log (given ++ r.later bound) := by
  have started := follows.started
  have bounded := follows.bounded
  refine ⟨by omega,Nat.le_refl _,?_,?_,?_,?_⟩
  · rw [List.map_append]
    refine List.pairwise_append.mpr ⟨follows.sorted,numbered_sorted _ _,?_⟩
    intro i old j new
    obtain ⟨row,given_,rfl⟩ := List.mem_map.mp old
    obtain ⟨⟨j,b⟩,listed,rfl⟩ := List.mem_map.mp new
    have below := (follows.within row given_).2
    have above := ((mem_later holds).mp listed).1
    exact Nat.lt_of_le_of_lt below above
  · intro row member
    rcases List.mem_append.mp member with old | new
    · have held := follows.within row old
      exact ⟨held.1,by omega⟩
    · obtain ⟨above,_,found⟩ := (mem_later holds).mp new
      obtain ⟨inside,_⟩ := List.getElem?_eq_some_iff.mp found
      exact ⟨by omega,by omega⟩
  · intro row member
    rcases List.mem_append.mp member with old | new
    · exact follows.exact_ row old
    · exact ((mem_later holds).mp new).2.2
  · intro i above below buffered
    by_cases known : i ≤ bound
    · obtain ⟨a,held⟩ := follows.covered i above known buffered
      exact ⟨a,List.mem_append_left _ held⟩
    · have inside : i - 1 < log.length := by omega
      refine ⟨log[i-1],List.mem_append_right _ ((mem_later holds).mpr ⟨by omega,buffered,?_⟩)⟩
      exact List.getElem?_eq_getElem inside

-- All in the buffer above the first cursor have been given.
theorem follows_rows {r : Ring α} (holds : Holds capacity r log) (follows : Follows capacity initial log.length log given)
    {row : Nat × α} (member : row ∈ r.rows) (above : initial < row.1) : row ∈ given := by
  obtain ⟨i,b⟩ := row
  rw [← later_zero] at member
  obtain ⟨_,buffered,found⟩ := (mem_later holds).mp member
  obtain ⟨inside,_⟩ := List.getElem?_eq_some_iff.mp found
  dsimp only at above
  obtain ⟨a,held⟩ := follows.covered i above (by omega) buffered
  cases found.symm.trans (follows.exact_ _ held)
  exact held

end following
end RingLog
