import Mathlib.Data.List.Basic
import Mathlib.Order.Lattice

namespace Paging
universe u v w

variable {σ : Type u} {ε : Type v} {α : Type w}

-- A listing is asked for a page at an offset and answers with the page and the
-- offset of the next one. Asking may change what it is asked of.
abbrev Search (σ : Type u) (ε : Type v) (α : Type w) := σ → Nat → σ × Except ε (List α × Option Nat)

-- One page after the other, until no cursor comes back.
inductive Follows (search : Search σ ε α) : σ → Nat → List α → σ → Prop where
  | last {s s' : σ} {offset : Nat} {page : List α} (answered : search s offset = (s',.ok (page,none))) :
      Follows search s offset page s'
  | more {s middle s' : σ} {offset next : Nat} {page rest : List α} (answered : search s offset = (middle,.ok (page,some next)))
      (later : Follows search middle next rest s') : Follows search s offset (page ++ rest) s'

section pages

def paginate (rows : List α) (limit offset : Nat) : List α × Option Nat :=
  ((rows.drop offset).take limit,if offset + limit < rows.length then some (offset + limit) else none)

-- The same read off one row more than the page has.
def paginateAhead (rows : List α) (limit offset : Nat) : List α × Option Nat :=
  let ahead := (rows.drop offset).take (limit+1)
  if limit < ahead.length then (ahead.take limit,some (offset + limit)) else (ahead,none)

theorem paginateAhead_eq (rows : List α) (limit offset : Nat) : paginateAhead rows limit offset = paginate rows limit offset := by
  have ahead : limit < ((rows.drop offset).take (limit+1)).length ↔ offset + limit < rows.length := by
    rw [List.length_take,List.length_drop]
    omega
  unfold paginateAhead paginate
  by_cases more : offset + limit < rows.length
  · simp only [ahead.mpr more,more,↓reduceIte,List.take_take]
    rw [Nat.min_eq_left (Nat.le_succ limit)]
  · have short : (rows.drop offset).length ≤ limit := by
      rw [List.length_drop]
      omega
    simp only [mt ahead.mp more,more,↓reduceIte]
    rw [List.take_of_length_le short,List.take_of_length_le (Nat.le_succ_of_le short)]

-- A listing that answers every offset from the same rows is read off whole.
theorem follows_steady {search : Search σ ε α} {s : σ} {rows : List α} {limit : Nat} (positive : 0 < limit)
    (answers : ∀ offset, search s offset = (s,.ok (paginate rows limit offset))) (offset : Nat) :
    Follows search s offset (rows.drop offset) s := by
  induction left : rows.length - offset using Nat.strongRecOn generalizing offset with
  | ind left ih =>
    by_cases more : offset + limit < rows.length
    · have here : search s offset = (s,.ok ((rows.drop offset).take limit,some (offset + limit))) := by
        rw [answers offset]
        simp [paginate,more]
      have later := ih (rows.length - (offset + limit)) (by omega) (offset + limit) rfl
      have whole : (rows.drop offset).take limit ++ rows.drop (offset + limit) = rows.drop offset := by
        rw [← List.drop_drop,List.take_append_drop]
      exact whole ▸ .more here later
    · have here : search s offset = (s,.ok (rows.drop offset,none)) := by
        rw [answers offset]
        have short : (rows.drop offset).length ≤ limit := by
          rw [List.length_drop]
          omega
        simp [paginate,more,List.take_of_length_le short]
      exact .last here

-- What the first question changes, the later ones find as it is.
theorem follows_settled {search : Search σ ε α} {s s' : σ} {rows : List α} {limit : Nat} (positive : 0 < limit)
    (first : ∀ offset, search s offset = (s',.ok (paginate rows limit offset)))
    (later : ∀ offset, search s' offset = (s',.ok (paginate rows limit offset))) : Follows search s 0 rows s' := by
  have steady : Follows search s' 0 rows s' := follows_steady positive later 0
  have same : search s 0 = search s' 0 := (first 0).trans (later 0).symm
  cases steady with
  | last answered => exact .last (same.trans answered)
  | more answered rest => exact .more (same.trans answered) rest

end pages

-- Filtering by a test that may fail stops at the first failure.
section filtering

def keep (test : α → Except ε Bool) : List α → Except ε (List α)
  | [] => .ok []
  | row :: rest =>
    match test row with
    | .error error => .error error
    | .ok answer => (keep test rest).map fun kept => if answer then row :: kept else kept

def count (test : α → Except ε Bool) : List α → Except ε Nat
  | [] => .ok 0
  | row :: rest =>
    match test row with
    | .error error => .error error
    | .ok answer => (count test rest).map fun counted => if answer then counted + 1 else counted

def yes : Except ε Bool → Bool
  | .ok answer => answer
  | .error _ => false

def Ok (x : Except ε Bool) : Prop := ∃ answer, x = .ok answer

def accepted (test : α → Except ε Bool) (row : α) : Bool := yes (test row)

def Answers (test : α → Except ε Bool) (row : α) : Prop := Ok (test row)

theorem ok_known (answer : Bool) : Ok (.ok answer : Except ε Bool) := ⟨answer,rfl⟩

theorem ok_and {x y : Except ε Bool} : Ok (x <&&> y) ↔ Ok x ∧ (yes x = true → Ok y) := by
  cases x with
  | error error => exact ⟨fun ⟨_,same⟩ => (by cases same),fun ⟨⟨_,same⟩,_⟩ => (by cases same)⟩
  | ok answer =>
    cases answer with
    | false => exact ⟨fun _ => ⟨ok_known _,nofun⟩,fun _ => ok_known _⟩
    | true => exact ⟨fun known => ⟨ok_known _,fun _ => known⟩,fun both => both.2 rfl⟩

theorem yes_and {x y : Except ε Bool} : yes (x <&&> y) = (yes x && yes y) := by
  cases x with
  | error error => rfl
  | ok answer => cases answer <;> rfl

variable {test : α → Except ε Bool}

theorem keep_ok {rows : List α} (answers : ∀ row ∈ rows, Answers test row) : keep test rows = .ok (rows.filter (accepted test)) := by
  induction rows with
  | nil => rfl
  | cons row rest ih =>
    obtain ⟨answer,known⟩ := answers row List.mem_cons_self
    have later := ih fun other member => answers other (List.mem_cons_of_mem _ member)
    unfold keep
    rw [known,later,List.filter_cons,accepted,known]
    rfl

theorem keep_answers {rows kept : List α} (done : keep test rows = .ok kept) : ∀ row ∈ rows, Answers test row := by
  induction rows generalizing kept with
  | nil => exact fun _ member => (List.not_mem_nil member).elim
  | cons row rest ih =>
    unfold keep at done
    cases known : test row with
    | error error => simp [known] at done
    | ok answer =>
      cases later : keep test rest with
      | error error => simp [known,later,Except.map] at done
      | ok kept => exact List.forall_mem_cons.mpr ⟨⟨answer,known⟩,ih later⟩

theorem keep_congr {test' : α → Except ε Bool} {rows : List α} (same : ∀ row ∈ rows, test row = test' row) :
    keep test rows = keep test' rows := by
  induction rows with
  | nil => rfl
  | cons row rest ih =>
    unfold keep
    rw [same row List.mem_cons_self,ih fun other member => same other (List.mem_cons_of_mem _ member)]

theorem keep_map {β : Type*} (f : β → α) (rows : List β) :
    keep test (rows.map f) = (keep (fun row => test (f row)) rows).map (List.map f) := by
  induction rows with
  | nil => rfl
  | cons row rest ih =>
    rw [List.map_cons,keep,keep,ih]
    cases test (f row) with
    | error error => rfl
    | ok answer => cases keep (fun row => test (f row)) rest <;> cases answer <;> rfl

@[simp] theorem and_false (answer : Bool) : ((.ok answer : Except ε Bool) <&&> .ok false) = .ok false := by
  cases answer <;> rfl

-- A first test that answers everywhere may as well be passed beforehand.
theorem keep_and {first second : α → Except ε Bool} {rows : List α} (answers : ∀ row ∈ rows, Answers first row) :
    keep (fun row => first row <&&> second row) rows = keep second (rows.filter (accepted first)) := by
  induction rows with
  | nil => rfl
  | cons row rest ih =>
    obtain ⟨answer,known⟩ := answers row List.mem_cons_self
    have later := ih fun other member => answers other (List.mem_cons_of_mem _ member)
    rw [List.filter_cons,keep]
    cases answer with
    | false =>
      have out : accepted first row = false := by rw [accepted,known]; rfl
      rw [known,out,later]
      simp only [Bool.false_eq_true,↓reduceIte]
      cases keep second (rest.filter (accepted first)) <;> rfl
    | true =>
      have in_ : accepted first row = true := by rw [accepted,known]; rfl
      rw [known,in_,later]
      rfl

theorem count_keep (test : α → Except ε Bool) (rows : List α) : count test rows = (keep test rows).map List.length := by
  induction rows with
  | nil => rfl
  | cons row rest ih =>
    unfold count keep
    cases test row with
    | error error => rfl
    | ok answer =>
      dsimp only
      rw [ih]
      cases keep test rest <;> cases answer <;> rfl

end filtering

section ordering

-- The order by a key, or its reverse. Rows of one key keep their order.
def leOn {κ : Type u} [LinearOrder κ] (reverse : Bool) (key : α → κ) (a b : α) : Bool :=
  if reverse then decide (key b ≤ key a) else decide (key a ≤ key b)

structure TotalOrder (le : α → α → Bool) : Prop where
  trans : ∀ a b c, le a b = true → le b c = true → le a c = true
  total : ∀ a b, (le a b || le b a) = true

theorem ordering_leOn {κ : Type u} [LinearOrder κ] (reverse : Bool) (key : α → κ) : TotalOrder (leOn reverse key) := by
  cases reverse with
  | false =>
    refine ⟨fun a b c first second => ?_,fun a b => ?_⟩
    · simp only [leOn,Bool.false_eq_true,↓reduceIte,decide_eq_true_eq] at first second ⊢
      exact le_trans first second
    · simpa [leOn] using le_total (key a) (key b)
  | true =>
    refine ⟨fun a b c first second => ?_,fun a b => ?_⟩
    · simp only [leOn,↓reduceIte,decide_eq_true_eq] at first second ⊢
      exact le_trans second first
    · simpa [leOn] using le_total (key b) (key a)

end ordering

-- A listing, whatever the size of its pages, and a count agree on what is found.
structure Agreement (search : Nat → Search σ ε α) (counted : Except ε Nat) (s : σ) (le : α → α → Bool) (found : List α) : Prop where
  answers : ∀ limit offset, 0 < limit → ∃ page, (search limit s offset).2 = .ok page
  listed : ∃ rows : List α, rows.Perm found ∧ rows.Pairwise (fun a b => le a b = true) ∧ counted = .ok rows.length ∧
    ∀ limit, 0 < limit → ∃ s', Follows (search limit) s 0 rows s'

theorem agreement_settled {search : Nat → Search σ ε α} {counted : Except ε Nat} {s s' : σ} {le : α → α → Bool} {found : List α}
    (ordering : TotalOrder le) (first : ∀ limit offset, search limit s offset = (s',.ok (paginate (found.mergeSort le) limit offset)))
    (later : ∀ limit offset, search limit s' offset = (s',.ok (paginate (found.mergeSort le) limit offset)))
    (counts : counted = .ok found.length) : Agreement search counted s le found := by
  refine ⟨fun limit offset _ => ⟨_,congrArg Prod.snd (first limit offset)⟩,found.mergeSort le,List.mergeSort_perm _ _,
    List.pairwise_mergeSort ordering.trans ordering.total found,?_,fun limit positive => ⟨s',?_⟩⟩
  · rw [counts,List.length_mergeSort]
  · exact follows_settled positive (first limit) (later limit)

end Paging
