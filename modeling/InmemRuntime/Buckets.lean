import InmemRuntime.OrderedDict

namespace Buckets
open OrderedDict
universe u v w

-- A dictionary of dictionaries, `rows[bucket][key]`.
abbrev Rows (β : Type u) (κ : Type v) (ν : Type w) [BEq β] [BEq κ] := Dict β (Dict κ ν)

variable {β : Type u} {κ : Type v} {ν : Type w} [BEq β] [BEq κ]

namespace Rows

def bucket (rows : Rows β κ ν) (b : β) : Dict κ ν := (rows.get? b).getD .empty

-- `rows.get(bucket, {}).get(key)`.
def item? (rows : Rows β κ ν) (at_ : β × κ) : Option ν := (rows.bucket at_.1).get? at_.2

def items (rows : Rows β κ ν) : List ((β × κ) × ν) :=
  rows.entries.flatMap fun group => group.2.entries.map fun item => ((group.1,item.1),item.2)

-- `rows[bucket][key] = value`, with the buckets of a `defaultdict`.
def set (rows : Rows β κ ν) (at_ : β × κ) (value : ν) : Rows β κ ν :=
  rows.insert at_.1 ((rows.bucket at_.1).insert at_.2 value)

-- `rows[bucket].pop(key, None)`, likewise.
def pop (rows : Rows β κ ν) (at_ : β × κ) : Rows β κ ν := rows.insert at_.1 ((rows.bucket at_.1).erase at_.2)

-- `if not rows.get(bucket): rows.pop(bucket, None)`.
def dropEmpty (rows : Rows β κ ν) (b : β) : Rows β κ ν := if (rows.bucket b).isEmpty then rows.erase b else rows

section lookup
variable [LawfulBEq β]

theorem bucket_insert (rows : Rows β κ ν) (b b' : β) (group : Dict κ ν) :
    bucket (Dict.insert rows b group) b' = if b == b' then group else rows.bucket b' := by
  unfold bucket
  rw [Dict.get?_insert]
  split <;> rfl

@[simp] theorem item?_dropEmpty (rows : Rows β κ ν) (b : β) (other : β × κ) :
    (rows.dropEmpty b).item? other = rows.item? other := by
  unfold dropEmpty
  split
  · rename_i empty
    by_cases same : b = other.1
    · subst same
      rw [item?,item?,Dict.isEmpty_iff.mp empty]
      simp [bucket,Dict.get?_erase]
    · simp [item?,bucket,Dict.get?_erase,same]
  · rfl

variable [LawfulBEq κ]

theorem item?_set (rows : Rows β κ ν) (at_ other : β × κ) (value : ν) :
    (rows.set at_ value).item? other = if at_ == other then some value else rows.item? other := by
  obtain ⟨b,k⟩ := at_
  obtain ⟨b',k'⟩ := other
  by_cases same : b = b'
  · subst same
    by_cases hit : k = k' <;> simp [item?,set,bucket_insert,Dict.get?_insert,hit]
  · simp [item?,set,bucket_insert,same]

theorem item?_pop (rows : Rows β κ ν) (at_ other : β × κ) :
    (rows.pop at_).item? other = if at_ == other then none else rows.item? other := by
  obtain ⟨b,k⟩ := at_
  obtain ⟨b',k'⟩ := other
  by_cases same : b = b'
  · subst same
    by_cases hit : k = k' <;> simp [item?,pop,bucket_insert,Dict.get?_erase,hit]
  · simp [item?,pop,bucket_insert,same]

theorem set_same {rows : Rows β κ ν} {at_ : β × κ} {value : ν} (stored : rows.item? at_ = some value) : rows.set at_ value = rows := by
  unfold set
  cases present : rows.get? at_.1 with
  | none => simp [item?,bucket,present] at stored
  | some group =>
    have found : group.get? at_.2 = some value := by simpa [item?,bucket,present] using stored
    have same : rows.bucket at_.1 = group := by simp [bucket,present]
    rw [same,Dict.insert_same found]
    exact Dict.insert_same present

theorem mem_items {rows : Rows β κ ν} {at_ : β × κ} {value : ν} :
    (at_,value) ∈ rows.items ↔ rows.item? at_ = some value := by
  obtain ⟨b,k⟩ := at_
  constructor
  · intro member
    obtain ⟨⟨b',group⟩,stored,inside⟩ := List.mem_flatMap.mp member
    obtain ⟨⟨k',value'⟩,found,same⟩ := List.mem_map.mp inside
    cases same
    simpa [item?,bucket,Dict.mem_iff.mp stored] using Dict.mem_iff.mp found
  · intro found
    cases stored : rows.get? b with
    | none => simp [item?,bucket,stored] at found
    | some group =>
      refine List.mem_flatMap.mpr ⟨(b,group),Dict.mem_iff.mpr stored,List.mem_map.mpr ⟨(k,value),?_,rfl⟩⟩
      exact Dict.mem_iff.mpr (by simpa [item?,bucket,stored] using found)

end lookup
end Rows

-- A loop over keyed rows whose turns write what is seen at their own key.
section loops
variable {σ : Type u} {κ : Type v} {ν : Type w} {α : Type*} {turn : σ → κ × ν → σ} (seen : σ → κ → α) {rows : List (κ × ν)}

theorem loop_other (other : ∀ s row key, row.1 ≠ key → seen (turn s row) key = seen s key) {key : κ} (absent : ∀ row ∈ rows, row.1 ≠ key)
    (s : σ) : seen (rows.foldl turn s) key = seen s key := by
  induction rows generalizing s with
  | nil => rfl
  | cons row rest ih =>
    rw [List.foldl_cons,ih (fun later member => absent later (List.mem_cons_of_mem _ member)),other s row key (absent row List.mem_cons_self)]

theorem loop_same {β : Type*} (seen : σ → α) {turn : σ → β → σ} (same : ∀ s row, seen (turn s row) = seen s) (rows : List β) (s : σ) :
    seen (rows.foldl turn s) = seen s := by
  induction rows generalizing s with
  | nil => rfl
  | cons row rest ih => rw [List.foldl_cons,ih,same]

theorem loop_own (written : κ × ν → α) (own : ∀ s row, seen (turn s row) row.1 = written row)
    (other : ∀ s row key, row.1 ≠ key → seen (turn s row) key = seen s key) (distinct : (rows.map Prod.fst).Nodup) {row : κ × ν}
    (member : row ∈ rows) (s : σ) : seen (rows.foldl turn s) row.1 = written row := by
  induction rows generalizing s with
  | nil => cases member
  | cons first rest ih =>
    obtain ⟨fresh,apart⟩ := List.nodup_cons.mp distinct
    rcases List.mem_cons.mp member with rfl | later
    · rw [List.foldl_cons,loop_other seen other fun last among same => fresh (List.mem_map.mpr ⟨last,among,same⟩),own]
    · exact ih apart later _

theorem loop_erase [DecidableEq κ] (seen : σ → κ → Option α) {turn : σ → κ → σ}
    (erases : ∀ s gone key, seen (turn s gone) key = if gone = key then none else seen s key) (keys : List κ) (s : σ) (key : κ) :
    seen (keys.foldl turn s) key = if key ∈ keys then none else seen s key := by
  induction keys generalizing s with
  | nil => simp
  | cons gone rest ih =>
    rw [List.foldl_cons,ih,erases]
    by_cases same : gone = key
    · simp [same]
    · simp [same,Ne.symm same]

end loops
end Buckets
