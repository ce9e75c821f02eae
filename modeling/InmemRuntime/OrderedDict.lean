import Mathlib.Algebra.BigOperators.Group.List.Basic
import Mathlib.Data.List.Pairwise
import Mathlib.Tactic.Abel

namespace OrderedDict
universe u v w x

-- An insertion-ordered dictionary whose keys are compared by `==`, which need
-- not be identity: an update under an equal key keeps the key stored first.
structure Dict (κ : Type u) (ν : Type v) [BEq κ] where
  entries : List (κ × ν)
  distinct : entries.Pairwise fun a b => (a.1 == b.1) = false

variable {κ : Type u} {ν : Type v} {μ : Type w} [BEq κ]

theorem Dict.ext {d e : Dict κ ν} (same : d.entries = e.entries) : d = e := by
  cases d; cases e; cases same; rfl

instance [DecidableEq κ] [DecidableEq ν] : DecidableEq (Dict κ ν) := fun d e =>
  decidable_of_iff (d.entries = e.entries) ⟨Dict.ext,fun equal => equal ▸ rfl⟩

namespace Dict

def empty : Dict κ ν := ⟨[],.nil⟩

def get? (d : Dict κ ν) (k : κ) : Option ν := (d.entries.find? fun e => e.1 == k).map Prod.snd

def contains (d : Dict κ ν) (k : κ) : Bool := d.entries.any fun e => e.1 == k

def keys (d : Dict κ ν) : List κ := d.entries.map Prod.fst

def isEmpty (d : Dict κ ν) : Bool := d.entries.isEmpty

def size (d : Dict κ ν) : Nat := d.entries.length

def filter (d : Dict κ ν) (keep : κ → ν → Bool) : Dict κ ν :=
  ⟨d.entries.filter fun e => keep e.1 e.2,d.distinct.sublist List.filter_sublist⟩

def erase (d : Dict κ ν) (k : κ) : Dict κ ν := d.filter fun stored _ => !(stored == k)

def mapValues (d : Dict κ ν) (f : κ → ν → μ) : Dict κ μ :=
  ⟨d.entries.map fun e => (e.1,f e.1 e.2),by simpa [List.pairwise_map] using d.distinct⟩

def sum {M : Type x} [AddCommMonoid M] (f : κ → ν → M) (d : Dict κ ν) : M :=
  (d.entries.map fun e => f e.1 e.2).sum

-- Replacing in place touches no stored key, so distinctness is inherited.
def replace (d : Dict κ ν) (k : κ) (v : ν) : Dict κ ν :=
  d.mapValues fun stored old => if stored == k then v else old

theorem contains_false {d : Dict κ ν} {k : κ} (absent : d.contains k = false) :
    ∀ e ∈ d.entries, (e.1 == k) = false := by
  simpa [contains] using absent

def insert (d : Dict κ ν) (k : κ) (v : ν) : Dict κ ν :=
  if present : d.contains k then d.replace k v
  else ⟨d.entries ++ [(k,v)],by
    refine List.pairwise_append.mpr ⟨d.distinct,List.pairwise_singleton _ _,?_⟩
    intro e member fresh last
    rw [List.mem_singleton.mp last]
    exact contains_false (by simpa using present) e member⟩

-- `{**d, **rows}`: later rows win.
def update (d : Dict κ ν) (rows : List (κ × ν)) : Dict κ ν := rows.foldl (fun d e => d.insert e.1 e.2) d

@[simp] theorem isEmpty_empty : (empty : Dict κ ν).isEmpty = true := rfl
@[simp] theorem entries_empty : (empty : Dict κ ν).entries = [] := rfl
@[simp] theorem entries_filter (d : Dict κ ν) (keep : κ → ν → Bool) :
    (d.filter keep).entries = d.entries.filter fun e => keep e.1 e.2 := rfl
@[simp] theorem entries_mapValues (d : Dict κ ν) (f : κ → ν → μ) :
    (d.mapValues f).entries = d.entries.map fun e => (e.1,f e.1 e.2) := rfl
@[simp] theorem get?_empty (k : κ) : (empty : Dict κ ν).get? k = none := rfl
@[simp] theorem sum_empty {M : Type x} [AddCommMonoid M] (f : κ → ν → M) : sum f empty = 0 := rfl

theorem isEmpty_iff {d : Dict κ ν} : d.isEmpty = true ↔ d = empty :=
  ⟨fun none => Dict.ext (List.isEmpty_iff.mp none),fun equal => by rw [equal]; rfl⟩

theorem filter_self {d : Dict κ ν} {keep : κ → ν → Bool} (all : ∀ e ∈ d.entries, keep e.1 e.2 = true) :
    d.filter keep = d := Dict.ext (List.filter_eq_self.mpr all)

theorem filter_none {d : Dict κ ν} {keep : κ → ν → Bool} (all : ∀ e ∈ d.entries, keep e.1 e.2 = false) :
    d.filter keep = empty := Dict.ext (List.filter_eq_nil_iff.mpr fun e member => by simp [all e member])

theorem mem_of_get? {d : Dict κ ν} {k : κ} {v : ν} (found : d.get? k = some v) :
    ∃ stored, (stored,v) ∈ d.entries ∧ (stored == k) = true := by
  unfold get? at found
  obtain ⟨e,hit,rfl⟩ := Option.map_eq_some_iff.mp found
  exact ⟨e.1,List.mem_of_find?_eq_some hit,by simpa using List.find?_some hit⟩

theorem get?_none_iff {d : Dict κ ν} {k : κ} :
    d.get? k = none ↔ ∀ e ∈ d.entries, (e.1 == k) = false := by
  simp [get?]

theorem contains_iff {d : Dict κ ν} {k : κ} : d.contains k = true ↔ ∃ v, d.get? k = some v := by
  constructor
  · intro present
    cases found : d.get? k with
    | some v => exact ⟨v,rfl⟩
    | none =>
      obtain ⟨e,member,equal⟩ := List.any_eq_true.mp present
      rw [get?_none_iff.mp found e member] at equal
      cases equal
  · rintro ⟨v,found⟩
    obtain ⟨stored,member,equal⟩ := mem_of_get? found
    exact List.any_eq_true.mpr ⟨_,member,equal⟩

theorem contains_eq_false_iff {d : Dict κ ν} {k : κ} : d.contains k = false ↔ d.get? k = none := by
  rw [get?_none_iff]; simp [contains]

section equivalence
variable [EquivBEq κ]

theorem get?_of_mem {d : Dict κ ν} {stored k : κ} {v : ν} (member : (stored,v) ∈ d.entries)
    (equal : (stored == k) = true) : d.get? k = some v := by
  obtain ⟨rows,distinct⟩ := d
  induction rows with
  | nil => cases member
  | cons head rest ih =>
    have parts := List.pairwise_cons.mp distinct
    rcases List.mem_cons.mp member with rfl | later
    · simp [get?,equal]
    · have other : (head.1 == k) = false := by
        cases hit : head.1 == k with
        | false => rfl
        | true =>
          have clash := BEq.trans hit (BEq.symm equal)
          rw [parts.1 _ later] at clash
          cases clash
      have tail := ih parts.2 later
      simpa [get?,other] using tail

theorem get?_congr {d : Dict κ ν} {k k' : κ} (equal : (k == k') = true) : d.get? k = d.get? k' := by
  cases found : d.get? k with
  | some v =>
    obtain ⟨stored,member,hit⟩ := mem_of_get? found
    exact (get?_of_mem member (BEq.trans hit equal)).symm
  | none =>
    cases other : d.get? k' with
    | none => rfl
    | some v =>
      obtain ⟨stored,member,hit⟩ := mem_of_get? other
      rw [get?_of_mem member (BEq.trans hit (BEq.symm equal))] at found
      cases found

theorem contains_congr {κ : Type u} [BEq κ] [EquivBEq κ] {rows : List κ} {k k' : κ} (equal : (k == k') = true) :
    rows.contains k = rows.contains k' := by
  induction rows with
  | nil => rfl
  | cons head rest ih => simp only [List.contains_cons,ih,BEq.congr_left equal]

theorem get?_filter {d : Dict κ ν} {keep : κ → ν → Bool} {k : κ}
    (respects : ∀ stored v, (stored == k) = true → keep stored v = keep k v) :
    (d.filter keep).get? k = (d.get? k).filter (keep k) := by
  cases found : d.get? k with
  | some v =>
    obtain ⟨stored,member,hit⟩ := mem_of_get? found
    cases kept : keep k v with
    | true =>
      have row : (stored,v) ∈ (d.filter keep).entries := by
        simp [member,respects stored v hit,kept]
      simpa [Option.filter,kept] using get?_of_mem row hit
    | false =>
      simp only [Option.filter,kept,Bool.false_eq_true,↓reduceIte]
      rw [get?_none_iff]
      intro e row
      simp only [entries_filter,List.mem_filter] at row
      cases equal : e.1 == k with
      | false => rfl
      | true =>
        have same := get?_of_mem row.1 equal
        rw [found,Option.some.injEq] at same
        rw [respects e.1 e.2 equal,← same,kept] at row
        cases row.2
  | none =>
    simp only [Option.filter,get?_none_iff,entries_filter,List.mem_filter]
    intro e row
    exact get?_none_iff.mp found e row.1

theorem get?_erase (d : Dict κ ν) (k k' : κ) :
    (d.erase k).get? k' = if k == k' then none else d.get? k' := by
  unfold erase
  rw [get?_filter (by intro stored _ hit; rw [BEq.congr_left hit])]
  cases equal : k == k' with
  | true => cases d.get? k' <;> simp [Option.filter,BEq.symm equal]
  | false =>
    have other : (k' == k) = false := by rw [BEq.comm]; exact equal
    cases d.get? k' <;> simp [Option.filter,other]

theorem get?_replace (d : Dict κ ν) (k k' : κ) (v : ν) :
    (d.replace k v).get? k' = if k == k' then (d.get? k').map fun _ => v else d.get? k' := by
  have row : ∀ stored old, (stored,old) ∈ d.entries → (stored == k') = true →
      (d.replace k v).get? k' = some (if k == k' then v else old) := by
    intro stored old member hit
    refine get?_of_mem (?_ : (stored,_) ∈ _) hit
    simp only [replace,entries_mapValues,List.mem_map,Prod.mk.injEq,Prod.exists]
    exact ⟨stored,old,member,rfl,by rw [BEq.congr_left hit,BEq.comm]⟩
  cases found : d.get? k' with
  | some old =>
    obtain ⟨stored,member,hit⟩ := mem_of_get? found
    rw [row stored old member hit]
    split <;> rfl
  | none =>
    have absent : (d.replace k v).get? k' = none := by
      rw [get?_none_iff] at found ⊢
      intro e member
      obtain ⟨old,source,rfl⟩ := List.mem_map.mp member
      exact found old source
    rw [absent]
    split <;> rfl

theorem get?_insert (d : Dict κ ν) (k k' : κ) (v : ν) :
    (d.insert k v).get? k' = if k == k' then some v else d.get? k' := by
  unfold insert
  split
  · rename_i present
    rw [get?_replace]
    split
    · rename_i equal
      obtain ⟨old,found⟩ := contains_iff.mp present
      rw [← get?_congr equal,found]; rfl
    · rfl
  · rename_i absent
    have missing : d.get? k = none := contains_eq_false_iff.mp (by simpa using absent)
    cases equal : k == k' with
    | true =>
      simp only [↓reduceIte]
      exact get?_of_mem (by simp : (k,v) ∈ _) equal
    | false =>
      simp [get?,List.find?_append,equal]

@[simp] theorem get?_insert_self (d : Dict κ ν) (k : κ) (v : ν) : (d.insert k v).get? k = some v := by
  simp [get?_insert]

theorem get?_insert_other {d : Dict κ ν} {k k' : κ} {v : ν} (other : (k == k') = false) :
    (d.insert k v).get? k' = d.get? k' := by
  simp [get?_insert,other]

end equivalence

section lawful
variable [LawfulBEq κ]

theorem mem_iff {d : Dict κ ν} {k : κ} {v : ν} : (k,v) ∈ d.entries ↔ d.get? k = some v := by
  constructor
  · exact fun member => get?_of_mem member BEq.rfl
  · intro found
    obtain ⟨stored,member,equal⟩ := mem_of_get? found
    cases eq_of_beq equal
    exact member

theorem mem_keys {d : Dict κ ν} {k : κ} : k ∈ d.keys ↔ d.contains k = true := by
  unfold keys
  rw [List.mem_map,contains_iff]
  constructor
  · intro ⟨e,member,same⟩
    exact ⟨e.2,mem_iff.mp (by rw [← same]; exact member)⟩
  · intro ⟨v,found⟩
    exact ⟨(k,v),mem_iff.mpr found,rfl⟩

theorem keys_nodup (d : Dict κ ν) : d.keys.Nodup := by
  unfold keys
  rw [List.Nodup,List.pairwise_map]
  exact d.distinct.imp fun apart same => by simp [same] at apart

theorem get?_map (d : Dict κ ν) (f : κ → ν → μ) (k : κ) : (d.mapValues f).get? k = (d.get? k).map (f k) := by
  cases found : d.get? k with
  | some v =>
    exact mem_iff.mp (List.mem_map.mpr ⟨_,mem_iff.mpr found,rfl⟩)
  | none =>
    simp only [Option.map_none,get?_none_iff,entries_mapValues,List.mem_map] at found ⊢
    rintro e ⟨row,member,rfl⟩
    exact found row member

theorem get?_keep (d : Dict κ ν) (keep : κ → ν → Bool) (k : κ) :
    (d.filter keep).get? k = (d.get? k).filter (keep k) :=
  get?_filter fun stored _ equal => by rw [eq_of_beq equal]

-- Storing what is stored already changes nothing, not even the order.
theorem insert_same {d : Dict κ ν} {k : κ} {v : ν} (stored : d.get? k = some v) : d.insert k v = d := by
  have present : d.contains k = true := contains_iff.mpr ⟨v,stored⟩
  refine Dict.ext ?_
  simp only [insert,present,↓reduceDIte,replace,entries_mapValues]
  refine (List.map_congr_left fun e member => ?_).trans (List.map_id _)
  split
  · next equal =>
    have found := mem_iff.mp member
    rw [eq_of_beq equal,stored] at found
    exact Prod.ext rfl (Option.some.inj found)
  · rfl

theorem erase_absent {d : Dict κ ν} {k : κ} (absent : d.get? k = none) : d.erase k = d := by
  refine filter_self fun e member => ?_
  simpa using get?_none_iff.mp absent e member

end lawful

section sums
variable {M : Type x} [AddCommMonoid M]

theorem sum_congr {f g : κ → ν → M} {d : Dict κ ν}
    (same : ∀ e ∈ d.entries, f e.1 e.2 = g e.1 e.2) : sum f d = sum g d :=
  congrArg List.sum (List.map_congr_left same)

theorem sum_zero {f : κ → ν → M} {d : Dict κ ν} (zero : ∀ e ∈ d.entries, f e.1 e.2 = 0) :
    sum f d = 0 := by
  rw [sum_congr (g:=fun _ _ => 0) zero]
  simp [sum]

theorem sum_mapValues (f : κ → μ → M) (g : κ → ν → μ) (d : Dict κ ν) :
    sum f (d.mapValues g) = sum (fun k v => f k (g k v)) d := by
  simp [sum,Function.comp_def]

theorem sum_filter_split (f : κ → ν → M) (keep : κ → ν → Bool) (d : Dict κ ν) :
    sum f (d.filter keep) + sum f (d.filter fun k v => !keep k v) = sum f d := by
  simp only [sum,entries_filter]
  induction d.entries with
  | nil => simp
  | cons head rest ih =>
    cases kept : keep head.1 head.2 with
    | true => simp [kept,← ih,add_assoc]
    | false => simp [kept,← ih,add_left_comm]

theorem sum_insert_new (f : κ → ν → M) {d : Dict κ ν} {k : κ} {v : ν} (absent : d.get? k = none) :
    sum f (d.insert k v) = sum f d + f k v := by
  have missing : ¬ d.contains k = true := by rw [contains_eq_false_iff.mpr absent]; simp
  simp [sum,insert,missing]

end sums

-- The replaced row keeps its stored key, so the change is measured under it.
theorem sum_insert_old {M : Type x} [AddCommGroup M] [EquivBEq κ] (f : κ → ν → M) {d : Dict κ ν}
    {k : κ} {old v : ν} (found : d.get? k = some old) :
    ∃ stored, (stored,old) ∈ d.entries ∧ (stored == k) = true ∧
      sum f (d.insert k v) = sum f d - f stored old + f stored v := by
  obtain ⟨stored,member,hit⟩ := mem_of_get? found
  refine ⟨stored,member,hit,?_⟩
  have present : d.contains k = true := contains_iff.mpr ⟨old,found⟩
  rw [insert,dif_pos present,replace,sum_mapValues]
  obtain ⟨rows,distinct⟩ := d
  simp only [sum]
  clear found present
  induction rows with
  | nil => cases member
  | cons head rest ih =>
    have parts := List.pairwise_cons.mp distinct
    rcases List.mem_cons.mp member with rfl | later
    · have tail : ∀ e ∈ rest, f e.1 (if e.1 == k then v else e.2) = f e.1 e.2 := by
        intro e present
        have other : (e.1 == k) = false := by
          rw [← BEq.congr_right hit,BEq.comm]; exact parts.1 e present
        simp [other]
      simp only [List.map_cons,List.sum_cons,hit,↓reduceIte,List.map_congr_left tail]
      abel
    · have other : (head.1 == k) = false := by
        rw [← BEq.congr_right hit]; exact parts.1 _ later
      simp only [List.map_cons,List.sum_cons,other,Bool.false_eq_true,↓reduceIte,ih parts.2 later]
      abel

section weighing
variable {M : Type x} [AddCommGroup M] [LawfulBEq κ]

-- What a dictionary holds under one key, weighed.
def weightAt (f : κ → ν → M) (d : Dict κ ν) (k : κ) : M :=
  match d.get? k with
  | some v => f k v
  | none => 0

theorem sum_insert (f : κ → ν → M) (d : Dict κ ν) (k : κ) (v : ν) :
    sum f (d.insert k v) = sum f d + (f k v - d.weightAt f k) := by
  unfold weightAt
  cases found : d.get? k with
  | none => simp [sum_insert_new f found]
  | some old =>
    obtain ⟨stored,_,equal,changed⟩ := sum_insert_old f (v:=v) found
    cases eq_of_beq equal
    rw [changed]
    abel

theorem sum_single (f : κ → ν → M) (d : Dict κ ν) (k : κ) :
    sum f (d.filter fun stored _ => stored == k) = d.weightAt f k := by
  unfold weightAt
  cases found : d.get? k with
  | none =>
    have absent : d.filter (fun stored _ => stored == k) = .empty := by
      refine Dict.ext (List.filter_eq_nil_iff.mpr fun e member => ?_)
      simpa using get?_none_iff.mp found e member
    rw [absent]; rfl
  | some v =>
    obtain ⟨rows,distinct⟩ := d
    have listed := mem_iff.mpr found
    clear found
    simp only [sum,entries_filter] at listed ⊢
    induction rows with
    | nil => cases listed
    | cons head rest ih =>
      have parts := List.pairwise_cons.mp distinct
      rcases List.mem_cons.mp listed with rfl | later
      · have others : rest.filter (fun e => e.1 == k) = [] := by
          refine List.filter_eq_nil_iff.mpr fun e member equal => ?_
          have apart := parts.1 e member
          rw [eq_of_beq equal,BEq.rfl] at apart
          cases apart
        simp [others]
      · have other : (head.1 == k) = false := parts.1 _ later
        rw [List.filter_cons_of_neg (by simp [other])]
        exact ih parts.2 later

theorem sum_erase (f : κ → ν → M) (d : Dict κ ν) (k : κ) :
    sum f (d.erase k) = sum f d - d.weightAt f k := by
  rw [← sum_single,← sum_filter_split f (fun stored _ => stored == k) d]
  unfold erase
  abel

end weighing

-- Rows under new and pairwise different keys are simply appended.
theorem entries_update {d : Dict κ ν} {rows : List (κ × ν)}
    (apart : rows.Pairwise fun a b => (a.1 == b.1) = false)
    (fresh : ∀ row ∈ rows, ∀ e ∈ d.entries, (e.1 == row.1) = false) :
    (d.update rows).entries = d.entries ++ rows := by
  induction rows generalizing d with
  | nil => simp [update]
  | cons row rest ih =>
    have parts := List.pairwise_cons.mp apart
    have absent : ¬ d.contains row.1 = true := by
      simpa [contains] using fresh row (by simp)
    have inserted : (d.insert row.1 row.2).entries = d.entries ++ [row] := by simp [insert,absent]
    unfold update at ih ⊢
    rw [List.foldl_cons,ih parts.2 ?_,inserted,List.append_assoc]
    · rfl
    · intro later member e listed
      rw [inserted,List.mem_append,List.mem_singleton] at listed
      rcases listed with old | rfl
      · exact fresh later (by simp [member]) e old
      · exact parts.1 later member

theorem insert_grows (d : Dict κ ν) (k : κ) (v : ν) :
    (d.insert k v).entries.length = d.entries.length ∨ (d.insert k v).entries = d.entries ++ [(k,v)] := by
  unfold insert
  split
  · exact .inl (by simp [replace])
  · exact .inr rfl

theorem update_length (d : Dict κ ν) (rows : List (κ × ν)) :
    (d.update rows).entries.length ≤ d.entries.length + rows.length := by
  unfold update
  induction rows generalizing d with
  | nil => exact Nat.le_refl _
  | cons row rest ih =>
    have later := ih (d.insert row.1 row.2)
    rcases insert_grows d row.1 row.2 with kept | appended
    · rw [kept] at later
      simp only [List.foldl_cons,List.length_cons]
      omega
    · rw [appended,List.length_append,List.length_singleton] at later
      simp only [List.foldl_cons,List.length_cons]
      omega

-- An update that grows by all of its rows has lost none of them.
theorem update_full {d : Dict κ ν} {rows : List (κ × ν)}
    (full : (d.update rows).entries.length = d.entries.length + rows.length) : (d.update rows).entries = d.entries ++ rows := by
  induction rows generalizing d with
  | nil => exact (List.append_nil _).symm
  | cons row rest ih =>
    have bound := update_length (d.insert row.1 row.2) rest
    have same : d.update (row :: rest) = (d.insert row.1 row.2).update rest := rfl
    rw [same,List.length_cons] at full
    rcases insert_grows d row.1 row.2 with kept | appended
    · omega
    · rw [same,ih (by rw [full,appended,List.length_append,List.length_singleton]; omega),appended,List.append_assoc]
      rfl

theorem get?_update_other [EquivBEq κ] {d : Dict κ ν} {rows : List (κ × ν)} {k : κ}
    (others : ∀ row ∈ rows, (row.1 == k) = false) : (d.update rows).get? k = d.get? k := by
  unfold update
  induction rows generalizing d with
  | nil => rfl
  | cons row rest ih =>
    have parts := List.forall_mem_cons.mp others
    rw [List.foldl_cons,ih parts.2,get?_insert_other parts.1]

theorem contains_update [EquivBEq κ] {d : Dict κ ν} {rows : List (κ × ν)} {k : κ} :
    (d.update rows).contains k = true ↔ d.contains k = true ∨ ∃ row ∈ rows, (row.1 == k) = true := by
  unfold update
  induction rows generalizing d with
  | nil => simp
  | cons row rest ih =>
    have stored : (d.insert row.1 row.2).contains k = true ↔ (row.1 == k) = true ∨ d.contains k = true := by
      rw [contains_iff,get?_insert,contains_iff]
      cases row.1 == k <;> simp
    rw [List.foldl_cons,ih,stored]
    simp only [List.mem_cons,exists_eq_or_imp]
    tauto

theorem get?_update_source [EquivBEq κ] {d : Dict κ ν} {rows : List (κ × ν)} {k : κ} {v : ν}
    (found : (d.update rows).get? k = some v) : d.get? k = some v ∨ ∃ row ∈ rows, (row.1 == k) = true ∧ row.2 = v := by
  unfold update at found
  induction rows generalizing d with
  | nil => exact .inl found
  | cons row rest ih =>
    rcases ih found with early | ⟨later,member,same⟩
    · rw [get?_insert] at early
      split at early
      · rename_i hit
        exact .inr ⟨row,by simp,hit,Option.some.inj early⟩
      · exact .inl early
    · exact .inr ⟨later,List.mem_cons_of_mem _ member,same⟩

-- Updating with a dictionary: what it holds wins.
theorem get?_update_dict [LawfulBEq κ] (d e : Dict κ ν) (k : κ) : (d.update e.entries).get? k = (e.get? k).or (d.get? k) := by
  cases found : e.get? k with
  | none =>
    rw [get?_update_other (get?_none_iff.mp found)]
    rfl
  | some v =>
    obtain ⟨before,after,split_⟩ := List.append_of_mem (mem_iff.mpr found)
    have once := e.keys_nodup
    rw [keys,split_,List.map_append,List.map_cons] at once
    have others : ∀ row ∈ after, (row.1 == k) = false := by
      intro row member
      refine beq_eq_false_iff_ne.mpr fun same => ?_
      have apart := (List.nodup_cons.mp (List.nodup_append.mp once).2.1).1
      exact apart (List.mem_map.mpr ⟨row,member,same⟩)
    have shape : d.update e.entries = ((d.update before).insert k v).update after := by
      rw [split_,update,List.foldl_append]
      rfl
    rw [shape,get?_update_other others,get?_insert_self]
    rfl

-- Insertions that are not to be kept leave no trace.
theorem filter_insert [LawfulBEq κ] (keep : κ → Bool) (d : Dict κ ν) (k : κ) (v : ν) :
    (d.insert k v).filter (fun stored _ => keep stored) =
      if keep k then (d.filter fun stored _ => keep stored).insert k v else d.filter fun stored _ => keep stored := by
  have kept : keep k = true → ((d.filter fun stored _ => keep stored).contains k = true ↔ d.contains k = true) := by
    intro stays
    rw [contains_iff,contains_iff]
    simp [get?_keep,Option.filter_eq_some_iff,stays]
  have replaced : ∀ rows : List (κ × ν), (rows.map fun e => (e.1,if e.1 == k then v else e.2)).filter (fun e => keep e.1) =
      (rows.filter fun e => keep e.1).map fun e => (e.1,if e.1 == k then v else e.2) := by
    intro rows
    rw [List.filter_map]
    rfl
  refine ext ?_
  unfold insert
  by_cases present : d.contains k = true
  · rw [dif_pos present]
    simp only [entries_filter,replace,entries_mapValues,replaced]
    split
    · rename_i stays
      rw [dif_pos ((kept stays).mpr present)]
      rfl
    · rename_i goes
      rw [entries_filter]
      refine (List.map_congr_left fun e member => ?_).trans (List.map_id _)
      have apart : (e.1 == k) = false := by
        refine beq_eq_false_iff_ne.mpr ?_
        rintro rfl
        exact goes (List.mem_filter.mp member).2
      simp [apart]
  · rw [dif_neg present]
    simp only [entries_filter,List.filter_append]
    split
    · rename_i stays
      rw [dif_neg (mt (kept stays).mp present)]
      simp [stays]
    · rename_i goes
      simp [goes]

theorem filter_update [LawfulBEq κ] (keep : κ → Bool) (d : Dict κ ν) (rows : List (κ × ν)) :
    (d.update rows).filter (fun stored _ => keep stored) =
      (d.filter fun stored _ => keep stored).update (rows.filter fun row => keep row.1) := by
  unfold update
  induction rows generalizing d with
  | nil => rfl
  | cons row rest ih =>
    rw [List.foldl_cons,ih,filter_insert,List.filter_cons]
    split <;> rfl

-- The same where keys may be equal without being the same.
theorem filter_update_out [EquivBEq κ] (keep : κ → Bool) (d : Dict κ ν) {rows : List (κ × ν)}
    (goes : ∀ row ∈ rows, ∀ stored, (stored == row.1) = true → keep stored = false) :
    (d.update rows).filter (fun stored _ => keep stored) = d.filter fun stored _ => keep stored := by
  unfold update
  induction rows generalizing d with
  | nil => rfl
  | cons row rest ih =>
    rw [List.foldl_cons,ih _ fun later member => goes later (List.mem_cons_of_mem _ member)]
    have out := goes row List.mem_cons_self
    refine ext ?_
    unfold insert
    split
    · simp only [entries_filter,replace,entries_mapValues,List.filter_map,Function.comp_def]
      refine (List.map_congr_left fun e member => ?_).trans (List.map_id _)
      cases same : e.1 == row.1 with
      | true => simp [out e.1 same] at member
      | false => rfl
    · simp [entries_filter,List.filter_append,out row.1 BEq.rfl]

end Dict
end OrderedDict
