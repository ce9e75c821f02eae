import InmemRuntime.PythonJson

namespace InmemRuntime.JsonbContainment
open PythonJson

-- The loop over the keys of the subset; two dictionaries are compared by the
-- same loop, any other pair by `!=`.
mutual
def isJsonbContained (superset : Fields) : Fields → Bool
  | [] => true
  | (key,value) :: rest =>
    (match superset.lookup key with
      | some held => valueContained held value
      | none => false) && isJsonbContained superset rest
def valueContained : Json → Json → Bool
  | .obj superset,.obj subset => isJsonbContained superset subset
  | held,value => pyEq held value
end

-- The pairs that the loops compare by `!=`, at any depth, and `none` for each
-- key of the subset that the superset lacks.
mutual
def comparisons (superset : Fields) : Fields → List (Option (Json × Json))
  | [] => []
  | (key,value) :: rest =>
    (match superset.lookup key with
      | some held => valueComparisons held value
      | none => [none]) ++ comparisons superset rest
def valueComparisons : Json → Json → List (Option (Json × Json))
  | .obj superset,.obj subset => comparisons superset subset
  | held,value => [some (held,value)]
end

def Agrees (superset subset : Fields) : Prop :=
  isJsonbContained superset subset = jsonbContains (.obj superset) (.obj subset)

-- Some item of the second list lies in no item of the first.
def Outside (xs ys : List Json) : Prop := ∃ y ∈ ys, ∀ x ∈ xs, jsonbContains x y = false

-- Python takes the values for equal though jsonb tells them apart: a flag and its
-- number, or arrays equal item by item, some flag of which hides a number.
def Misread : Json → Json → Prop
  | .bool flag,.num value | .num value,.bool flag => value = boolValue flag
  | .arr xs,.arr ys => pyEqItems xs ys = true ∧ Outside xs ys
  | _,_ => False

-- Arrays whose items lie in one another without standing in one order.
def Regrouped : Json → Json → Prop
  | .arr xs,.arr ys => pyEqItems xs ys = false ∧ ¬Outside xs ys
  | _,_ => False

-- Values that differ for both: two scalars, arrays with an item of their own, or
-- two kinds of values, save a flag and its number.
def Differs : Json → Json → Prop
  | .null,.null | .obj _,.obj _ => False
  | .bool a,.bool b => a ≠ b
  | .num a,.num b => a ≠ b
  | .str a,.str b => a ≠ b
  | .bool flag,.num value | .num value,.bool flag => value ≠ boolValue flag
  | .arr xs,.arr ys => pyEqItems xs ys = false ∧ Outside xs ys
  | _,_ => True

-- What the operator needs to agree with jsonb: some pair settles the answer for
-- both, or no pair is read in another way than jsonb's, or such pairs are on both sides.
def Compatible (rows : List (Option (Json × Json))) : Prop :=
  none ∈ rows ∨ (∃ held value, some (held,value) ∈ rows ∧ Differs held value) ∨
    ((∃ held value, some (held,value) ∈ rows ∧ Misread held value) ↔
      ∃ held value, some (held,value) ∈ rows ∧ Regrouped held value)

-- Both operators look at every comparison and want all of them to hold.
def holdsAt (compare : Json → Json → Bool) : Option (Json × Json) → Bool
  | some (held,value) => compare held value
  | none => false

mutual
theorem isJsonbContained_all (superset : Fields) : ∀ subset : Fields,
    isJsonbContained superset subset = (comparisons superset subset).all (holdsAt pyEq)
  | [] => rfl
  | (key,value) :: rest => by
    have later := isJsonbContained_all superset rest
    simp only [isJsonbContained,comparisons,List.all_append,later]
    cases superset.lookup key with
    | none => rfl
    | some held => simp only [valueContained_all held value]
theorem valueContained_all : ∀ held value : Json,
    valueContained held value = (valueComparisons held value).all (holdsAt pyEq)
  | .obj superset,.obj subset => by
    simp only [valueContained,valueComparisons,isJsonbContained_all superset subset]
  | held,.null | held,.bool _ | held,.num _ | held,.str _ | held,.arr _ => by
    cases held <;> simp [valueContained,valueComparisons,holdsAt]
  | .null,.obj _ | .bool _,.obj _ | .num _,.obj _ | .str _,.obj _ | .arr _,.obj _ => by
    simp [valueContained,valueComparisons,holdsAt]
end

mutual
theorem contains_all (superset : Fields) : ∀ subset : Fields,
    jsonbContainsFields superset subset = (comparisons superset subset).all (holdsAt jsonbContains)
  | [] => rfl
  | (key,value) :: rest => by
    have later := contains_all superset rest
    simp only [jsonbContainsFields,comparisons,List.all_append,later]
    cases superset.lookup key with
    | none => rfl
    | some held => simp only [valueContains_all held value]
theorem valueContains_all : ∀ held value : Json,
    jsonbContains held value = (valueComparisons held value).all (holdsAt jsonbContains)
  | .obj superset,.obj subset => by
    simp only [jsonbContains,valueComparisons,contains_all superset subset]
  | held,.null | held,.bool _ | held,.num _ | held,.str _ | held,.arr _ => by
    cases held <;> simp [valueComparisons,holdsAt]
  | .null,.obj _ | .bool _,.obj _ | .num _,.obj _ | .str _,.obj _ | .arr _,.obj _ => by
    simp [valueComparisons,holdsAt]
end

theorem all_holdsAt {compare : Json → Json → Bool} {rows : List (Option (Json × Json))} :
    rows.all (holdsAt compare) = true ↔ none ∉ rows ∧ ∀ held value, some (held,value) ∈ rows → compare held value = true := by
  rw [List.all_eq_true]
  constructor
  · intro every
    refine ⟨fun missing => ?_,fun held value listed => every _ listed⟩
    have absurd_ := every _ missing
    cases absurd_
  · rintro ⟨present,every⟩ row listed
    cases row with
    | none => exact absurd listed present
    | some pair => exact every pair.1 pair.2 listed

-- Two objects are never compared as a whole.
mutual
theorem comparisons_apart (superset : Fields) : ∀ subset : Fields, ∀ xs ys, some (.obj xs,.obj ys) ∉ comparisons superset subset
  | [],_,_,listed => by cases listed
  | (key,value) :: rest,xs,ys,listed => by
    simp only [comparisons,List.mem_append] at listed
    cases listed with
    | inl here =>
      cases found : superset.lookup key with
      | none => simp [found] at here
      | some held =>
        rw [found] at here
        exact valueComparisons_apart held value xs ys here
    | inr later => exact comparisons_apart superset rest xs ys later
theorem valueComparisons_apart : ∀ held value : Json, ∀ xs ys, some (.obj xs,.obj ys) ∉ valueComparisons held value
  | .obj superset,.obj subset,xs,ys,listed => comparisons_apart superset subset xs ys listed
  | held,.null,_,_,listed | held,.bool _,_,_,listed | held,.num _,_,_,listed | held,.str _,_,_,listed
  | held,.arr _,_,_,listed => by
    cases held <;> simp [valueComparisons] at listed
  | .null,.obj _,_,_,listed | .bool _,.obj _,_,_,listed | .num _,.obj _,_,_,listed | .str _,.obj _,_,_,listed
  | .arr _,.obj _,_,_,listed => by
    simp [valueComparisons] at listed
end

theorem containsItems_iff (xs ys : List Json) : jsonbContainsItems xs ys = false ↔ Outside xs ys := by
  unfold Outside
  induction ys with
  | nil => simp [jsonbContainsItems]
  | cons y rest ih =>
    rw [jsonbContainsItems,Bool.and_eq_false_iff,ih]
    simp [List.any_eq_false,or_and_right,exists_or]

-- What the two comparisons say of a pair, read off its kind.
theorem pair_verdict (held value : Json) (apart : ∀ xs ys, (held,value) ≠ (.obj xs,.obj ys)) :
    (Differs held value ↔ pyEq held value = false ∧ jsonbContains held value = false) ∧
      (Misread held value ↔ pyEq held value = true ∧ jsonbContains held value = false) ∧
      (Regrouped held value ↔ pyEq held value = false ∧ jsonbContains held value = true) := by
  cases held with
  | arr xs =>
    cases value with
    | arr ys =>
      have outside := containsItems_iff xs ys
      simp only [Differs,Misread,Regrouped,pyEq,jsonbContains,← outside,Bool.not_eq_false]
      exact ⟨trivial,trivial,trivial⟩
    | _ => simp [Differs,Misread,Regrouped,pyEq,jsonbContains]
  | obj xs =>
    cases value with
    | obj ys => exact absurd rfl (apart xs ys)
    | _ => simp [Differs,Misread,Regrouped,pyEq,jsonbContains]
  | bool flag =>
    cases value with
    | num number =>
      have turned : number = boolValue flag ↔ boolValue flag = number := eq_comm
      simp [Differs,Misread,Regrouped,pyEq,jsonbContains,turned]
    | _ => simp [Differs,Misread,Regrouped,pyEq,jsonbContains]
  | num number => cases value <;> simp [Differs,Misread,Regrouped,pyEq,jsonbContains]
  | null => cases value <;> simp [Differs,Misread,Regrouped,pyEq,jsonbContains]
  | str text => cases value <;> simp [Differs,Misread,Regrouped,pyEq,jsonbContains]

theorem none_fails {rows : List (Option (Json × Json))} {compare : Json → Json → Bool} {Fails : Json → Json → Prop}
    (decided : ∀ held value, some (held,value) ∈ rows → (compare held value = false ↔ Fails held value)) :
    (∀ held value, some (held,value) ∈ rows → compare held value = true) ↔ ¬∃ held value, some (held,value) ∈ rows ∧ Fails held value := by
  constructor
  · rintro every ⟨held,value,listed,fails⟩
    have missed := (decided held value listed).mpr fails
    rw [every held value listed] at missed
    cases missed
  · intro none_ held value listed
    rw [← Bool.not_eq_false]
    exact fun missed => none_ ⟨held,value,listed,(decided held value listed).mp missed⟩

-- Both operators fail on a missing key and on a pair that differs for both; else
-- Python's fails on the regrouped pairs, jsonb's on the misread ones.
theorem rows_compatible {rows : List (Option (Json × Json))} (apart : ∀ xs ys, some (.obj xs,.obj ys) ∉ rows) :
    rows.all (holdsAt pyEq) = rows.all (holdsAt jsonbContains) ↔ Compatible rows := by
  have verdict : ∀ {held value}, some (held,value) ∈ rows → _ := fun {held value} listed =>
    pair_verdict held value fun xs ys same => apart xs ys (same ▸ listed)
  unfold Compatible
  rw [Bool.eq_iff_iff,all_holdsAt,all_holdsAt]
  by_cases missing : none ∈ rows
  · simp [missing]
  by_cases differs : ∃ held value, some (held,value) ∈ rows ∧ Differs held value
  · obtain ⟨held,value,listed,apart_⟩ := differs
    obtain ⟨unequal,outside⟩ := (verdict listed).1.mp apart_
    have no : ∀ compare : Json → Json → Bool, compare held value = false →
        ¬(none ∉ rows ∧ ∀ held value, some (held,value) ∈ rows → compare held value = true) := by
      intro compare fails every
      rw [every.2 held value listed] at fails
      cases fails
    simp only [no pyEq unequal,no jsonbContains outside,true_iff]
    exact .inr (.inl ⟨held,value,listed,apart_⟩)
  · have same : ∀ {held value}, some (held,value) ∈ rows → ¬Differs held value := fun listed there => differs ⟨_,_,listed,there⟩
    have unequal : ∀ held value, some (held,value) ∈ rows → (pyEq held value = false ↔ Regrouped held value) := by
      intro held value listed
      have alike := (not_congr (verdict listed).1).mp (same listed)
      rw [(verdict listed).2.2,iff_self_and,← Bool.not_eq_false]
      exact fun unequal outside => alike ⟨unequal,outside⟩
    have outside : ∀ held value, some (held,value) ∈ rows → (jsonbContains held value = false ↔ Misread held value) := by
      intro held value listed
      have alike := (not_congr (verdict listed).1).mp (same listed)
      rw [(verdict listed).2.1,iff_and_self,← Bool.not_eq_false]
      exact fun outside unequal => alike ⟨unequal,outside⟩
    rw [none_fails unequal,none_fails outside]
    simp only [missing,differs,not_false_eq_true,true_and,false_or]
    rw [not_iff_not]
    exact Iff.comm

theorem contained_iff (superset subset : Fields) : Agrees superset subset ↔ Compatible (comparisons superset subset) := by
  unfold Agrees
  rw [isJsonbContained_all,jsonbContains,contains_all]
  exact rows_compatible (comparisons_apart superset subset)

-- Labels in two arrays, one of which holds the other, and a flag for a number.
theorem array_not_contained :
    ¬Agrees [("tags",.arr [.str "a",.str "b"])] [("tags",.arr [.str "a"])] ∧ ¬Agrees [("flag",.bool true)] [("flag",.num 1)] := by
  unfold Agrees
  decide +kernel

-- Through nested objects, nothing but null, texts and numbers no boolean equals.
mutual
def plain : Json → Bool
  | .null | .str _ => true
  | .num value => value != 0 && value != 1
  | .bool _ | .arr _ => false
  | .obj fields => plainFields fields
def plainFields : Fields → Bool
  | [] => true
  | (_,value) :: rest => plain value && plainFields rest
end

-- The kind of subset for which Python equality is good enough, whatever the superset.
mutual
theorem plain_contained (superset : Fields) : ∀ subset : Fields, plainFields subset = true → Agrees superset subset
  | [],_ => rfl
  | (key,value) :: rest,simple => by
    simp only [plainFields,Bool.and_eq_true] at simple
    have later := plain_contained superset rest simple.2
    unfold Agrees at later ⊢
    simp only [jsonbContains] at later ⊢
    simp only [isJsonbContained,jsonbContainsFields,later]
    cases superset.lookup key with
    | none => rfl
    | some held => simp only [plain_value held value simple.1]
theorem plain_value : ∀ held value : Json, plain value = true → valueContained held value = jsonbContains held value
  | .obj superset,.obj subset,simple => plain_contained superset subset simple
  | held,.null,_ | held,.str _,_ => by
    cases held <;> simp [valueContained,pyEq,jsonbContains]
  | held,.num value,simple => by
    simp only [plain,Bool.and_eq_true,bne_iff_ne] at simple
    cases held with
    | bool flag =>
      cases flag
      · simpa [valueContained,pyEq,jsonbContains,boolValue] using simple.1.symm
      · simpa [valueContained,pyEq,jsonbContains,boolValue] using simple.2.symm
    | _ => simp [valueContained,pyEq,jsonbContains]
  | .null,.obj _,_ | .bool _,.obj _,_ | .num _,.obj _,_ | .str _,.obj _,_ | .arr _,.obj _,_ => by
    simp [valueContained,pyEq,jsonbContains]
end

end InmemRuntime.JsonbContainment
