import InmemRuntime.PythonJson

namespace InmemRuntime.AuthFilters
open PythonJson

-- The value under `$or` or `$and`: a list of filters, or not a list.
inductive Operand (F : Type) where
  | groups (filters : List F)
  | malformed

-- A filter dictionary: the two operators apart from the ordinary keys.
structure Filter where
  or_ : Option (Operand Filter)
  and_ : Option (Operand Filter)
  conditions : Fields

inductive FilterError where
  | http (status : Nat) (detail : String)
  | stopIteration
deriving DecidableEq,Repr

def tooManyOperators : FilterError := .http 500
  "Your auth handler returned a filter with too many nested operators. The maximum depth for nested operators is 2. Please simplify your filter."

def invalidOperator (operator : String) : FilterError := .http 500
  ("Your auth handler returned a filter with an invalid " ++ operator ++ " operator. The " ++ operator ++
    " operator must be a list of at least 2 filter objects. Check the filter returned by your auth handler.")

def Operand.filters {F : Type} : Operand F → List F
  | .groups filters => filters
  | .malformed => []

def operandGroups {F : Type} (operator : String) : Operand F → Except FilterError (List F)
  | .groups filters => if filters.length ≥ 2 then .ok filters else .error (invalidOperator operator)
  | .malformed => .error (invalidOperator operator)

def Filter.isEmpty (filter : Filter) : Bool := filter.or_.isNone && filter.and_.isNone && filter.conditions.isEmpty

def validateAll (validate : Filter → Except FilterError Unit) : List Filter → Except FilterError Unit
  | [] => .ok ()
  | group :: rest => do
    validate group
    validateAll validate rest

-- One operator of a filter with the keys next to it.
def validateOperator (validate : Filter → Except FilterError Unit) (operator : String) (operand : Option (Operand Filter))
    (remaining : Filter) : Except FilterError Unit :=
  match operand with
  | none => .ok ()
  | some operand => do
    let groups ← operandGroups operator operand
    validateAll validate groups
    if remaining.isEmpty then .ok () else validate remaining

-- `left` is `3 - nesting_level`, so that none is left where the level exceeds 2.
def validateFilterStructure : Nat → Filter → Except FilterError Unit
  | 0,_ => .error tooManyOperators
  | left+1,filter =>
    if filter.isEmpty then .ok () else do
      validateOperator (validateFilterStructure left) "$or" filter.or_ {filter with or_ := none}
      validateOperator (validateFilterStructure left) "$and" filter.and_ {filter with and_ := none}

section matching
variable (metadata : Fields)

def containsAll (items : List Json) : Json → Bool
  | .arr elements => elements.all fun element => pyIn element items
  | value => pyIn value items

-- Only the first operator of a dictionary is looked at; one that is neither
-- `$eq` nor `$contains` lets the key pass.
def conditionMatches (key : String) : Json → Except FilterError Bool
  | .obj [] => .error .stopIteration
  | .obj ((op,value) :: _) => .ok <|
    if op = "$eq" then
      match metadata.lookup key with
      | some held => pyEq held value
      | none => false
    else if op = "$contains" then
      match metadata.lookup key with
      | some (.arr items) => containsAll items value
      | _ => false
    else true
  | value => .ok <|
    match metadata.lookup key with
    | some held => pyEq held value
    | none => false

def conditionsMatch : Fields → Except FilterError Bool
  | [] => .ok true
  | (key,value) :: rest => do
    if ← conditionMatches metadata key value then conditionsMatch rest else .ok false

def anyMatch (check : Filter → Except FilterError Bool) : List Filter → Except FilterError Bool
  | [] => .ok false
  | group :: rest => do
    if ← check group then .ok true else anyMatch check rest

def allMatch (check : Filter → Except FilterError Bool) : List Filter → Except FilterError Bool
  | [] => .ok true
  | group :: rest => do
    if ← check group then allMatch check rest else .ok false

def checkOperator (check : Filter → Except FilterError Bool) (validate : Filter → Except FilterError Unit) (operator : String)
    (search : (Filter → Except FilterError Bool) → List Filter → Except FilterError Bool) (operand : Operand Filter)
    (remaining : Filter) : Except FilterError Bool := do
  let groups ← operandGroups operator operand
  validateAll validate groups
  if ← search check groups then
    if remaining.isEmpty then .ok true else check remaining
  else .ok false

def checkFilterMatch : Nat → Filter → Except FilterError Bool
  | 0,_ => .error tooManyOperators
  | left+1,filter =>
    if filter.isEmpty then .ok true else
    match filter.or_,filter.and_ with
    | some operand,_ =>
      checkOperator (checkFilterMatch left) (validateFilterStructure left) "$or" anyMatch operand {filter with or_ := none}
    | none,some operand =>
      checkOperator (checkFilterMatch left) (validateFilterStructure left) "$and" allMatch operand {filter with and_ := none}
    | none,none => conditionsMatch metadata filter.conditions

end matching

-- The boolean meaning of a filter over the meaning of its ordinary entries.
def Satisfies (leaf : String × Json → Prop) (filter : Filter) : Prop :=
  (∀ operand, (here : filter.or_ = some operand) → ∃ group, ∃ _ : group ∈ operand.filters, Satisfies leaf group) ∧
  (∀ operand, (here : filter.and_ = some operand) → ∀ group, (_ : group ∈ operand.filters) → Satisfies leaf group) ∧
  ∀ field ∈ filter.conditions, leaf field
termination_by sizeOf filter
decreasing_by
  all_goals
    rename_i member
    obtain ⟨or_,and_,conditions⟩ := filter
    simp only at here
    subst here
    cases operand with
    | malformed => cases member
    | groups filters =>
      have small := List.sizeOf_lt_of_mem (show group ∈ filters from member)
      simp only [Filter.mk.sizeOf_spec,Option.some.sizeOf_spec,Operand.groups.sizeOf_spec]
      omega

-- An ordinary entry of a filter or of a group at any depth.
inductive Entry (field : String × Json) : Filter → Prop where
  | here {filter : Filter} (listed : field ∈ filter.conditions) : Entry field filter
  | inOr {filter group : Filter} {operand : Operand Filter} (held : filter.or_ = some operand)
      (member : group ∈ operand.filters) (below : Entry field group) : Entry field filter
  | inAnd {filter group : Filter} {operand : Operand Filter} (held : filter.and_ = some operand)
      (member : group ∈ operand.filters) (below : Entry field group) : Entry field filter

theorem Entry.of_rest {field : String × Json} {filter : Filter} :
    (Entry field {filter with or_ := none} → Entry field filter) ∧
      (Entry field {filter with and_ := none} → Entry field filter) := by
  refine ⟨fun entry => ?_,fun entry => ?_⟩
  · cases entry with
    | here listed => exact .here listed
    | inOr held member below => cases held
    | inAnd held member below => exact .inAnd held member below
  · cases entry with
    | here listed => exact .here listed
    | inOr held member below => exact .inOr held member below
    | inAnd held member below => cases held

theorem satisfies_or {leaf : String × Json → Prop} {filter : Filter} {operand : Operand Filter}
    (held : filter.or_ = some operand) :
    Satisfies leaf filter ↔
      (∃ group ∈ operand.filters, Satisfies leaf group) ∧ Satisfies leaf {filter with or_ := none} := by
  rw [Satisfies,Satisfies.eq_def leaf {filter with or_ := none}]
  constructor
  · rintro ⟨disjunction,conjunction,fields⟩
    obtain ⟨group,member,satisfied⟩ := disjunction operand held
    exact ⟨⟨group,member,satisfied⟩,(fun _ missing => by cases missing),conjunction,fields⟩
  · rintro ⟨⟨group,member,satisfied⟩,-,conjunction,fields⟩
    refine ⟨fun other same => ?_,conjunction,fields⟩
    rw [held] at same
    cases same
    exact ⟨group,member,satisfied⟩

theorem satisfies_and {leaf : String × Json → Prop} {filter : Filter} {operand : Operand Filter}
    (held : filter.and_ = some operand) :
    Satisfies leaf filter ↔
      (∀ group ∈ operand.filters, Satisfies leaf group) ∧ Satisfies leaf {filter with and_ := none} := by
  rw [Satisfies,Satisfies.eq_def leaf {filter with and_ := none}]
  constructor
  · rintro ⟨disjunction,conjunction,fields⟩
    exact ⟨conjunction operand held,disjunction,(fun _ missing => by cases missing),fields⟩
  · rintro ⟨every,disjunction,-,fields⟩
    refine ⟨disjunction,fun other same => ?_,fields⟩
    rw [held] at same
    cases same
    exact every

theorem satisfies_plain {leaf : String × Json → Prop} {filter : Filter} (noOr : filter.or_ = none)
    (noAnd : filter.and_ = none) : Satisfies leaf filter ↔ ∀ field ∈ filter.conditions, leaf field := by
  rw [Satisfies,noOr,noAnd]
  simp

theorem validateAll_ok {validate : Filter → Except FilterError Unit} {groups : List Filter} :
    validateAll validate groups = .ok () ↔ ∀ group ∈ groups, validate group = .ok () := by
  induction groups with
  | nil => simp [validateAll]
  | cons group rest ih =>
    simp only [validateAll,List.forall_mem_cons]
    cases checked : validate group with
    | error error => simp [bind,Except.bind]
    | ok done => simpa [bind,Except.bind] using ih

theorem operandGroups_ok {operator : String} {operand : Operand Filter} {groups : List Filter}
    (ok : operandGroups operator operand = .ok groups) : operand.filters = groups := by
  cases operand with
  | malformed => cases ok
  | groups filters =>
    simp only [operandGroups] at ok
    split at ok
    · cases ok
      rfl
    · cases ok

-- What an accepted operator leaves known of its groups and of the keys next to it.
theorem validateOperator_ok {validate : Filter → Except FilterError Unit} {operator : String}
    {operand : Operand Filter} {remaining : Filter}
    (ok : validateOperator validate operator (some operand) remaining = .ok ()) :
    operandGroups operator operand = .ok operand.filters ∧ validateAll validate operand.filters = .ok () ∧
      (remaining.isEmpty = false → validate remaining = .ok ()) := by
  simp only [validateOperator,bind,Except.bind] at ok
  cases known : operandGroups operator operand with
  | error error => simp [known] at ok
  | ok groups =>
    rw [operandGroups_ok known]
    simp only [known] at ok
    cases valid : validateAll validate groups with
    | error error => simp [valid] at ok
    | ok done =>
      refine ⟨rfl,rfl,fun filled => ?_⟩
      simpa [valid,filled] using ok

-- A computation of a truth value that says whether `P` holds.
def Decides (result : Except FilterError Bool) (P : Prop) : Prop := ∃ answer, result = .ok answer ∧ (answer = true ↔ P)

theorem decides_conditions {metadata : Fields} {fields : Fields}
    (answered : ∀ field ∈ fields, ∃ answer, conditionMatches metadata field.1 field.2 = .ok answer) :
    Decides (conditionsMatch metadata fields)
      (∀ field ∈ fields, conditionMatches metadata field.1 field.2 = .ok true) := by
  induction fields with
  | nil => exact ⟨true,rfl,by simp⟩
  | cons field rest ih =>
    obtain ⟨answer,known⟩ := answered field (by simp)
    simp only [conditionsMatch,known,bind,Except.bind,List.forall_mem_cons]
    cases answer with
    | false => exact ⟨false,rfl,by simp⟩
    | true => simpa using ih fun other listed => answered other (List.mem_cons_of_mem _ listed)

theorem decides_any {check : Filter → Except FilterError Bool} {P : Filter → Prop} {groups : List Filter}
    (decided : ∀ group ∈ groups, Decides (check group) (P group)) :
    Decides (anyMatch check groups) (∃ group ∈ groups, P group) := by
  induction groups with
  | nil => exact ⟨false,rfl,by simp⟩
  | cons group rest ih =>
    obtain ⟨answer,known,means⟩ := decided group (by simp)
    simp only [anyMatch,known,bind,Except.bind,List.mem_cons,exists_eq_or_imp,← means]
    cases answer with
    | true => exact ⟨true,rfl,by simp⟩
    | false => simpa using ih fun other listed => decided other (List.mem_cons_of_mem _ listed)

theorem decides_all {check : Filter → Except FilterError Bool} {P : Filter → Prop} {groups : List Filter}
    (decided : ∀ group ∈ groups, Decides (check group) (P group)) :
    Decides (allMatch check groups) (∀ group ∈ groups, P group) := by
  induction groups with
  | nil => exact ⟨true,rfl,by simp⟩
  | cons group rest ih =>
    obtain ⟨answer,known,means⟩ := decided group (by simp)
    simp only [allMatch,known,bind,Except.bind,List.forall_mem_cons,← means]
    cases answer with
    | false => exact ⟨false,rfl,by simp⟩
    | true => simpa using ih fun other listed => decided other (List.mem_cons_of_mem _ listed)

theorem isEmpty_satisfies {leaf : String × Json → Prop} {filter : Filter} (empty : filter.isEmpty = true) :
    Satisfies leaf filter := by
  simp only [Filter.isEmpty,Bool.and_eq_true,Option.isNone_iff_eq_none,List.isEmpty_iff] at empty
  rw [satisfies_plain empty.1.1 empty.1.2,empty.2]
  simp

-- An operator whose groups are accepted is the search through them and the
-- check of the keys next to it.
theorem decides_operator {check : Filter → Except FilterError Bool} {validate : Filter → Except FilterError Unit}
    {operator : String} {search : (Filter → Except FilterError Bool) → List Filter → Except FilterError Bool}
    {operand : Operand Filter} {remaining : Filter} {leaf : String × Json → Prop} {P : Prop}
    (listed : operandGroups operator operand = .ok operand.filters)
    (valid : validateAll validate operand.filters = .ok ())
    (searched : Decides (search check operand.filters) P)
    (rest : remaining.isEmpty = false → Decides (check remaining) (Satisfies leaf remaining)) :
    Decides (checkOperator check validate operator search operand remaining) (P ∧ Satisfies leaf remaining) := by
  obtain ⟨answer,known,means⟩ := searched
  simp only [checkOperator,listed,valid,known,bind,Except.bind,← means]
  cases answer with
  | false => exact ⟨false,rfl,by simp⟩
  | true =>
    cases filled : remaining.isEmpty with
    | true => exact ⟨true,by simp,by simp [isEmpty_satisfies filled]⟩
    | false => simpa using rest filled

-- The two operators of a filter that passes the validation.
theorem validate_both {left : Nat} {filter : Filter} (filled : filter.isEmpty = false)
    (valid : validateFilterStructure (left+1) filter = .ok ()) :
    validateOperator (validateFilterStructure left) "$or" filter.or_ {filter with or_ := none} = .ok () ∧
      validateOperator (validateFilterStructure left) "$and" filter.and_ {filter with and_ := none} = .ok () := by
  simp only [validateFilterStructure,filled] at valid
  cases first : validateOperator (validateFilterStructure left) "$or" filter.or_ {filter with or_ := none} with
  | error error => simp [first,bind,Except.bind] at valid
  | ok done => simpa [first,bind,Except.bind] using valid

-- On a filter that passes the validation the check answers by the filter's
-- boolean meaning, each entry being judged as the code judges it.
theorem check_valid (metadata : Fields) : ∀ (left : Nat) (filter : Filter),
    validateFilterStructure left filter = .ok () →
    (∀ field, Entry field filter → ∃ answer, conditionMatches metadata field.1 field.2 = .ok answer) →
    Decides (checkFilterMatch metadata left filter)
      (Satisfies (fun field => conditionMatches metadata field.1 field.2 = .ok true) filter)
  | 0,_,valid,_ => by cases valid
  | left+1,filter,valid,answered => by
    simp only [checkFilterMatch]
    by_cases empty : filter.isEmpty = true
    · exact ⟨true,by simp [empty],by simp [isEmpty_satisfies empty]⟩
    simp only [empty]
    have both := validate_both (Bool.eq_false_iff.mpr empty) valid
    cases someOr : filter.or_ with
    | some operand =>
      obtain ⟨listed,groupsValid,restValid⟩ := validateOperator_ok (someOr ▸ both.1)
      have grouped : ∀ group ∈ operand.filters, Decides (checkFilterMatch metadata left group)
          (Satisfies (fun field => conditionMatches metadata field.1 field.2 = .ok true) group) := fun group member =>
        check_valid metadata left group (validateAll_ok.mp groupsValid group member)
          fun field below => answered field (.inOr someOr member below)
      have decided := decides_operator listed groupsValid (decides_any grouped)
        fun filled => check_valid metadata left {filter with or_ := none} (restValid filled)
          fun field below => answered field (Entry.of_rest.1 below)
      rw [← satisfies_or someOr] at decided
      exact decided
    | none =>
      cases someAnd : filter.and_ with
      | some operand =>
        obtain ⟨listed,groupsValid,restValid⟩ := validateOperator_ok (someAnd ▸ both.2)
        have grouped : ∀ group ∈ operand.filters, Decides (checkFilterMatch metadata left group)
            (Satisfies (fun field => conditionMatches metadata field.1 field.2 = .ok true) group) := fun group member =>
          check_valid metadata left group (validateAll_ok.mp groupsValid group member)
            fun field below => answered field (.inAnd someAnd member below)
        have decided := decides_operator listed groupsValid (decides_all grouped)
          fun filled => check_valid metadata left {filter with and_ := none} (restValid filled)
            fun field below => answered field (Entry.of_rest.2 below)
        rw [← satisfies_and someAnd,someOr] at decided
        exact decided
      | none =>
        rw [satisfies_plain someOr someAnd]
        exact decides_conditions fun field listed => answered field (.here listed)

end InmemRuntime.AuthFilters
