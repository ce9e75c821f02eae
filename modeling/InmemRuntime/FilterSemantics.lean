import InmemRuntime.AuthFilters

namespace InmemRuntime.FilterSemantics
open PythonJson AuthFilters

-- What an operator says of the value held under its key.
def OperatorHolds (held : Json) (op : String) (value : Json) : Prop :=
  (op = "$eq" ∧ pyEq held value = true) ∨ (op = "$contains" ∧ ∃ items, held = .arr items ∧ containsAll items value = true)

def FieldHolds (metadata : Fields) (field : String × Json) : Prop :=
  ∃ held, metadata.lookup field.1 = some held ∧
    match field.2 with
    | .obj operators => ∀ operator ∈ operators, OperatorHolds held operator.1 operator.2
    | value => pyEq held value = true

def Holds (metadata : Fields) (filter : Filter) : Prop := Satisfies (FieldHolds metadata) filter

-- The entries that do not fail where the code looks at them: at an operator
-- dictionary it looks at the first operator only.
def Lets (metadata : Fields) (field : String × Json) : Prop := conditionMatches metadata field.1 field.2 ≠ .ok false

def Passes (metadata : Fields) (filter : Filter) : Prop := Satisfies (Lets metadata) filter

-- An operator dictionary that is let pass although the key is missing, or one of
-- its operators is unknown or does not hold.
def Loose (metadata : Fields) (field : String × Json) : Prop :=
  Lets metadata field ∧ ∃ operators, field.2 = .obj operators ∧
    ∀ held, metadata.lookup field.1 = some held → ∃ operator ∈ operators, ¬OperatorHolds held operator.1 operator.2

-- The check reaches an operator dictionary without operators: what comes before
-- it has not settled the answer.
inductive Raises (metadata : Fields) : Filter → Prop where
  | inOr {filter group : Filter} {operand : Operand Filter} {before after : List Filter} (held : filter.or_ = some operand)
      (listed : operand.filters = before ++ group :: after) (refused : ∀ other ∈ before, ¬Passes metadata other)
      (below : Raises metadata group) : Raises metadata filter
  | inAnd {filter group : Filter} {operand : Operand Filter} {before after : List Filter}
      (or_ : ∀ operand, filter.or_ = some operand → ∃ group ∈ operand.filters, Passes metadata group)
      (held : filter.and_ = some operand) (listed : operand.filters = before ++ group :: after)
      (passed : ∀ other ∈ before, Passes metadata other) (below : Raises metadata group) : Raises metadata filter
  | here {filter : Filter} {before after : Fields} {key : String}
      (or_ : ∀ operand, filter.or_ = some operand → ∃ group ∈ operand.filters, Passes metadata group)
      (and_ : ∀ operand, filter.and_ = some operand → ∀ group ∈ operand.filters, Passes metadata group)
      (listed : filter.conditions = before ++ (key,.obj []) :: after) (passed : ∀ field ∈ before, Lets metadata field) :
      Raises metadata filter

-- The filter lets the metadata pass, and each way to pass meets a loose dictionary.
inductive Hangs (metadata : Fields) : Filter → Prop where
  | inOr {filter : Filter} {operand : Operand Filter} (passes : Passes metadata filter) (held : filter.or_ = some operand)
      (every : ∀ group ∈ operand.filters, Passes metadata group → Hangs metadata group) : Hangs metadata filter
  | inAnd {filter group : Filter} {operand : Operand Filter} (passes : Passes metadata filter)
      (held : filter.and_ = some operand) (member : group ∈ operand.filters) (below : Hangs metadata group) :
      Hangs metadata filter
  | here {filter : Filter} {field : String × Json} (passes : Passes metadata filter) (listed : field ∈ filter.conditions)
      (loose : Loose metadata field) : Hangs metadata filter

section verdicts
variable {metadata : Fields} {key : String}

theorem eq_operator {value : Json} {rest : Fields} :
    conditionMatches metadata key (.obj (("$eq",value) :: rest)) = .ok true ↔
      ∃ held, metadata.lookup key = some held ∧ pyEq held value = true := by
  simp only [conditionMatches]
  cases metadata.lookup key <;> simp

theorem contains_operator {value : Json} {rest : Fields} :
    conditionMatches metadata key (.obj (("$contains",value) :: rest)) = .ok true ↔
      ∃ items, metadata.lookup key = some (.arr items) ∧ containsAll items value = true := by
  simp only [conditionMatches,show ("$contains" = "$eq") = False by simp,if_false,if_true]
  cases found : metadata.lookup key with
  | none => simp
  | some held => cases held <;> simp

variable (metadata key) in
theorem plain_value {value : Json} (plain : ∀ operators, value ≠ .obj operators) :
    (∃ answer, conditionMatches metadata key value = .ok answer) ∧
      (conditionMatches metadata key value = .ok true ↔ FieldHolds metadata (key,value)) := by
  cases value with
  | obj operators => exact absurd rfl (plain operators)
  | null | bool | num | str | arr =>
    refine ⟨⟨_,rfl⟩,?_⟩
    simp only [conditionMatches,FieldHolds]
    cases metadata.lookup key <;> simp

end verdicts

section hangs
variable {metadata : Fields}

theorem plain_lets {key : String} {value : Json} (plain : ∀ operators, value ≠ .obj operators) :
    Lets metadata (key,value) ↔ FieldHolds metadata (key,value) := by
  obtain ⟨⟨answer,answered⟩,holds⟩ := plain_value metadata key plain
  unfold Lets
  rw [← holds,answered]
  cases answer <;> simp

-- Where every operator holds, the first one does.
theorem holds_lets {field : String × Json} (holds : FieldHolds metadata field) : Lets metadata field := by
  obtain ⟨key,value⟩ := field
  by_cases plain : ∀ operators, value ≠ .obj operators
  · exact (plain_lets plain).mpr holds
  simp only [not_forall,ne_eq,not_not] at plain
  obtain ⟨operators,rfl⟩ := plain
  obtain ⟨held,found,every⟩ := holds
  unfold Lets
  cases operators with
  | nil =>
    intro refused
    cases refused
  | cons operator rest =>
    obtain ⟨op,value⟩ := operator
    rcases every (op,value) List.mem_cons_self with ⟨isEq,equal⟩ | ⟨isContains,items,same,all⟩
    · simp only at isEq equal
      subst isEq
      rw [eq_operator.mpr ⟨held,found,equal⟩]
      simp
    · simp only at isContains all
      subst isContains same
      rw [contains_operator.mpr ⟨items,found,all⟩]
      simp

theorem loose_iff {field : String × Json} (lets : Lets metadata field) : Loose metadata field ↔ ¬FieldHolds metadata field := by
  obtain ⟨key,value⟩ := field
  constructor
  · intro loose holds
    obtain ⟨_,operators,same,fails⟩ := loose
    simp only at same
    subst same
    obtain ⟨held,found,every⟩ := holds
    obtain ⟨operator,listed,no⟩ := fails held found
    exact no (every operator listed)
  · intro no
    by_cases plain : ∀ operators, value ≠ .obj operators
    · exact absurd ((plain_lets plain).mp lets) no
    simp only [not_forall,ne_eq,not_not] at plain
    obtain ⟨operators,rfl⟩ := plain
    refine ⟨lets,operators,rfl,fun held found => ?_⟩
    by_contra every
    apply no
    refine ⟨held,found,fun operator listed => ?_⟩
    by_contra fails
    exact every ⟨operator,listed,fails⟩

-- The meaning is never more generous than the check.
theorem holds_passes (filter : Filter) (holds : Holds metadata filter) : Passes metadata filter := by
  unfold Holds Passes at *
  induction filter using Satisfies.induct with
  | case1 filter inOr inAnd =>
    rw [Satisfies] at holds ⊢
    obtain ⟨disjunction,conjunction,fields⟩ := holds
    refine ⟨fun operand held => ?_,fun operand held group member => ?_,fun field listed => holds_lets (fields field listed)⟩
    · obtain ⟨group,member,below⟩ := disjunction operand held
      exact ⟨group,member,inOr operand held group member below⟩
    · exact inAnd operand held group member (conjunction operand held group member)

-- A filter hangs on its loose dictionaries where the check and the meaning part.
theorem hangs_iff (filter : Filter) : Hangs metadata filter ↔ Passes metadata filter ∧ ¬Holds metadata filter := by
  induction filter using Satisfies.induct with
  | case1 filter inOr inAnd =>
    constructor
    · intro hangs
      cases hangs with
      | @inOr _ operand passes held every =>
        refine ⟨passes,fun holds => ?_⟩
        rw [Holds,Satisfies] at holds
        obtain ⟨group,member,below⟩ := holds.1 operand held
        exact ((inOr operand held group member).mp (every group member (holds_passes group below))).2 below
      | @inAnd _ group operand passes held member below =>
        refine ⟨passes,fun holds => ?_⟩
        rw [Holds,Satisfies] at holds
        exact ((inAnd operand held group member).mp below).2 (holds.2.1 operand held group member)
      | @here _ field passes listed loose =>
        refine ⟨passes,fun holds => ?_⟩
        rw [Holds,Satisfies] at holds
        exact (loose_iff loose.1).mp loose (holds.2.2 field listed)
    · intro parted
      obtain ⟨passes,fails⟩ := parted
      by_contra sound
      apply fails
      have parts := passes
      rw [Passes,Satisfies] at parts
      rw [Holds,Satisfies]
      refine ⟨fun operand held => ?_,fun operand held group member => ?_,fun field listed => ?_⟩
      · by_contra none_
        refine sound (.inOr passes held fun group member below => (inOr operand held group member).mpr ⟨below,fun holds => ?_⟩)
        exact none_ ⟨group,member,holds⟩
      · by_contra no
        exact sound (.inAnd passes held member ((inAnd operand held group member).mpr ⟨parts.2.1 operand held group member,no⟩))
      · by_contra no
        exact sound (.here passes listed ((loose_iff (parts.2.2 field listed)).mpr no))

end hangs

-- A computation that fails where it reaches a failure, and else says whether `P` holds.
def Outcome (result : Except FilterError Bool) (raises P : Prop) : Prop :=
  (raises ∧ ∃ error, result = .error error) ∨ (¬raises ∧ Decides result P)

section outcome
variable {metadata : Fields}

theorem outcome_conditions (fields : Fields) :
    Outcome (conditionsMatch metadata fields)
      (∃ before key after, fields = before ++ (key,.obj []) :: after ∧ ∀ field ∈ before, Lets metadata field)
      (∀ field ∈ fields, Lets metadata field) := by
  induction fields with
  | nil => exact .inr ⟨by simp,true,rfl,by simp⟩
  | cons field rest ih =>
    obtain ⟨key,value⟩ := field
    cases matched : conditionMatches metadata key value with
    | error error =>
      have empty : value = .obj [] := by
        cases value with
        | obj operators =>
          cases operators with
          | nil => rfl
          | cons operator others => cases matched
        | _ => cases matched
      refine .inl ⟨⟨[],key,rest,by rw [empty]; rfl,by simp⟩,error,?_⟩
      simp [conditionsMatch,matched,bind,Except.bind]
    | ok answer =>
      have filled : value ≠ .obj [] := by
        intro empty
        rw [empty] at matched
        cases matched
      have later : (∃ before name after, (key,value) :: rest = before ++ (name,.obj []) :: after ∧ ∀ field ∈ before, Lets metadata field) ↔
          Lets metadata (key,value) ∧ ∃ before name after, rest = before ++ (name,.obj []) :: after ∧ ∀ field ∈ before, Lets metadata field := by
        constructor
        · intro reached
          obtain ⟨before,name,after,split,lets⟩ := reached
          cases before with
          | nil =>
            cases split
            exact absurd rfl filled
          | cons first others =>
            cases split
            exact ⟨lets _ List.mem_cons_self,others,name,after,rfl,fun field member => lets field (List.mem_cons_of_mem _ member)⟩
        · intro reached
          obtain ⟨first,before,name,after,rfl,lets⟩ := reached
          exact ⟨(key,value) :: before,name,after,rfl,List.forall_mem_cons.mpr ⟨first,lets⟩⟩
      unfold Outcome
      rw [later]
      simp only [conditionsMatch,matched,bind,Except.bind,List.forall_mem_cons]
      cases answer with
      | false =>
        have refused : ¬Lets metadata (key,value) := fun lets => lets matched
        exact .inr ⟨fun both => refused both.1,false,rfl,by simp [refused]⟩
      | true =>
        have lets : Lets metadata (key,value) := by
          unfold Lets
          rw [matched]
          simp
        simpa [lets,Outcome] using ih

section groups
variable {check : Filter → Except FilterError Bool} {raises P : Filter → Prop} {groups : List Filter}

-- The first group that raises, after groups that let the search go on.
def ReachesGroup (raises passed : Filter → Prop) (groups : List Filter) : Prop :=
  ∃ before group after, groups = before ++ group :: after ∧ (∀ other ∈ before, passed other) ∧ raises group

theorem reaches_cons {passed : Filter → Prop} {group : Filter} {rest : List Filter} :
    ReachesGroup raises passed (group :: rest) ↔ raises group ∨ (passed group ∧ ReachesGroup raises passed rest) := by
  constructor
  · intro reached
    obtain ⟨before,other,after,split,on,raised⟩ := reached
    cases before with
    | nil =>
      cases split
      exact .inl raised
    | cons first others =>
      cases split
      exact .inr ⟨on _ List.mem_cons_self,others,other,after,rfl,fun member there => on member (List.mem_cons_of_mem _ there),raised⟩
  · intro reached
    rcases reached with raised | ⟨first,before,other,after,rfl,on,raised⟩
    · exact ⟨[],group,rest,rfl,by simp,raised⟩
    · exact ⟨group :: before,other,after,rfl,List.forall_mem_cons.mpr ⟨first,on⟩,raised⟩

theorem outcome_any (judged : ∀ group ∈ groups, Outcome (check group) (raises group) (P group)) :
    Outcome (anyMatch check groups) (ReachesGroup raises (fun group => ¬P group) groups) (∃ group ∈ groups, P group) := by
  induction groups with
  | nil => exact .inr ⟨by simp [ReachesGroup],false,rfl,by simp⟩
  | cons group rest ih =>
    have later := ih fun other listed => judged other (List.mem_cons_of_mem _ listed)
    unfold Outcome
    rw [reaches_cons]
    rcases judged group List.mem_cons_self with ⟨raised,error,known⟩ | ⟨calm,answer,known,means⟩
    · exact .inl ⟨.inl raised,error,by simp [anyMatch,known,bind,Except.bind]⟩
    · simp only [anyMatch,known,bind,Except.bind,List.mem_cons,exists_eq_or_imp,calm,← means,false_or]
      cases answer with
      | true => exact .inr ⟨by simp,true,rfl,by simp⟩
      | false => simpa [Outcome] using later

theorem outcome_all (judged : ∀ group ∈ groups, Outcome (check group) (raises group) (P group)) :
    Outcome (allMatch check groups) (ReachesGroup raises P groups) (∀ group ∈ groups, P group) := by
  induction groups with
  | nil => exact .inr ⟨by simp [ReachesGroup],true,rfl,by simp⟩
  | cons group rest ih =>
    have later := ih fun other listed => judged other (List.mem_cons_of_mem _ listed)
    unfold Outcome
    rw [reaches_cons]
    rcases judged group List.mem_cons_self with ⟨raised,error,known⟩ | ⟨calm,answer,known,means⟩
    · exact .inl ⟨.inl raised,error,by simp [allMatch,known,bind,Except.bind]⟩
    · simp only [allMatch,known,bind,Except.bind,List.forall_mem_cons,calm,← means,false_or]
      cases answer with
      | false => exact .inr ⟨by simp,false,rfl,by simp⟩
      | true => simpa [Outcome] using later

end groups

theorem raises_or {filter : Filter} {operand : Operand Filter} (held : filter.or_ = some operand) :
    Raises metadata filter ↔ ReachesGroup (Raises metadata) (fun group => ¬Passes metadata group) operand.filters ∨
      ((∃ group ∈ operand.filters, Passes metadata group) ∧ Raises metadata {filter with or_ := none}) := by
  constructor
  · intro raised
    cases raised with
    | @inOr _ group other before after same listed refused below =>
      rw [held] at same
      cases same
      exact .inl ⟨before,group,after,listed,refused,below⟩
    | inAnd or_ here listed passed below =>
      exact .inr ⟨or_ operand held,.inAnd (fun _ missing => by cases missing) here listed passed below⟩
    | here or_ and_ listed passed => exact .inr ⟨or_ operand held,.here (fun _ missing => by cases missing) and_ listed passed⟩
  · intro either
    rcases either with ⟨before,group,after,listed,refused,below⟩ | ⟨matched,rest⟩
    · exact .inOr held listed refused below
    · have settled : ∀ other, filter.or_ = some other → ∃ group ∈ other.filters, Passes metadata group := by
        intro other same
        rw [held] at same
        cases same
        exact matched
      cases rest with
      | inOr missing _ _ _ => cases missing
      | inAnd _ here listed passed below => exact .inAnd settled here listed passed below
      | here _ and_ listed passed => exact .here settled and_ listed passed

theorem raises_and {filter : Filter} {operand : Operand Filter} (noOr : filter.or_ = none) (held : filter.and_ = some operand) :
    Raises metadata filter ↔ ReachesGroup (Raises metadata) (Passes metadata) operand.filters ∨
      ((∀ group ∈ operand.filters, Passes metadata group) ∧ Raises metadata {filter with and_ := none}) := by
  have free : ∀ other : Operand Filter, filter.or_ = some other → ∃ group ∈ other.filters, Passes metadata group := by
    intro other same
    rw [noOr] at same
    cases same
  constructor
  · intro raised
    cases raised with
    | inOr same _ _ _ =>
      rw [noOr] at same
      cases same
    | @inAnd _ group other before after _ same listed passed below =>
      rw [held] at same
      cases same
      exact .inl ⟨before,group,after,listed,passed,below⟩
    | here or_ and_ listed passed => exact .inr ⟨and_ operand held,.here free (fun _ missing => by cases missing) listed passed⟩
  · intro either
    rcases either with ⟨before,group,after,listed,passed,below⟩ | ⟨matched,rest⟩
    · exact .inAnd free held listed passed below
    · cases rest with
      | inOr same _ _ _ =>
        have none_ : filter.or_ = some _ := same
        rw [noOr] at none_
        cases none_
      | inAnd _ missing _ _ _ => cases missing
      | here _ _ listed passed =>
        refine .here free (fun other same => ?_) listed passed
        rw [held] at same
        cases same
        exact matched

theorem raises_plain {filter : Filter} (noOr : filter.or_ = none) (noAnd : filter.and_ = none) :
    Raises metadata filter ↔ ∃ before key after, filter.conditions = before ++ (key,.obj []) :: after ∧
      ∀ field ∈ before, Lets metadata field := by
  constructor
  · intro raised
    cases raised with
    | inOr same _ _ _ =>
      rw [noOr] at same
      cases same
    | inAnd _ same _ _ _ =>
      rw [noAnd] at same
      cases same
    | here _ _ listed passed => exact ⟨_,_,_,listed,passed⟩
  · intro reached
    obtain ⟨before,key,after,listed,passed⟩ := reached
    refine .here (fun other same => ?_) (fun other same => ?_) listed passed
    · rw [noOr] at same
      cases same
    · rw [noAnd] at same
      cases same

theorem raises_filled {filter : Filter} (raised : Raises metadata filter) : filter.isEmpty = false := by
  cases raised with
  | inOr held _ _ _ => simp [Filter.isEmpty,held]
  | inAnd _ held _ _ _ => simp [Filter.isEmpty,held]
  | here _ _ listed _ => simp [Filter.isEmpty,listed]

-- The search through the groups of an accepted operator, then the keys next to it.
theorem outcome_operator {check : Filter → Except FilterError Bool} {validate : Filter → Except FilterError Unit}
    {operator : String} {search : (Filter → Except FilterError Bool) → List Filter → Except FilterError Bool}
    {operand : Operand Filter} {remaining : Filter} {raises P : Prop}
    (listed : operandGroups operator operand = .ok operand.filters)
    (valid : validateAll validate operand.filters = .ok ())
    (searched : Outcome (search check operand.filters) raises P)
    (rest : remaining.isEmpty = false → Outcome (check remaining) (Raises metadata remaining) (Passes metadata remaining)) :
    Outcome (checkOperator check validate operator search operand remaining) (raises ∨ (P ∧ Raises metadata remaining))
      (P ∧ Passes metadata remaining) := by
  rcases searched with ⟨raised,error,known⟩ | ⟨calm,answer,known,means⟩
  · exact .inl ⟨.inl raised,error,by simp [checkOperator,listed,valid,known,bind,Except.bind]⟩
  · simp only [Outcome,checkOperator,listed,valid,known,bind,Except.bind,← means,calm,false_or]
    cases answer with
    | false => exact .inr ⟨by simp,false,rfl,by simp⟩
    | true =>
      cases filled : remaining.isEmpty with
      | true =>
        have quiet : ¬Raises metadata remaining := by
          intro raised
          rw [raises_filled raised] at filled
          cases filled
        have passes : Passes metadata remaining := isEmpty_satisfies filled
        exact .inr ⟨by simp [quiet],true,by simp,by simp [passes]⟩
      | false => simpa [Outcome] using rest filled

-- On a filter that passes the validation the check fails where it reaches an
-- empty operator dictionary, and else answers by what it looks at.
theorem check_outcome (metadata : Fields) : ∀ (left : Nat) (filter : Filter), validateFilterStructure left filter = .ok () →
    Outcome (checkFilterMatch metadata left filter) (Raises metadata filter) (Passes metadata filter)
  | 0,_,valid => by cases valid
  | left+1,filter,valid => by
    simp only [checkFilterMatch]
    by_cases empty : filter.isEmpty = true
    · have quiet : ¬Raises metadata filter := by
        intro raised
        rw [raises_filled raised] at empty
        cases empty
      have passes : Passes metadata filter := isEmpty_satisfies empty
      exact .inr ⟨quiet,true,by simp [empty],by simp [passes]⟩
    simp only [empty]
    have both := validate_both (Bool.eq_false_iff.mpr empty) valid
    cases someOr : filter.or_ with
    | some operand =>
      obtain ⟨listed,groupsValid,restValid⟩ := validateOperator_ok (someOr ▸ both.1)
      have judged : ∀ group ∈ operand.filters, Outcome (checkFilterMatch metadata left group) (Raises metadata group)
          (Passes metadata group) := fun group member =>
        check_outcome metadata left group (validateAll_ok.mp groupsValid group member)
      have outcome := outcome_operator listed groupsValid (outcome_any judged)
        fun filled => check_outcome metadata left {filter with or_ := none} (restValid filled)
      rw [raises_or someOr,Passes,satisfies_or someOr]
      exact outcome
    | none =>
      cases someAnd : filter.and_ with
      | some operand =>
        obtain ⟨listed,groupsValid,restValid⟩ := validateOperator_ok (someAnd ▸ both.2)
        have judged : ∀ group ∈ operand.filters, Outcome (checkFilterMatch metadata left group) (Raises metadata group)
            (Passes metadata group) := fun group member =>
          check_outcome metadata left group (validateAll_ok.mp groupsValid group member)
        have outcome := outcome_operator listed groupsValid (outcome_all judged)
          fun filled => check_outcome metadata left {filter with and_ := none} (restValid filled)
        rw [raises_and someOr someAnd,Passes,satisfies_and someAnd]
        rw [someOr] at outcome ⊢
        exact outcome
      | none =>
        rw [raises_plain someOr someAnd,Passes,satisfies_plain someOr someAnd]
        exact outcome_conditions filter.conditions

end outcome

-- A valid filter is judged by its meaning unless the check comes to an empty
-- operator dictionary, or the metadata passes by loose dictionaries only.
theorem filter_meaning (metadata : Fields) (filter : Filter) (valid : validateFilterStructure 3 filter = .ok ()) :
    Decides (checkFilterMatch metadata 3 filter) (Holds metadata filter) ↔ ¬Raises metadata filter ∧ ¬Hangs metadata filter := by
  rw [hangs_iff]
  rcases check_outcome metadata 3 filter valid with ⟨raised,error,known⟩ | ⟨calm,answer,known,means⟩
  · constructor
    · intro decided
      obtain ⟨answer,answered,_⟩ := decided
      rw [known] at answered
      cases answered
    · exact fun both => absurd raised both.1
  · constructor
    · intro decided
      obtain ⟨other,answered,holds⟩ := decided
      rw [known] at answered
      cases answered
      exact ⟨calm,fun parted => parted.2 (holds.mp (means.mpr parted.1))⟩
    · intro both
      refine ⟨answer,known,means.trans ⟨fun passes => ?_,holds_passes filter⟩⟩
      by_contra fails
      exact both.2 ⟨passes,fails⟩

def flat (conditions : Fields) : Filter := ⟨none,none,conditions⟩

-- The first group holds, so nothing hangs on the operator of another name.
theorem filter_meaning_owner :
    let filter : Filter := ⟨some (.groups [flat [("team",.num 1)],flat [("owner",.obj [("$ne",.str "u")])]]),none,[]⟩
    Decides (checkFilterMatch [("team",.num 1)] 3 filter) (Holds [("team",.num 1)] filter) := by
  refine (filter_meaning _ _ (by decide +kernel)).mpr ⟨fun raised => ?_,fun hangs => ?_⟩
  · rcases (raises_or rfl).mp raised with reached | ⟨_,rest⟩
    · obtain ⟨before,group,after,listed,_,below⟩ := reached
      have member : group ∈ [flat [("team",.num 1)],flat [("owner",.obj [("$ne",.str "u")])]] := by
        rw [show [flat [("team",.num 1)],flat [("owner",.obj [("$ne",.str "u")])]] = before ++ group :: after from listed]
        simp
      simp only [List.mem_cons,List.not_mem_nil,or_false] at member
      rcases member with rfl | rfl
      · obtain ⟨before,key,after,split,_⟩ := (raises_plain rfl rfl).mp below
        simp [flat,List.cons_eq_append_iff] at split
      · obtain ⟨before,key,after,split,_⟩ := (raises_plain rfl rfl).mp below
        simp [flat,List.cons_eq_append_iff] at split
    · have filled := raises_filled rest
      cases filled
  · cases hangs with
    | inOr _ held every =>
      cases held
      have first := every _ List.mem_cons_self ((satisfies_plain rfl rfl).mpr fun field listed => by
        cases List.mem_singleton.mp listed
        unfold Lets
        decide +kernel)
      cases first with
      | inOr _ held _ => cases held
      | inAnd _ held _ _ => cases held
      | here _ listed loose =>
        cases List.mem_singleton.mp listed
        obtain ⟨_,operators,same,_⟩ := loose
        cases same
    | inAnd _ held _ _ => cases held
    | here _ listed _ => cases listed

-- The second operator of a key is not looked at, and an operator of another
-- name lets any metadata pass, one without the key included.
theorem operators_pass :
    (let filter := flat [("tags",.obj [("$contains",.str "a"),("$eq",.str "b")])];
      validateFilterStructure 3 filter = .ok () ∧
      checkFilterMatch [("tags",.arr [.str "a"])] 3 filter = .ok true ∧
      ¬ Holds [("tags",.arr [.str "a"])] filter) ∧
    (let filter := flat [("owner",.obj [("$ne",.str "u")])];
      validateFilterStructure 3 filter = .ok () ∧
      checkFilterMatch [] 3 filter = .ok true ∧
      ¬ Holds [] filter) := by
  refine ⟨⟨by decide +kernel,by decide +kernel,fun holds => ?_⟩,⟨by decide +kernel,by decide +kernel,fun holds => ?_⟩⟩
  · obtain ⟨held,found,every⟩ := (satisfies_plain rfl rfl).mp holds _ (List.mem_singleton_self _)
    cases found
    rcases every ("$eq",.str "b") (by simp) with ⟨_,equal⟩ | ⟨wrong,_⟩
    · cases equal
    · simp at wrong
  · obtain ⟨held,found,_⟩ := (satisfies_plain rfl rfl).mp holds _ (List.mem_singleton_self _)
    cases found

end InmemRuntime.FilterSemantics
