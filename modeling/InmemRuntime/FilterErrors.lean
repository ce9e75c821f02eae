import InmemRuntime.AuthFilters

namespace InmemRuntime.FilterErrors
open PythonJson AuthFilters

def Raises (result : Except FilterError Bool) : Prop := ∃ error, result = .error error

-- No ordinary key carries an operator dictionary without an operator.
def Operators (filter : Filter) : Prop := ∀ key, ¬ Entry (key,.obj []) filter

-- The groups of an operator pass the checks that come before they are matched,
-- `left` levels being left to them.
def Sound (operator : String) (left : Nat) (operand : Operand Filter) : Prop :=
  operandGroups operator operand = .ok operand.filters ∧
    validateAll (validateFilterStructure left) operand.filters = .ok ()

def Accepts (metadata : Fields) (filter : Filter) : Prop :=
  Satisfies (fun field => conditionMatches metadata field.1 field.2 = .ok true) filter

theorem decides_answers {result : Except FilterError Bool} {P : Prop} (decided : Decides result P) : ¬ Raises result := by
  rintro ⟨error,raised⟩
  obtain ⟨answer,known,-⟩ := decided
  rw [raised] at known
  cases known

theorem condition_answers {filter : Filter} (operators : Operators filter) (metadata : Fields) {field : String × Json}
    (below : Entry field filter) : ∃ answer, conditionMatches metadata field.1 field.2 = .ok answer := by
  obtain ⟨key,value⟩ := field
  cases value with
  | obj fields =>
    cases fields with
    | nil => exact absurd below (operators key)
    | cons operator rest => exact ⟨_,rfl⟩
  | null | bool | num | str | arr => exact ⟨_,rfl⟩

section operator
variable {check : Filter → Except FilterError Bool} {left : Nat} {operator : String}
  {search : (Filter → Except FilterError Bool) → List Filter → Except FilterError Bool} {operand : Operand Filter}
  {remaining : Filter}

theorem unsound_raises (unsound : ¬ Sound operator left operand) :
    Raises (checkOperator check (validateFilterStructure left) operator search operand remaining) := by
  simp only [checkOperator,bind,Except.bind]
  cases listed : operandGroups operator operand with
  | error error => exact ⟨error,rfl⟩
  | ok groups =>
    cases valid : validateAll (validateFilterStructure left) groups with
    | error error => exact ⟨error,by simp [valid]⟩
    | ok done =>
      have same := operandGroups_ok listed
      exact absurd ⟨same ▸ listed,same ▸ valid⟩ unsound

theorem sound_raises {P : Prop} (sound : Sound operator left operand) (searched : Decides (search check operand.filters) P) :
    Raises (checkOperator check (validateFilterStructure left) operator search operand remaining) ↔
      P ∧ remaining.isEmpty = false ∧ Raises (check remaining) := by
  obtain ⟨answer,known,means⟩ := searched
  simp only [checkOperator,sound.1,sound.2,known,bind,Except.bind,← means]
  cases answer with
  | false => simp [Raises]
  | true => cases filled : remaining.isEmpty <;> simp [Raises]

end operator

theorem conditions_answer {filter : Filter} (operators : Operators filter) (metadata : Fields) (left : Nat)
    (noOr : filter.or_ = none) (noAnd : filter.and_ = none) : ¬ Raises (checkFilterMatch metadata (left+1) filter) := by
  refine decides_answers (P := Accepts metadata filter) ?_
  refine check_valid metadata (left+1) filter ?_ fun field below => condition_answers operators metadata below
  simp only [validateFilterStructure,noOr,noAnd]
  cases filter.isEmpty <;> rfl

section groups
variable {filter : Filter} (operators : Operators filter) (metadata : Fields) {left : Nat} {operand : Operand Filter}
include operators

theorem or_decides (held : filter.or_ = some operand) (sound : Sound "$or" left operand) :
    Decides (anyMatch (checkFilterMatch metadata left) operand.filters) (∃ group ∈ operand.filters, Accepts metadata group) :=
  decides_any fun group member => check_valid metadata left group (validateAll_ok.mp sound.2 group member)
    fun _ below => condition_answers operators metadata (.inOr held member below)

theorem and_decides (held : filter.and_ = some operand) (sound : Sound "$and" left operand) :
    Decides (allMatch (checkFilterMatch metadata left) operand.filters) (∀ group ∈ operand.filters, Accepts metadata group) :=
  decides_all fun group member => check_valid metadata left group (validateAll_ok.mp sound.2 group member)
    fun _ below => condition_answers operators metadata (.inAnd held member below)

theorem without_or : Operators {filter with or_ := none} := fun key below => operators key (Entry.of_rest.1 below)

theorem without_and : Operators {filter with and_ := none} := fun key below => operators key (Entry.of_rest.2 below)

variable (left) in
-- Without `$or`, a filter raises by the groups of its `$and` alone: the
-- remaining keys are ordinary ones.
theorem and_raises (noOr : filter.or_ = none) (held : filter.and_ = some operand) :
    Raises (checkFilterMatch metadata (left+2) filter) ↔ ¬ Sound "$and" (left+1) operand := by
  have filled : filter.isEmpty = false := by simp [Filter.isEmpty,held]
  have step : checkFilterMatch metadata (left+2) filter = checkOperator (checkFilterMatch metadata (left+1))
      (validateFilterStructure (left+1)) "$and" allMatch operand {filter with and_ := none} := by
    rw [checkFilterMatch.eq_def]
    simp [filled,noOr,held]
  rw [step]
  by_cases sound : Sound "$and" (left+1) operand
  · rw [sound_raises sound (and_decides operators metadata held sound)]
    simp only [sound,not_true_eq_false,iff_false,not_and]
    exact fun _ _ => conditions_answer (without_and operators) metadata left noOr rfl
  · simp [sound,unsound_raises sound]

theorem or_raises (held : filter.or_ = some operand) :
    Raises (checkFilterMatch metadata 3 filter) ↔
      (Sound "$or" 2 operand → (∃ group ∈ operand.filters, Accepts metadata group) ∧
        ∃ conjunction, filter.and_ = some conjunction ∧ ¬ Sound "$and" 1 conjunction) := by
  have filled : filter.isEmpty = false := by simp [Filter.isEmpty,held]
  have step : checkFilterMatch metadata 3 filter = checkOperator (checkFilterMatch metadata 2)
      (validateFilterStructure 2) "$or" anyMatch operand {filter with or_ := none} := by
    rw [checkFilterMatch.eq_def]
    simp [filled,held]
  rw [step]
  by_cases sound : Sound "$or" 2 operand
  · rw [sound_raises sound (or_decides operators metadata held sound)]
    simp only [sound,true_imp_iff]
    refine and_congr_right fun _ => ?_
    cases someAnd : filter.and_ with
    | none =>
      have answers := conditions_answer (without_or operators) metadata 1 rfl someAnd
      simp only [someAnd] at answers
      simp [answers]
    | some conjunction =>
      have rest := and_raises (without_or operators) metadata 0 rfl someAnd
      simp only [someAnd] at rest
      simp [rest,Filter.isEmpty]
  · simp [sound,unsound_raises sound]

end groups

-- Where the groups of the `$or` are in order and the `$and` next to it is not,
-- the error waits for a group of the `$or` to match.
def Steady (filter : Filter) (first second : Fields) : Prop :=
  ∀ disjunction conjunction, filter.or_ = some disjunction → filter.and_ = some conjunction →
    Sound "$or" 2 disjunction → ¬ Sound "$and" 1 conjunction →
    ((∃ group ∈ disjunction.filters, Accepts first group) ↔ ∃ group ∈ disjunction.filters, Accepts second group)

theorem errors_steady (filter : Filter) (operators : Operators filter) (first second : Fields) :
    (Raises (checkFilterMatch first 3 filter) ↔ Raises (checkFilterMatch second 3 filter)) ↔
      Steady filter first second := by
  cases someOr : filter.or_ with
  | none =>
    have steady : Steady filter first second := by
      intro disjunction _ held
      rw [someOr] at held
      cases held
    simp only [steady,iff_true]
    cases someAnd : filter.and_ with
    | none =>
      have one := conditions_answer operators first 2 someOr someAnd
      have two := conditions_answer operators second 2 someOr someAnd
      exact iff_of_false one two
    | some conjunction =>
      rw [and_raises operators first 1 someOr someAnd,and_raises operators second 1 someOr someAnd]
  | some disjunction =>
    rw [or_raises operators first someOr,or_raises operators second someOr]
    constructor
    · intro same other conjunction held someAnd sound unsound
      rw [someOr] at held
      cases held
      have broken : ∃ conjunction, filter.and_ = some conjunction ∧ ¬ Sound "$and" 1 conjunction :=
        ⟨conjunction,someAnd,unsound⟩
      simpa [sound,broken] using same
    · intro steady
      by_cases sound : Sound "$or" 2 disjunction
      · by_cases broken : ∃ conjunction, filter.and_ = some conjunction ∧ ¬ Sound "$and" 1 conjunction
        · obtain ⟨conjunction,someAnd,unsound⟩ := broken
          have same := steady disjunction conjunction someOr someAnd sound unsound
          simp only [same]
        · simp [broken]
      · simp [sound]

def halfBroken : Filter :=
  ⟨some (.groups [⟨none,none,[("a",.num 1)]⟩,⟨none,none,[("b",.num 2)]⟩]),some .malformed,[]⟩

theorem halfBroken_operators : Operators halfBroken := by
  intro key below
  cases below with
  | here listed => cases listed
  | inOr held member below =>
    cases held
    simp only [Operand.filters,List.mem_cons,List.not_mem_nil,or_false] at member
    rcases member with rfl | rfl <;> cases below with
    | here listed => simp at listed
    | inOr held _ _ => cases held
    | inAnd held _ _ => cases held
  | inAnd held member _ =>
    cases held
    cases member

theorem errors_steady_halfBroken :
    (Raises (checkFilterMatch [("a",.num 1)] 3 halfBroken) ↔ Raises (checkFilterMatch [] 3 halfBroken)) ↔
      Steady halfBroken [("a",.num 1)] [] :=
  errors_steady halfBroken halfBroken_operators _ _

-- The malformed `$and` is reported to a request whose metadata matches the
-- `$or`, and is not noticed otherwise.
theorem errors_depend :
    Operators halfBroken ∧
      Raises (checkFilterMatch [("a",.num 1)] 3 halfBroken) ∧ ¬ Raises (checkFilterMatch [] 3 halfBroken) := by
  refine ⟨halfBroken_operators,⟨invalidOperator "$and",by decide +kernel⟩,?_⟩
  rintro ⟨error,raised⟩
  have answered : checkFilterMatch [] 3 halfBroken = .ok false := by decide +kernel
  rw [answered] at raised
  cases raised

end InmemRuntime.FilterErrors
