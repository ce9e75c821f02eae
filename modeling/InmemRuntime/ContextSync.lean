import InmemRuntime.VersionHistory

namespace InmemRuntime.ContextSync
open OrderedDict ThreadTtl RuntimeStore Serving SystemAssistants AssistantOps VersionHistory

section inputs
variable {J : Type} (json : Json J)

-- `config.get("configurable", \x7b\x7d)`.
def configurableOf (config : Dict String J) : J := (config.get? "configurable").getD json.bare

structure InSync (t : AssistantTables J) : Prop where
  assistants : ∀ a ∈ t.assistants, a.context = some (configurableOf json a.config)
  versions : ∀ v ∈ t.versions, v.context = configurableOf json v.config

-- A dictionary counts as false only when it is empty.
def Mapping (value : J) : Prop := json.truthy value = false → value = json.bare

-- What the types `Config` and `Context` promise of a request.
structure Typed (config : Dict String J) (context : Option J) : Prop where
  configurable : ∀ value, config.get? "configurable" = some value → Mapping json value
  context : ∀ value, context = some value → Mapping json value

-- A context on its own comes to a config without other keys. Where neither
-- names anything, the config and the context are replaced together, or the
-- context that is there is empty.
def Ready (a : AssistantRecord J) (config : Dict String J) (context : Option J) : Prop :=
  match context.filter json.truthy with
  | some _ => config.isEmpty = true → ∀ key, key ≠ "configurable" → a.config.get? key = none
  | none => configurable json config = none → config.isEmpty = context.isNone ∨ a.context = some json.bare

def Meets (t : AssistantTables J) : Wake J × Operation J → Prop
  | (_,.put call) => Typed json call.config call.context
  | (w,.patch call) => Typed json call.config call.context ∧
      ∀ filters a, w.auth = .ok filters → t.find call.assistantId = some a → passes filters a.metadata = true →
        Ready json a call.config call.context
  | (w,.setLatest assistantId version) => ∀ filters a v, w.auth = .ok filters →
      chosenVersion t assistantId version filters = .ok (a,v) → a.context = some v.context
  | _ => True

-- A patch with nothing but a context is written into the config under
-- `configurable` and keeps the other keys.
def KeepsOthers (t t' : AssistantTables J) : Operation J → Prop
  | .patch call => call.config.isEmpty = true → call.context.isSome = true → ∀ a, t.find call.assistantId = some a →
      ∃ a', t'.find call.assistantId = some a' ∧ ∀ key, key ≠ "configurable" → a'.config.get? key = a.config.get? key
  | _ => True

end inputs

section reconciling
variable {J : Type} {json : Json J} {config : Dict String J} {context : Option J}

-- The three ways in which the two are brought together.
theorem reconciled_cases (json : Json J) (config : Dict String J) (context : Option J) :
    (∃ value, configurable json config = some value ∧ reconciled json config context = (config,some value)) ∨
    (∃ value, configurable json config = none ∧ context.filter json.truthy = some value ∧
      reconciled json config context = (config.insert "configurable" value,some value)) ∨
    configurable json config = none ∧ context.filter json.truthy = none ∧ reconciled json config context = (config,context) := by
  unfold reconciled
  cases configured : configurable json config with
  | some value => exact .inl ⟨value,rfl,rfl⟩
  | none =>
    cases given : context.filter json.truthy with
    | some value => exact .inr (.inl ⟨value,rfl,rfl,rfl⟩)
    | none => exact .inr (.inr ⟨rfl,rfl,rfl⟩)

theorem configured_value {value : J} (configured : configurable json config = some value) :
    configurableOf json config = value ∧ config.isEmpty = false ∧ json.truthy value = true := by
  obtain ⟨stored,true_⟩ := Option.filter_eq_some_iff.mp configured
  refine ⟨by rw [configurableOf,stored,Option.getD_some],?_,true_⟩
  cases bare : config.isEmpty with
  | false => rfl
  | true =>
    rw [Dict.isEmpty_iff.mp bare,Dict.get?_empty] at stored
    cases stored

theorem inserted_value (json : Json J) (config : Dict String J) (value : J) : configurableOf json (config.insert "configurable" value) = value ∧
    (config.insert "configurable" value).isEmpty = false := by
  refine ⟨by simp [configurableOf],?_⟩
  cases bare : (config.insert "configurable" value).isEmpty with
  | false => rfl
  | true =>
    have stored := Dict.get?_insert_self config "configurable" value
    rw [Dict.isEmpty_iff.mp bare,Dict.get?_empty] at stored
    cases stored

-- What counts as false is empty.
theorem falsy_bare {value : Option J} (typed : ∀ v, value = some v → Mapping json v) (falsy : value.filter json.truthy = none) :
    value = none ∨ value = some json.bare := by
  cases value with
  | none => exact .inl rfl
  | some v =>
    have false_ : json.truthy v = false := by simpa using falsy
    exact .inr (congrArg some (typed v rfl false_))

theorem unconfigured_bare (typed : Typed json config context) (unset : configurable json config = none) :
    configurableOf json config = json.bare := by
  unfold configurableOf
  rcases falsy_bare typed.configurable unset with absent | bare
  · rw [absent,Option.getD_none]
  · rw [bare,Option.getD_some]

end reconciling

section calls
variable {J : Type} {json : Json J} {t : AssistantTables J} {now : Int} {graph : Option Fault} {filters : Filters J}

theorem new_synced {call : PutAssistantCall J} (typed : Typed json call.config call.context) :
    (newVersion json now call).context = configurableOf json (newVersion json now call).config := by
  unfold newVersion
  rcases reconciled_cases json call.config call.context with ⟨value,configured,same⟩ | ⟨value,unset,given,same⟩ | ⟨unset,falsy,same⟩
  · rw [same]
    obtain ⟨stored,_,true_⟩ := configured_value configured
    simp [stored,Option.filter,true_]
  · rw [same]
    obtain ⟨_,true_⟩ := Option.filter_eq_some_iff.mp given
    obtain ⟨stored,_⟩ := inserted_value json call.config value
    simp [stored,Option.filter,true_]
  · rw [same]
    simp only [falsy,Option.getD_none]
    exact (unconfigured_bare typed unset).symm

theorem versions_append (synced : InSync json t) {new : AssistantVersion J} (fresh : new.context = configurableOf json new.config) :
    ∀ v ∈ t.versions ++ [new], v.context = configurableOf json v.config := by
  intro v member
  rcases List.mem_append.mp member with old | last
  · exact synced.versions v old
  · rw [List.mem_singleton.mp last]
    exact fresh

theorem put_synced (synced : InSync json t) {call : PutAssistantCall J} (typed : Typed json call.config call.context) :
    InSync json (putAssistant json now graph t call filters).1 := by
  rcases put_cases json now graph t call filters with same | ⟨_,_,same⟩
  · rw [same]
    exact synced
  · rw [same]
    have fresh : (newVersion json now call).context = configurableOf json (newVersion json now call).config := new_synced typed
    refine ⟨fun a member => ?_,fun v member => ?_⟩
    · rcases List.mem_append.mp member with old | new
      · exact synced.assistants a old
      · rw [List.mem_singleton.mp new]
        exact congrArg some fresh
    · exact versions_append synced fresh v member

-- The new version of an assistant that was in sync.
theorem patched_synced {call : PatchAssistantCall J} {a : AssistantRecord J} (held : a.context = some (configurableOf json a.config))
    (typed : Typed json call.config call.context) (ready : Ready json a call.config call.context) (version : Nat) :
    (patchedVersion json now call a version).context = configurableOf json (patchedVersion json now call a version).config := by
  unfold patchedVersion
  rcases reconciled_cases json call.config call.context with ⟨value,configured,same⟩ | ⟨value,unset,given,same⟩ | ⟨unset,falsy,same⟩
  · rw [same]
    obtain ⟨stored,filled,_⟩ := configured_value configured
    simp [stored,filled]
  · rw [same]
    obtain ⟨stored,filled⟩ := inserted_value json call.config value
    simp [stored,filled]
  · rw [same]
    unfold Ready at ready
    rw [falsy] at ready
    have bare := unconfigured_bare typed unset
    rcases ready unset with together | empty
    · rcases falsy_bare typed.context falsy with omitted | given
      · rw [omitted] at together ⊢
        simp [show call.config.isEmpty = true from together,held]
      · rw [given] at together ⊢
        simp [show call.config.isEmpty = false from together,bare]
    · have stored : configurableOf json a.config = json.bare := Option.some.inj (held.symm.trans empty)
      rcases falsy_bare typed.context falsy with omitted | given
      · cases filled : call.config.isEmpty <;> simp [filled,omitted,held,stored,bare]
      · cases filled : call.config.isEmpty <;> simp [filled,given,stored,bare]

theorem patch_synced (synced : InSync json t) {call : PatchAssistantCall J} (typed : Typed json call.config call.context)
    (ready : ∀ a, t.find call.assistantId = some a → passes filters a.metadata = true → Ready json a call.config call.context) :
    InSync json (patchAssistant json now graph t call filters).1 := by
  rcases patch_cases json now graph t call filters with same | ⟨a,version,found,allowed,_,same⟩
  · rw [same]
    exact synced
  · rw [same]
    have fresh : (patchedVersion json now call a version).context = configurableOf json (patchedVersion json now call a version).config :=
      patched_synced (synced.assistants a (find_named found).1) typed (ready a found allowed) version
    refine ⟨fun x member => ?_,fun v member => ?_⟩
    · rcases mem_updateFirst found member with old | rfl
      · exact synced.assistants x old
      · exact congrArg some fresh
    · exact versions_append synced fresh v member

theorem setLatest_synced (synced : InSync json t) {assistantId : String} {version : Nat}
    (same : ∀ a v, chosenVersion t assistantId version filters = .ok (a,v) → a.context = some v.context) :
    InSync json (setLatest now t assistantId version filters).1 := by
  unfold setLatest
  split
  · exact synced
  · rename_i a v chosen
    obtain ⟨found,stored,_⟩ := chosen_parts chosen
    refine ⟨fun x member => ?_,synced.versions⟩
    rcases mem_updateFirst found member with old | rfl
    · exact synced.assistants x old
    · exact (same a v chosen).trans (congrArg some (synced.versions v stored))

theorem delete_synced (synced : InSync json t) {cleanup : Option Fault} {assistantId : String} :
    InSync json (deleteAssistant cleanup t assistantId filters).1 := by
  unfold deleteAssistant
  split
  · exact synced
  · split
    · exact synced
    · split
      · exact synced
      · exact ⟨fun a member => synced.assistants a (List.mem_filter.mp member).1,
          fun v member => synced.versions v (List.mem_filter.mp member).1⟩

theorem startPool_synced [DecidableEq J] (synced : InSync json t) : InSync json (startPool json t) := by
  refine ⟨fun a member => ?_,synced.versions⟩
  rcases mem_removeSystem member with none_ | ⟨b,old,same⟩
  · cases none_
  · have held := synced.assistants b old
    rcases same with rfl | rfl
    · exact held
    · unfold AssistantRecord.filled
      rw [held]
      rfl

theorem find_updateFirst {assistantId : String} {f : AssistantRecord J → AssistantRecord J} (same : ∀ a, (f a).assistantId = a.assistantId)
    {all : List (AssistantRecord J)} {a : AssistantRecord J} (found : (all.find? fun a => a.assistantId == assistantId) = some a) :
    ((updateFirst assistantId f all).find? fun a => a.assistantId == assistantId) = some (f a) := by
  induction all with
  | nil => cases found
  | cons first rest ih =>
    rw [List.find?_cons] at found
    unfold updateFirst
    cases here : first.assistantId == assistantId with
    | true =>
      rw [here] at found
      cases found
      rw [if_pos rfl,List.find?_cons_of_pos (by simpa [same] using here)]
    | false =>
      rw [here] at found
      rw [if_neg Bool.false_ne_true,List.find?_cons_of_neg (by simpa [same] using here)]
      exact ih found

theorem patched_others {call : PatchAssistantCall J} {a : AssistantRecord J} (ready : Ready json a call.config call.context)
    (bare : call.config.isEmpty = true) (version : Nat) {key : String} (other : key ≠ "configurable") :
    (patchedVersion json now call a version).config.get? key = a.config.get? key := by
  have empty := Dict.isEmpty_iff.mp bare
  unfold patchedVersion
  rcases reconciled_cases json call.config call.context with ⟨value,configured,same⟩ | ⟨value,unset,given,same⟩ | ⟨unset,falsy,same⟩
  · rw [(configured_value configured).2.1] at bare
    cases bare
  · unfold Ready at ready
    rw [given] at ready
    rw [same]
    obtain ⟨_,filled⟩ := inserted_value json call.config value
    simp only [filled,Bool.false_eq_true,if_false]
    rw [Dict.get?_insert_other (by simpa using Ne.symm other),empty,Dict.get?_empty,ready bare key other]
  · rw [same]
    simp [bare]

theorem patch_keeps {call : PatchAssistantCall J}
    (ready : ∀ a, t.find call.assistantId = some a → passes filters a.metadata = true → Ready json a call.config call.context) :
    KeepsOthers t (patchAssistant json now graph t call filters).1 (.patch call) := by
  intro bare _ a found
  rcases patch_cases json now graph t call filters with same | ⟨b,version,found',allowed,_,same⟩
  · rw [same]
    exact ⟨a,found,fun _ _ => rfl⟩
  · cases found.symm.trans found'
    rw [same]
    let entry := patchedVersion json now call a version
    have kept : ∀ b, (patchedAssistant now entry b).assistantId = b.assistantId := fun _ => rfl
    have others : ∀ key, key ≠ "configurable" → entry.config.get? key = a.config.get? key :=
      fun key other => patched_others (ready a found allowed) bare version other
    exact ⟨patchedAssistant now entry a,find_updateFirst kept found,others⟩

end calls
section result
variable {J : Type} {json : Json J}

structure Kept (json : Json J) (s : Storage J) : Prop where
  tables : InSync json s.tables
  disk : InSync json s.disk

theorem empty_synced : InSync json (.empty : AssistantTables J) := ⟨by simp [AssistantTables.empty],by simp [AssistantTables.empty]⟩

theorem answered_kept {ρ : Type} {w : Wake J} {s : Storage J} {go : Filters J → AssistantTables J × Except Fault ρ} (kept : Kept json s)
    (goes : ∀ filters, w.auth = .ok filters → InSync json (go filters).1) : Kept json (answered w s go) := by
  unfold answered
  split
  · exact kept
  · exact ⟨goes _ ‹_›,kept.disk⟩

variable [DecidableEq J]

theorem step_kept (s : Storage J) (event : Wake J × Operation J) (kept : Kept json s) (meets : Meets json s.tables event) :
    Kept json (step json s event) := by
  obtain ⟨w,operation⟩ := event
  cases operation with
  | put call => exact answered_kept kept fun _ _ => put_synced kept.tables meets
  | patch call => exact answered_kept kept fun filters answer => patch_synced kept.tables meets.1 fun a => meets.2 filters a answer
  | setLatest assistantId version =>
    exact answered_kept kept fun filters answer => setLatest_synced kept.tables fun a v => meets filters a v answer
  | delete assistantId => exact answered_kept kept fun _ _ => delete_synced kept.tables
  | flush => exact ⟨kept.tables,kept.tables⟩
  | restart => exact ⟨startPool_synced kept.disk,kept.disk⟩

theorem step_keeps (s : Storage J) (event : Wake J × Operation J) (meets : Meets json s.tables event) :
    KeepsOthers s.tables (step json s event).tables event.2 := by
  obtain ⟨w,operation⟩ := event
  cases operation with
  | patch call =>
    unfold step answered
    dsimp only
    split
    · exact fun _ _ a found => ⟨a,found,fun _ _ => rfl⟩
    · rename_i filters answer
      exact patch_keeps fun a => meets.2 filters a answer
  | _ => trivial

theorem contexts_synced (json : Json J) (taken : List (Storage J × (Wake J × Operation J))) (s : Storage J) (runs : Runs json taken s)
    (meets : ∀ row ∈ taken, Meets json row.1.tables row.2) : InSync json s.tables ∧
      ∀ row ∈ taken, InSync json row.1.tables ∧ KeepsOthers row.1.tables (step json row.1 row.2).tables row.2.2 := by
  obtain ⟨here,earlier⟩ := Histories.runs_invariant runs ⟨empty_synced,empty_synced⟩ step_kept meets
  exact ⟨here.tables,fun row member => ⟨(earlier row member).tables,step_keeps row.1 row.2 (meets row member)⟩⟩

end result

def patched (config : Dict String String) (context : Option String) : Operation String :=
  .patch ⟨"a",config,context,none,.empty,none,none⟩

-- A new name, back to the first version, and a new context.
theorem contexts_synced_toy : ∃ s, Runs texts (ran [made "g" "user",moved none,.setLatest "a" 1,patched .empty (some "d")]) s ∧
    InSync texts s.tables := by
  refine ⟨_,ran_runs _,(contexts_synced texts _ _ (ran_runs _) ?_).1⟩
  have typed : ∀ text, text ≠ "" → Typed texts .empty (some text) := by
    intro text filled
    refine ⟨fun value none_ => (by cases none_),fun value same => ?_⟩
    cases same
    exact fun empty => absurd empty (by simpa [texts] using filled)
  refine List.forall_mem_cons.mpr ⟨typed "c" (by decide),?_⟩
  refine List.forall_mem_cons.mpr ⟨⟨⟨fun value none_ => (by cases none_),fun value none_ => (by cases none_)⟩,fun _ _ _ _ _ _ => .inl rfl⟩,?_⟩
  refine List.forall_mem_cons.mpr ⟨?_,List.forall_mem_cons.mpr ⟨⟨typed "d" (by decide),?_⟩,fun _ none_ => (List.not_mem_nil none_).elim⟩⟩
  · intro filters a v answer chosen
    cases answer
    cases chosen
    rfl
  · intro filters a _ found _ _ key other
    cases found
    exact Dict.get?_insert_other (by simpa using Ne.symm other)

-- A config that does not name the context, an empty context, and a version with
-- another one, each leave the two apart. And a context takes the place of the
-- other keys.
theorem contexts_part :
    (∃ s, Runs texts (ran [made "g" "user",patched (Dict.empty.insert "recursion_limit" "5") none]) s ∧ ¬ InSync texts s.tables) ∧
    (∃ s, Runs texts (ran [made "g" "user",patched .empty (some "")]) s ∧ ¬ InSync texts s.tables) ∧
    (∃ s, Runs texts (ran [made "g" "user",patched .empty (some "d"),.setLatest "a" 1]) s ∧ ¬ InSync texts s.tables) ∧
    ∃ row ∈ ran [made "g" "user",patched ((Dict.empty.insert "configurable" "c").insert "tags" "t") none,patched .empty (some "d")],
      ¬ KeepsOthers row.1.tables (step texts row.1 row.2).tables row.2.2 := by
  refine ⟨⟨_,ran_runs _,fun synced => ?_⟩,⟨_,ran_runs _,fun synced => ?_⟩,⟨_,ran_runs _,fun synced => ?_⟩,
    _,List.mem_cons_of_mem _ (List.mem_cons_of_mem _ List.mem_cons_self),fun keeps => ?_⟩
  · exact absurd (synced.assistants _ List.mem_cons_self) (by decide)
  · exact absurd (synced.assistants _ List.mem_cons_self) (by decide)
  · exact absurd (synced.assistants _ List.mem_cons_self) (by decide)
  · obtain ⟨a',found,others⟩ := keeps rfl rfl _ rfl
    cases found
    exact absurd (others "tags" (by decide)) (by decide)

end InmemRuntime.ContextSync
