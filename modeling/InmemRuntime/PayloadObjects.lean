import InmemRuntime.CronPayloads

namespace InmemRuntime.PayloadObjects
open ThreadTtl PythonJson CronRecords CronPayloads ObjectHeap

-- The dictionaries that a slot speaks of are there.
def Within (objects : Objects) (value : Slot) : Prop := ∀ inner, value = .dict inner → inner < objects.next

def Closed (objects : Objects) : Prop := ∀ ref key value, ref < objects.next → slot objects ref key = some value → Within objects value

-- `payload["config"]["configurable"]` is that dictionary.
def Reaches (objects : Objects) (payload configurable : Nat) : Prop := ∃ config,
  slot objects payload "config" = some (.dict config) ∧ slot objects config "configurable" = some (.dict configurable)

-- A payload as the record of its cron has it.
structure Linked (objects : Objects) (payload : Nat) (assistantId cronId : String) (config configurable : Nat) : Prop where
  known : payload < objects.next
  assistant : slot objects payload "assistant_id" = some (text assistantId)
  outer : slot objects payload "config" = some (.dict config)
  inner : slot objects config "configurable" = some (.dict configurable)
  named : slot objects configurable "cron_id" = some (text cronId)

-- More dictionaries, and no record that sees another payload than before.
structure Extends (objects objects' : Objects) : Prop where
  next : objects.next ≤ objects'.next
  closed : Closed objects'
  linked : ∀ {payload assistantId cronId config configurable}, Linked objects payload assistantId cronId config configurable →
    Linked objects' payload assistantId cronId config configurable

section slots
variable {objects : Objects} {ref other : Nat} {key name : String} {value : Slot}

@[simp] theorem lookup_setKey {α : Type} (fields : List (String × α)) (key other : String) (value : α) :
    (setKey fields key value).lookup other = if other == key then some value else fields.lookup other := by
  unfold setKey
  rw [lookup_merge,List.lookup_cons]
  cases other == key <;> rfl

theorem slot_setIn : slot (setIn objects ref key value) other name =
    if other = ref ∧ name = key then some value else slot objects other name := by
  unfold slot setIn
  by_cases here : other = ref
  · rw [here,Heap.read_write_self,lookup_setKey]
    simp
  · rw [Heap.read_write_other here,if_neg fun both => here both.1]

theorem slot_alloc_old {dictionary : Dictionary} (known : ref < objects.next) :
    slot (objects.alloc dictionary).1 ref key = slot objects ref key := by
  unfold slot
  rw [Heap.read_alloc_old known]

theorem slot_alloc_new (objects : Objects) (dictionary : Dictionary) (key : String) :
    slot (objects.alloc dictionary).1 objects.next key = dictionary.lookup key := by
  unfold slot
  rw [Heap.read_alloc_new]

theorem Within.mono {objects' : Objects} (within : Within objects value) (next : objects.next ≤ objects'.next) : Within objects' value :=
  fun inner same => Nat.lt_of_lt_of_le (within inner same) next

theorem Closed.setIn (closed : Closed objects) (within : Within objects value) : Closed (setIn objects ref key value) := by
  intro other name held known found
  rw [slot_setIn] at found
  split at found
  · cases found
    exact within
  · exact closed other name held known found

theorem Closed.alloc (closed : Closed objects) {dictionary : Dictionary}
    (within : ∀ key value, dictionary.lookup key = some value → Within objects value) : Closed (objects.alloc dictionary).1 := by
  intro other name held known found
  have before : Within objects held := by
    rcases Nat.lt_succ_iff_lt_or_eq.mp known with old | rfl
    · rw [slot_alloc_old old] at found
      exact closed other name held old found
    · rw [slot_alloc_new] at found
      exact within name held found
  exact before.mono (Nat.le_succ _)

end slots

section links
variable {objects objects' objects'' : Objects} {payload config configurable : Nat} {assistantId cronId : String}

theorem Linked.inside (linked : Linked objects payload assistantId cronId config configurable) (closed : Closed objects) :
    config < objects.next ∧ configurable < objects.next := by
  have outer := closed _ _ _ linked.known linked.outer config rfl
  exact ⟨outer,closed _ _ _ outer linked.inner configurable rfl⟩

theorem Linked.reaches (linked : Linked objects payload assistantId cronId config configurable) : Reaches objects payload configurable :=
  ⟨config,linked.outer,linked.inner⟩

-- A slot is written that the payload does not have, or it is written as it is.
theorem Linked.setIn (linked : Linked objects payload assistantId cronId config configurable) {ref : Nat} {key : String} {value : Slot}
    (assistant : ref = payload → key = "assistant_id" → value = text assistantId)
    (outer : ref = payload → key = "config" → value = .dict config)
    (inner : ref = config → key = "configurable" → value = .dict configurable)
    (named : ref = configurable → key = "cron_id" → value = text cronId) :
    Linked (setIn objects ref key value) payload assistantId cronId config configurable := by
  refine ⟨linked.known,?_,?_,?_,?_⟩ <;> rw [slot_setIn] <;> split
  · next same => rw [assistant same.1.symm same.2.symm]
  · exact linked.assistant
  · next same => rw [outer same.1.symm same.2.symm]
  · exact linked.outer
  · next same => rw [inner same.1.symm same.2.symm]
  · exact linked.inner
  · next same => rw [named same.1.symm same.2.symm]
  · exact linked.named

theorem Linked.setName (linked : Linked objects payload assistantId cronId config configurable) {ref : Nat} {named : String}
    (same : ref = configurable → cronId = named) :
    Linked (CronPayloads.setIn objects ref "cron_id" (text named)) payload assistantId cronId config configurable :=
  linked.setIn (fun _ other => absurd other (by decide)) (fun _ other => absurd other (by decide))
    (fun _ other => absurd other (by decide)) fun here _ => congrArg text (same here).symm

theorem Extends.refl (closed : Closed objects) : Extends objects objects := ⟨Nat.le_refl _,closed,id⟩

theorem Extends.trans (first : Extends objects objects') (second : Extends objects' objects'') : Extends objects objects'' :=
  ⟨Nat.le_trans first.next second.next,second.closed,fun linked => second.linked (first.linked linked)⟩

theorem extends_alloc (closed : Closed objects) {dictionary : Dictionary}
    (within : ∀ key value, dictionary.lookup key = some value → Within objects value) : Extends objects (objects.alloc dictionary).1 := by
  refine ⟨Nat.le_succ _,closed.alloc within,fun linked => ?_⟩
  obtain ⟨outer,inner⟩ := linked.inside closed
  refine ⟨Nat.lt_succ_of_lt linked.known,?_,?_,?_,?_⟩
  · rw [slot_alloc_old linked.known,linked.assistant]
  · rw [slot_alloc_old linked.known,linked.outer]
  · rw [slot_alloc_old outer,linked.inner]
  · rw [slot_alloc_old inner,linked.named]

theorem extends_fresh (closed : Closed objects) : Extends objects (objects.alloc []).1 := extends_alloc closed nofun

end links

section naming
variable {objects : Objects} {ref : Nat} {key : String}

theorem dictUnlessNone_cases (objects : Objects) (ref : Nat) (key : String) :
    (∃ inner, slot objects ref key = some (.dict inner) ∧ dictUnlessNone objects ref key = (objects,.ok inner)) ∨
    ((∀ inner, slot objects ref key ≠ some (.dict inner)) ∧ (∀ value, slot objects ref key ≠ some (text value)) ∧
      dictUnlessNone objects ref key = (setIn (objects.alloc []).1 ref key (.dict objects.next),.ok objects.next)) ∨
    dictUnlessNone objects ref key = (objects,.error .external) := by
  unfold dictUnlessNone
  split
  · next absent => exact .inr (.inl ⟨by simp [absent],by simp [absent],rfl⟩)
  · next absent => exact .inr (.inl ⟨by simp [absent],(fun value same => by cases absent.symm.trans same),rfl⟩)
  · next inner held => exact .inl ⟨inner,held,rfl⟩
  · exact .inr (.inr rfl)

theorem dictUnlessNone_extends (closed : Closed objects) (ref : Nat) (key : String) : Extends objects (dictUnlessNone objects ref key).1 := by
  rcases dictUnlessNone_cases objects ref key with ⟨inner,_,ran⟩ | ⟨noDict,noText,ran⟩ | ran <;> rw [ran]
  · exact .refl closed
  · have fresh := extends_fresh closed
    refine ⟨fresh.next,fresh.closed.setIn fun inner same => ?_,fun linked => (fresh.linked linked).setIn ?_ ?_ ?_ ?_⟩
    · cases same
      exact Nat.lt_succ_self _
    · rintro rfl rfl
      exact absurd linked.assistant (noText _)
    · rintro rfl rfl
      exact absurd linked.outer (noDict _)
    · rintro rfl rfl
      exact absurd linked.inner (noDict _)
    · rintro rfl rfl
      exact absurd linked.named (noText _)
  · exact .refl closed

theorem dictUnlessNone_other (ref : Nat) {other : Nat} {name : String} (known : other < objects.next) (apart : name ≠ key) :
    slot (dictUnlessNone objects ref key).1 other name = slot objects other name := by
  rcases dictUnlessNone_cases objects ref key with ⟨inner,_,ran⟩ | ⟨_,_,ran⟩ | ran <;> rw [ran]
  rw [slot_setIn,if_neg fun both => apart both.2,slot_alloc_old known]

-- The dictionary that is found is the one that was there, or a new one.
theorem dictUnlessNone_ok (closed : Closed objects) (known : ref < objects.next) {objects' : Objects} {inner : Nat}
    (ran : dictUnlessNone objects ref key = (objects',.ok inner)) :
    slot objects' ref key = some (.dict inner) ∧ inner < objects'.next ∧
      ((objects' = objects ∧ inner < objects.next) ∨ (inner = objects.next ∧ ∀ name, slot objects' inner name = none)) := by
  rcases dictUnlessNone_cases objects ref key with ⟨there,held,found⟩ | ⟨_,_,found⟩ | found <;> cases found.symm.trans ran
  · have inside := closed ref key _ known held inner rfl
    exact ⟨held,inside,.inl ⟨rfl,inside⟩⟩
  · refine ⟨by simp [slot_setIn],Nat.lt_succ_self _,.inr ⟨rfl,fun name => ?_⟩⟩
    rw [slot_setIn,if_neg fun both => absurd both.1 (Nat.ne_of_gt known),slot_alloc_new]
    rfl

theorem opened_extends (closed : Closed objects) (given : Option Nat) : Extends objects (opened objects given).1 := by
  cases given with
  | some payload => exact .refl closed
  | none => exact extends_fresh closed

theorem opened_known {given : Option Nat} (known : ∀ payload, given = some payload → payload < objects.next) :
    (opened objects given).2 < (opened objects given).1.next := by
  cases given with
  | some payload => exact known payload rfl
  | none => exact Nat.lt_succ_self _

theorem entered_extends (closed : Closed objects) (given : Option Nat) :
    Extends objects (entered objects given).1 := by
  have first := opened_extends closed given
  have second := dictUnlessNone_extends first.closed (opened objects given).2 "config"
  unfold entered
  dsimp only
  split
  · next found => rw [found] at second; exact first.trans second
  · next objects' config found =>
    rw [found] at second
    have third := dictUnlessNone_extends second.closed config "configurable"
    split
    · next found => rw [found] at third; exact first.trans (second.trans third)
    · next found => rw [found] at third; exact first.trans (second.trans third)

-- A `configurable` that was there before is the one of the payload that is
-- given.
theorem entered_ok (closed : Closed objects) {given : Option Nat} (known : ∀ payload, given = some payload → payload < objects.next)
    {objects' : Objects} {payload configurable : Nat} (ran : entered objects given = (objects',.ok (payload,configurable))) :
    payload = (opened objects given).2 ∧ payload < objects'.next ∧ configurable < objects'.next ∧ Reaches objects' payload configurable ∧
      (configurable < objects.next → given = some payload ∧ Reaches objects payload configurable) := by
  have first := opened_extends closed given
  have there := opened_known known
  unfold entered at ran
  dsimp only at ran
  split at ran
  · cases ran
  · next middle config found =>
    have second := dictUnlessNone_extends first.closed (opened objects given).2 "config"
    rw [found] at second
    obtain ⟨held,inside,source⟩ := dictUnlessNone_ok first.closed there found
    split at ran
    · cases ran
    · next last inner found' =>
      cases ran
      have kept := dictUnlessNone_other config (Nat.lt_of_lt_of_le there second.next) (show "config" ≠ "configurable" by decide)
      rw [found'] at kept
      have next := (dictUnlessNone_extends second.closed config "configurable").next
      rw [found'] at next
      obtain ⟨held',inside',source'⟩ := dictUnlessNone_ok second.closed inside found'
      refine ⟨rfl,Nat.lt_of_lt_of_le there (Nat.le_trans second.next next),inside',⟨config,kept.trans held,held'⟩,fun old => ?_⟩
      rcases source' with ⟨rfl,_⟩ | ⟨rfl,_⟩
      · rcases source with ⟨rfl,_⟩ | ⟨_,bare⟩
        · cases given with
          | some payload => exact ⟨rfl,config,held,held'⟩
          | none =>
            have none_ := held.symm.trans (slot_alloc_new objects [] "config")
            cases none_
        · cases (bare _).symm.trans held'
      · exact absurd (Nat.lt_of_lt_of_le old (Nat.le_trans first.next second.next)) (Nat.lt_irrefl _)

-- The id goes to a payload that no record of another id sees.
theorem named_linked (closed : Closed objects) {given : Option Nat} (known : ∀ payload, given = some payload → payload < objects.next)
    {named : String} {payload config configurable : Nat} {assistantId cronId : String}
    (linked : Linked objects payload assistantId cronId config configurable)
    (apart : ∀ payload, given = some payload → Reaches objects payload configurable → cronId = named) :
    Linked (CronPayloads.named objects given named).1 payload assistantId cronId config configurable := by
  have grown := (entered_extends closed given).linked linked
  unfold CronPayloads.named
  split
  · next found => rw [found] at grown; exact grown
  · next objects' payload' configurable' found =>
    rw [found] at grown
    obtain ⟨_,_,_,_,source⟩ := entered_ok closed known found
    refine grown.setName fun same => ?_
    subst same
    obtain ⟨rfl,reaches⟩ := source (linked.inside closed).2
    exact apart payload' rfl reaches

theorem named_closed (closed : Closed objects) (given : Option Nat) (named : String) :
    Closed (CronPayloads.named objects given named).1 ∧ objects.next ≤ (CronPayloads.named objects given named).1.next := by
  have grown := entered_extends closed given
  unfold CronPayloads.named
  split
  · next found => rw [found] at grown; exact ⟨grown.closed,grown.next⟩
  · next found => rw [found] at grown; exact ⟨grown.closed.setIn nofun,grown.next⟩

theorem named_ok (closed : Closed objects) {given : Option Nat} (known : ∀ payload, given = some payload → payload < objects.next)
    {named : String} {objects' : Objects} {payload : Nat} (ran : CronPayloads.named objects given named = (objects',.ok payload)) :
    payload = (opened objects given).2 ∧ payload < objects'.next ∧ ∃ config configurable, slot objects' payload "config" = some (.dict config) ∧
      slot objects' config "configurable" = some (.dict configurable) ∧ slot objects' configurable "cron_id" = some (text named) := by
  unfold CronPayloads.named at ran
  split at ran
  · cases ran
  · next middle payload' configurable found =>
    cases ran
    obtain ⟨same,there,_,⟨config,outer,inner⟩,_⟩ := entered_ok closed known found
    refine ⟨same,there,config,configurable,?_,?_,?_⟩ <;> rw [slot_setIn]
    · rwa [if_neg fun both => absurd both.2 (by decide)]
    · rwa [if_neg fun both => absurd both.2 (by decide)]
    · rw [if_pos ⟨rfl,rfl⟩]

end naming

section merging
variable {objects : Objects} {existing payload : Nat}

theorem dictOrEmpty_cases (objects : Objects) (value : Option Slot) :
    (∃ inner, value = some (.dict inner) ∧ dictOrEmpty objects value = (objects,.ok inner)) ∨
    ((∀ inner, value = some (.dict inner) → objects.read inner = []) ∧
      dictOrEmpty objects value = ((objects.alloc []).1,.ok objects.next)) ∨
    dictOrEmpty objects value = (objects,.error .external) := by
  unfold dictOrEmpty
  split
  · next inner =>
    split
    · next bare =>
      refine .inr (.inl ⟨fun other same => ?_,rfl⟩)
      cases same
      exact List.isEmpty_iff.mp bare
    · exact .inl ⟨inner,rfl,rfl⟩
  · split
    · exact .inr (.inr rfl)
    · exact .inr (.inl ⟨nofun,rfl⟩)
  · exact .inr (.inl ⟨nofun,rfl⟩)

theorem dictOrEmpty_extends (closed : Closed objects) (value : Option Slot) : Extends objects (dictOrEmpty objects value).1 := by
  rcases dictOrEmpty_cases objects value with ⟨inner,_,ran⟩ | ⟨_,ran⟩ | ran <;> rw [ran]
  · exact .refl closed
  · exact extends_fresh closed
  · exact .refl closed

-- The dictionary that comes out is the one that was there, or a new one in place
-- of one without entries.
structure Gives (objects : Objects) (value : Option Slot) (objects' : Objects) (inner : Nat) : Prop where
  grown : Extends objects objects'
  known : inner < objects'.next
  old : ∀ ref key, ref < objects.next → slot objects' ref key = slot objects ref key
  source : (objects' = objects ∧ value = some (.dict inner)) ∨
    (inner = objects.next ∧ (∀ name, slot objects' inner name = none) ∧ ∀ held, value = some (.dict held) → objects.read held = [])

theorem dictOrEmpty_gives (closed : Closed objects) {value : Option Slot} {objects' : Objects} {inner : Nat}
    (within : ∀ held, value = some held → Within objects held) (ran : dictOrEmpty objects value = (objects',.ok inner)) :
    Gives objects value objects' inner := by
  have grown := dictOrEmpty_extends closed value
  rw [ran] at grown
  rcases dictOrEmpty_cases objects value with ⟨there,held,found⟩ | ⟨bare,found⟩ | found <;> cases found.symm.trans ran
  · exact ⟨grown,within _ held inner rfl,fun _ _ _ => rfl,.inl ⟨rfl,held⟩⟩
  · exact ⟨grown,Nat.lt_succ_self _,fun _ _ => slot_alloc_old,.inr ⟨rfl,slot_alloc_new objects [],bare⟩⟩

theorem lookup_shallow (objects : Objects) (existing payload : Nat) (key : String) : (shallow objects existing payload).lookup key =
    if key == "assistant_id" then some (((slot objects existing key).or ((slot objects payload key).or (slot objects existing key))).getD none_)
    else (slot objects payload key).or (slot objects existing key) := by
  unfold shallow
  rw [lookup_setKey]
  split
  · next same => rw [eq_of_beq same,lookup_merge]; rfl
  · rw [lookup_merge]; rfl

theorem within_shallow (closed : Closed objects) (old : existing < objects.next) (given : payload < objects.next) (key : String) (value : Slot)
    (found : (shallow objects existing payload).lookup key = some value) : Within objects value := by
  rw [lookup_shallow] at found
  have both : ∀ value, (slot objects payload key).or (slot objects existing key) = some value → Within objects value := by
    intro value found
    rcases Option.or_eq_some_iff.mp found with here | ⟨_,here⟩
    · exact closed payload key value given here
    · exact closed existing key value old here
  split at found
  · cases stored : slot objects existing key with
    | some held =>
      rw [stored] at found
      cases found
      exact closed existing key held old stored
    | none =>
      rw [stored] at found both
      cases sent : slot objects payload key with
      | some held =>
        rw [sent] at found
        cases found
        exact closed payload key held given sent
      | none =>
        rw [sent] at found
        cases found
        exact nofun
  · exact both value found

theorem joined_extends (closed : Closed objects) (old : existing < objects.next) (given : payload < objects.next) :
    Extends objects (joined objects existing payload).1 := by
  have first := extends_alloc closed (within_shallow closed old given)
  have second := dictOrEmpty_extends first.closed (slot (objects.alloc (shallow objects existing payload)).1 objects.next "config")
  unfold joined
  dsimp only [Heap.alloc_ref]
  split
  · next found => rw [found] at second; exact first.trans second
  · next objects' config found =>
    rw [found] at second
    have third := dictOrEmpty_extends second.closed (slot objects' config "configurable")
    split
    · next found => rw [found] at third; exact first.trans (second.trans third)
    · next found => rw [found] at third; exact first.trans (second.trans third)

section joining
variable {objects' : Objects} {merged config configurable : Nat}

theorem joined_gives (closed : Closed objects) (old : existing < objects.next) (given : payload < objects.next)
    (ran : joined objects existing payload = (objects',.ok (merged,config,configurable))) :
    merged = objects.next ∧ ∃ middle,
      Gives (objects.alloc (shallow objects existing payload)).1 ((shallow objects existing payload).lookup "config") middle config ∧
      Gives middle (slot middle config "configurable") objects' configurable := by
  have shown := within_shallow closed old given
  have first := extends_alloc closed shown
  unfold joined at ran
  dsimp only [Heap.alloc_ref] at ran
  rw [slot_alloc_new] at ran
  split at ran
  · cases ran
  · next middle outer found =>
    have outer := dictOrEmpty_gives first.closed (fun held here => (shown _ held here).mono first.next) found
    split at ran
    · cases ran
    · next found' =>
      cases ran
      exact ⟨rfl,middle,outer,dictOrEmpty_gives outer.grown.closed (fun held here => outer.grown.closed _ _ held outer.known here) found'⟩

theorem joined_ok (closed : Closed objects) (old : existing < objects.next) (given : payload < objects.next)
    (ran : joined objects existing payload = (objects',.ok (merged,config,configurable))) :
    merged = objects.next ∧ merged < objects'.next ∧ config < objects'.next ∧ configurable < objects'.next ∧
      slot objects' merged "assistant_id" = (shallow objects existing payload).lookup "assistant_id" := by
  obtain ⟨rfl,middle,outer,inner⟩ := joined_gives closed old given ran
  have new : objects.next < (objects.alloc (shallow objects existing payload)).1.next := Nat.lt_succ_self _
  have there := Nat.lt_of_lt_of_le new outer.grown.next
  refine ⟨rfl,Nat.lt_of_lt_of_le there inner.grown.next,Nat.lt_of_lt_of_le outer.known inner.grown.next,inner.known,?_⟩
  rw [inner.old _ _ there,outer.old _ _ new,slot_alloc_new]

-- A `configurable` that was there before is the one of what is given, or of what
-- is stored.
theorem joined_reaches (closed : Closed objects) (old : existing < objects.next) (given : payload < objects.next)
    (ran : joined objects existing payload = (objects',.ok (merged,config,configurable))) (before : configurable < objects.next) :
    Reaches objects payload configurable ∨ Reaches objects existing configurable := by
  obtain ⟨rfl,middle,outer,inner⟩ := joined_gives closed old given ran
  rcases inner.source with ⟨_,there⟩ | ⟨rfl,_⟩
  · rcases outer.source with ⟨rfl,here⟩ | ⟨_,bare,_⟩
    · rw [lookup_shallow] at here
      rcases Option.or_eq_some_iff.mp here with sent | ⟨_,stored⟩
      · have known := closed payload _ _ given sent config rfl
        exact .inl ⟨config,sent,(slot_alloc_old known).symm.trans there⟩
      · have known := closed existing _ _ old stored config rfl
        exact .inr ⟨config,stored,(slot_alloc_old known).symm.trans there⟩
    · cases (bare _).symm.trans there
  · exact absurd (Nat.lt_of_lt_of_le before (Nat.le_trans (Nat.le_succ _) outer.grown.next)) (Nat.lt_irrefl _)

-- What is written into `config` is there already if a record sees it.
theorem joined_seen (closed : Closed objects) (old : existing < objects.next) (given : payload < objects.next)
    (ran : joined objects existing payload = (objects',.ok (merged,config,configurable))) {other inner : Nat} {assistantId cronId : String}
    (linked : Linked objects' other assistantId cronId config inner) : inner = configurable := by
  obtain ⟨rfl,middle,outer,inner_⟩ := joined_gives closed old given ran
  have held := (inner_.old config "configurable" outer.known).symm.trans linked.inner
  rcases inner_.source with ⟨_,there⟩ | ⟨_,_,bare⟩
  · cases held.symm.trans there
    rfl
  · have known := outer.grown.closed config _ _ outer.known held inner rfl
    have gone := inner_.old inner "cron_id" known
    rw [linked.named,slot,bare inner held] at gone
    cases gone

end joining

-- The id goes to a payload that no record of another id sees.
theorem merged_linked (closed : Closed objects) (old : existing < objects.next) (given : payload < objects.next) {named : String}
    {other config configurable : Nat} {assistantId cronId : String} (linked : Linked objects other assistantId cronId config configurable)
    (apart : Reaches objects payload configurable ∨ Reaches objects existing configurable → cronId = named) :
    Linked (CronPayloads.merged objects existing payload named).1 other assistantId cronId config configurable := by
  have grown := (joined_extends closed old given).linked linked
  unfold CronPayloads.merged
  split
  · next found => rw [found] at grown; exact grown
  · next objects' merged config' configurable' found =>
    rw [found] at grown
    obtain ⟨new,_⟩ := joined_ok closed old given found
    have first : Linked (setIn objects' configurable' "cron_id" (text named)) other assistantId cronId config configurable := by
      refine grown.setName fun here => ?_
      subst here
      exact apart (joined_reaches closed old given found (linked.inside closed).2)
    have second : Linked (setIn (setIn objects' configurable' "cron_id" (text named)) config' "configurable" (.dict configurable')) other
        assistantId cronId config configurable := by
      refine first.setIn (fun _ other => absurd other (by decide)) (fun _ other => absurd other (by decide)) (fun here _ => ?_)
        fun _ other => absurd other (by decide)
      subst here
      rw [joined_seen closed old given found grown]
    refine second.setIn (fun _ other => absurd other (by decide)) (fun here _ => ?_) (fun _ other => absurd other (by decide))
      fun _ other => absurd other (by decide)
    rw [← here,new] at linked
    exact absurd linked.known (Nat.lt_irrefl _)

theorem merged_closed (closed : Closed objects) (old : existing < objects.next) (given : payload < objects.next) (named : String) :
    Closed (CronPayloads.merged objects existing payload named).1 ∧ objects.next ≤ (CronPayloads.merged objects existing payload named).1.next := by
  have grown := joined_extends closed old given
  unfold CronPayloads.merged
  split
  · next found => rw [found] at grown; exact ⟨grown.closed,grown.next⟩
  · next objects' merged config configurable found =>
    rw [found] at grown
    obtain ⟨_,_,inside,inside',_⟩ := joined_ok closed old given found
    refine ⟨Closed.setIn (Closed.setIn (grown.closed.setIn nofun) fun _ same => ?_) fun _ same => ?_,grown.next⟩
    · cases same
      exact inside'
    · cases same
      exact inside

-- Whatever a caller sends, the assistant and the id stay.
theorem merged_ok (closed : Closed objects) (old : existing < objects.next) (given : payload < objects.next) {named assistantId : String}
    (stored : slot objects existing "assistant_id" = some (text assistantId)) {objects' : Objects} {merged : Nat}
    (ran : CronPayloads.merged objects existing payload named = (objects',.ok merged)) :
    ∃ config configurable, Linked objects' merged assistantId named config configurable := by
  unfold CronPayloads.merged at ran
  split at ran
  · cases ran
  · next middle merged' config configurable found =>
    cases ran
    obtain ⟨_,there,_,_,kept⟩ := joined_ok closed old given found
    rw [lookup_shallow,stored] at kept
    refine ⟨config,configurable,there,?_,?_,?_,?_⟩ <;> simp only [slot_setIn]
    · simpa using kept
    · simp
    · simp
    · simp

end merging
end InmemRuntime.PayloadObjects
