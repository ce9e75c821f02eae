import InmemRuntime.PayloadObjects

namespace InmemRuntime.CronInvariant
open ThreadTtl PythonJson CronUpdates CronPayloads PayloadObjects
open CronRecords hiding draft put update updateRecord writePayload Operation step Runs

-- The payload has the assistant and the id of its cron, and a cron has something
-- to do with its thread exactly if the thread is not somebody's.
structure Sound (objects : Objects) (c : CronRecordOf Nat) : Prop where
  payload : ∃ config configurable, Linked objects c.payload c.assistantId c.cronId config configurable
  bound : c.threadId.isSome = true → c.onRunCompleted = none
  free : c.threadId = none → c.onRunCompleted.isSome = true

structure Invariant (s : State Objects Nat) : Prop where
  closed : Closed s.objects
  sound : ∀ c ∈ s.crons, Sound s.objects c

section conditions
variable (packages : Packages) (w : Wake) (s : State Objects Nat)

-- The `configurable` that the id is written into is no other cron's.
def Apart (payload : Nat) (cronId : String) : Prop :=
  ∀ c ∈ s.crons, ∀ configurable, Reaches s.objects payload configurable → Reaches s.objects c.payload configurable → c.cronId = cronId

-- A payload that a cron has names its assistant already.
structure MeetsPut (call : PutCallOf Nat) : Prop where
  known : ∀ payload, call.payload = some payload → payload < s.objects.next
  apart : ∀ threadId payload, threadOf packages call.threadId = .ok threadId → call.payload = some payload →
    Apart s payload (call.cronId.getD w.newId)
  assistant : ∀ threadId filters payload, threadOf packages call.threadId = .ok threadId → w.auth = .ok filters →
    packages.isValid call.schedule = true → call.payload = some payload → ∀ c ∈ s.crons, c.payload = payload →
      ∀ assistantId, packages.getAssistantId (.str c.assistantId) = .ok assistantId → assistantId = c.assistantId

-- What an update that gets past the schedule is allowed to do.
structure MeetsUpdate (call : UpdateCallOf Nat) (c : CronRecordOf Nat) : Prop where
  known : ∀ payload, call.payload = some payload → payload < s.objects.next
  unbound : ¬ BadSchedule packages call → ¬ Undated packages w call c → call.onRunCompleted.isSome = true → c.threadId = none
  apart : ¬ BadSchedule packages call → ¬ Undated packages w call c → ∀ payload, call.payload = some payload → Apart s payload call.cronId

def Meets : Wake × Operation → Prop
  | (_,.build dictionary) => ∀ row ∈ dictionary, Within s.objects row.2
  | (w,.put call) => MeetsPut packages w s call
  | (w,.update call) => ∀ filters c, w.auth = .ok filters → found s.crons call filters = .ok c → MeetsUpdate packages w s call c
  | _ => True

end conditions

section putting
variable {packages : Packages} {w : Wake} {s : State Objects Nat} {call : PutCallOf Nat}

theorem resolve_ok {objects : Objects} {payload : Nat} {schedule : String} {filters : Filters} {assistantId : String}
    (resolved : resolve shared packages w objects payload schedule = .ok (filters,assistantId)) :
    w.auth = .ok filters ∧ packages.isValid schedule = true ∧
      ∃ named, CronPayloads.assistant objects payload = .ok named ∧ packages.getAssistantId named = .ok assistantId := by
  obtain ⟨_,allowed,resolved⟩ := Outcomes.bind_ok.mp resolved
  obtain ⟨_,valid,resolved⟩ := Outcomes.bind_ok.mp resolved
  obtain ⟨named,given,resolved⟩ := Outcomes.bind_ok.mp resolved
  obtain ⟨_,found,resolved⟩ := Outcomes.bind_ok.mp resolved
  cases resolved
  refine ⟨allowed,?_,named,given,found⟩
  unfold validateSchedule at valid
  split at valid
  · assumption
  · cases valid

-- What a `put` writes before it is through leaves every cron its payload.
theorem draft_linked (inv : Invariant s) (meets : MeetsPut packages w s call) {c : CronRecordOf Nat} (stored : c ∈ s.crons)
    {config configurable : Nat} (linked : Linked s.objects c.payload c.assistantId c.cronId config configurable) :
    Linked (draft shared packages w s.objects call).1 c.payload c.assistantId c.cronId config configurable := by
  unfold draft
  dsimp only
  split
  · exact linked
  · next threadId thread =>
    have grown := named_linked inv.closed meets.known linked fun payload given reaches =>
      meets.apart threadId payload thread given c stored configurable reaches linked.reaches
    dsimp only [shared]
    split
    · next found => rw [found] at grown; exact grown
    · next objects payload found =>
      rw [found] at grown
      obtain ⟨same,there,_⟩ := named_ok inv.closed meets.known found
      split
      · exact grown
      · next filters assistantId resolved =>
        refine grown.setIn (fun here _ => ?_) (fun _ other => absurd other (by decide)) (fun _ other => absurd other (by decide))
          fun _ other => absurd other (by decide)
        obtain ⟨allowed,valid,named,read,meant⟩ := resolve_ok resolved
        unfold CronPayloads.assistant at read
        rw [here,grown.assistant] at read
        cases read
        cases given : call.payload with
        | some sent =>
          rw [given] at same
          rw [meets.assistant threadId filters sent thread allowed valid given c stored (here.symm.trans same) assistantId meant]
        | none =>
          rw [given] at same
          exact absurd linked.known (by rw [← here,same]; exact Nat.lt_irrefl _)

theorem draft_closed (packages : Packages) (w : Wake) (inv : Invariant s) (call : PutCallOf Nat) : Closed (draft shared packages w s.objects call).1 := by
  have grown := (named_closed inv.closed call.payload (call.cronId.getD w.newId)).1
  unfold draft
  dsimp only [shared]
  split
  · exact inv.closed
  · split
    · next found => rw [found] at grown; exact grown
    · next objects payload found =>
      rw [found] at grown
      split
      · exact grown
      · exact grown.setIn nofun

theorem draft_ok (inv : Invariant s) (meets : MeetsPut packages w s call) {objects : Objects} {d : Draft Nat}
    (drafted : draft shared packages w s.objects call = (objects,.ok d)) :
    ∃ config configurable, Linked objects d.payload d.assistantId d.cronId config configurable := by
  unfold draft at drafted
  dsimp only [shared] at drafted
  split at drafted
  · cases drafted
  · split at drafted
    · cases drafted
    · next middle payload found =>
      obtain ⟨_,there,config,configurable,outer,inner,named⟩ := named_ok inv.closed meets.known found
      split at drafted
      · cases drafted
      · obtain ⟨same,drafted⟩ := Prod.mk.inj drafted
        obtain ⟨_,_,made⟩ := Outcomes.map_ok.mp drafted
        subst same made
        refine ⟨config,configurable,there,?_,?_,?_,?_⟩ <;> rw [assigned,slot_setIn]
        · rw [if_pos ⟨rfl,rfl⟩]
        · rwa [if_neg fun both => absurd both.2 (by decide)]
        · rwa [if_neg fun both => absurd both.2 (by decide)]
        · rwa [if_neg fun both => absurd both.2 (by decide)]

theorem put_sound (inv : Invariant s) (meets : MeetsPut packages w s call) : Invariant (put shared packages w s call).1 := by
  have closed := draft_closed packages w inv call
  have old : ∀ c ∈ s.crons, Sound (draft shared packages w s.objects call).1 c := by
    intro c stored
    obtain ⟨⟨config,configurable,linked⟩,bound,free⟩ := inv.sound c stored
    exact ⟨⟨config,configurable,draft_linked inv meets stored linked⟩,bound,free⟩
  unfold put
  split
  · next found => rw [found] at closed old; exact ⟨closed,old⟩
  · next objects d found =>
    rw [found] at closed old
    split
    · exact ⟨closed,old⟩
    · split
      · exact ⟨closed,old⟩
      · refine ⟨closed,fun c member => ?_⟩
        rcases List.mem_append.mp member with before | new
        · exact old c before
        · rw [List.mem_singleton.mp new]
          exact ⟨draft_ok inv meets found,fun bound => if_pos bound,fun free => by simp [newCron,show d.threadId = none from free]⟩

end putting

section updating
variable {packages : Packages} {w : Wake} {s : State Objects Nat} {call : UpdateCallOf Nat} {c : CronRecordOf Nat}

theorem writeFields_sound {objects : Objects} (sound : Sound objects c) (unbound : call.onRunCompleted.isSome = true → c.threadId = none) :
    Sound objects (writeFields call c) := by
  refine ⟨sound.payload,fun bound => ?_,fun free => ?_⟩
  · have none_ : call.onRunCompleted = none := by
      cases given : call.onRunCompleted with
      | none => rfl
      | some completed =>
        have free := unbound (by rw [given]; rfl)
        rw [show (writeFields call c).threadId = c.threadId from rfl,free] at bound
        cases bound
    have kept := sound.bound bound
    simp [writeFields,none_,kept]
  · have held := sound.free free
    cases given : call.onRunCompleted <;> simp [writeFields,given,held]

-- Two crons with one `configurable` have one id.
theorem reaches_named {objects : Objects} {payload other config configurable : Nat} {assistantId cronId assistantId' cronId' : String}
    {config' inner : Nat} (linked : Linked objects payload assistantId cronId config configurable)
    (linked' : Linked objects other assistantId' cronId' config' inner) (reaches : Reaches objects payload inner) : cronId' = cronId := by
  obtain ⟨_,outer,there⟩ := reaches
  cases linked.outer.symm.trans outer
  cases linked.inner.symm.trans there
  cases linked.named.symm.trans linked'.named
  rfl

theorem writePayload_keeps {objects : Objects} (closed : Closed objects) (known : ∀ payload, call.payload = some payload → payload < objects.next)
    (named : c.cronId = call.cronId) (sound : Sound objects c) {x : CronRecordOf Nat} (held : Sound objects x)
    (apart : ∀ payload configurable, call.payload = some payload → Reaches objects payload configurable →
      Reaches objects x.payload configurable → x.cronId = call.cronId) : Sound (writePayload shared w objects call c).1 x := by
  unfold writePayload
  dsimp only [shared]
  split
  · exact held
  · next payload given =>
    obtain ⟨⟨config,configurable,linked⟩,bound,free⟩ := held
    obtain ⟨⟨config',inner,linked'⟩,_,_⟩ := sound
    have kept := merged_linked closed linked'.known (known payload given) linked fun either => either.elim
      (fun sent => apart payload configurable given sent linked.reaches) fun stored => (reaches_named linked' linked stored).trans named
    split
    · next found => rw [found] at kept; exact ⟨⟨config,configurable,kept⟩,bound,free⟩
    · next found => rw [found] at kept; exact ⟨⟨config,configurable,kept⟩,bound,free⟩

theorem writePayload_self {objects : Objects} (closed : Closed objects) (known : ∀ payload, call.payload = some payload → payload < objects.next)
    (named : c.cronId = call.cronId) (sound : Sound objects c) :
    Closed (writePayload shared w objects call c).1 ∧
      Sound (writePayload shared w objects call c).1 (writePayload shared w objects call c).2.1 := by
  have old := writePayload_keeps (w:=w) closed known named sound sound fun _ _ _ _ _ => named
  unfold writePayload at old ⊢
  dsimp only [shared] at old ⊢
  split
  · exact ⟨closed,⟨sound.payload,sound.bound,sound.free⟩⟩
  · next payload given =>
    obtain ⟨config,configurable,linked⟩ := sound.payload
    have grown := (merged_closed closed linked.known (known payload given) call.cronId).1
    rw [given] at old
    dsimp only at old
    split
    · next found => rw [found] at grown old; exact ⟨grown,old⟩
    · next found =>
      rw [found] at grown
      have fresh := merged_ok closed linked.known (known payload given) linked.assistant found
      rw [← named] at fresh
      exact ⟨grown,⟨fresh,sound.bound,sound.free⟩⟩

theorem updateRecord_sound (inv : Invariant s) (stored : c ∈ s.crons) (named : c.cronId = call.cronId) (meets : MeetsUpdate packages w s call c) :
    Closed (updateRecord shared packages w s.objects call c).1 ∧ (∀ x ∈ s.crons, Sound (updateRecord shared packages w s.objects call c).1 x) ∧
      Sound (updateRecord shared packages w s.objects call c).1 (updateRecord shared packages w s.objects call c).2.1 := by
  have sound := inv.sound c stored
  unfold updateRecord
  rcases reschedule_cases packages w call c with ⟨_,fault,ran⟩ | ⟨_,fault,ran⟩ | ⟨good,reached,date,_,ran⟩ <;> rw [ran] <;> dsimp only
  · exact ⟨inv.closed,inv.sound,⟨sound.payload,sound.bound,sound.free⟩⟩
  · exact ⟨inv.closed,inv.sound,⟨sound.payload,sound.bound,sound.free⟩⟩
  · have moved : Sound s.objects {scheduled call c with nextRunDate := date} := ⟨sound.payload,sound.bound,sound.free⟩
    have written : Sound s.objects (completed call c date) := writeFields_sound moved (meets.unbound good reached)
    have named' : (completed call c date).cronId = call.cronId := named
    obtain ⟨closed,self⟩ := writePayload_self (w:=w) inv.closed meets.known named' written
    exact ⟨closed,fun x member => writePayload_keeps inv.closed meets.known named' written (inv.sound x member)
      fun payload configurable given sent there => meets.apart good reached payload given x member configurable sent there,self⟩

theorem update_sound (inv : Invariant s)
    (meets : ∀ filters c, w.auth = .ok filters → found s.crons call filters = .ok c → MeetsUpdate packages w s call c) :
    Invariant (update shared packages w s call).1 := by
  unfold update
  split
  · exact inv
  · next filters allowed =>
    split
    · exact inv
    · next c finds =>
      obtain ⟨_,stored,same,_⟩ := found_parts finds
      obtain ⟨closed,others,self⟩ := updateRecord_sound inv stored same (meets filters c allowed finds)
      refine ⟨closed,fun x member => ?_⟩
      rcases mem_writeFirst member with old | rfl
      · exact others x old
      · exact self

end updating

section result
variable {packages : Packages} {s : State Objects Nat}

theorem setNextRunDate_sound (inv : Invariant s) (cronId : String) (date : Int) :
    Invariant {s with crons := setNextRunDate s.crons cronId date} := by
  unfold setNextRunDate
  split
  · exact inv
  · rename_i c stored
    refine ⟨inv.closed,fun x member => ?_⟩
    rcases mem_writeFirst member with old | rfl
    · exact inv.sound x old
    · have held := inv.sound c (List.mem_of_find?_eq_some stored)
      exact ⟨held.payload,held.bound,held.free⟩

theorem delete_sound (inv : Invariant s) (w : Wake) (cronId : String) : Invariant {s with crons := (delete w s.crons cronId).1} := by
  unfold delete
  split
  · exact inv
  · exact ⟨inv.closed,fun c member => inv.sound c (List.mem_filter.mp member).1⟩

theorem build_sound (inv : Invariant s) {dictionary : Dictionary} (within : ∀ row ∈ dictionary, Within s.objects row.2) :
    Invariant {s with objects := (s.objects.alloc dictionary).1} := by
  have each : ∀ key value, dictionary.lookup key = some value → Within s.objects value := by
    intro key value found
    obtain ⟨before,after,split,_⟩ := List.lookup_eq_some_iff.mp found
    refine within (key,value) ?_
    rw [split]
    exact List.mem_append_right _ List.mem_cons_self
  have grown := extends_alloc inv.closed each
  refine ⟨grown.closed,fun c member => ?_⟩
  obtain ⟨⟨config,configurable,linked⟩,bound,free⟩ := inv.sound c member
  exact ⟨⟨config,configurable,grown.linked linked⟩,bound,free⟩

theorem step_sound (s : State Objects Nat) (event : Wake × Operation) (inv : Invariant s) (meets : Meets packages s event) :
    Invariant (step packages s event) := by
  obtain ⟨w,operation⟩ := event
  cases operation with
  | build dictionary => exact build_sound inv meets
  | put call => exact put_sound inv meets
  | update call => exact update_sound inv meets
  | setNextRunDate cronId date => exact setNextRunDate_sound inv cronId date
  | delete cronId => exact delete_sound inv w cronId

theorem crons_sound (packages : Packages) (taken : List (State Objects Nat × (Wake × Operation))) (s : State Objects Nat)
    (runs : Runs packages taken s) (meets : ∀ row ∈ taken, Meets packages row.1 row.2) :
    (∀ c ∈ s.crons, Sound s.objects c) ∧ ∀ row ∈ taken, ∀ c ∈ row.1.crons, Sound row.1.objects c := by
  have begins : Invariant CronPayloads.empty := ⟨fun ref _ _ known _ => absurd known (Nat.not_lt_zero ref),fun c member => by cases member⟩
  obtain ⟨ends,between⟩ := Histories.runs_invariant runs begins step_sound meets
  exact ⟨ends.sound,fun row member => (between row member).sound⟩

end result

-- A cron of a thread and one without, and what a caller would like to be in the
-- payload of the second.
section toy

def sent : Dictionary := [("assistant_id",text "a")]

def putCall (payload : Option Nat) (cronId : String) (threadId : Option String) : PutCallOf Nat :=
  ⟨payload,everyMinute,some cronId,threadId,none,none,none,true,none⟩

def keepCall (payload : Option Nat) (cronId : String) : UpdateCallOf Nat := ⟨cronId,none,none,false,none,some .keep,payload,none,none⟩

def ran (operations : List Operation) : List (State Objects Nat × (Wake × Operation)) :=
  Histories.trace (step toyPackages) CronPayloads.empty (operations.map fun operation => (toyWake,operation))

theorem ran_runs (operations : List Operation) : Runs toyPackages (ran operations)
    ((operations.map fun operation => (toyWake,operation)).foldl (step toyPackages) CronPayloads.empty) :=
  Histories.runs_trace .nil _

theorem crons_sound_toy : ∃ s, Runs toyPackages (ran [.build sent,.put (putCall (some 0) "c" (some "t")),.build sent,
      .put (putCall (some 3) "d" none),.build [("assistant_id",text "b"),("config",.dict 4)],.update (keepCall (some 6) "d")]) s ∧
    ∀ c ∈ s.crons, Sound s.objects c := by
  refine ⟨_,ran_runs _,(crons_sound toyPackages _ _ (ran_runs _) ?_).1⟩
  refine List.forall_mem_cons.mpr ⟨?_,List.forall_mem_cons.mpr ⟨⟨?_,?_,?_⟩,List.forall_mem_cons.mpr ⟨?_,
    List.forall_mem_cons.mpr ⟨⟨?_,?_,?_⟩,List.forall_mem_cons.mpr ⟨?_,List.forall_mem_cons.mpr ⟨?_,fun _ none_ => by cases none_⟩⟩⟩⟩⟩⟩
  · intro row member
    rw [List.mem_singleton.mp member]
    exact nofun
  · intro payload given
    cases given
    decide
  · intro threadId payload thread given c member
    cases member
  · intro threadId filters payload thread allowed valid given c member
    cases member
  · intro row member
    rw [List.mem_singleton.mp member]
    exact nofun
  · intro payload given
    cases given
    decide
  · intro threadId payload thread given c member configurable ⟨config,outer,_⟩
    cases given
    cases outer
  · intro threadId filters payload thread allowed valid given c member same assistantId found
    cases given
    rw [List.mem_singleton.mp member] at same
    cases same
  · refine List.forall_mem_cons.mpr ⟨nofun,List.forall_mem_cons.mpr ⟨fun inner same => ?_,fun _ none_ => by cases none_⟩⟩
    cases same
    decide
  · intro filters c allowed finds
    cases allowed
    cases finds
    refine ⟨fun payload given => ?_,fun _ _ _ => rfl,fun _ _ payload given c member configurable reaches there => ?_⟩
    · cases given
      decide
    · cases given
      obtain ⟨config,outer,inner⟩ := reaches
      cases outer
      cases inner
      rcases List.mem_cons.mp member with rfl | last
      · obtain ⟨config,outer,inner⟩ := there
        cases outer
        cases inner
      · rw [List.mem_singleton.mp last]
        rfl

-- The cron of a thread is told what to do with it when a run is over. Two crons
-- that are made of one payload have the id of the second.
theorem unsound_crons : (∃ s, Runs toyPackages (ran [.build sent,.put (putCall (some 0) "c" (some "t")),.update (keepCall none "c")]) s ∧
      (∃ c ∈ s.crons, c.threadId = some "t" ∧ c.onRunCompleted = some .keep) ∧ ¬ ∀ c ∈ s.crons, Sound s.objects c) ∧
    ∃ s, Runs toyPackages (ran [.build sent,.put (putCall (some 0) "c" none),.put (putCall (some 0) "d" none)]) s ∧
      (∃ c ∈ s.crons, c.cronId = "c" ∧ ∃ configurable, Reaches s.objects c.payload configurable ∧
        slot s.objects configurable "cron_id" = some (text "d")) ∧ ¬ ∀ c ∈ s.crons, Sound s.objects c := by
  refine ⟨⟨_,ran_runs _,⟨_,List.mem_cons_self,rfl,rfl⟩,fun sound => ?_⟩,
    _,ran_runs _,⟨_,List.mem_cons_self,rfl,2,⟨1,rfl,rfl⟩,rfl⟩,fun sound => ?_⟩
  · have held := sound _ List.mem_cons_self
    cases held.bound rfl
  · obtain ⟨config,configurable,linked⟩ := (sound _ List.mem_cons_self).payload
    cases linked.outer
    cases linked.inner
    have same : text "d" = text "c" := Option.some.inj linked.named
    exact absurd (Json.str.inj (Slot.other.inj same)) (by decide)

end toy
end InmemRuntime.CronInvariant
