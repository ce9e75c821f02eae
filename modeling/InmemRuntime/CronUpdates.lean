import InmemRuntime.CronRecords
import InmemRuntime.Mutations

namespace InmemRuntime.CronUpdates
open ThreadTtl PythonJson CronRecords

section conditions
variable {P : Type} (packages : Packages) (w : Wake)

-- Whether the date of the next run is worked out anew, and from what.
def reckons (call : UpdateCallOf P) : Bool := call.schedule.isSome || call.timezone.isSome
def scheduleAfter (call : UpdateCallOf P) (c : CronRecordOf P) : String := call.schedule.getD c.schedule
def zoneAfter (call : UpdateCallOf P) (c : CronRecordOf P) : Option String := call.timezone.or c.timezone

-- The three ways to fail once a cron is found, in the order in which they are
-- met.
def BadSchedule (call : UpdateCallOf P) : Prop := ∃ schedule, call.schedule = some schedule ∧ packages.isValid schedule = false

def Undated (call : UpdateCallOf P) (c : CronRecordOf P) : Prop := ¬ BadSchedule packages call ∧ reckons call = true ∧
  ∃ fault, packages.nextCronDate (scheduleAfter call c) w.now (zoneAfter call c) = .error fault

def BadPayload (call : UpdateCall) (c : CronRecord) : Prop := ¬ BadSchedule packages call ∧ ¬ Undated packages w call c ∧
  ∃ payload fault, call.payload = some payload ∧ mergedPayload c.payload payload call.cronId = .error fault

-- What is given is what the cron has.
def SameZone (call : UpdateCallOf P) (c : CronRecordOf P) : Prop := ∀ zone, call.timezone = some zone → c.timezone = some zone
def SameSchedule (call : UpdateCallOf P) (c : CronRecordOf P) : Prop := ∀ schedule, call.schedule = some schedule → c.schedule = schedule

structure SameRest (call : UpdateCall) (c : CronRecord) : Prop where
  cleared : call.clearEndTime = true → c.endTime = none
  endTime : call.clearEndTime = false → ∀ time, call.endTime = some time → c.endTime = some time
  enabled : ∀ enabled, call.enabled = some enabled → c.enabled = enabled
  onRunCompleted : ∀ completed, call.onRunCompleted = some completed → c.onRunCompleted = some completed
  metadata : ∀ metadata, call.metadata = some metadata → merge c.metadata metadata = c.metadata

-- What is written before a failure is there already.
structure Ready (call : UpdateCall) (c : CronRecord) : Prop where
  schedule : BadSchedule packages call → SameZone call c
  date : Undated packages w call c → SameZone call c ∧ SameSchedule call c
  payload : BadPayload packages w call c → SameZone call c ∧ SameSchedule call c ∧ SameRest call c ∧
    (reckons call = true → packages.nextCronDate c.schedule w.now c.timezone = .ok c.nextRunDate)

structure AtomicUpdate (crons : List CronRecord) (call : UpdateCall) : Prop where
  raised : ∀ fault, (update packages w crons call).2 = .error fault → (update packages w crons call).1 = crons
  returned : ∀ c', (update packages w crons call).2 = .ok c' → ∃ c, crons.find? (isCron call.cronId) = some c ∧
    (update packages w crons call).1.find? (isCron call.cronId) = some c' ∧
    if reckons call then packages.nextCronDate c'.schedule w.now c'.timezone = .ok c'.nextRunDate
    else c'.nextRunDate = c.nextRunDate

end conditions

section scheduling
variable {P : Type} {packages : Packages} {w : Wake} {call : UpdateCallOf P} {c : CronRecordOf P}

theorem sameZone_iff : zoneAfter call c = c.timezone ↔ SameZone call c := by
  unfold zoneAfter SameZone
  cases call.timezone with
  | none => simp
  | some zone => simp [eq_comm]

theorem sameSchedule_iff : scheduleAfter call c = c.schedule ↔ SameSchedule call c := by
  unfold scheduleAfter SameSchedule
  cases call.schedule with
  | none => simp
  | some schedule => simp [eq_comm]

def zoned (call : UpdateCallOf P) (c : CronRecordOf P) : CronRecordOf P := {c with timezone := zoneAfter call c}
def scheduled (call : UpdateCallOf P) (c : CronRecordOf P) : CronRecordOf P := {zoned call c with schedule := scheduleAfter call c}

theorem dated_cases (packages : Packages) (w : Wake) (c : CronRecordOf P) :
    (∃ fault, packages.nextCronDate c.schedule w.now c.timezone = .error fault ∧ dated packages w c = (c,.error fault)) ∨
      ∃ date, packages.nextCronDate c.schedule w.now c.timezone = .ok date ∧ dated packages w c = ({c with nextRunDate := date},.ok ()) := by
  unfold dated
  cases packages.nextCronDate c.schedule w.now c.timezone with
  | error fault => exact .inl ⟨fault,rfl,rfl⟩
  | ok date => exact .inr ⟨date,rfl,rfl⟩

-- The date that a cron has when the first part of an update is through.
def Dated (packages : Packages) (w : Wake) (call : UpdateCallOf P) (c : CronRecordOf P) (date : Int) : Prop :=
  if reckons call then packages.nextCronDate (scheduleAfter call c) w.now (zoneAfter call c) = .ok date else date = c.nextRunDate

theorem dated_scheduled (valid : ¬ BadSchedule packages call) (reckoned : reckons call = true) :
    Undated packages w call c ∧ (∃ fault, dated packages w (scheduled call c) = (scheduled call c,.error fault)) ∨
      ¬ Undated packages w call c ∧ ∃ date, Dated packages w call c date ∧
        dated packages w (scheduled call c) = ({scheduled call c with nextRunDate := date},.ok ()) := by
  rcases dated_cases packages w (scheduled call c) with ⟨fault,fails,same⟩ | ⟨date,found,same⟩
  · exact .inl ⟨⟨valid,reckoned,fault,fails⟩,fault,same⟩
  · refine .inr ⟨fun ⟨_,_,fault,fails⟩ => ?_,date,?_,same⟩
    · cases fails.symm.trans found
    · rw [Dated,if_pos reckoned]
      exact found

-- How far the first part of an update gets.
theorem reschedule_cases (packages : Packages) (w : Wake) (call : UpdateCallOf P) (c : CronRecordOf P) :
    (BadSchedule packages call ∧ ∃ fault, reschedule packages w call c = (zoned call c,.error fault)) ∨
    (Undated packages w call c ∧ ∃ fault, reschedule packages w call c = (scheduled call c,.error fault)) ∨
    (¬ BadSchedule packages call ∧ ¬ Undated packages w call c ∧ ∃ date, Dated packages w call c date ∧
      reschedule packages w call c = ({scheduled call c with nextRunDate := date},.ok ())) := by
  cases given : call.schedule with
  | some schedule =>
    cases valid : packages.isValid schedule with
    | false =>
      refine .inl ⟨⟨schedule,given,valid⟩,invalidSchedule schedule,?_⟩
      simp [reschedule,given,validateSchedule,valid,zoned,zoneAfter]
    | true =>
      have good : ¬ BadSchedule packages call := by
        intro ⟨other,same,bad⟩
        cases given.symm.trans same
        rw [valid] at bad
        cases bad
      have same : reschedule packages w call c = dated packages w (scheduled call c) := by
        simp [reschedule,given,validateSchedule,valid,scheduled,zoned,zoneAfter,scheduleAfter]
      rw [same]
      rcases dated_scheduled good (by simp [reckons,given]) with fails | found
      · exact .inr (.inl fails)
      · exact .inr (.inr ⟨good,found⟩)
  | none =>
    have good : ¬ BadSchedule packages call := by
      intro ⟨other,same,_⟩
      cases given.symm.trans same
    have kept : scheduled call c = zoned call c := by simp [scheduled,scheduleAfter,given,zoned]
    cases zone : call.timezone with
    | some timezone =>
      have same : reschedule packages w call c = dated packages w (scheduled call c) := by
        rw [kept]
        simp [reschedule,given,zone,zoned,zoneAfter]
      rw [same]
      rcases dated_scheduled good (by simp [reckons,zone]) with fails | found
      · exact .inr (.inl fails)
      · exact .inr (.inr ⟨good,found⟩)
    | none =>
      refine .inr (.inr ⟨good,fun undated => ?_,c.nextRunDate,?_,?_⟩)
      · simp [Undated,reckons,given,zone] at undated
      · simp [Dated,reckons,given,zone]
      · rw [kept]
        simp [reschedule,given,zone,zoned,zoneAfter]

def completed (call : UpdateCallOf P) (c : CronRecordOf P) (date : Int) : CronRecordOf P :=
  writeFields call {scheduled call c with nextRunDate := date}

end scheduling

section writings
variable {packages : Packages} {w : Wake} {call : UpdateCall} {c : CronRecord}

-- The payload that an update leaves.
def Merged (call : UpdateCall) (c : CronRecord) (merged : Fields) : Prop :=
  match call.payload with
  | none => merged = c.payload
  | some payload => mergedPayload c.payload payload call.cronId = .ok merged

theorem writePayload_cases (w : Wake) (call : UpdateCall) (c : CronRecord) :
    (∃ payload fault, call.payload = some payload ∧ mergedPayload c.payload payload call.cronId = .error fault ∧
      writePayload w call c = (c,.error fault)) ∨
    ((∀ payload fault, call.payload = some payload → mergedPayload c.payload payload call.cronId ≠ .error fault) ∧
      ∃ payload, Merged call c payload ∧ writePayload w call c = ({c with payload, updatedAt := w.later},.ok ())) := by
  unfold writePayload Merged
  cases given : call.payload with
  | none => exact .inr ⟨(fun _ _ some_ => by cases some_),c.payload,rfl,rfl⟩
  | some payload =>
    cases merged : mergedPayload c.payload payload call.cronId with
    | error fault => exact .inl ⟨payload,fault,rfl,merged,by simp only [merged]⟩
    | ok payload' =>
      refine .inr ⟨fun other fault same fails => ?_,payload',merged,by simp only [merged]⟩
      cases same
      cases merged.symm.trans fails

theorem updateRecord_cases (packages : Packages) (w : Wake) (call : UpdateCall) (c : CronRecord) :
    (BadSchedule packages call ∧ ∃ fault, updateRecord packages w call c = (zoned call c,.error fault)) ∨
    (Undated packages w call c ∧ ∃ fault, updateRecord packages w call c = (scheduled call c,.error fault)) ∨
    ∃ date, Dated packages w call c date ∧
      ((BadPayload packages w call c ∧ ∃ fault, updateRecord packages w call c = (completed call c date,.error fault)) ∨
        (¬ BadSchedule packages call ∧ ¬ Undated packages w call c ∧ ¬ BadPayload packages w call c ∧
          ∃ payload, Merged call c payload ∧ updateRecord packages w call c = ({completed call c date with payload, updatedAt := w.later},.ok ()))) := by
  rcases reschedule_cases packages w call c with ⟨bad,fault,same⟩ | ⟨undated,fault,same⟩ | ⟨good,reached,date,found,same⟩
  · exact .inl ⟨bad,fault,by rw [updateRecord,same]⟩
  · exact .inr (.inl ⟨undated,fault,by rw [updateRecord,same]⟩)
  · have last : updateRecord packages w call c = writePayload w call (completed call c date) := by
      rw [updateRecord,same]
      rfl
    rw [last]
    refine .inr (.inr ⟨date,found,?_⟩)
    rcases writePayload_cases w call (completed call c date) with ⟨payload,fault,given,fails,same⟩ | ⟨sound,payload,merged,same⟩
    · exact .inl ⟨⟨good,reached,payload,fault,given,fails⟩,fault,same⟩
    · exact .inr ⟨good,reached,fun ⟨_,_,payload,fault,given,fails⟩ => sound payload fault given fails,payload,merged,same⟩

theorem writeFields_same : writeFields call c = c ↔ SameRest call c := by
  obtain ⟨cronId,assistantId,threadId,userId,endTime,schedule,timezone,payload,nextRunDate,metadata,onRunCompleted,enabled,createdAt,updatedAt⟩ := c
  simp only [writeFields,CronRecordOf.mk.injEq,true_and,and_true]
  constructor
  · intro ⟨ends,data,ran,on⟩
    refine ⟨fun clear => ?_,fun kept time given => ?_,fun value given => ?_,fun value given => ?_,fun value given => ?_⟩
    · simpa [clear] using ends.symm
    · simpa [kept,given] using ends.symm
    · simpa [given] using on.symm
    · simpa [given] using ran.symm
    · simpa [given] using data
  · intro ⟨cleared,ends,on,ran,data⟩
    refine ⟨?_,?_,?_,?_⟩
    · cases clear : call.clearEndTime with
      | true => simpa using (cleared clear).symm
      | false =>
        cases given : call.endTime with
        | none => simp
        | some time => simpa using (ends clear time given).symm
    · cases given : call.metadata with
      | none => rfl
      | some metadata => exact data metadata given
    · cases given : call.onRunCompleted with
      | none => rfl
      | some completed => exact (ran completed given).symm
    · cases given : call.enabled with
      | none => rfl
      | some enabled => exact (on enabled given).symm

theorem zoned_same : zoned call c = c ↔ SameZone call c := by
  rw [← sameZone_iff]
  exact ⟨congrArg CronRecordOf.timezone,fun same => by rw [zoned,same]⟩

theorem scheduled_same : scheduled call c = c ↔ SameZone call c ∧ SameSchedule call c := by
  rw [← sameZone_iff,← sameSchedule_iff]
  refine ⟨fun same => ⟨congrArg CronRecordOf.timezone same,congrArg CronRecordOf.schedule same⟩,fun ⟨zone,schedule⟩ => ?_⟩
  rw [scheduled,zoned,zone,schedule]

theorem completed_same {date : Int} : completed call c date = c ↔
    (SameZone call c ∧ SameSchedule call c) ∧ date = c.nextRunDate ∧ SameRest call c := by
  rw [← scheduled_same,← writeFields_same]
  constructor
  · intro same
    have planned : scheduled call c = c := by
      have zone : zoneAfter call c = c.timezone := congrArg CronRecordOf.timezone same
      have schedule : scheduleAfter call c = c.schedule := congrArg CronRecordOf.schedule same
      rw [scheduled,zoned,zone,schedule]
    have day : date = c.nextRunDate := congrArg CronRecordOf.nextRunDate same
    refine ⟨planned,day,?_⟩
    rwa [completed,planned,day] at same
  · intro ⟨planned,day,rest⟩
    rwa [completed,planned,day]

-- Once the schedule and the zone stay, the date is the old one if it comes out
-- again.
theorem dated_same {date : Int} (found : Dated packages w call c date) (zone : SameZone call c) (schedule : SameSchedule call c) :
    date = c.nextRunDate ↔ (reckons call = true → packages.nextCronDate c.schedule w.now c.timezone = .ok c.nextRunDate) := by
  unfold Dated at found
  rw [sameZone_iff.mpr zone,sameSchedule_iff.mpr schedule] at found
  split at found
  · rename_i reckoned
    constructor
    · intro same _
      rw [found,same]
    · intro again
      exact Except.ok.inj (found.symm.trans (again reckoned))
  · rename_i stays
    exact ⟨fun _ reckoned => absurd reckoned stays,fun _ => found⟩

theorem ready_iff : Ready packages w call c ↔
    ((∃ fault, (updateRecord packages w call c).2 = .error fault) → (updateRecord packages w call c).1 = c) := by
  rcases updateRecord_cases packages w call c with ⟨bad,fault,same⟩ | ⟨undated,fault,same⟩ | ⟨date,found,failed | passed⟩
  · rw [same]
    constructor
    · exact fun ready _ => zoned_same.mpr (ready.schedule bad)
    · intro kept
      exact ⟨fun _ => zoned_same.mp (kept ⟨fault,rfl⟩),fun undated => absurd bad undated.1,fun malformed => absurd bad malformed.1⟩
  · rw [same]
    constructor
    · exact fun ready _ => scheduled_same.mpr (ready.date undated)
    · intro kept
      exact ⟨fun bad => absurd bad undated.1,fun _ => scheduled_same.mp (kept ⟨fault,rfl⟩),fun malformed => absurd undated malformed.2.1⟩
  · obtain ⟨malformed,fault,same⟩ := failed
    rw [same]
    constructor
    · intro ready _
      obtain ⟨zone,schedule,rest,day⟩ := ready.payload malformed
      exact completed_same.mpr ⟨⟨zone,schedule⟩,(dated_same found zone schedule).mpr day,rest⟩
    · intro kept
      obtain ⟨⟨zone,schedule⟩,day,rest⟩ := completed_same.mp (kept ⟨fault,rfl⟩)
      exact ⟨fun bad => absurd bad malformed.1,fun undated => absurd undated malformed.2.1,
        fun _ => ⟨zone,schedule,rest,(dated_same found zone schedule).mp day⟩⟩
  · obtain ⟨good,reached,sound,payload,_,same⟩ := passed
    rw [same]
    constructor
    · intro _ ⟨fault,fails⟩
      cases fails
    · exact fun _ => ⟨fun bad => absurd bad good,fun undated => absurd undated reached,fun malformed => absurd malformed sound⟩

end writings

section updates
variable {packages : Packages} {w : Wake} {crons : List CronRecord} {call : UpdateCall}

-- What an update does to the cron that it finds.
theorem update_found {filters : Filters} {c : CronRecord} (allowed : w.auth = .ok filters) (finds : found crons call filters = .ok c) :
    update packages w crons call = (writeFirst (isCron call.cronId) (updateRecord packages w call c).1 crons,
      (updateRecord packages w call c).2.map fun _ => (updateRecord packages w call c).1) := by
  simp only [update,allowed,finds]

theorem update_unfound (fails : ∀ filters c, w.auth = .ok filters → found crons call filters ≠ .ok c) :
    ∃ fault, update packages w crons call = (crons,.error fault) := by
  cases allowed : w.auth with
  | error fault => exact ⟨fault,by simp only [update,allowed]⟩
  | ok filters =>
    cases finds : found crons call filters with
    | error fault => exact ⟨fault,by simp only [update,allowed,finds]⟩
    | ok c => exact absurd finds (fails filters c allowed)

-- A cron that is updated has the date of the schedule and the zone it now has.
theorem updated_date {c : CronRecord} (passes : (updateRecord packages w call c).2 = .ok ()) :
    (updateRecord packages w call c).1.cronId = c.cronId ∧ if reckons call then
      packages.nextCronDate (updateRecord packages w call c).1.schedule w.now (updateRecord packages w call c).1.timezone =
        .ok (updateRecord packages w call c).1.nextRunDate
    else (updateRecord packages w call c).1.nextRunDate = c.nextRunDate := by
  rcases updateRecord_cases packages w call c with ⟨_,fault,same⟩ | ⟨_,fault,same⟩ | ⟨date,found,⟨_,fault,same⟩ | ⟨_,_,_,payload,_,same⟩⟩
  · rw [same] at passes
    cases passes
  · rw [same] at passes
    cases passes
  · rw [same] at passes
    cases passes
  · rw [same]
    exact ⟨rfl,found⟩

theorem update_atomic (packages : Packages) (w : Wake) (crons : List CronRecord) (call : UpdateCall) :
    AtomicUpdate packages w crons call ↔
      ∀ filters c, w.auth = .ok filters → found crons call filters = .ok c → Ready packages w call c := by
  by_cases reaches : ∃ filters c, w.auth = .ok filters ∧ found crons call filters = .ok c
  · obtain ⟨filters,c,allowed,finds⟩ := reaches
    obtain ⟨stored,_,named,_⟩ := found_parts finds
    have only : (∀ filters c, w.auth = .ok filters → found crons call filters = .ok c → Ready packages w call c) ↔ Ready packages w call c := by
      refine ⟨fun all => all filters c allowed finds,fun ready filters' c' allowed' finds' => ?_⟩
      cases allowed.symm.trans allowed'
      cases finds.symm.trans finds'
      exact ready
    rw [only,ready_iff]
    have went : update packages w crons call = _ := update_found allowed finds
    constructor
    · intro ⟨raised,_⟩ ⟨fault,fails⟩
      rw [went] at raised
      exact (writeFirst_same stored).mp (raised fault (by rw [fails]; rfl))
    · intro kept
      refine ⟨fun fault fails => ?_,fun c' passes => ?_⟩
      · rw [went] at fails ⊢
        refine (writeFirst_same stored).mpr (kept ?_)
        cases outcome : (updateRecord packages w call c).2 with
        | error fault => exact ⟨fault,rfl⟩
        | ok done =>
          rw [outcome] at fails
          cases fails
      · rw [went] at passes ⊢
        cases outcome : (updateRecord packages w call c).2 with
        | error fault =>
          rw [outcome] at passes
          cases passes
        | ok done =>
          rw [outcome] at passes
          cases passes
          obtain ⟨same,date⟩ := updated_date outcome
          have still : isCron call.cronId (updateRecord packages w call c).1 = true := by
            rw [isCron,same,named,beq_self_eq_true]
          exact ⟨c,stored,find_writeFirst stored still,date⟩
  · have unfound := fun filters c allowed finds => reaches ⟨filters,c,allowed,finds⟩
    obtain ⟨fault,same⟩ : ∃ fault, update packages w crons call = (crons,.error fault) := update_unfound unfound
    refine ⟨fun _ filters c allowed finds => absurd finds (unfound filters c allowed),fun _ => ⟨fun _ _ => by rw [same],fun c' passes => ?_⟩⟩
    rw [same] at passes
    cases passes

end updates
-- The first part of an update is the one of the calls on the whole world.
section agreement
variable {J : Type}

def completedText : OnRunCompleted → String
  | .delete => "delete"
  | .keep => "keep"

-- A record as the calls on the whole world have it.
def fieldsOf (payload : OrderedDict.Dict String J) (c : CronRecord) : Mutations.CronFields J :=
  ⟨c.assistantId,c.schedule,c.timezone,c.endTime,c.enabled,c.onRunCompleted.map completedText,payload,c.nextRunDate,c.updatedAt⟩

structure Agree (whole : Mutations.Packages J) (packages : Packages) : Prop where
  check : ∀ schedule, whole.checkSchedule schedule = if packages.isValid schedule then none else some (invalidSchedule schedule)
  date : whole.nextDate = packages.nextCronDate

theorem reschedule_agrees {whole : Mutations.Packages J} {packages : Packages} (agree : Agree whole packages)
    {wake : Serving.Wake J} {w : Wake} (clock : wake.now = w.now) {update : Mutations.UpdateCronCall J} {call : UpdateCall}
    (schedule : update.schedule = call.schedule) (zone : update.timezone = call.timezone) (payload : OrderedDict.Dict String J) (c : CronRecord) :
    fieldsOf payload (reschedule packages w call c).1 = (Mutations.rescheduled whole wake update (fieldsOf payload c)).1 ∧
      (reschedule packages w call c).2 = (Mutations.rescheduled whole wake update (fieldsOf payload c)).2.elim (.ok ()) .error := by
  have dates : ∀ schedule zone, whole.nextDate schedule wake.now zone = packages.nextCronDate schedule w.now zone :=
    fun schedule zone => by rw [agree.date,clock]
  unfold Mutations.rescheduled reschedule validateSchedule dated
  rw [schedule,zone]
  cases call.schedule with
  | some schedule =>
    dsimp only
    rw [agree.check]
    cases packages.isValid schedule with
    | false => cases call.timezone <;> exact ⟨rfl,rfl⟩
    | true =>
      cases call.timezone with
      | none => cases date : packages.nextCronDate schedule w.now c.timezone <;> simp [fieldsOf,dates,date]
      | some zone => cases date : packages.nextCronDate schedule w.now (some zone) <;> simp [fieldsOf,dates,date]
  | none =>
    cases call.timezone with
    | none => exact ⟨rfl,rfl⟩
    | some zone => cases date : packages.nextCronDate c.schedule w.now (some zone) <;> simp [fieldsOf,dates,date]

end agreement

-- One schedule is valid, and nothing is known of the time on Mars.
section toy

def everyMinute : String := "* * * * *"

def toyPackages : Packages where
  isValid schedule := schedule == everyMinute
  nextCronDate _ now zone := if zone = some "Mars" then .error .external else .ok (now + 60)
  uuid := some
  getAssistantId
    | .str assistantId => .ok assistantId
    | _ => .error .external
  system := []

def toyWake : Wake := ⟨0,0,"c",none,.ok none,.ok none,.ok none,[("a",[])],[("t",[])]⟩

def toyCron : CronRecord :=
  ⟨"c","a",none,none,none,everyMinute,none,[("assistant_id",.str "a")],60,[],some .delete,true,0,0⟩

def zoneCall (schedule zone : Option String) : UpdateCall := ⟨"c",schedule,none,false,none,none,none,none,zone⟩

-- An invalid schedule leaves the time zone, and a time zone that is rejected
-- stays.
theorem half_updated :
    (update toyPackages toyWake [toyCron] (zoneCall (some "often") (some "Europe/Paris"))).2 = .error (invalidSchedule "often") ∧
    ¬ AtomicUpdate toyPackages toyWake [toyCron] (zoneCall (some "often") (some "Europe/Paris")) ∧
    ¬ AtomicUpdate toyPackages toyWake [toyCron] (zoneCall none (some "Mars")) := by
  refine ⟨rfl,fun atomic => ?_,fun atomic => ?_⟩
  · have same := congrArg (List.map CronRecordOf.timezone) (atomic.raised _ rfl)
    exact absurd same (by decide)
  · have same := congrArg (List.map CronRecordOf.timezone) (atomic.raised _ rfl)
    exact absurd same (by decide)

end toy
end InmemRuntime.CronUpdates
