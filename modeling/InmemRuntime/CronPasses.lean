import InmemRuntime.CronUpdates
import InmemRuntime.SharedTable

namespace InmemRuntime.CronPasses
open ThreadTtl PythonJson CronRecords CronUpdates SharedTable

-- The calls that change `conn.store["crons"]`. Deleting a thread or an assistant
-- deletes its crons.
inductive Operation where
  | crons (operation : CronRecords.Operation)
  | deleteThread (threadId : String)
  | deleteAssistant (assistantId : String)

section tables
variable (packages : Packages) (w : Wake) (t : Table CronRecord)

def put (call : PutCall) : Table CronRecord :=
  match draft packages w call with
  | .error _ => t
  | .ok d =>
    match t.find? (isCron d.cronId) with
    | some _ => t
    | none =>
      match packages.nextCronDate call.schedule w.now call.timezone with
      | .error _ => t
      | .ok date => t.append (newCron w call d date)

-- `cron[...] = ...` on the record that is found, whoever else holds it.
def update (call : UpdateCall) : Table CronRecord :=
  match w.auth with
  | .error _ => t
  | .ok filters =>
    if !call.hasUpdates then t
    else match t.find? (isCron call.cronId) with
      | none => t
      | some ref =>
        if passes filters (t.record ref).metadata then t.write ref (updateRecord packages w call (t.record ref)).1 else t

def setNextRunDate (cronId : String) (nextRunDate : Int) : Table CronRecord :=
  match t.find? (isCron cronId) with
  | none => t
  | some ref => t.write ref {t.record ref with nextRunDate}

-- `conn.store["crons"] = [...]`, which is a new list object.
def delete (cronId : String) : Table CronRecord :=
  match w.auth with
  | .error _ => t
  | .ok filters => t.rebind fun c => !(isCron cronId c && passes filters c.metadata)

def perform : Wake × Operation → Table CronRecord
  | (w,.crons (.put call)) => put packages w t call
  | (w,.crons (.update call)) => update packages w t call
  | (_,.crons (.setNextRunDate cronId nextRunDate)) => setNextRunDate t cronId nextRunDate
  | (w,.crons (.delete cronId)) => delete w t cronId
  | (_,.deleteThread threadId) => t.rebind fun c => c.threadId != some threadId
  | (_,.deleteAssistant assistantId) => t.rebind fun c => c.assistantId != assistantId

-- The same calls on the list of the records.
def record (crons : List CronRecord) : Wake × Operation → List CronRecord
  | (w,.crons operation) => CronRecords.step packages crons (w,operation)
  | (_,.deleteThread threadId) => crons.filter fun c => c.threadId != some threadId
  | (_,.deleteAssistant assistantId) => crons.filter fun c => c.assistantId != assistantId

end tables

section passes

-- The tests of `Crons.next`.
def due (now : Int) (c : CronRecord) : Bool := c.enabled && !(c.endTime.any (· < now)) && decide (c.nextRunDate ≤ now)

-- One `Crons.next`: its first resumption reads the clock and takes the list that
-- is bound then.
inductive Phase where
  | called
  | going (now : Int) (cursor : Cursor)
  | ended (now : Int) (cursor : Cursor)

-- `yielded` are the copies that the consumer has got.
structure World where
  table : Table CronRecord
  phase : Phase
  yielded : List (Nat × CronRecord)

inductive Event where
  | calls (w : Wake) (operation : Operation)
  | resumes (now : Int)

def resumePass (s : World) (now : Int) (cursor : Cursor) : World :=
  match cursor.advance s.table (due now) with
  | none => {s with phase := .ended now cursor}
  | some (ref,cursor) => {s with phase := .going now cursor, yielded := s.yielded ++ [(ref,s.table.record ref)]}

def step (packages : Packages) (s : World) : Event → World
  | .calls w operation => {s with table := perform packages s.table (w,operation)}
  | .resumes now =>
    match s.phase with
    | .called => resumePass s now ⟨s.table.bound,0⟩
    | .going now cursor => resumePass s now cursor
    | .ended _ _ => s

end passes

section refining
variable {packages : Packages} {w : Wake} {t : Table CronRecord}

theorem updateRecord_cronId (packages : Packages) (w : Wake) (call : UpdateCall) (c : CronRecord) :
    (updateRecord packages w call c).1.cronId = c.cronId := by
  rcases updateRecord_cases packages w call c with ⟨_,fault,ran⟩ | ⟨_,fault,ran⟩ | ⟨date,_,⟨_,fault,ran⟩ | ⟨_,_,_,payload,_,ran⟩⟩ <;> rw [ran] <;> rfl

theorem map_write {refs : List Nat} {named : CronRecord → Bool} {ref : Nat} (c' : CronRecord) (distinct : refs.Nodup)
    (found : (refs.find? fun other => named (t.record other)) = some ref) :
    refs.map (t.write ref c').record = writeFirst named c' (refs.map t.record) := by
  induction refs with
  | nil => cases found
  | cons first rest ih =>
    obtain ⟨apart,distinct⟩ := List.nodup_cons.mp distinct
    rw [List.map_cons,List.map_cons,writeFirst]
    cases here : named (t.record first) with
    | true =>
      rw [List.find?_cons_of_pos (by simpa using here)] at found
      cases found
      have others : rest.map (t.write ref c').record = rest.map t.record :=
        List.map_congr_left fun other member => ObjectHeap.Heap.read_write_other fun same => apart (same ▸ member)
      rw [others,if_pos rfl]
      exact congrArg (· :: _) (ObjectHeap.Heap.read_write_self _ _ _)
    | false =>
      rw [List.find?_cons_of_neg (by simp [here])] at found
      have other : first ≠ ref := fun same => apart (same ▸ List.mem_of_find?_eq_some found)
      rw [ih distinct found,if_neg Bool.false_ne_true]
      exact congrArg (· :: _) (ObjectHeap.Heap.read_write_other other)

theorem contents_write (sound : Sound CronRecordOf.cronId t) {named : CronRecord → Bool} {ref : Nat} (c' : CronRecord)
    (found : t.find? named = some ref) : (t.write ref c').contents = writeFirst named c' t.contents :=
  map_write c' (List.Nodup.of_map _ (sound.keys _ sound.bound)) found

theorem put_contents (sound : Sound CronRecordOf.cronId t) (call : PutCall) :
    (put packages w t call).contents = (CronRecords.put packages w t.contents call).1 := by
  unfold put CronRecords.put
  cases draft packages w call with
  | error fault => rfl
  | ok d =>
    have same := find_contents t (isCron d.cronId)
    unfold isCron at same
    dsimp only
    rw [same]
    cases found : t.find? (isCron d.cronId) with
    | some ref => simp [show (t.find? fun c => c.cronId == d.cronId) = some ref from found]
    | none =>
      rw [show (t.find? fun c => c.cronId == d.cronId) = none from found]
      cases packages.nextCronDate call.schedule w.now call.timezone with
      | error fault => rfl
      | ok date => exact contents_append sound _

theorem update_contents (sound : Sound CronRecordOf.cronId t) (call : UpdateCall) :
    (update packages w t call).contents = (CronRecords.update packages w t.contents call).1 := by
  unfold update CronRecords.update
  cases w.auth with
  | error fault => rfl
  | ok filters =>
    dsimp only
    unfold CronRecords.found
    rw [find_contents]
    split
    · rfl
    · cases found : t.find? (isCron call.cronId) with
      | none => rfl
      | some ref =>
        dsimp only [Option.map_some]
        split
        · exact contents_write sound _ found
        · rfl

theorem setNextRunDate_contents (sound : Sound CronRecordOf.cronId t) (cronId : String) (nextRunDate : Int) :
    (setNextRunDate t cronId nextRunDate).contents = CronRecords.setNextRunDate t.contents cronId nextRunDate := by
  unfold setNextRunDate CronRecords.setNextRunDate
  rw [find_contents]
  cases found : t.find? (isCron cronId) with
  | none => rfl
  | some ref => exact contents_write sound _ found

theorem delete_contents (t : Table CronRecord) (cronId : String) : (delete w t cronId).contents = (CronRecords.delete w t.contents cronId).1 := by
  unfold delete CronRecords.delete
  cases w.auth with
  | error fault => rfl
  | ok filters => exact contents_rebind t _

theorem perform_contents (sound : Sound CronRecordOf.cronId t) (event : Wake × Operation) :
    (perform packages t event).contents = record packages t.contents event := by
  obtain ⟨w,operation⟩ := event
  cases operation with
  | crons operation =>
    cases operation with
    | put call => exact put_contents sound call
    | update call => exact update_contents sound call
    | setNextRunDate cronId nextRunDate => exact setNextRunDate_contents sound cronId nextRunDate
    | delete cronId => exact delete_contents t cronId
  | deleteThread threadId => exact contents_rebind t _
  | deleteAssistant assistantId => exact contents_rebind t _

-- Ids stay different in every list, and no list loses what it had.
theorem perform_sound (packages : Packages) (sound : Sound CronRecordOf.cronId t) (event : Wake × Operation) :
    Sound CronRecordOf.cronId (perform packages t event) ∧ Extends CronRecordOf.cronId t (perform packages t event) := by
  have rebound : ∀ keep, Sound CronRecordOf.cronId (t.rebind keep) ∧ Extends CronRecordOf.cronId t (t.rebind keep) := fun keep =>
    ⟨sound_rebind sound keep,extends_rebind t keep _⟩
  have same : Sound CronRecordOf.cronId t ∧ Extends CronRecordOf.cronId t t := ⟨sound,Extends.refl _ t⟩
  obtain ⟨w,operation⟩ := event
  cases operation with
  | crons operation =>
    cases operation with
    | put call =>
      change Sound _ (put packages w t call) ∧ Extends _ t (put packages w t call)
      unfold put
      split
      · exact same
      · rename_i d _
        split
        · exact same
        · rename_i absent
          split
          · exact same
          · refine ⟨sound_append sound fun ref member named => ?_,extends_append t _ _⟩
            have other := List.find?_eq_none.mp absent ref member
            exact other (by simpa [isCron,newCron] using named)
    | update call =>
      change Sound _ (update packages w t call) ∧ Extends _ t (update packages w t call)
      unfold update
      split
      · exact same
      · split
        · exact same
        · split
          · exact same
          · rename_i ref _
            have kept := updateRecord_cronId packages w call (t.record ref)
            split
            · exact ⟨sound_write sound kept,extends_write kept⟩
            · exact same
    | setNextRunDate cronId nextRunDate =>
      change Sound _ (setNextRunDate t cronId nextRunDate) ∧ Extends _ t (setNextRunDate t cronId nextRunDate)
      unfold setNextRunDate
      split
      · exact same
      · exact ⟨sound_write sound rfl,extends_write rfl⟩
    | delete cronId =>
      change Sound _ (delete w t cronId) ∧ Extends _ t (delete w t cronId)
      unfold delete
      split
      · exact same
      · exact rebound _
  | deleteThread threadId => exact rebound fun c => c.threadId != some threadId
  | deleteAssistant assistantId => exact rebound fun c => c.assistantId != assistantId

-- Sharing the records and the list shows in nothing that the calls do.
theorem table_refines {start : Table CronRecord} {taken : List (Table CronRecord × (Wake × Operation))}
    (runs : Histories.Runs (perform packages) start taken t) (sound : Sound CronRecordOf.cronId start) :
    Histories.Runs (record packages) start.contents (taken.map fun row => (row.1.contents,row.2)) t.contents ∧
      (t.contents.map CronRecordOf.cronId).Nodup := by
  have ran : Histories.Runs (record packages) start.contents (taken.map fun row => (row.1.contents,row.2)) t.contents ∧
      Sound CronRecordOf.cronId t := by
    induction runs with
    | nil => exact ⟨.nil,sound⟩
    | step prior event ih =>
      obtain ⟨followed,kept⟩ := ih
      rw [List.map_append,List.map_singleton,perform_contents kept]
      exact ⟨followed.step event,(perform_sound packages kept event).1⟩
  refine ⟨ran.1,?_⟩
  rw [Table.contents,List.map_map]
  exact ran.2.keys _ ran.2.bound

end refining

section passing
variable {packages : Packages} {taken : List (World × Event)} {s : World} {now : Int} {cursor : Cursor}

def Event.Resumes (event : Event) : Prop := ∃ time, event = .resumes time

-- The pass came by a cron when it was not due.
def Passed (taken : List (World × Event)) (now : Int) (list ref : Nat) : Prop :=
  ∃ visit ∈ taken, visit.2.Resumes ∧ ref ∈ visit.1.table.held list ∧ due now (visit.1.table.record ref) = false

def Begun (taken : List (World × Event)) (t : Table CronRecord) (now : Int) (list : Nat) : Prop :=
  ∃ visit ∈ taken, visit.1.phase = .called ∧ visit.2 = .resumes now ∧ visit.1.table.bound = list ∧
    visit.1.table.refs <+: t.held list

-- What is yielded is due as it is yielded.
def Accurate (taken : List (World × Event)) (now : Int) (row : Nat × CronRecord) : Prop :=
  due now row.2 = true ∧ ∃ visit ∈ taken, visit.2.Resumes ∧ visit.1.table.record row.1 = row.2

-- The pass goes through the crons there are, unless a deletion came in between.
def Current (packages : Packages) (taken : List (World × Event)) (t : Table CronRecord) (list : Nat) : Prop :=
  t.bound = list ∨ ∃ visit ∈ taken, visit.1.phase ≠ .called ∧ (step packages visit.1 visit.2).table.bound ≠ visit.1.table.bound

structure Going (packages : Packages) (taken : List (World × Event)) (s : World) (now : Int) (cursor : Cursor) : Prop where
  walked : Walked s.table cursor (s.yielded.map Prod.fst) (Passed taken now cursor.list)
  begun : Begun taken s.table now cursor.list
  accurate : ∀ row ∈ s.yielded, Accurate taken now row
  ids : ∀ row ∈ s.yielded, row.1 ∈ s.table.held cursor.list ∧ row.2.cronId = (s.table.record row.1).cronId
  current : Current packages taken s.table cursor.list

structure Exact (packages : Packages) (taken : List (World × Event)) (s : World) (now : Int) (list : Nat) : Prop where
  begun : Begun taken s.table now list
  ordered : (s.yielded.map Prod.fst).Sublist (s.table.held list)
  once : (s.yielded.map fun row => row.2.cronId).Nodup
  accurate : ∀ row ∈ s.yielded, Accurate taken now row
  complete : ∀ ref ∈ s.table.held list, (∀ visit ∈ taken, visit.2.Resumes → ref ∈ visit.1.table.held list →
    due now (visit.1.table.record ref) = true) → ref ∈ s.yielded.map Prod.fst
  current : Current packages taken s.table list

section growing
variable {row : World × Event}

theorem Passed.later {list ref : Nat} (passed : Passed taken now list ref) : Passed (taken ++ [row]) now list ref := by
  obtain ⟨visit,member,known⟩ := passed
  exact ⟨visit,List.mem_append_left _ member,known⟩

theorem Accurate.later {copy : Nat × CronRecord} (accurate : Accurate taken now copy) : Accurate (taken ++ [row]) now copy := by
  obtain ⟨here,visit,member,known⟩ := accurate
  exact ⟨here,visit,List.mem_append_left _ member,known⟩

theorem Begun.later {t t' : Table CronRecord} {list : Nat} (begun : Begun taken t now list) (grown : t.held list <+: t'.held list) :
    Begun (taken ++ [row]) t' now list := by
  obtain ⟨visit,member,called,resumed,bound,front⟩ := begun
  exact ⟨visit,List.mem_append_left _ member,called,resumed,bound,front.trans grown⟩

theorem Current.later (row : World × Event) {list : Nat} (current : Current packages taken row.1.table list) (going : row.1.phase ≠ .called) :
    Current packages (taken ++ [row]) (step packages row.1 row.2).table list := by
  rcases current with bound | ⟨visit,member,known⟩
  · by_cases same : (step packages row.1 row.2).table.bound = row.1.table.bound
    · exact .inl (same.trans bound)
    · exact .inr ⟨row,by simp,going,same⟩
  · exact .inr ⟨visit,List.mem_append_left _ member,known⟩

theorem going_later {s' : World} (going : Going packages taken s now cursor) (same : s'.yielded = s.yielded)
    (extends_ : Extends CronRecordOf.cronId s.table s'.table) (sound : Sound CronRecordOf.cronId s.table)
    (current : Current packages (taken ++ [row]) s'.table cursor.list) : Going packages (taken ++ [row]) s' now cursor := by
  have known := going.walked.list
  have grown := extends_.grown _ known
  refine ⟨?_,going.begun.later grown,?_,?_,current⟩
  · rw [same]
    exact (going.walked.extends extends_).imp fun ref => Passed.later
  · rw [same]
    exact fun copy member => (going.accurate copy member).later
  · rw [same]
    intro copy member
    obtain ⟨listed,named⟩ := going.ids copy member
    exact ⟨grown.subset listed,named.trans (extends_.keys _ (sound.used _ known _ listed)).symm⟩

end growing

theorem table_resumePass (s : World) (now : Int) (cursor : Cursor) : (resumePass s now cursor).table = s.table := by
  unfold resumePass
  split <;> rfl

theorem table_resumes (packages : Packages) (s : World) (time : Int) : (step packages s (.resumes time)).table = s.table := by
  simp only [step]
  split
  · exact table_resumePass s _ _
  · exact table_resumePass s _ _
  · rfl

-- A resumption that finds nothing more has been everywhere.
theorem going_ends (sound : Sound CronRecordOf.cronId s.table) (going : Going packages taken s now cursor) {time : Int}
    (here : (s,.resumes time) ∈ taken) (none_ : cursor.advance s.table (due now) = none) : Exact packages taken s now cursor.list := by
  obtain ⟨order,rest⟩ := going.walked.ends none_
  have keys := (sound.keys _ going.walked.list).sublist (order.map fun ref => (s.table.record ref).cronId)
  have ids : (s.yielded.map fun row => row.2.cronId) = (s.yielded.map Prod.fst).map fun ref => (s.table.record ref).cronId := by
    rw [List.map_map]
    exact List.map_congr_left fun row member => (going.ids row member).2
  refine ⟨going.begun,order,ids ▸ keys,going.accurate,fun ref listed always => ?_,going.current⟩
  by_contra missed
  rcases rest ref listed missed with ⟨visit,member,resumed,held,idle⟩ | idle
  · rw [always visit member resumed held] at idle
    cases idle
  · rw [always _ here ⟨time,rfl⟩ listed] at idle
    cases idle

theorem going_advances (going : Going packages taken s now cursor) {time : Int} (here : (s,.resumes time) ∈ taken) {ref : Nat}
    {cursor' : Cursor} (found : cursor.advance s.table (due now) = some (ref,cursor')) :
    Going packages taken {s with phase := .going now cursor', yielded := s.yielded ++ [(ref,s.table.record ref)]} now cursor' := by
  obtain ⟨same,listed,wanted,walked⟩ := going.walked.advance found
  refine ⟨?_,?_,?_,?_,?_⟩
  · rw [same,List.map_append]
    refine walked.imp fun other passed => ?_
    rcases passed with before | ⟨held,idle⟩
    · exact before
    · exact ⟨_,here,⟨time,rfl⟩,held,idle⟩
  · rw [same]
    exact going.begun
  · intro row member
    rcases List.mem_append.mp member with old | new
    · exact going.accurate row old
    · rw [List.mem_singleton.mp new]
      exact ⟨wanted,_,here,⟨time,rfl⟩,rfl⟩
  · rw [same]
    intro row member
    rcases List.mem_append.mp member with old | new
    · exact going.ids row old
    · rw [List.mem_singleton.mp new]
      exact ⟨listed,rfl⟩
  · rw [same]
    exact going.current

-- What a resumption meets, with the resumption itself on record.
theorem going_resumed (sound : Sound CronRecordOf.cronId s.table) (going : Going packages taken s now cursor) (time : Int)
    (started : s.phase ≠ .called) : Going packages (taken ++ [(s,.resumes time)]) s now cursor := by
  refine going_later going rfl (Extends.refl _ _) sound ?_
  have later := Current.later (s,.resumes time) going.current started
  rwa [table_resumes] at later

theorem going_begins (packages : Packages) (taken : List (World × Event)) (sound : Sound CronRecordOf.cronId s.table) (called : s.phase = .called)
    (nothing : s.yielded = []) (now : Int) : Going packages (taken ++ [(s,.resumes now)]) s now ⟨s.table.bound,0⟩ := by
  refine ⟨?_,⟨(s,.resumes now),by simp,called,rfl,rfl,List.prefix_rfl⟩,?_,?_,.inl rfl⟩
  · rw [nothing]
    exact walked_start sound.bound
  · simp [nothing]
  · simp [nothing]

def Reached (packages : Packages) (taken : List (World × Event)) (s : World) : Prop :=
  match s.phase with
  | .called => s.yielded = []
  | .going now cursor => Going packages taken s now cursor
  | .ended _ _ => True

theorem resume_reached {now : Int} {cursor : Cursor} (sound : Sound CronRecordOf.cronId s.table) (going : Going packages taken s now cursor)
    {time : Int} (here : (s,.resumes time) ∈ taken) : Reached packages taken (resumePass s now cursor) ∧
      ∀ now' cursor', (resumePass s now cursor).phase = .ended now' cursor' → Exact packages taken (resumePass s now cursor) now' cursor'.list := by
  unfold resumePass
  cases found : cursor.advance s.table (due now) with
  | none =>
    refine ⟨trivial,fun now' cursor' ended => ?_⟩
    cases ended
    obtain ⟨begun,ordered,once,accurate,complete,current⟩ := going_ends sound going here found
    exact ⟨begun,ordered,once,accurate,complete,current⟩
  | some row =>
    refine ⟨going_advances going here found,fun now' cursor' ended => ?_⟩
    cases ended

theorem step_reached (sound : Sound CronRecordOf.cronId s.table) (reached : Reached packages taken s) (event : Event) :
    Sound CronRecordOf.cronId (step packages s event).table ∧ Reached packages (taken ++ [(s,event)]) (step packages s event) ∧
      ((∀ now cursor, s.phase ≠ .ended now cursor) → ∀ now cursor, (step packages s event).phase = .ended now cursor →
        Exact packages (taken ++ [(s,event)]) (step packages s event) now cursor.list) := by
  cases event with
  | calls w operation =>
    obtain ⟨kept,extends_⟩ := perform_sound packages sound (w,operation)
    refine ⟨kept,?_,fun open_ now cursor ended => absurd ended (open_ now cursor)⟩
    cases at_ : s.phase with
    | called =>
      simp only [Reached,step,at_] at reached ⊢
      exact reached
    | going now cursor =>
      simp only [Reached,step,at_] at reached ⊢
      have started : s.phase ≠ .called := by simp [at_]
      have moved : Going packages (taken ++ [(s,.calls w operation)]) (step packages s (.calls w operation)) now cursor :=
        going_later reached rfl extends_ sound (Current.later (s,.calls w operation) reached.current started)
      exact ⟨moved.walked,moved.begun,moved.accurate,moved.ids,moved.current⟩
    | ended now cursor => simp [Reached,step,at_]
  | resumes time =>
    refine ⟨by rw [table_resumes]; exact sound,?_⟩
    have here : (s,.resumes time) ∈ taken ++ [(s,.resumes time)] := by simp
    unfold step
    cases at_ : s.phase with
    | called =>
      have ready := going_begins packages taken sound at_ (by simpa [Reached,at_] using reached) time
      obtain ⟨stays,ends⟩ := resume_reached sound ready here
      exact ⟨stays,fun _ => ends⟩
    | going now cursor =>
      have going : Going packages taken s now cursor := by simpa [Reached,at_] using reached
      obtain ⟨stays,ends⟩ := resume_reached sound (going_resumed sound going time (by simp [at_])) here
      exact ⟨stays,fun _ => ends⟩
    | ended now cursor =>
      refine ⟨?_,fun open_ => absurd rfl (open_ now cursor)⟩
      simp [Reached,at_]

theorem runs_reached {table : Table CronRecord} (sound : Sound CronRecordOf.cronId table)
    (runs : Histories.Runs (step packages) ⟨table,.called,[]⟩ taken s) : Sound CronRecordOf.cronId s.table ∧ Reached packages taken s := by
  induction runs with
  | nil => exact ⟨sound,rfl⟩
  | step prior event ih =>
    obtain ⟨kept,stays,_⟩ := step_reached ih.1 ih.2 event
    exact ⟨kept,stays⟩

-- A pass that runs to its end, whatever is called between its steps: each cron
-- is yielded at most once and only when it is due, in the order of the list, and
-- one that the pass never meets when it is not due is yielded, even if it was
-- created meanwhile or has been deleted.
theorem pass_exact (packages : Packages) (table : Table CronRecord) (taken : List (World × Event)) (s : World) (time now : Int)
    (cursor : Cursor) (sound : Sound CronRecordOf.cronId table) (runs : Histories.Runs (step packages) ⟨table,.called,[]⟩ taken s)
    (open_ : ∀ now cursor, s.phase ≠ .ended now cursor) (ends : (step packages s (.resumes time)).phase = .ended now cursor) :
    Exact packages (taken ++ [(s,.resumes time)]) (step packages s (.resumes time)) now cursor.list := by
  obtain ⟨kept,reached⟩ := runs_reached sound runs
  exact (step_reached kept reached _).2.2 open_ now cursor ends

end passing

-- Two crons; the second is deleted while the pass is at the first.
section toy

def twoCrons : Table CronRecord := ⟨⟨fun ref => if ref = 0 then toyCron else {toyCron with cronId := "d"},2⟩,⟨fun _ => [0,1],1⟩,0⟩

theorem twoCrons_sound : Sound CronRecordOf.cronId twoCrons where
  bound := by decide
  used _ _ := by
    change ∀ ref ∈ [0,1], ref < 2
    decide
  keys _ _ := by
    change ["c","d"].Nodup
    decide

def withoutSecond : Wake × Operation := (toyWake,.crons (.delete "d"))

theorem table_refines_toy : Histories.Runs (record toyPackages) twoCrons.contents [(twoCrons.contents,withoutSecond)]
    (perform toyPackages twoCrons withoutSecond).contents ∧
      ((perform toyPackages twoCrons withoutSecond).contents.map CronRecordOf.cronId).Nodup :=
  table_refines (.step .nil withoutSecond) twoCrons_sound

def deletingAhead : List Event := [.resumes 100,.calls withoutSecond.1 withoutSecond.2,.resumes 101]

def deletedAhead : World := deletingAhead.foldl (step toyPackages) ⟨twoCrons,.called,[]⟩

theorem pass_exact_toy : ∃ taken, ((step toyPackages deletedAhead (.resumes 102)).yielded.map fun row => row.2.cronId) = ["c","d"] ∧
    (step toyPackages deletedAhead (.resumes 102)).table.contents.map CronRecordOf.cronId = ["c"] ∧
    Exact toyPackages taken (step toyPackages deletedAhead (.resumes 102)) 100 0 := by
  refine ⟨_,rfl,rfl,pass_exact toyPackages twoCrons _ deletedAhead 102 100 ⟨0,2⟩ twoCrons_sound
    (Histories.runs_trace .nil deletingAhead) (fun now cursor ended => ?_) rfl⟩
  cases (show Phase.going 100 ⟨0,2⟩ = .ended now cursor from ended)

end toy
end InmemRuntime.CronPasses
