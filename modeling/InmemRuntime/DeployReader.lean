import InmemRuntime.DeployOperations

namespace InmemRuntime.DeployReader
open PythonJson RingLog DeployOperations

section lines
variable (loads : String → Loaded)

-- What the loop can take: text that is no JSON, and an object whose type has a
-- hash.
def Readable : Line → Prop
  | .overlong => False
  | .text line =>
    match loads line with
    | .raises => False
    | .malformed => True
    | .value (.obj event) => hashable (eventType event) = true
    | .value _ => False

def lineEvent : Line → Option SseEvent
  | .overlong => none
  | .text line =>
    match loads line with
    | .malformed => some (logEvent (.str line) (.str "log"))
    | .value (.obj event) => forwarded event
    | .raises | .value _ => none

def hasType (type : String) (event : Fields) : Bool :=
  match eventType event with
  | .str name => name == type
  | _ => false

def stashed (type : String) : Line → Option Fields
  | .overlong => none
  | .text line =>
    match loads line with
    | .value (.obj event) => if hasType type event then some event else none
    | .malformed | .raises | .value _ => none

-- The last event of a type.
def last (type : String) (lines : List Line) : Option Fields := (lines.filterMap (stashed loads type)).getLast?

structure Follows (lines : List Line) (taken : List (Deploy × (Int × Event))) (d : Deploy) : Prop where
  consumed : d.stdout = []
  appended : (lines.filterMap (lineEvent loads)).Sublist d.log
  statusUrl : d.op.lastStatusUrlEvent = last loads "status_url" lines
  result : d.op.lastResultEvent = last loads "result" lines
  exited : ∃ code, d.returncode = some code ∧ d.op.exitCode = some code ∧ d.op.status = statusOf code
  order : ∀ s, s = d ∨ s ∈ taken.map Prod.fst → s.op.status ≠ .running → s.op.finishedAt.isSome = true
  counted : d.op.totalAppended = d.log.length

end lines

section turns
variable {loads : String → Loaded} {d d' : Deploy} {line : Line}

theorem stash_fields (op : DeployOperation) (event : Fields) : stash op event = {op with
    lastStatusUrlEvent := (if hasType "status_url" event then some event else none).or op.lastStatusUrlEvent
    lastResultEvent := (if hasType "result" event then some event else none).or op.lastResultEvent} := by
  unfold stash hasType
  split
  · rename_i same
    simp [same]
  · rename_i same
    simp [same]
  · rename_i other_ other
    cases kind : eventType event with
    | str name =>
      have statusUrl : (name == "status_url") = false := by simpa using fun same : name = "status_url" => other_ (by rw [kind,same])
      have result : (name == "result") = false := by simpa using fun same : name = "result" => other (by rw [kind,same])
      simp [statusUrl,result]
    | _ => rfl

-- What one turn of the loop does, when it does not raise.
structure Turns (loads : String → Loaded) (line : Line) (d d' : Deploy) : Prop where
  readable : Readable loads line
  stdout : d'.stdout = d.stdout
  reader : d'.reader = d.reader
  returncode : d'.returncode = d.returncode
  status : d'.op.status = d.op.status
  exitCode : d'.op.exitCode = d.op.exitCode
  log : d'.log = d.log ++ (lineEvent loads line).toList
  statusUrl : d'.op.lastStatusUrlEvent = (stashed loads "status_url" line).or d.op.lastStatusUrlEvent
  result : d'.op.lastResultEvent = (stashed loads "result" line).or d.op.lastResultEvent

theorem readLine_turns (went : readLine loads d line = some d') : Turns loads line d d' := by
  cases line with
  | overlong => cases went
  | text line =>
    unfold readLine at went
    cases loaded : loads line with
    | raises => simp [loaded] at went
    | malformed =>
      simp only [loaded,Option.some.injEq] at went
      subst went
      refine ⟨?_,rfl,rfl,rfl,rfl,rfl,?_,?_,?_⟩
      · simp [Readable,loaded]
      · simp [lineEvent,loaded,Deploy.append]
      · simp [stashed,loaded,Deploy.append,DeployOperation.append]
      · simp [stashed,loaded,Deploy.append,DeployOperation.append]
    | value value =>
      cases value with
      | obj event =>
        simp only [loaded] at went
        split at went
        · rename_i hashed
          cases went
          have readable : Readable loads (.text line) := by simpa [Readable,loaded] using hashed
          cases sse : forwarded event with
          | none =>
            refine ⟨readable,rfl,rfl,rfl,?_,?_,?_,?_,?_⟩ <;>
              simp [Deploy.appendAll,Deploy.stash,stash_fields,lineEvent,stashed,loaded,sse]
          | some sse' =>
            refine ⟨readable,rfl,rfl,rfl,?_,?_,?_,?_,?_⟩ <;>
              simp [Deploy.appendAll,Deploy.stash,Deploy.append,DeployOperation.append,stash_fields,lineEvent,stashed,loaded,sse]
        · cases went
      | _ => simp [loaded] at went

theorem readLine_raises (raises : readLine loads d line = none) : ¬ Readable loads line := by
  intro readable
  cases line with
  | overlong => exact readable
  | text line =>
    unfold readLine at raises
    unfold Readable at readable
    cases loaded : loads line with
    | raises => simp [loaded] at readable
    | malformed => simp [loaded] at raises
    | value value =>
      cases value with
      | obj event => simp_all
      | _ => simp [loaded] at readable

theorem last_append (type : String) (lines : List Line) (line : Line) :
    last loads type (lines ++ [line]) = (stashed loads type line).or (last loads type lines) := by
  unfold last
  rw [List.filterMap_append]
  cases held : stashed loads type line <;> simp [held]

end turns
section stages
variable (loads : String → Loaded) (lines : List Line)

-- The lines that were read so far are on the stream.
structure Sound (d : Deploy) (done : List Line) : Prop where
  split : lines = done ++ d.stdout
  readable : ∀ line ∈ done, Readable loads line
  appended : (done.filterMap (lineEvent loads)).Sublist d.log
  statusUrl : d.op.lastStatusUrlEvent = last loads "status_url" done
  result : d.op.lastResultEvent = last loads "result" done

-- The loop came to its end and the process to its exit.
structure Through (d : Deploy) (code : Int) : Prop where
  sound : Sound loads lines d lines
  returncode : d.returncode = some code
  exitCode : d.op.exitCode = some code

-- A line has stopped the loop.
structure Aborted (d : Deploy) : Prop where
  line : ∃ line ∈ lines, ¬ Readable loads line
  exitCode : d.op.exitCode = none

def Ends (d : Deploy) (status : Status) : Prop := Aborted loads lines d ∧ status = .failed ∨ ∃ code, Through loads lines d code ∧ status = statusOf code

-- Where the reader is, as long as nobody cancels it.
def Stage (d : Deploy) : Prop :=
  match d.reader with
  | .reading => d.op.status = .running ∧ d.op.exitCode = none ∧ ∃ done, Sound loads lines d done
  | .waiting => d.op.status = .running ∧ d.op.exitCode = none ∧ Sound loads lines d lines
  | .draining final => d.op.status = .running ∧ ∃ status, final = some status ∧ Ends loads lines d status
  | .finished => Ends loads lines d d.op.status ∧ d.op.finishedAt.isSome = true

-- And where it is afterwards.
def Dropped (d : Deploy) : Prop := d.op.status = .running ∧ (d.reader = .draining none ∨ d.reader = .finished)

end stages

section steps
variable {loads : String → Loaded} {lines : List Line} {d d' : Deploy}

-- What was read and what came of it is left alone, but for what is appended.
structure Carries (d d' : Deploy) : Prop where
  stdout : d'.stdout = d.stdout
  log : ∃ more, d'.log = d.log ++ more
  returncode : ∀ code, d.returncode = some code → d'.returncode = some code
  exitCode : d'.op.exitCode = d.op.exitCode
  statusUrl : d'.op.lastStatusUrlEvent = d.op.lastStatusUrlEvent
  result : d'.op.lastResultEvent = d.op.lastResultEvent

-- And the reader stays where it is.
structure Beside (d d' : Deploy) : Prop extends Carries d d' where
  reader : d'.reader = d.reader
  status : d'.op.status = d.op.status
  finishedAt : d'.op.finishedAt = d.op.finishedAt

theorem Carries.refl : Carries d d := ⟨rfl,⟨[],by simp⟩,fun _ => id,rfl,rfl,rfl⟩

theorem Beside.refl : Beside d d := ⟨.refl,rfl,rfl,rfl⟩

-- The other two tasks may do this without a word.
theorem beside_quiet (stderr : List Line) (stderrDone : Bool) (stderrTail : List String) (watchdog : Watchdog) :
    Beside d {d with stderr, stderrDone, watchdog, op := {d.op with stderrTail}} :=
  ⟨⟨rfl,⟨[],by simp⟩,fun _ => id,rfl,rfl,rfl⟩,rfl,rfl,rfl⟩

theorem beside_append (event : SseEvent) (watchdog : Watchdog) : Beside d {d.append event with watchdog} :=
  ⟨⟨rfl,⟨[event],rfl⟩,fun _ => id,rfl,rfl,rfl⟩,rfl,rfl,rfl⟩

theorem drain_beside : Beside d (drain d) := by
  unfold drain
  split
  · exact .refl
  · split
    · exact beside_quiet d.stderr true d.op.stderrTail d.watchdog
    · exact beside_quiet _ true d.op.stderrTail d.watchdog
    · split
      · exact beside_quiet _ d.stderrDone d.op.stderrTail d.watchdog
      · exact beside_quiet _ d.stderrDone _ d.watchdog

theorem exit_beside {code : Int} : Beside d (exit code d) :=
  ⟨⟨rfl,⟨[],by simp [exit]⟩,fun _ exited => by simp [exit,exited],rfl,rfl,rfl⟩,rfl,rfl,rfl⟩

theorem timeout_beside : Beside d (timeout d) := by
  unfold timeout
  split
  · split
    · exact beside_append timedOut .terminating
    · exact beside_quiet d.stderr d.stderrDone d.op.stderrTail .finished
  · exact .refl

theorem grace_beside {exited : Bool} : Beside d (grace exited d) := by
  unfold grace
  split
  · split
    · exact beside_quiet d.stderr d.stderrDone d.op.stderrTail .finished
    · exact beside_append notExited .finished
  · exact .refl

theorem finish_carries {now : Int} {final : Option Status} : Carries d (finish now final d) := by
  obtain ⟨buffer,total,more,same⟩ := finish_eq now final d
  rw [same]
  exact ⟨rfl,⟨more,rfl⟩,fun _ => id,rfl,rfl,rfl⟩

theorem carries_moved (reader : Reader) (stderrDone : Bool) : Carries d {d with reader, stderrDone} :=
  ⟨rfl,⟨[],by simp⟩,fun _ => id,rfl,rfl,rfl⟩

-- Whatever happens, events stay and an exit is final.
structure Persists (d d' : Deploy) : Prop where
  log : ∃ more, d'.log = d.log ++ more
  returncode : ∀ code, d.returncode = some code → d'.returncode = some code

theorem Carries.persists (carries : Carries d d') : Persists d d' := ⟨carries.log,carries.returncode⟩

theorem conclude_persists (now : Int) (final : Option Status) (d : Deploy) : Persists d (conclude now final d) := by
  unfold conclude
  split
  · exact finish_carries.persists
  · exact (carries_moved (.draining final) d.stderrDone).persists

theorem readNext_persists (now : Int) : Persists d (readNext loads now d) := by
  unfold readNext
  split
  · exact (carries_moved .waiting d.stderrDone).persists
  · rename_i line rest _ _
    cases went : readLine loads {d with stdout := rest} line with
    | none =>
      have ends := conclude_persists now (some .failed) {d with stdout := rest}
      exact ⟨ends.log,ends.returncode⟩
    | some d' =>
      have turns := readLine_turns went
      exact ⟨⟨_,turns.log⟩,fun code exited => turns.returncode.trans exited⟩
  · exact Carries.refl.persists

theorem step_persists (loads : String → Loaded) (d : Deploy) (event : Int × Event) : Persists d (step loads d event) := by
  obtain ⟨now,event⟩ := event
  cases event with
  | read => exact readNext_persists now
  | waited =>
    dsimp only [step,waited]
    split
    · rename_i code _ _
      have ends := conclude_persists now (some (statusOf code)) {d with op := {d.op with exitCode := some code}}
      exact ⟨ends.log,ends.returncode⟩
    · exact Carries.refl.persists
  | drained =>
    dsimp only [step,drained]
    split
    · rename_i final _
      have ends : Carries {d with stderrDone := true} (finish now final {d with stderrDone := true}) := finish_carries
      exact ⟨ends.log,ends.returncode⟩
    · exact Carries.refl.persists
  | cancelReader =>
    dsimp only [step,cancelReader]
    split
    · exact conclude_persists now none d
    · exact conclude_persists now none d
    · exact (carries_moved .finished true).persists
    · exact Carries.refl.persists
  | drain => exact drain_beside.persists
  | exit code => exact exit_beside.persists
  | timeout => exact timeout_beside.persists
  | grace exited => exact grace_beside.persists

theorem finish_reader (now : Int) (final : Option Status) (d : Deploy) : (finish now final d).reader = .finished ∧
    (finish now final d).op.status = final.getD d.op.status ∧ (finish now final d).op.finishedAt = some now := by
  obtain ⟨buffer,total,more,same⟩ := finish_eq now final d
  rw [same]
  exact ⟨rfl,rfl,rfl⟩

theorem Sound.carries {done : List Line} (sound : Sound loads lines d done) (carries : Carries d d') : Sound loads lines d' done := by
  obtain ⟨more,grown⟩ := carries.log
  refine ⟨carries.stdout ▸ sound.split,sound.readable,?_,carries.statusUrl.trans sound.statusUrl,carries.result.trans sound.result⟩
  rw [grown]
  exact sound.appended.trans (List.sublist_append_left _ _)

theorem ends_carries {status : Status} (ends : Ends loads lines d status) (carries : Carries d d') : Ends loads lines d' status := by
  rcases ends with ⟨aborted,same⟩ | ⟨code,through,same⟩
  · exact .inl ⟨⟨aborted.line,carries.exitCode.trans aborted.exitCode⟩,same⟩
  · exact .inr ⟨code,⟨through.sound.carries carries,carries.returncode code through.returncode,carries.exitCode.trans through.exitCode⟩,same⟩

theorem stage_beside (stage : Stage loads lines d) (beside : Beside d d') : Stage loads lines d' := by
  unfold Stage at stage ⊢
  rw [beside.reader,beside.status,beside.exitCode,beside.finishedAt]
  cases at_ : d.reader with
  | reading =>
    rw [at_] at stage
    obtain ⟨running,unset,done,sound⟩ := stage
    exact ⟨running,unset,done,sound.carries beside.toCarries⟩
  | waiting =>
    rw [at_] at stage
    obtain ⟨running,unset,sound⟩ := stage
    exact ⟨running,unset,sound.carries beside.toCarries⟩
  | draining final =>
    rw [at_] at stage
    obtain ⟨running,status,same,ends⟩ := stage
    exact ⟨running,status,same,ends_carries ends beside.toCarries⟩
  | finished =>
    rw [at_] at stage
    exact ⟨ends_carries stage.1 beside.toCarries,stage.2⟩

theorem dropped_beside (dropped : Dropped d) (beside : Beside d d') : Dropped d' := by
  unfold Dropped
  rw [beside.reader,beside.status]
  exact dropped

theorem finish_stage {now : Int} {status : Status} (ends : Ends loads lines d status) : Stage loads lines (finish now (some status) d) := by
  obtain ⟨at_,final,timed⟩ := finish_reader now (some status) d
  unfold Stage
  rw [at_]
  dsimp only
  rw [final,timed]
  exact ⟨ends_carries ends finish_carries,rfl⟩

-- The reader comes to an end, at once or after the drain.
theorem conclude_stage {now : Int} {status : Status} (running : d.op.status = .running) (ends : Ends loads lines d status) :
    Stage loads lines (conclude now (some status) d) := by
  unfold conclude
  split
  · exact finish_stage ends
  · exact ⟨running,status,rfl,ends_carries ends (carries_moved (.draining (some status)) d.stderrDone)⟩

theorem readNext_stage {now : Int} (stage : Stage loads lines d) : Stage loads lines (readNext loads now d) := by
  unfold readNext
  split
  · rename_i at_ empty
    unfold Stage at stage
    rw [at_] at stage
    obtain ⟨running,unset,done,sound⟩ := stage
    have all : lines = done := by simpa [empty] using sound.split
    rw [← all] at sound
    exact ⟨running,unset,sound.carries (carries_moved .waiting d.stderrDone)⟩
  · rename_i line rest at_ left
    unfold Stage at stage
    rw [at_] at stage
    obtain ⟨running,unset,done,sound⟩ := stage
    have split : lines = done ++ line :: rest := left ▸ sound.split
    cases went : readLine loads {d with stdout := rest} line with
    | none =>
      have member : line ∈ lines := by simp [split]
      exact conclude_stage running (.inl ⟨⟨⟨line,member,readLine_raises went⟩,unset⟩,rfl⟩)
    | some d' =>
      have turns := readLine_turns went
      have stays : d'.reader = .reading := turns.reader.trans at_
      have next : Sound loads lines d' (done ++ [line]) := by
        refine ⟨?_,?_,?_,?_,?_⟩
        · rw [turns.stdout,split]
          simp
        · intro other member
          rcases List.mem_append.mp member with old | new
          · exact sound.readable other old
          · exact List.mem_singleton.mp new ▸ turns.readable
        · rw [turns.log,List.filterMap_append]
          refine sound.appended.append ?_
          cases held : lineEvent loads line <;> simp [held]
        · rw [last_append,turns.statusUrl,sound.statusUrl]
        · rw [last_append,turns.result,sound.result]
      unfold Stage
      rw [Option.getD_some,stays]
      exact ⟨turns.status.trans running,turns.exitCode.trans unset,_,next⟩
  · exact stage

theorem waited_stage {now : Int} (stage : Stage loads lines d) : Stage loads lines (waited now d) := by
  unfold waited
  split
  · rename_i code at_ exited
    unfold Stage at stage
    rw [at_] at stage
    obtain ⟨running,_,sound⟩ := stage
    refine conclude_stage running (.inr ⟨code,⟨?_,exited,rfl⟩,rfl⟩)
    exact ⟨sound.split,sound.readable,sound.appended,sound.statusUrl,sound.result⟩
  · exact stage

theorem drained_stage {now : Int} (stage : Stage loads lines d) : Stage loads lines (drained now d) := by
  unfold drained
  split
  · rename_i final at_
    unfold Stage at stage
    rw [at_] at stage
    obtain ⟨running,status,rfl,ends⟩ := stage
    exact finish_stage (ends_carries ends (carries_moved d.reader true))
  · exact stage

-- Nothing happens to a reader that waits for something else.
theorem readNext_idle {now : Int} (other : d.reader ≠ .reading) : readNext loads now d = d := by
  unfold readNext
  split
  · rename_i at_ _
    exact absurd at_ other
  · rename_i at_ _
    exact absurd at_ other
  · rfl

theorem waited_idle {now : Int} (other : d.reader ≠ .waiting) : waited now d = d := by
  unfold waited
  split
  · rename_i at_ _
    exact absurd at_ other
  · rfl

theorem drained_idle {now : Int} (other : ∀ final, d.reader ≠ .draining final) : drained now d = d := by
  unfold drained
  split
  · rename_i final at_
    exact absurd at_ (other final)
  · rfl

theorem finish_dropped {now : Int} (running : d.op.status = .running) : Dropped (finish now none d) :=
  ⟨(finish_reader now none d).2.1.trans running,.inr (finish_reader now none d).1⟩

theorem cancelReader_dropped {now : Int} (running : d.op.status = .running) : Dropped (cancelReader now d) := by
  have concluded : Dropped (conclude now none d) := by
    unfold conclude
    split
    · exact finish_dropped running
    · exact ⟨running,.inl rfl⟩
  unfold cancelReader
  split
  · exact concluded
  · exact concluded
  · exact ⟨running,.inr rfl⟩
  · rename_i at_
    exact ⟨running,.inr at_⟩

theorem dropped_drained {now : Int} (dropped : Dropped d) : Dropped (drained now d) := by
  obtain ⟨running,at_ | at_⟩ := dropped
  · unfold drained
    rw [at_]
    exact finish_dropped running
  · rw [drained_idle (by simp [at_])]
    exact ⟨running,.inr at_⟩

theorem Dropped.elsewhere (dropped : Dropped d) : d.reader ≠ .reading ∧ d.reader ≠ .waiting := by
  rcases dropped.2 with at_ | at_ <;> simp [at_]

theorem step_dropped (dropped : Dropped d) (event : Int × Event) : Dropped (step loads d event) := by
  obtain ⟨now,event⟩ := event
  obtain ⟨reading,waiting⟩ := dropped.elsewhere
  cases event with
  | read =>
    have idle : step loads d (now,.read) = d := readNext_idle reading
    rw [idle]
    exact dropped
  | waited =>
    have idle : step loads d (now,.waited) = d := waited_idle waiting
    rw [idle]
    exact dropped
  | drained => exact dropped_drained dropped
  | cancelReader => exact cancelReader_dropped dropped.1
  | drain => exact dropped_beside dropped drain_beside
  | exit code => exact dropped_beside dropped exit_beside
  | timeout => exact dropped_beside dropped timeout_beside
  | grace exited => exact dropped_beside dropped grace_beside

-- Without a cancellation every step leads from stage to stage.
theorem step_stage (stage : Stage loads lines d) {event : Int × Event} (kept : event.2 ≠ .cancelReader) :
    Stage loads lines (step loads d event) := by
  obtain ⟨now,event⟩ := event
  cases event with
  | read => exact readNext_stage stage
  | waited => exact waited_stage stage
  | drained => exact drained_stage stage
  | cancelReader => exact absurd rfl kept
  | drain => exact stage_beside stage drain_beside
  | exit code => exact stage_beside stage exit_beside
  | timeout => exact stage_beside stage timeout_beside
  | grace exited => exact stage_beside stage grace_beside

theorem Stage.running (stage : Stage loads lines d) (going : d.reader ≠ .finished) : d.op.status = .running := by
  unfold Stage at stage
  cases at_ : d.reader with
  | reading => rw [at_] at stage; exact stage.1
  | waiting => rw [at_] at stage; exact stage.1
  | draining final => rw [at_] at stage; exact stage.1
  | finished => exact absurd at_ going

end steps
section runs
variable {loads : String → Loaded} {lines : List Line} {start d : Deploy} {taken : List (Deploy × (Int × Event))}

-- The task was cancelled before its end.
def Cancelled (taken : List (Deploy × (Int × Event))) : Prop := ∃ row ∈ taken, row.2.2 = .cancelReader ∧ row.1.reader ≠ .finished

theorem cancelled_append {row : Deploy × (Int × Event)} :
    Cancelled (taken ++ [row]) ↔ Cancelled taken ∨ row.2.2 = .cancelReader ∧ row.1.reader ≠ .finished := by
  unfold Cancelled
  simp only [List.mem_append,List.mem_singleton]
  constructor
  · rintro ⟨other,old | rfl,cancels⟩
    · exact .inl ⟨other,old,cancels⟩
    · exact .inr cancels
  · rintro (⟨other,old,cancels⟩ | cancels)
    · exact ⟨other,.inl old,cancels⟩
    · exact ⟨row,.inr rfl,cancels⟩

-- The induction is on the run: a cancellation leads out of the stages.
theorem run_where (runs : Runs loads start taken d) (begins : Stage loads lines start) :
    (¬ Cancelled taken ∧ Stage loads lines d ∨ Cancelled taken ∧ Dropped d) ∧ ∀ row ∈ taken, Stage loads lines row.1 ∨ Dropped row.1 := by
  induction runs with
  | nil => exact ⟨.inl ⟨(fun ⟨_,none_,_⟩ => by cases none_),begins⟩,by simp⟩
  | @step taken d prior event ih =>
    obtain ⟨here,earlier⟩ := ih
    refine ⟨?_,fun row member => ?_⟩
    · rw [cancelled_append]
      rcases here with ⟨kept,stage⟩ | ⟨cancelled,dropped⟩
      · by_cases cancels : event.2 = .cancelReader
        · by_cases over_ : d.reader = .finished
          · obtain ⟨now,event⟩ := event
            dsimp only at cancels
            subst cancels
            have idle : step loads d (now,.cancelReader) = d := by simp [step,cancelReader,over_]
            rw [idle]
            exact .inl ⟨fun either => either.elim kept fun again => again.2 over_,stage⟩
          · refine .inr ⟨.inr ⟨cancels,over_⟩,?_⟩
            obtain ⟨now,event⟩ := event
            dsimp only at cancels
            subst cancels
            exact cancelReader_dropped (stage.running over_)
        · exact .inl ⟨fun either => either.elim kept fun again => cancels again.1,step_stage stage cancels⟩
      · exact .inr ⟨.inl cancelled,step_dropped dropped event⟩
    · rcases List.mem_append.mp member with old | new
      · exact earlier row old
      · rw [List.mem_singleton.mp new]
        exact here.imp And.right And.right

theorem finished_before {s : Deploy} (somewhere : Stage loads lines s ∨ Dropped s) (over_ : s.op.status ≠ .running) :
    s.op.finishedAt.isSome = true := by
  rcases somewhere with stage | dropped
  · by_cases at_ : s.reader = .finished
    · unfold Stage at stage
      rw [at_] at stage
      exact stage.2
    · exact absurd (stage.running at_) over_
  · exact absurd dropped.1 over_

theorem spawned_stage (operationId : String) (startedAt : Int) (stderr : List Line) :
    Stage loads lines (spawned (.new operationId startedAt) lines stderr) :=
  ⟨rfl,rfl,[],rfl,by simp,by simp,rfl,rfl⟩

-- The reader ends once the process has exited.
def ownSteps (now : Int) (d : Deploy) : List (Int × Event) :=
  List.replicate (d.stdout.length + 1) (now,.read) ++ [(now,.waited),(now,.drained)]

theorem conclude_away {now : Int} {final : Option Status} : (conclude now final d).reader ≠ .reading ∧ (conclude now final d).reader ≠ .waiting ∧
    (conclude now final d).returncode = d.returncode := by
  unfold conclude
  split
  · obtain ⟨buffer,total,more,same⟩ := finish_eq now final d
    simp [same]
  · simp

theorem readNext_shrinks (loads : String → Loaded) (now : Int) (d : Deploy) : (readNext loads now d).returncode = d.returncode ∧
    ((readNext loads now d).reader ≠ .reading ∨ (readNext loads now d).stdout.length < d.stdout.length) := by
  unfold readNext
  split
  · simp
  · rename_i line rest _ left
    cases went : readLine loads {d with stdout := rest} line with
    | none => exact ⟨conclude_away.2.2,.inl conclude_away.1⟩
    | some d' =>
      have turns := readLine_turns went
      rw [Option.getD_some,turns.returncode,turns.stdout,left]
      exact ⟨rfl,.inr (Nat.lt_succ_self _)⟩
  · rename_i empty more
    refine ⟨rfl,.inl fun at_ => ?_⟩
    cases left : d.stdout with
    | nil => exact empty at_ left
    | cons line rest => exact more line rest at_ left

theorem reads_idle {now : Int} (away : d.reader ≠ .reading) (steps : Nat) :
    (List.replicate steps (now,Event.read)).foldl (step loads) d = d := by
  induction steps with
  | zero => rfl
  | succ steps ih =>
    have idle : step loads d (now,.read) = d := readNext_idle away
    rw [List.replicate_succ,List.foldl_cons,idle,ih]

theorem reads_end (loads : String → Loaded) (now : Int) {steps : Nat} {d : Deploy} (enough : d.stdout.length < steps) :
    ((List.replicate steps (now,Event.read)).foldl (step loads) d).reader ≠ .reading ∧
      ((List.replicate steps (now,Event.read)).foldl (step loads) d).returncode = d.returncode := by
  induction steps generalizing d with
  | zero => omega
  | succ steps ih =>
    obtain ⟨same,away | shrinks⟩ := readNext_shrinks loads now d
    · rw [List.replicate_succ,List.foldl_cons,show step loads d (now,.read) = readNext loads now d from rfl,reads_idle away]
      exact ⟨away,same⟩
    · have later : (readNext loads now d).stdout.length < steps := by omega
      obtain ⟨away,kept⟩ := ih later
      exact ⟨away,kept.trans same⟩

theorem waited_away (now : Int) {code : Int} (exited : d.returncode = some code) (away : d.reader ≠ .reading) :
    (waited now d).reader ≠ .reading ∧ (waited now d).reader ≠ .waiting := by
  by_cases waits : d.reader = .waiting
  · unfold waited
    rw [waits,exited]
    exact ⟨conclude_away.1,conclude_away.2.1⟩
  · rw [waited_idle waits]
    exact ⟨away,waits⟩

theorem drained_finished {now : Int} (reading : d.reader ≠ .reading) (waiting : d.reader ≠ .waiting) : (drained now d).reader = .finished := by
  unfold drained
  cases at_ : d.reader with
  | reading => exact absurd at_ reading
  | waiting => exact absurd at_ waiting
  | draining final => exact (finish_reader now final _).1
  | finished => exact at_

theorem reader_ends (loads : String → Loaded) (now : Int) {code : Int} (exited : d.returncode = some code) :
    ((ownSteps now d).foldl (step loads) d).reader = .finished := by
  unfold ownSteps
  rw [List.foldl_append]
  obtain ⟨away,kept⟩ := reads_end loads now (Nat.lt_succ_self d.stdout.length)
  obtain ⟨reading,waiting⟩ := waited_away now (kept.trans exited) away
  exact drained_finished reading waiting

theorem follows_iff (runs : Runs loads start taken d) (begins : Stage loads lines start) (empty : Buffered start)
    (over_ : d.reader = .finished) : Follows loads lines taken d ↔ (∀ line ∈ lines, Readable loads line) ∧ ¬ Cancelled taken := by
  obtain ⟨here,earlier⟩ := run_where runs begins
  have order : ∀ s, s = d ∨ s ∈ taken.map Prod.fst → s.op.status ≠ .running → s.op.finishedAt.isSome = true := by
    intro s among
    rcases among with rfl | before
    · exact finished_before (here.imp And.right And.right)
    · obtain ⟨row,member,rfl⟩ := List.mem_map.mp before
      exact finished_before (earlier row member)
  have buffered : Buffered d :=
    (Histories.runs_invariant runs empty (fun s event held (_ : True) => step_buffered s event held) fun _ _ => trivial).1
  rcases here with ⟨kept,stage⟩ | ⟨cancelled,dropped⟩
  · unfold Stage at stage
    rw [over_] at stage
    rcases stage.1 with ⟨aborted,_⟩ | ⟨code,through,status⟩
    · constructor
      · intro follows
        obtain ⟨code,_,exited,_⟩ := follows.exited
        cases exited.symm.trans aborted.exitCode
      · intro ⟨readable,_⟩
        obtain ⟨line,member,bad⟩ := aborted.line
        exact absurd (readable line member) bad
    · refine ⟨fun _ => ⟨through.sound.readable,kept⟩,fun _ => ?_⟩
      have consumed : d.stdout = [] := by simpa using through.sound.split
      exact ⟨consumed,through.sound.appended,through.sound.statusUrl,through.sound.result,
        ⟨code,through.returncode,through.exitCode,status⟩,order,buffered.total⟩
  · refine ⟨fun follows => ?_,fun both => absurd cancelled both.2⟩
    obtain ⟨code,_,_,status⟩ := follows.exited
    rw [dropped.1] at status
    unfold statusOf at status
    split at status <;> cases status

-- The reader comes to its end with the process, and then tells what it did.
theorem reader_follows (loads : String → Loaded) (operationId : String) (startedAt : Int) (lines stderr : List Line)
    (taken : List (Deploy × (Int × Event))) (d : Deploy)
    (runs : Runs loads (spawned (.new operationId startedAt) lines stderr) taken d) :
    (∀ now, d.returncode.isSome = true → ((ownSteps now d).foldl (step loads) d).reader = .finished) ∧
    (d.reader = .finished → (Follows loads lines taken d ↔ (∀ line ∈ lines, Readable loads line) ∧ ¬ Cancelled taken)) := by
  refine ⟨fun now exited => ?_,follows_iff runs (spawned_stage operationId startedAt stderr) (spawned_buffered operationId startedAt lines stderr)⟩
  obtain ⟨code,known⟩ := Option.isSome_iff_exists.mp exited
  exact reader_ends loads now known

end runs

-- A package in which the text "3" is the number, two more texts are events and
-- nothing else is JSON.
section toy

def statusEvent : Fields := [("event",.str "status_url"),("url",.str "u")]

def resultEvent : Fields := [("event",.str "result"),("ok",.bool true)]

def toyLoads (line : String) : Loaded :=
  if line = "3" then .value (.num 3)
  else if line = "status" then .value (.obj statusEvent)
  else if line = "result" then .value (.obj resultEvent)
  else .malformed

def toyStart (lines : List Line) : Deploy := spawned (.new "op" 0) lines []

def ran (lines : List Line) (events : List Event) : List (Deploy × (Int × Event)) :=
  Histories.trace (step toyLoads) (toyStart lines) (events.map fun event => (0,event))

def reached (lines : List Line) (events : List Event) : Deploy :=
  (events.map fun event => ((0 : Int),event)).foldl (step toyLoads) (toyStart lines)

theorem ran_runs (lines : List Line) (events : List Event) : Runs toyLoads (toyStart lines) (ran lines events) (reached lines events) :=
  Histories.runs_trace .nil _

theorem uncancelled {lines : List Line} {events : List Event} (kept : ∀ row ∈ ran lines events, row.2.2 ≠ .cancelReader) :
    ¬ Cancelled (ran lines events) := fun ⟨row,member,cancels,_⟩ => kept row member cancels

def toyLines : List Line := [.text "hello",.text "status",.text "result"]

def toyEvents : List Event := [.read,.read,.read,.read,.exit 0,.waited,.drain,.drained]

theorem reader_follows_toy : Follows toyLoads toyLines (ran toyLines toyEvents) (reached toyLines toyEvents) ∧
    last toyLoads "status_url" toyLines = some statusEvent ∧ last toyLoads "result" toyLines = some resultEvent := by
  have result := (reader_follows toyLoads "op" 0 toyLines [] _ _ (ran_runs _ toyEvents)).2
  have readable : ∀ line ∈ toyLines, Readable toyLoads line :=
    List.forall_mem_cons.mpr ⟨trivial,List.forall_mem_cons.mpr ⟨rfl,List.forall_mem_cons.mpr ⟨rfl,fun _ none_ => by cases none_⟩⟩⟩
  exact ⟨(result (by decide +kernel)).mpr ⟨readable,uncancelled (by decide +kernel)⟩,rfl,rfl⟩

-- A number ends the reading, and the process that succeeds has failed.
theorem scalar_aborts : (reached [.text "3",.text "hello"] [.read,.exit 0,.drain,.drained]).reader = .finished ∧
    ¬ Cancelled (ran [.text "3",.text "hello"] [.read,.exit 0,.drain,.drained]) ∧
    (reached [.text "3",.text "hello"] [.read,.exit 0,.drain,.drained]).returncode = some 0 ∧
    (reached [.text "3",.text "hello"] [.read,.exit 0,.drain,.drained]).op.status = .failed ∧
    (reached [.text "3",.text "hello"] [.read,.exit 0,.drain,.drained]).stdout = [.text "hello"] ∧
    ¬ Follows toyLoads [.text "3",.text "hello"] (ran [.text "3",.text "hello"] [.read,.exit 0,.drain,.drained])
      (reached [.text "3",.text "hello"] [.read,.exit 0,.drain,.drained]) := by
  have left : (reached [.text "3",.text "hello"] [.read,.exit 0,.drain,.drained]).stdout = [.text "hello"] := by decide +kernel
  refine ⟨by decide +kernel,uncancelled (by decide +kernel),by decide +kernel,by decide +kernel,left,fun follows => ?_⟩
  cases left.symm.trans follows.consumed

end toy
end InmemRuntime.DeployReader
