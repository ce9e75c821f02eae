import InmemRuntime.ItemExpiry
import InmemRuntime.ItemSidecars
import InmemRuntime.Serialization

namespace InmemRuntime.StoreSerial
open OrderedDict Buckets ItemStore ItemSidecars Serialization
open ItemExpiry (Call Reply)

variable {Q T F V E : Type}

inductive Answer (V : Type) where
  | results (results : List (Result V))
  | deleted (count : Nat)

-- What a caller asks for.
inductive Request (Q T V : Type) where
  | batch (ops : List (Op Q T V))
  | sweepTtl

def request : Call Q T V E → Request Q T V
  | .batch _ ops => .batch ops
  | .sweep _ => .sweepTtl

def asked : Task Q T V E → Option (Request Q T V)
  | .abatch ops => some (.batch ops)
  | .batch ops => some (.batch ops)
  | .sweepTtl => some .sweepTtl
  | .querying _ _ => none
  | .embedding _ _ => none

-- The task holds the lock.
def inside (task : Task Q T V E) : Bool := (asked task).isNone

def answered : Progress Q T V E → Option (Except Raised (Answer V))
  | .suspended _ => none
  | .returned results => some (.ok (.results results))
  | .swept count => some (.ok (.deleted count))
  | .raised raised => some (.error raised)

section recording
variable (base : Base Q T F V E)

-- The store as an atomic object: a whole call with the readings it makes.
def atomically (s : Store F V E) : Call Q T V E → Store F V E × Except Raised (Answer V)
  | .batch readings ops => ((batch base s readings ops).1,(batch base s readings ops).2.map .results)
  | .sweep now => ((sweepTtl s now).1,.ok (.deleted (sweepTtl s now).2))

-- The call that a step works on, with what it has read so far. `abatch` reads
-- the clock for its gets in its first step, for its searches once their
-- queries are embedded and for its puts in its last one.
def working (under : Option (Call Q T V E)) (w : Readings Q E) (s : Shared F V E) : Task Q T V E → Option (Call Q T V E)
  | .abatch ops => if s.locked then none else some (.batch w ops)
  | .querying _ _ => under.map fun
    | .batch r ops => .batch {w with prepared := r.prepared} ops
    | .sweep now => .sweep now
  | .embedding _ _ => under.map fun
    | .batch r ops => .batch {r with applied := w.applied, embedded := w.embedded} ops
    | .sweep now => .sweep now
  | .batch ops => some (.batch w ops)
  | .sweepTtl => if s.locked then none else some (.sweep w.applied)

def record (under : Option (Call Q T V E)) (w : Readings Q E) (s : Shared F V E) (task : Task Q T V E) :
    Option (Call Q T V E) × List (Call Q T V E × Except Raised (Answer V)) :=
  match working under w s task with
  | none => (under,[])
  | some call =>
    match answered (stepTask base w s task).2 with
    | none => (some call,[])
    | some outcome => (none,[(call,outcome)])

def observe (under : Option (Call Q T V E)) (step : Pool Q T F V E × Event Q T V E) :
    Option (Call Q T V E) × List (Call Q T V E × Except Raised (Answer V)) :=
  match step.2 with
  | .call _ => (under,[])
  | .resume index w =>
    match step.1.tasks[index]? with
    | none => (under,[])
    | some task => record base under w step.1.shared task

-- The calls of a run in the order in which they end.
def calls (taken : List (Pool Q T F V E × Event Q T V E)) : List (Call Q T V E × Except Raised (Answer V)) :=
  (observed (observe base) none taken).2

def asks (step : Pool Q T F V E × Event Q T V E) : List (Request Q T V) :=
  match step.2 with
  | .call task => (asked task).toList
  | .resume _ _ => []

-- What a step answers its caller.
def answers (step : Pool Q T F V E × Event Q T V E) : List (Except Raised (Answer V)) :=
  match step.2 with
  | .call _ => []
  | .resume index w => ((step.1.tasks[index]?).bind fun task => answered (stepTask base w step.1.shared task).2).toList

-- `batch` takes no lock: nothing but `abatch` and sweeps may run beside an
-- `abatch` that waits.
def Undisturbed : Pool Q T F V E × Event Q T V E → Prop :=
  TaskPool.Meets (fun task => inside task = false) fun _ s task => ∀ ops, task = .batch ops → s.locked = false

-- What an `abatch` that waits has done since it took the lock.
def Partway (a : Store F V E) (call : Call Q T V E) (store : Store F V E) : Task Q T V E → Prop
  | .querying slots puts => ∃ r ops, call = .batch r ops ∧ prepareOps base a r.prepared ops = (store,.ok ⟨slots,puts⟩)
  | .embedding results puts => ∃ r ops middle slots, call = .batch r ops ∧
    prepareOps base a r.prepared ops = (middle,.ok ⟨slots,puts⟩) ∧ search base middle r slots = (store,.ok results) ∧
    (texts base puts).isEmpty = false
  | _ => False

-- `a` is the store that the call under way has found.
def Relates (under : Option (Call Q T V E)) (p : Pool Q T F V E) (a : Store F V E) : Prop :=
  p.shared.locked = under.isSome ∧ match under with
    | none => a = p.shared.store ∧ p.tasks.filter inside = []
    | some call => ∃ task, p.tasks.filter inside = [task] ∧ Partway base a call p.shared.store task

-- Where a step leaves the call that it works on.
def Reaches (a : Store F V E) (call : Call Q T V E) (done : Shared F V E × Progress Q T V E) : Prop :=
  match answered done.2 with
  | none => done.1.locked = true ∧ ∃ task, done.2 = .suspended task ∧ Partway base a call done.1.store task
  | some outcome => done.1.locked = false ∧ atomically base a call = (done.1.store,outcome)

end recording

section steps
variable {base : Base Q T F V E} {a store : Store F V E} {r w : Readings Q E} {ops : List (Op Q T V)}
  {slots : List (Slot Q V E)} {puts : Dict ItemKey (PutOp T V)} {results : List (Result V)}

theorem leave_reaches {call : Call Q T V E} {done : Store F V E × Except Raised (List (Result V))}
    (whole : atomically base a call = (done.1,done.2.map .results)) : Reaches base a call (leave (Q := Q) (T := T) false done) := by
  obtain ⟨s,outcome⟩ := done
  cases outcome with
  | error raised => exact ⟨rfl,whole⟩
  | ok results => exact ⟨rfl,whole⟩

theorem finishBatch_reaches {middle : Store F V E} (prepared : prepareOps base a r.prepared ops = (middle,.ok ⟨slots,puts⟩))
    (searched : search base middle r slots = (store,.ok results)) (same : write base store w puts = write base store r puts) :
    Reaches base a (.batch r ops) (finishBatch base w store results puts) := by
  refine leave_reaches ?_
  have whole : batch base a r ops = andThen (write base store w puts) fun s _ => (s,.ok results) := by
    simp only [batch,andThen,prepared,searched,same]
  rw [atomically,whole]

theorem embedOrFinish_reaches {middle : Store F V E} (prepared : prepareOps base a r.prepared ops = (middle,.ok ⟨slots,puts⟩))
    (searched : search base middle r slots = (store,.ok results)) (same : write base store w puts = write base store r puts) :
    Reaches base a (.batch r ops) (embedOrFinish base w store results puts) := by
  unfold embedOrFinish
  split
  · exact finishBatch_reaches prepared searched same
  · rename_i embeds
    exact ⟨rfl,_,rfl,r,ops,middle,slots,rfl,prepared,searched,by simpa using embeds⟩

-- Searches and puts look at their own readings only.
theorem searchAndOn_reaches {readings : Readings Q E} (prepared : prepareOps base a readings.prepared ops = (store,.ok ⟨slots,puts⟩)) :
    Reaches base a (.batch {w with prepared := readings.prepared} ops) (searchAndOn base w store slots puts) := by
  have same : search base store {w with prepared := readings.prepared} slots = search base store w slots := rfl
  unfold searchAndOn
  split
  · rename_i s raised failed
    have whole : batch base a {w with prepared := readings.prepared} ops = (s,.error raised) := by
      simp only [batch,andThen,prepared,same,failed]
    refine ⟨rfl,?_⟩
    rw [atomically,whole]
    rfl
  · rename_i s results searched
    exact embedOrFinish_reaches prepared (same.trans searched) rfl

variable (base) in
-- A step that finds the lock free takes its call up.
theorem free_reaches {s : Shared F V E} {task : Task Q T V E} (free : s.locked = false) (begins : inside task = false) :
    ∃ call, working none w s task = some call ∧ some (request call) = asked task ∧ Reaches base s.store call (stepTask base w s task) := by
  cases task with
  | abatch ops =>
    refine ⟨.batch w ops,by simp [working,free],rfl,?_⟩
    simp only [stepTask,free,Bool.false_eq_true,↓reduceIte]
    cases prepared : prepareOps base s.store w.prepared ops with
    | mk store outcome =>
      cases outcome with
      | error raised =>
        have whole : batch base s.store w ops = (store,.error raised) := by simp only [batch,andThen,prepared]
        refine ⟨rfl,?_⟩
        rw [atomically,whole]
        rfl
      | ok ready =>
        dsimp only
        split
        · exact ⟨rfl,_,rfl,w,ops,rfl,prepared⟩
        · exact searchAndOn_reaches prepared
  | querying slots puts => cases begins
  | embedding results puts => cases begins
  | batch ops =>
    refine ⟨.batch w ops,rfl,rfl,?_⟩
    simp only [stepTask,free]
    exact leave_reaches rfl
  | sweepTtl =>
    refine ⟨.sweep w.applied,by simp [working,free],rfl,?_⟩
    simp only [stepTask,free,Bool.false_eq_true,↓reduceIte]
    exact ⟨rfl,rfl⟩

-- The task that holds the lock goes on with its call.
theorem inside_reaches {s : Shared F V E} {task : Task Q T V E} {call : Call Q T V E} (partway : Partway base a call s.store task) :
    ∃ next, working (some call) w s task = some next ∧ request next = request call ∧ Reaches base a next (stepTask base w s task) := by
  cases task with
  | querying slots puts =>
    obtain ⟨r,ops,rfl,prepared⟩ := partway
    exact ⟨_,rfl,rfl,searchAndOn_reaches prepared⟩
  | embedding results puts =>
    obtain ⟨r,ops,middle,slots,rfl,prepared,searched,embeds⟩ := partway
    exact ⟨_,rfl,rfl,finishBatch_reaches (r := {r with applied := w.applied, embedded := w.embedded}) prepared searched rfl⟩
  | abatch ops => cases partway
  | batch ops => cases partway
  | sweepTtl => cases partway

variable (base w) in
-- Everything else waits for the lock, as it was.
theorem waits {s : Shared F V E} {task : Task Q T V E} (under : Option (Call Q T V E)) (locked : s.locked = true)
    (outside : inside task = false) (undisturbed : ∀ ops, task = .batch ops → s.locked = false) :
    resume base w s task = (s,[task]) ∧ working under w s task = none ∧ answered (stepTask base w s task).2 = none := by
  cases task with
  | abatch ops => simp [resume,stepTask,working,locked,answered]
  | sweepTtl => simp [resume,stepTask,working,locked,answered]
  | batch ops => exact absurd (undisturbed ops rfl) (by simp [locked])
  | querying slots puts => cases outside
  | embedding results puts => cases outside

theorem partway_inside {call : Call Q T V E} {task : Task Q T V E} (partway : Partway base a call store task) : inside task = true := by
  cases task <;> first | rfl | cases partway

theorem resume_ended {s : Shared F V E} {task : Task Q T V E} {outcome : Except Raised (Answer V)}
    (done : answered (stepTask base w s task).2 = some outcome) : (resume base w s task).2 = [] := by
  unfold resume
  cases progress : (stepTask base w s task).2 with
  | suspended task => simp [progress,answered] at done
  | _ => rfl

-- The step of a call leaves one task with the lock, or none and the lock free.
theorem reaches_relates {s : Shared F V E} {task : Task Q T V E} {call : Call Q T V E} {under : Option (Call Q T V E)}
    {before after : List (Task Q T V E)} (works : working under w s task = some call)
    (reaches : Reaches base a call (stepTask base w s task)) (first : before.filter inside = []) (last : after.filter inside = []) :
    ∃ b, Serial (atomically base) a (record base under w s task).2 b ∧
      Relates base (record base under w s task).1 ⟨(resume base w s task).1,before ++ (resume base w s task).2 ++ after⟩ b := by
  unfold Reaches at reaches
  unfold record
  rw [works]
  dsimp only
  split at reaches
  · rename_i unanswered
    obtain ⟨locked,next,suspended,partway⟩ := reaches
    refine ⟨a,.nil,locked,next,?_,partway⟩
    simp [resume,suspended,first,last,partway_inside partway]
  · rename_i outcome done
    obtain ⟨free,performed⟩ := reaches
    refine ⟨_,.one performed,free,rfl,?_⟩
    simp [resume_ended done,first,last]

end steps

section running
variable {base : Base Q T F V E} {under : Option (Call Q T V E)} {p : Pool Q T F V E} {a : Store F V E} {w : Readings Q E}
  {before after : List (Task Q T V E)} {task : Task Q T V E} {index : Nat}

theorem observe_resume (found : p.tasks[index]? = some task) (under : Option (Call Q T V E)) :
    observe base under (p,.resume index w) = record base under w p.shared task := by
  simp [observe,found]

-- A task that goes on waits for the lock as it was, or works on the one call
-- that may.
theorem resume_cases (related : Relates base under p a) (split : p.tasks = before ++ task :: after)
    (alone : ∀ ops, task = .batch ops → p.shared.locked = false) :
    (resume base w p.shared task = (p.shared,[task]) ∧ record base under w p.shared task = (under,[]) ∧
      answered (stepTask base w p.shared task).2 = none) ∨
    ∃ call, working under w p.shared task = some call ∧ Reaches base a call (stepTask base w p.shared task) ∧
      before.filter inside = [] ∧ after.filter inside = [] ∧ (under.map request).toList ++ (asked task).toList = [request call] := by
  obtain ⟨locked,rest⟩ := related
  cases under with
  | none =>
    obtain ⟨rfl,outside⟩ := rest
    simp only [split,List.filter_append,List.append_eq_nil_iff,List.filter_cons] at outside
    obtain ⟨first,later⟩ := outside
    cases begins : inside task with
    | true => simp [begins] at later
    | false =>
      obtain ⟨call,works,same,reaches⟩ := free_reaches base (w := w) (by simpa using locked) begins
      exact .inr ⟨call,works,reaches,first,by simpa [begins] using later,by simp [← same]⟩
  | some call =>
    obtain ⟨holder,only,partway⟩ := rest
    simp only [split,List.filter_append,List.filter_cons] at only
    cases begins : inside task with
    | true =>
      simp only [begins,↓reduceIte] at only
      obtain ⟨first,rfl,later⟩ : before.filter inside = [] ∧ task = holder ∧ after.filter inside = [] := by
        cases ahead : before.filter inside with
        | nil => simpa [ahead] using only
        | cons head tail => simp [ahead] at only
      obtain ⟨next,works,same,reaches⟩ := inside_reaches (w := w) partway
      have unasked : asked task = none := Option.isNone_iff_eq_none.mp begins
      exact .inr ⟨next,works,reaches,first,later,by simp [same,unasked]⟩
    | false =>
      obtain ⟨stays,waiting,unanswered⟩ := waits base w (some call) (by simpa using locked) begins alone
      exact .inl ⟨stays,by simp [record,waiting],unanswered⟩

theorem simulates : Simulates (resume base) Undisturbed (atomically base) (observe base) (Relates base) := by
  intro under p a event next related undisturbed step
  cases event with
  | call task =>
    cases Option.some.inj step
    obtain ⟨locked,rest⟩ := related
    have outside : inside task = false := undisturbed
    exact ⟨a,.nil,locked,by simpa [observe,List.filter_append,outside] using rest⟩
  | resume index w =>
    obtain ⟨before,task,after,split,found,rfl⟩ := TaskPool.resume_parts step
    rw [observe_resume found]
    obtain ⟨stays,unrecorded,_⟩ | ⟨call,works,reaches,first,last,_⟩ := resume_cases (w := w) related split (undisturbed task found)
    · rw [stays,unrecorded]
      refine ⟨a,.nil,?_⟩
      simpa only [List.append_assoc,List.singleton_append,← split] using related
    · exact reaches_relates works reaches first last

def waiting (under : Option (Call Q T V E)) (p : Pool Q T F V E) : List (Request Q T V) :=
  (under.map request).toList ++ p.tasks.filterMap asked

-- A request is moved from the tasks to the call under way, and from there to
-- the record.
theorem waiting_step (under : Option (Call Q T V E)) (p : Pool Q T F V E) (a : Store F V E) (event : Event Q T V E) (next : Pool Q T F V E)
    (related : Relates base under p a) (undisturbed : Undisturbed (p,event)) (step : TaskPool.advance (resume base) p event = some next) :
    (asks (p,event) ++ waiting under p).Perm
      ((observe base under (p,event)).2.map (fun done => request done.1) ++ waiting (observe base under (p,event)).1 next) := by
  cases event with
  | call task =>
    cases Option.some.inj step
    simp only [asks,waiting,observe,List.map_nil,List.nil_append,List.filterMap_append]
    refine (List.perm_append_comm).trans ?_
    rw [List.append_assoc]
    cases named : asked task <;> simp [named]
  | resume index w =>
    obtain ⟨before,task,after,split,found,rfl⟩ := TaskPool.resume_parts step
    rw [observe_resume found]
    obtain ⟨stays,unrecorded,_⟩ | ⟨call,works,reaches,first,last,one⟩ := resume_cases (w := w) related split (undisturbed task found)
    · rw [stays,unrecorded]
      simp [asks,waiting,split]
    · have moved : (waiting under p).Perm (request call :: (before.filterMap asked ++ after.filterMap asked)) := by
        have tasks : p.tasks.filterMap asked = before.filterMap asked ++ ((asked task).toList ++ after.filterMap asked) := by
          rw [split,List.filterMap_append,List.filterMap_cons]
          cases asked task <;> rfl
        rw [waiting,tasks]
        calc _ = ((under.map request).toList ++ before.filterMap asked) ++ ((asked task).toList ++ after.filterMap asked) := by simp
          List.Perm _ ((before.filterMap asked ++ (under.map request).toList) ++ ((asked task).toList ++ after.filterMap asked)) :=
            List.perm_append_comm.append_right _
          _ = before.filterMap asked ++ (request call :: after.filterMap asked) := by
            rw [List.append_assoc,← List.append_assoc _ (asked task).toList,one,List.singleton_append]
          List.Perm _ _ := List.perm_middle
      refine moved.trans ?_
      unfold record
      rw [works]
      unfold Reaches at reaches
      cases progress : answered (stepTask base w p.shared task).2 with
      | none =>
        simp only [progress] at reaches
        obtain ⟨_,later,suspended,partway⟩ := reaches
        have unasked : asked later = none := Option.isNone_iff_eq_none.mp (partway_inside partway)
        have spawned : (resume base w p.shared task).2 = [later] := by simp [resume,suspended]
        simp [spawned,waiting,unasked]
      | some outcome => simp [resume_ended progress,waiting]

theorem answers_step (under : Option (Call Q T V E)) (p : Pool Q T F V E) (a : Store F V E) (event : Event Q T V E) (next : Pool Q T F V E)
    (related : Relates base under p a) (undisturbed : Undisturbed (p,event)) (step : TaskPool.advance (resume base) p event = some next) :
    (observe base under (p,event)).2.map Prod.snd = answers base (p,event) := by
  cases event with
  | call task => rfl
  | resume index w =>
    obtain ⟨before,task,after,split,found,rfl⟩ := TaskPool.resume_parts step
    rw [observe_resume found]
    simp only [answers,found,Option.bind_some]
    obtain ⟨_,unrecorded,unanswered⟩ | ⟨call,works,_⟩ := resume_cases (w := w) related split (undisturbed task found)
    · rw [unrecorded,unanswered]
      rfl
    · unfold record
      rw [works]
      cases answered (stepTask base w p.shared task).2 <;> rfl

end running

-- In any interleaving the store answers as if each call had run alone, in the
-- order in which the calls end, and no request is lost or runs twice: as long
-- as no synchronous batch cuts into a call that holds the lock.
theorem store_serializable {base : Base Q T F V E} {s : Store F V E} {taken : List (Pool Q T F V E × Event Q T V E)} {p : Pool Q T F V E}
    (runs : Runs base ⟨⟨s,false⟩,[]⟩ taken p) (undisturbed : ∀ step ∈ taken, Undisturbed step) :
    ∃ last under, Serial (atomically base) s (calls base taken) last ∧ (p.shared.locked = false → last = p.shared.store) ∧
      (calls base taken).map Prod.snd = taken.flatMap (answers base) ∧ p.shared.locked = Option.isSome under ∧
      (taken.flatMap asks).Perm ((calls base taken).map (fun done => request done.1) ++ (under.toList ++ p.tasks.filterMap asked)) := by
  have begins : Relates base none (⟨⟨s,false⟩,[]⟩ : Pool Q T F V E) s := ⟨rfl,rfl,rfl⟩
  obtain ⟨last,serial,related⟩ := runs_serial simulates runs begins undisturbed
  have accounted := runs_accounted simulates runs begins undisturbed waiting_step
  refine ⟨last,_,serial,fun free => ?_,runs_answered simulates runs begins undisturbed answers_step,?_,by simpa [waiting,calls] using accounted⟩
  · obtain ⟨locked,rest⟩ := related
    cases under : (observed (observe base) none taken).1 with
    | none =>
      rw [under] at rest
      exact rest.1
    | some call => simp [under,free] at locked
  · rw [Option.isSome_map]
    exact related.1

-- The first put waits for its embedding while a second one is called and a
-- sweep finds the lock taken; both run after it.
section toy

def crowded : List (Event String Int String Nat) :=
  [.call (.abatch [.put ⟨kept,some "a",none⟩]),.call (.abatch [.put ⟨kept,none,none⟩]),.call .sweepTtl,
    .resume 0 (at_ 0),.resume 1 (at_ 5),.resume 2 (at_ 6),.resume 0 (at_ 20),.resume 1 (at_ 30),.resume 0 (at_ 40)]

theorem store_serializable_toy : ∃ taken p last, Runs embedding emptyPool taken p ∧ p.tasks.length = 0 ∧ last = p.shared.store ∧
    Serial (atomically embedding) emptyPool.shared.store (calls embedding taken) last ∧
    (calls embedding taken).map Prod.snd = [.ok (.results [.nothing]),.ok (.deleted 0),.ok (.results [.nothing])] := by
  have runs : Runs embedding emptyPool _ _ := TaskPool.perform_runs .nil (rfl : TaskPool.perform (resume embedding) emptyPool crowded = some _)
  obtain ⟨last,_,serial,final,answered,_⟩ := store_serializable runs (by
    refine List.forall_mem_cons.mpr ⟨rfl,List.forall_mem_cons.mpr ⟨rfl,List.forall_mem_cons.mpr ⟨rfl,List.forall_mem_cons.mpr
      ⟨?_,List.forall_mem_cons.mpr ⟨?_,List.forall_mem_cons.mpr ⟨?_,List.forall_mem_cons.mpr ⟨?_,List.forall_mem_cons.mpr ⟨?_,
        List.forall_mem_cons.mpr ⟨?_,fun _ none_ => absurd none_ List.not_mem_nil⟩⟩⟩⟩⟩⟩⟩⟩⟩
    all_goals
      intro task here ops same
      cases here
      cases same)
  exact ⟨_,_,last,runs,rfl,final rfl,serial,answered.trans rfl⟩

end toy
end InmemRuntime.StoreSerial
