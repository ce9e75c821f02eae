import InmemRuntime.BusyThreads
import InmemRuntime.RunPayloads

namespace InmemRuntime.RefusedRequests
open OrderedDict ObjectHeap PythonJson RuntimeStore Serving RunOps RunPayloads
open BusyThreads (Kept)

-- A request, or another operation, which gives a new thread an empty config.
inductive Operation where
  | putRun (request : Request) (answers : Answers)
  | beside (op : Sequential.Operation Json) (other : ∀ call filters wake, op ≠ .putRun call filters wake)

-- Thread records (status, metadata, config, times), runs and ttls are as before.
structure Unchanged (r r' : Records) : Prop where
  live : r'.store.liveThreads = r.store.liveThreads
  threads : ∀ ref ∈ r.store.liveThreads, r'.store.thread ref = r.store.thread ref ∧ r'.configs ref = r.configs ref
  bound : r'.store.boundRuns = r.store.boundRuns
  runs : ∀ ref ∈ r.store.boundRuns, r'.store.run ref = r.store.run ref ∧ r'.payloads ref = r.payloads ref
  ttls : r'.store.ttls = r.store.ttls

section operations
variable (pairs : Json → Except Misuse Fields)

def perform : Operation → Records → Records
  | .putRun request answers,r => (putRun pairs r request answers).1
  | .beside op _,r => {r with
      store := Sequential.perform Json.str op r.store
      configs := fun ref => if r.store.threads.next ≤ ref then [] else r.configs ref}

-- The operations of a history with the records that each of them met.
inductive History (start : Records) : List (Records × Operation) → Records → Prop where
  | nil : History start [] start
  | step (prior : History start taken r) (op : Operation) : History start (taken ++ [(r,op)]) (perform pairs op r)

-- If the request returns and appends no run, it has changed nothing.
def Spares (r : Records) (request : Request) (answers : Answers) : Prop :=
  ∀ refs, (putRun pairs r request answers).2 = .ok refs →
    (putRun pairs r request answers).1.store.boundRuns = r.store.boundRuns → Unchanged r (putRun pairs r request answers).1

-- The request comes to a thread that has an inflight run and is not busy, or
-- that is missing, and may not add a run to it.
def Overtaken (r : Records) (request : Request) (answers : Answers) : Prop :=
  ∃ assistant threadId, Resolves r request answers assistant ∧ request.preventInsertIfInflight = true ∧
    r.store.activeOn threadId = true ∧
    (Creates r request answers threadId ∧ (∃ config, createdConfig pairs (r.blueprints assistant.assistantId) request = .ok config) ∨
      ∃ ref, Finds r request answers threadId ref ∧ (r.store.thread ref).status ≠ .busy ∧
        ∃ config, updatedConfig pairs (r.blueprints assistant.assistantId) (r.configs ref) request = .ok config)

end operations

-- `uuid4()` gives an id that no thread has.
def Fresh (r : Records) : Operation → Prop
  | .putRun request answers => request.threadId = none → r.store.findThread answers.newId = none
  | .beside _ _ => True

-- A cancellation leaves no thread idle that has an active run.
def Clears (r : Records) : Operation → Prop
  | .putRun _ _ => True
  | .beside op _ => BusyThreads.Clears r.store op

section calls
variable {pairs : Json → Except Misuse Fields} {r r' : Records} {request : Request} {answers : Answers}

theorem Unchanged.refl : Unchanged r r := ⟨rfl,fun _ _ => ⟨rfl,rfl⟩,rfl,fun _ _ => ⟨rfl,rfl⟩,rfl⟩

theorem created_changes (assistant : Assistant Json) (threadId : String) (config : Fields) :
    ¬ Unchanged r (created r answers assistant request threadId config) := by
  intro same
  have longer := congrArg List.length same.live
  simp [created,ThreadRecords.live_appendThread] at longer

theorem woken_changes {assistant : Assistant Json} {threadId : String} {ref : Nat} {config : Fields}
    (found : Finds r request answers threadId ref) (calm : (r.store.thread ref).status ≠ .busy) :
    ¬ Unchanged r (woken r answers assistant ref config) := by
  intro same
  have record := (same.threads ref (Store.findThread_some found.2.1).1).1
  rw [woken,Store.thread_updateThread_self] at record
  exact calm (record ▸ BusyThreads.markBusy_status _ _ _)

-- Once the request has come to the inflight check, it returns there or adds a run.
theorem insert_spares {before : Records} {assistant : Assistant Json} {held : Option (Metadata Json × Fields)} {threadId : String} {refs : List Nat}
    (returned : (insert pairs before answers assistant held request threadId).2 = .ok refs)
    (bound : before.store.boundRuns = r.store.boundRuns)
    (same : (insert pairs before answers assistant held request threadId).1.store.boundRuns = r.store.boundRuns) :
    request.preventInsertIfInflight = true ∧ before.store.activeOn threadId = true ∧
      (insert pairs before answers assistant held request threadId).1 = before := by
  rcases insert_cases pairs before answers assistant held request threadId with ⟨prevents,active,shape⟩ | ⟨misuse,shape⟩ | ⟨_,payload,_,shape⟩
  · exact ⟨prevents,active,by rw [shape]⟩
  · rw [shape] at returned
    cases returned
  · rw [shape] at same
    have longer := congrArg List.length same
    simp [stored,Store.appendRun,bound] at longer

theorem spares_iff : Spares pairs r request answers ↔ ¬ Overtaken pairs r request answers := by
  constructor
  · rintro spares ⟨assistant,threadId,resolved,prevents,active,reaches⟩
    rcases reaches with ⟨creates,config,made⟩ | ⟨ref,found,calm,config,made⟩
    · have here : (created r answers assistant request threadId config).store.activeOn threadId = true := active
      have shape := (putRun_created resolved creates made).trans (insert_blocked prevents here)
      unfold Spares at spares
      rw [shape] at spares
      exact created_changes assistant threadId config (spares _ rfl rfl)
    · have here : (woken r answers assistant ref config).store.activeOn threadId = true := active
      have shape := (putRun_woken resolved found calm made).trans (insert_blocked prevents here)
      unfold Spares at spares
      rw [shape] at spares
      exact woken_changes found calm (spares _ rfl rfl)
  · intro clear refs returned same
    have turn := putRun_turn pairs r request answers
    generalize putRun pairs r request answers = result at turn returned same ⊢
    cases turn with
    | refused => exact .refl
    | misused misuse => cases returned
    | halfway _ _ _ misuse _ _ _ => cases returned
    | created assistant threadId config resolved creates made =>
      obtain ⟨prevents,active,_⟩ := insert_spares returned rfl same
      exact absurd ⟨assistant,threadId,resolved,prevents,active,.inl ⟨creates,config,made⟩⟩ clear
    | used assistant threadId ref resolved found busy =>
      obtain ⟨_,_,shape⟩ := insert_spares returned rfl same
      rw [shape]
      exact .refl
    | woken assistant threadId ref config resolved found calm made =>
      obtain ⟨prevents,active,_⟩ := insert_spares returned rfl same
      exact absurd ⟨assistant,threadId,resolved,prevents,active,.inr ⟨ref,found,calm,config,made⟩⟩ clear

end calls

section histories
variable {pairs : Json → Except Misuse Fields} {start r : Records} {request : Request} {answers : Answers}

theorem insert_kept {assistant : Assistant Json} {held : Option (Metadata Json × Fields)} {threadId : String} {live : Nat}
    (kept : Kept r.store) (known : r.store.findThread threadId = some live) (marked : (r.store.thread live).status = .busy) :
    Kept (insert pairs r answers assistant held request threadId).1.store := by
  rcases insert_cases pairs r answers assistant held request threadId with ⟨_,_,shape⟩ | ⟨misuse,shape⟩ | ⟨_,payload,_,shape⟩
  · rwa [shape]
  · rwa [shape]
  · rw [shape]
    exact ⟨BusyThreads.sound_appendRun kept.sound known,BusyThreads.busy_appendRun kept.sound kept.busy known marked⟩

theorem creates_absent {threadId : String} (creates : Creates r request answers threadId)
    (unused : request.threadId = none → r.store.findThread answers.newId = none) : r.store.findThread threadId = none := by
  rcases creates with ⟨unnamed,rfl⟩ | ⟨_,missing,_⟩
  · exact unused unnamed
  · exact missing

theorem putRun_kept (kept : Kept r.store) (unused : request.threadId = none → r.store.findThread answers.newId = none) :
    Kept (putRun pairs r request answers).1.store := by
  have turn := putRun_turn pairs r request answers
  generalize putRun pairs r request answers = result at turn ⊢
  cases turn with
  | refused => exact kept
  | misused misuse => exact kept
  | halfway assistant threadId ref misuse _ _ _ =>
    dsimp only [halfway]
    refine BusyThreads.kept_updateThread kept ref ?_ ?_
    · exact fun _ => rfl
    · exact fun _ => rfl
  | created assistant threadId config resolved creates made =>
    have born : r.store.findThread (newThread Json.str request.plain assistant threadId answers.now).threadId = none :=
      creates_absent creates unused
    obtain ⟨known,record⟩ := BusyThreads.findThread_appendThread kept born
    exact insert_kept (BusyThreads.kept_appendThread kept born) known (congrArg Thread.status record)
  | used assistant threadId ref resolved found busy => exact insert_kept kept found.2.1 busy
  | woken assistant threadId ref config resolved found calm made =>
    have same := BusyThreads.sameIds_updateThread r.store ref (markBusy_threadId Json.str answers.now assistant)
    have marked : Kept (r.store.updateThread ref (markBusy Json.str answers.now assistant)) :=
      BusyThreads.kept_updateThread kept ref (markBusy_threadId _ _ _) fun _ => BusyThreads.markBusy_status _ _ _
    have known := (BusyThreads.findThread_sameIds same threadId).trans found.2.1
    refine insert_kept marked known ?_
    rw [woken,Store.thread_updateThread_self]
    exact BusyThreads.markBusy_status _ _ _

theorem perform_kept (kept : Kept r.store) {op : Operation} (fresh : Fresh r op) (clears : Clears r op) : Kept (perform pairs op r).store := by
  cases op with
  | putRun request answers => exact putRun_kept kept fresh
  | beside op other =>
    have known : BusyThreads.FreshIds r.store op := by
      cases op with
      | putRun call filters wake => exact absurd rfl (other call filters wake)
      | _ => trivial
    have performed : BusyThreads.Sound (Sequential.perform Json.str op r.store) ∧ _ := BusyThreads.perform_busy kept known
    exact ⟨performed.1,performed.2.mpr clears⟩

theorem history_kept {taken : List (Records × Operation)} (history : History pairs start taken r) (empty : BusyThreads.Empty start.store)
    (fresh : ∀ step ∈ taken, Fresh step.1 step.2) (clears : ∀ step ∈ taken, Clears step.1 step.2) : Kept r.store := by
  induction history with
  | nil => exact BusyThreads.kept_empty empty
  | @step taken r prior op ih =>
    have kept := ih (fun step member => fresh step (List.mem_append_left _ member)) fun step member => clears step (List.mem_append_left _ member)
    have last : (r,op) ∈ taken ++ [(r,op)] := List.mem_append_right _ (List.mem_singleton_self _)
    exact perform_kept kept (fresh _ last) (clears _ last)

-- Where active runs keep their threads busy, nothing is overtaken.
theorem kept_clear (kept : Kept r.store) (unused : request.threadId = none → r.store.findThread answers.newId = none) :
    ¬ Overtaken pairs r request answers := by
  rintro ⟨assistant,threadId,_,_,active,reaches⟩
  rcases reaches with ⟨creates,_⟩ | ⟨ref,found,calm,_⟩
  · rw [BusyThreads.absent_inactive kept.sound (creates_absent creates unused)] at active
    cases active
  · obtain ⟨live,named⟩ := Store.findThread_some found.2.1
    exact calm (kept.busy ref live (named.symm ▸ active))

-- In every reached state, a request that adds no run changes nothing unless it
-- is overtaken; and where every cancellation clears its threads, none is.
theorem refused_requests_spare {taken : List (Records × Operation)} (history : History pairs start taken r)
    (empty : BusyThreads.Empty start.store) (fresh : ∀ step ∈ taken, Fresh step.1 step.2)
    (unused : request.threadId = none → r.store.findThread answers.newId = none) :
    (Spares pairs r request answers ↔ ¬ Overtaken pairs r request answers) ∧
      ((∀ step ∈ taken, Clears step.1 step.2) → Spares pairs r request answers) :=
  ⟨spares_iff,fun clears => spares_iff.mpr (kept_clear (history_kept history empty fresh clears) unused)⟩

end histories

def toyPairs : Json → Except Misuse Fields := fun _ => .error .typeError

def toyRecords : Records :=
  ⟨{Store.empty with assistants := [⟨"a","g",true,Dict.empty⟩]},fun _ => ⟨[],.null⟩,fun _ => [],fun _ => ⟨[],[]⟩⟩

def toyRequest (runId : String) (prevents : Bool) : Request :=
  ⟨"a",[],some "T",none,some runId,.pending,Dict.empty,prevents,.create,0⟩

def toyAnswers : Answers := ⟨none,none,"new",0⟩

theorem refused_requests_spare_toy : ∃ taken r, History toyPairs toyRecords taken r ∧ r.store.activeOn "T" = true ∧
    Spares toyPairs r (toyRequest "r2" true) toyAnswers := by
  have history : History toyPairs toyRecords _ _ := .step .nil (.putRun (toyRequest "r1" false) toyAnswers)
  refine ⟨_,_,history,by decide,(refused_requests_spare history ⟨rfl,rfl⟩ ?_ fun unnamed => absurd unnamed (by decide)).2 ?_⟩
  · exact List.forall_mem_singleton.mpr fun unnamed => absurd unnamed (by decide)
  · exact List.forall_mem_singleton.mpr trivial

def toyCancel : Operation :=
  .beside (.cancel ⟨some ["r1"],.interrupt,some "T",none,none⟩ ⟨none,fun _ _ => false,fun _ _ => true,1⟩) fun _ _ _ => by simp

-- One of two pending runs is cancelled; the request that is then refused wakes
-- the thread.
theorem refused_wakes : ∃ taken r, History toyPairs toyRecords taken r ∧ BusyThreads.Empty toyRecords.store ∧
    ¬ Spares toyPairs r (toyRequest "r3" true) toyAnswers := by
  have history : History toyPairs toyRecords _ _ := .step (.step (.step .nil (.putRun (toyRequest "r1" false) toyAnswers))
    (.putRun (toyRequest "r2" false) toyAnswers)) toyCancel
  refine ⟨_,_,history,⟨rfl,rfl⟩,fun spares => ?_⟩
  have unchanged := spares [1] rfl rfl
  have status := congrArg Thread.status (unchanged.threads 0 (by decide)).1
  exact absurd status (by decide)

end InmemRuntime.RefusedRequests
