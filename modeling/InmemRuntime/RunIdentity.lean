import InmemRuntime.RunPayloads
import InmemRuntime.Outcomes

namespace InmemRuntime.RunIdentity
open OrderedDict ObjectHeap PythonJson RuntimeStore Serving RunOps RunPayloads

-- `kwargs["config"][name]`.
def configPart (kwargs : Fields) (name : String) : Option Fields :=
  match kwargs.lookup "config" with
  | some (.obj config) =>
    match config.lookup name with
    | some (.obj fields) => some fields
    | _ => none
  | _ => none

-- What a run says of itself, its thread, its graph and its assistant.
structure Identity where
  metadataAssistantId : Option Json
  configAssistantId : Option Json
  runId : Option Json
  threadId : Option Json
  graphId : Option Json
  assistantId : Option Json

def identity (payload : Payload) : Identity where
  metadataAssistantId := payload.metadata.lookup "assistant_id"
  configAssistantId := (configPart payload.kwargs "metadata").bind fun fields => fields.lookup "assistant_id"
  runId := (configPart payload.kwargs "configurable").bind fun fields => fields.lookup "run_id"
  threadId := (configPart payload.kwargs "configurable").bind fun fields => fields.lookup "thread_id"
  graphId := (configPart payload.kwargs "configurable").bind fun fields => fields.lookup "graph_id"
  assistantId := (configPart payload.kwargs "configurable").bind fun fields => fields.lookup "assistant_id"

def resolved (assistant : Assistant Json) (runId threadId : String) : Identity :=
  ⟨some (.str assistant.assistantId),some (.str assistant.assistantId),some (.str runId),some (.str threadId),
    some (.str assistant.graphId),some (.str assistant.assistantId)⟩

def ownership (metadata : Metadata Json) : Option Json × Option Json := (metadata.get? "assistant_id",metadata.get? "graph_id")

-- What the request's own metadata say under a key; `metadata` comes last.
def userValue (request : Request) (key : String) : Option Json :=
  (request.metadata.get? key).or (request.plain.configMetadata.get? key)

section requests
variable (pairs : Json → Except Misuse Fields) (r : Records) (request : Request) (answers : Answers)

-- The request adds a run.
def Inserts (ref : Nat) : Prop := (putRun pairs r request answers).1.store.boundRuns = r.store.boundRuns ++ [ref]

-- The request creates a thread, or moves the one that it names to busy.
def Claims (ref : Nat) : Prop :=
  (putRun pairs r request answers).1.store.liveThreads = r.store.liveThreads ++ [ref] ∨
    ∃ threadId, request.threadId = some threadId ∧ r.store.findThread threadId = some ref ∧ (r.store.thread ref).status ≠ .busy ∧
      ((putRun pairs r request answers).1.store.thread ref).status = .busy

structure Unspoofed (runId : String) : Prop where
  run : ∀ ref, Inserts pairs r request answers ref → ∃ assistant, Resolves r request answers assistant ∧
    identity ((putRun pairs r request answers).1.payloads ref) = resolved assistant runId (request.threadId.getD answers.newId)
  thread : ∀ ref, Claims pairs r request answers ref → ∃ assistant, Resolves r request answers assistant ∧
    ownership ((putRun pairs r request answers).1.store.thread ref).metadata =
      (some (.str assistant.assistantId),some (.str assistant.graphId))

-- Requests for one run of one assistant on one thread, whatever else they carry.
structure SameTarget (request other : Request) : Prop where
  assistantId : other.assistantId = request.assistantId
  threadId : other.threadId = request.threadId
  runId : other.runId = request.runId

-- The request creates a thread, and its metadata name another assistant or
-- graph.
def Planted : Prop :=
  ∃ assistant threadId, Resolves r request answers assistant ∧ Creates r request answers threadId ∧
    (∃ config, createdConfig pairs (r.blueprints assistant.assistantId) request = .ok config) ∧
    ((∃ value ∈ userValue request "assistant_id", value ≠ .str assistant.assistantId) ∨
      ∃ value ∈ userValue request "graph_id", value ≠ .str assistant.graphId)

end requests

section merges
variable {pairs : Json → Except Misuse Fields} {objects : List Json} {fields result : Fields}

-- What is merged last wins.
theorem mergeJsonb_last (merged : mergeJsonb pairs (objects ++ [.obj fields]) = .ok result) :
    ∃ before, mergeJsonb pairs objects = .ok before ∧ result = merge before fields := by
  unfold mergeJsonb at merged
  rw [List.foldlM_append] at merged
  obtain ⟨before,first,last⟩ := Outcomes.bind_ok.mp merged
  have last : update pairs before (.obj fields) = .ok result := by simpa using last
  exact ⟨before,first,(Except.ok.inj last).symm⟩

end merges

section payloads
variable {pairs : Json → Except Misuse Fields} {blueprint : Blueprint} {assistant : Assistant Json} {held : Option (Metadata Json × Fields)}
variable {request : Request} {threadId : String} {payload : Payload}

theorem configurable_identity {config : Option Fields} {fields : Fields}
    (made : configurable pairs blueprint assistant config request threadId = .ok fields) :
    fields.lookup "run_id" = some (.str (idText request.runId)) ∧ fields.lookup "thread_id" = some (.str threadId) ∧
      fields.lookup "graph_id" = some (.str assistant.graphId) ∧ fields.lookup "assistant_id" = some (.str request.assistantId) := by
  unfold configurable at made
  obtain ⟨own,_,made⟩ := Outcomes.bind_ok.mp made
  obtain ⟨user,_,made⟩ := Outcomes.bind_ok.mp made
  have merged : mergeJsonb pairs ([_,_,_] ++ [.obj _]) = .ok fields := made
  obtain ⟨before,_,rfl⟩ := mergeJsonb_last merged
  simp [List.lookup_cons]

theorem mergedMetadata_identity {metadata : Option (Metadata Json)} {fields : Fields}
    (made : mergedMetadata pairs assistant metadata request = .ok fields) : fields.lookup "assistant_id" = some (.str request.assistantId) := by
  unfold mergedMetadata at made
  obtain ⟨own,_,made⟩ := Outcomes.bind_ok.mp made
  obtain ⟨merged,_,made⟩ := Outcomes.bind_ok.mp made
  cases Except.ok.inj made
  simp

-- Whatever the request carries, its run is stamped with what it resolves to.
theorem newPayload_identity {runId : String} (made : newPayload pairs blueprint assistant held request threadId = .ok payload)
    (named : request.runId = some runId) (same : assistant.assistantId = request.assistantId) :
    identity payload = resolved assistant runId threadId := by
  unfold newPayload at made
  obtain ⟨configurable,first,made⟩ := Outcomes.bind_ok.mp made
  obtain ⟨metadata,second,made⟩ := Outcomes.bind_ok.mp made
  obtain ⟨config,third,made⟩ := Outcomes.bind_ok.mp made
  obtain ⟨context,_,made⟩ := Outcomes.bind_ok.mp made
  obtain ⟨kwargs,last,made⟩ := Outcomes.bind_ok.mp made
  cases Except.ok.inj made
  obtain ⟨run,thread,graph,owner⟩ := configurable_identity first
  have stamp := mergedMetadata_identity second
  have merged : mergeJsonb pairs ([_,_] ++ [.obj [("configurable",.obj configurable)]] ++ [.obj [("metadata",.obj metadata)]]) = .ok config := third
  obtain ⟨inner,earlier,rfl⟩ := mergeJsonb_last merged
  obtain ⟨_,_,rfl⟩ := mergeJsonb_last earlier
  have whole : mergeJsonb pairs ([_] ++ [.obj _]) = .ok kwargs := last
  obtain ⟨_,_,rfl⟩ := mergeJsonb_last whole
  simp [identity,configPart,List.lookup_cons,stamp,run,thread,graph,owner,resolved,same,named,idText]

end payloads

section threads
variable {pairs : Json → Except Misuse Fields} {r : Records} {assistant : Assistant Json} {request : Request} {answers : Answers}

theorem owner_ownership (metadata : Metadata Json) :
    ownership (metadata.update (owner Json.str assistant)) = (some (.str assistant.assistantId),some (.str assistant.graphId)) := by
  simp [ownership,owner,Dict.update,Dict.get?_insert]

-- A new thread has the values of the request where it gives any.
theorem newThread_ownership (threadId : String) (now : Int) : ownership (newThread Json.str request.plain assistant threadId now).metadata =
    ((userValue request "assistant_id").or (some (.str assistant.assistantId)),
      (userValue request "graph_id").or (some (.str assistant.graphId))) := by
  have own : ownership (Dict.empty.update (owner Json.str assistant)) = _ := owner_ownership Dict.empty
  simp only [ownership,Prod.mk.injEq] at own
  have plain : request.plain.metadata = request.metadata := rfl
  simp only [ownership,newThread,Dict.get?_update_dict,own,plain,userValue,Option.or_assoc]

-- The metadata of the thread that is marked busy.
theorem woken_ownership {ref : Nat} {config : Fields} (calm : (r.store.thread ref).status ≠ .busy) :
    ownership ((woken r answers assistant ref config).store.thread ref).metadata =
      (some (.str assistant.assistantId),some (.str assistant.graphId)) := by
  rw [woken,Store.thread_updateThread_self,markBusy,if_neg calm]
  exact owner_ownership _

theorem resolves_same (resolves : Resolves r request answers assistant) : assistant.assistantId = request.assistantId := by
  simpa using List.find?_some resolves.1

theorem resolves_one {other : Assistant Json} (resolves : Resolves r request answers assistant) (also : Resolves r request answers other) :
    other = assistant := Option.some.inj (also.1.symm.trans resolves.1)

-- The inflight check and what follows it leave the threads alone.
theorem insert_threads (before : Records) (held : Option (Metadata Json × Fields)) (threadId : String) :
    (insert pairs before answers assistant held request threadId).1.store.liveThreads = before.store.liveThreads ∧
      ∀ ref, (insert pairs before answers assistant held request threadId).1.store.thread ref = before.store.thread ref := by
  rcases insert_cases pairs before answers assistant held request threadId with ⟨_,_,shape⟩ | ⟨misuse,shape⟩ | ⟨_,payload,_,shape⟩
  all_goals
    rw [shape]
    exact ⟨rfl,fun _ => rfl⟩

theorem insert_identity {before : Records} {held : Option (Metadata Json × Fields)} {threadId runId : String} {ref : Nat}
    (named : request.runId = some runId) (same : assistant.assistantId = request.assistantId)
    (bound : before.store.boundRuns = r.store.boundRuns)
    (inserts : (insert pairs before answers assistant held request threadId).1.store.boundRuns = r.store.boundRuns ++ [ref]) :
    identity ((insert pairs before answers assistant held request threadId).1.payloads ref) = resolved assistant runId threadId := by
  rcases insert_cases pairs before answers assistant held request threadId with ⟨_,_,shape⟩ | ⟨misuse,shape⟩ | ⟨_,payload,made,shape⟩
  · rw [shape,bound] at inserts
    simp at inserts
  · rw [shape,bound] at inserts
    simp at inserts
  · rw [shape] at inserts ⊢
    have last : ref = before.store.runs.next := by simpa [stored,Store.appendRun,bound] using inserts.symm
    subst last
    simp only [stored,Function.update_self]
    exact newPayload_identity made named same

end threads

section spoofing
variable {pairs : Json → Except Misuse Fields} {r : Records} {request : Request} {answers : Answers}

theorem inserts_identity {runId : String} {ref : Nat} (named : request.runId = some runId) (inserts : Inserts pairs r request answers ref) :
    ∃ assistant, Resolves r request answers assistant ∧
      identity ((putRun pairs r request answers).1.payloads ref) = resolved assistant runId (request.threadId.getD answers.newId) := by
  unfold Inserts at inserts
  have turn := putRun_turn pairs r request answers
  generalize putRun pairs r request answers = result at turn inserts ⊢
  cases turn with
  | refused => simp at inserts
  | misused misuse => simp at inserts
  | halfway assistant threadId ref misuse _ _ _ => simp [halfway] at inserts
  | created assistant threadId config resolves creates made =>
    have target : request.threadId.getD answers.newId = threadId := by
      rcases creates with ⟨unnamed,rfl⟩ | ⟨given,_,_⟩
      · simp [unnamed]
      · simp [given]
    rw [target]
    exact ⟨assistant,resolves,insert_identity named (resolves_same resolves) rfl inserts⟩
  | used assistant threadId ref resolves found busy =>
    have target : request.threadId.getD answers.newId = threadId := by simp [found.1]
    rw [target]
    exact ⟨assistant,resolves,insert_identity named (resolves_same resolves) rfl inserts⟩
  | woken assistant threadId ref config resolves found calm made =>
    have target : request.threadId.getD answers.newId = threadId := by simp [found.1]
    rw [target]
    exact ⟨assistant,resolves,insert_identity named (resolves_same resolves) rfl inserts⟩

theorem created_thread (assistant : Assistant Json) (threadId : String) (config : Fields) :
    (created r answers assistant request threadId config).store.liveThreads = r.store.liveThreads ++ [r.store.threads.next] ∧
      (created r answers assistant request threadId config).store.thread r.store.threads.next =
        newThread Json.str request.plain assistant threadId answers.now :=
  ⟨ThreadRecords.live_appendThread _ _,Store.thread_allocThread_new _ _⟩

-- A thread that is marked busy is the assistant's; a new one is what the
-- request makes of it.
theorem claims_ownership {ref : Nat} (claims : Claims pairs r request answers ref) : ∃ assistant, Resolves r request answers assistant ∧
    (ownership ((putRun pairs r request answers).1.store.thread ref).metadata =
        (some (.str assistant.assistantId),some (.str assistant.graphId)) ∨
      ∃ threadId, Creates r request answers threadId ∧
        (∃ config, createdConfig pairs (r.blueprints assistant.assistantId) request = .ok config) ∧
        ownership ((putRun pairs r request answers).1.store.thread ref).metadata =
          ((userValue request "assistant_id").or (some (.str assistant.assistantId)),
            (userValue request "graph_id").or (some (.str assistant.graphId)))) := by
  unfold Claims at claims
  have turn := putRun_turn pairs r request answers
  generalize putRun pairs r request answers = result at turn claims ⊢
  have idle : ∀ threads : List Nat, threads ≠ threads ++ [ref] := by simp
  have rests : ¬ (r.store.liveThreads = r.store.liveThreads ++ [ref] ∨ ∃ threadId, request.threadId = some threadId ∧
      r.store.findThread threadId = some ref ∧ (r.store.thread ref).status ≠ .busy ∧ (r.store.thread ref).status = .busy) := by
    rintro (grows | ⟨_,_,_,calm,busy⟩)
    · exact idle _ grows
    · exact calm busy
  cases turn with
  | refused => exact (rests claims).elim
  | misused misuse => exact (rests claims).elim
  | halfway assistant threadId live misuse resolves found calm =>
    rcases claims with grows | ⟨_,named,known,_,_⟩
    · exact absurd grows (idle _)
    · obtain rfl := Option.some.inj (found.1.symm.trans named)
      obtain rfl := Option.some.inj (found.2.1.symm.trans known)
      refine ⟨assistant,resolves,.inl ?_⟩
      rw [halfway,Store.thread_updateThread_self]
      exact owner_ownership _
  | created assistant threadId config resolves creates made =>
    obtain ⟨live,same⟩ := insert_threads (created r answers assistant request threadId config) none threadId
    obtain ⟨born,record⟩ := created_thread (r := r) assistant threadId config
    rcases claims with grows | ⟨_,named,known,_,_⟩
    · rw [live,born] at grows
      obtain rfl : r.store.threads.next = ref := by simpa using grows
      refine ⟨assistant,resolves,.inr ⟨threadId,creates,⟨config,made⟩,?_⟩⟩
      rw [same,record]
      exact newThread_ownership _ _
    · rcases creates with ⟨unnamed,_⟩ | ⟨given,missing,_⟩
      · rw [unnamed] at named
        cases named
      · obtain rfl := Option.some.inj (given.symm.trans named)
        rw [missing] at known
        cases known
  | used assistant threadId live resolves found busy =>
    obtain ⟨lists,same⟩ := insert_threads r (some ((r.store.thread live).metadata,r.configs live)) threadId
    rw [lists,same] at claims
    exact (rests claims).elim
  | woken assistant threadId live config resolves found calm made =>
    obtain ⟨lists,same⟩ := insert_threads (woken r answers assistant live config)
      (some (((woken r answers assistant live config).store.thread live).metadata,config)) threadId
    rcases claims with grows | ⟨_,named,known,_,_⟩
    · rw [lists] at grows
      exact absurd grows (idle _)
    · obtain rfl := Option.some.inj (found.1.symm.trans named)
      obtain rfl := Option.some.inj (found.2.1.symm.trans known)
      refine ⟨assistant,resolves,.inl ?_⟩
      rw [same]
      exact woken_ownership calm

theorem unspoofed_iff {runId : String} (named : request.runId = some runId) :
    Unspoofed pairs r request answers runId ↔ ¬ Planted pairs r request answers := by
  constructor
  · rintro unspoofed ⟨assistant,threadId,resolves,creates,⟨config,made⟩,differs⟩
    obtain ⟨live,same⟩ : (insert pairs (created r answers assistant request threadId config) answers assistant none request
      threadId).1.store.liveThreads = _ ∧ _ := insert_threads _ none threadId
    obtain ⟨born,record⟩ := created_thread (r := r) assistant threadId config
    have claims : Claims pairs r request answers r.store.threads.next :=
      .inl (by rw [putRun_created resolves creates made,live,born])
    obtain ⟨other,also,owned⟩ := unspoofed.thread _ claims
    rw [resolves_one resolves also,putRun_created resolves creates made,same,record,newThread_ownership,Prod.mk.injEq] at owned
    rcases differs with ⟨value,given,apart⟩ | ⟨value,given,apart⟩
    · rw [Option.mem_def.mp given] at owned
      exact apart (Option.some.inj owned.1)
    · rw [Option.mem_def.mp given] at owned
      exact apart (Option.some.inj owned.2)
  · intro unplanted
    refine ⟨fun ref inserts => inserts_identity named inserts,fun ref claims => ?_⟩
    obtain ⟨assistant,resolves,owned | ⟨threadId,creates,made,values⟩⟩ := claims_ownership claims
    · exact ⟨assistant,resolves,owned⟩
    · refine ⟨assistant,resolves,values.trans ?_⟩
      have agrees : ∀ key proper, (∀ value ∈ userValue request key, value = proper) → (userValue request key).or (some proper) = some proper := by
        intro key proper agrees
        cases given : userValue request key with
        | none => rfl
        | some value => rw [agrees value given]; rfl
      refine Prod.ext (agrees _ _ fun value given => ?_) (agrees _ _ fun value given => ?_)
      · by_contra apart
        exact unplanted ⟨assistant,threadId,resolves,creates,made,.inl ⟨value,given,apart⟩⟩
      · by_contra apart
        exact unplanted ⟨assistant,threadId,resolves,creates,made,.inr ⟨value,given,apart⟩⟩

theorem resolves_target {other : Request} {assistant : Assistant Json} (same : SameTarget request other)
    (resolves : Resolves r other answers assistant) : Resolves r request answers assistant := by
  unfold Resolves at *
  rwa [same.assistantId] at resolves

-- Only a request that creates its thread can plant another assistant or graph
-- there; otherwise no two requests for one run can be told apart by these values.
theorem identity_unspoofable {runId : String} (named : request.runId = some runId) :
    (Unspoofed pairs r request answers runId ↔ ¬ Planted pairs r request answers) ∧ ∀ other, SameTarget request other →
      (∀ ref, Inserts pairs r request answers ref → Inserts pairs r other answers ref →
        identity ((putRun pairs r request answers).1.payloads ref) = identity ((putRun pairs r other answers).1.payloads ref)) ∧
      (¬ Planted pairs r request answers → ¬ Planted pairs r other answers →
        ∀ ref, Claims pairs r request answers ref → Claims pairs r other answers ref →
          ownership ((putRun pairs r request answers).1.store.thread ref).metadata =
            ownership ((putRun pairs r other answers).1.store.thread ref).metadata) := by
  refine ⟨unspoofed_iff named,fun other same => ⟨fun ref inserts also => ?_,fun plain plain' ref claims also => ?_⟩⟩
  · obtain ⟨assistant,resolves,stamped⟩ := inserts_identity named inserts
    obtain ⟨assistant',resolves',stamped'⟩ := inserts_identity (same.runId.trans named) also
    obtain rfl := resolves_one resolves (resolves_target same resolves')
    rw [stamped,stamped',same.threadId]
  · obtain ⟨assistant,resolves,owned⟩ := ((unspoofed_iff named).mpr plain).thread ref claims
    obtain ⟨assistant',resolves',owned'⟩ := ((unspoofed_iff (same.runId.trans named)).mpr plain').thread ref also
    obtain rfl := resolves_one resolves (resolves_target same resolves')
    rw [owned,owned']

end spoofing

def toyPairs : Json → Except Misuse Fields := fun _ => .error .typeError

def toyRecords : Records :=
  ⟨{Store.empty with assistants := [⟨"a","g",true,Dict.empty⟩]},fun _ => ⟨[],.null⟩,fun _ => [],fun _ => ⟨[],[]⟩⟩

-- The request's config and configurable name another assistant and run.
def toyRequest (metadata : Metadata Json) : Request :=
  ⟨"a",[("config",.obj [("configurable",.obj [("assistant_id",.str "b"),("run_id",.str "r9")])])],some "T",none,some "r1",.pending,metadata,
    false,.create,0⟩

def toyAnswers : Answers := ⟨none,none,"new",0⟩

theorem identity_unspoofable_toy : Inserts toyPairs toyRecords (toyRequest Dict.empty) toyAnswers 0 ∧
    Unspoofed toyPairs toyRecords (toyRequest Dict.empty) toyAnswers "r1" := by
  refine ⟨rfl,(identity_unspoofable rfl).1.mpr ?_⟩
  rintro ⟨_,_,_,_,_,⟨value,given,_⟩ | ⟨value,given,_⟩⟩
  · cases given
  · cases given

-- The new thread is another assistant's from the start.
theorem planted_owner : ¬ Unspoofed toyPairs toyRecords (toyRequest (Dict.empty.insert "assistant_id" (.str "b"))) toyAnswers "r1" := by
  intro unspoofed
  obtain ⟨assistant,resolves,owned⟩ := unspoofed.thread 0 (.inl rfl)
  have planted : some (Json.str "b") = some (.str assistant.assistantId) := congrArg Prod.fst owned
  rw [resolves_same resolves] at planted
  have same : "b" = "a" := Json.str.inj (Option.some.inj planted)
  exact absurd same (by decide)

end InmemRuntime.RunIdentity
