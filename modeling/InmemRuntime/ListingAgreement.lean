import InmemRuntime.Listings
import InmemRuntime.ThreadOps

namespace InmemRuntime.ListingAgreement
open PythonJson JsonbContainment AuthFilters Paging Listings

section tests

-- What the loop of `is_jsonb_contained` can ask: a dictionary, or a text or a
-- list that does not have the first key.
def Readable : Json → Fields → Prop
  | .obj _,_ => True
  | _,[] => True
  | .str text,(key,_) :: _ => ¬ key.toList <:+: text.toList
  | .arr items,(key,_) :: _ => pyIn (.str key) items = false
  | _,_ :: _ => False

theorem contained_ok (held : Json) (subset : Fields) : Ok (contained held subset) ↔ Readable held subset := by
  have raised : ¬ Ok (.error Raised.typeError) := fun ⟨_,same⟩ => by cases same
  cases held with
  | obj fields => exact iff_of_true (ok_known _) trivial
  | null | bool | num =>
    cases subset with
    | nil => exact iff_of_true (ok_known _) trivial
    | cons field rest => exact iff_of_false raised id
  | str text =>
    cases subset with
    | nil => exact iff_of_true (ok_known _) trivial
    | cons field rest =>
      unfold contained Readable
      by_cases inside : field.1.toList <:+: text.toList
      · simp only [inside,↓reduceIte,not_true_eq_false,iff_false]
        exact raised
      · simp only [inside,↓reduceIte,not_false_eq_true,iff_true]
        exact ok_known _
  | arr items =>
    cases subset with
    | nil => exact iff_of_true (ok_known _) trivial
    | cons field rest =>
      unfold contained Readable
      by_cases inside : pyIn (.str field.1) items = true
      · simp only [inside,↓reduceIte,Bool.true_eq_false,iff_false]
        exact raised
      · simp only [inside,iff_true]
        exact ok_known _

end tests

-- The records that a query is about, and those on which its tests can be evaluated.
section queries
variable (env : Environment)

def wantsThread (query : ThreadQuery) (thread : ThreadRow) : Bool :=
  yes (authorizes query.filters thread.metadata) && metadataFits thread.metadata query.metadata &&
    yes (valuesFit thread query.values) && query.status.all fun status => thread.status == status

def ReadsThread (query : ThreadQuery) (thread : ThreadRow) : Prop :=
  Ok (authorizes query.filters thread.metadata) ∧
    (yes (authorizes query.filters thread.metadata) = true → metadataFits thread.metadata query.metadata = true →
      ∀ held, thread.values = some held → Readable held query.values)

def fitsAssistant (query : AssistantQuery) (assistant : AssistantRow) : Bool :=
  (query.graphId.all fun graphId => graphId == "" || assistant.graphId == graphId) &&
    (query.name.all fun name => name == "" || decide ((env.lower name).toList <:+: (env.lower assistant.name).toList)) &&
    metadataFits assistant.metadata query.metadata

def wantsAssistant (query : AssistantQuery) (assistant : AssistantRow) : Bool :=
  fitsAssistant env query assistant && yes (authorizes query.filters assistant.metadata)

def ReadsAssistant (query : AssistantQuery) (assistant : AssistantRow) : Prop :=
  fitsAssistant env query assistant = true → Ok (authorizes query.filters assistant.metadata)

def fitsCron (query : CronQuery) (cron : CronRow) : Bool :=
  (query.assistantId.all fun assistantId => cron.assistantId == assistantId) &&
    (query.threadId.all fun threadId => cron.threadId.getD "None" == threadId) && metadataFits cron.metadata query.metadata

def wantsCron (threads : List ThreadRow) (query : CronQuery) (cron : CronRow) : Bool :=
  fitsCron query cron && yes (authorizes query.filters cron.metadata) && yes (query.threadTest threads cron)

def ReadsCron (threads : List ThreadRow) (query : CronQuery) (cron : CronRow) : Prop :=
  fitsCron query cron = true → Ok (authorizes query.filters cron.metadata) ∧
    (yes (authorizes query.filters cron.metadata) = true → Ok (query.threadTest threads cron))

variable {env}

theorem valuesFit_ok (thread : ThreadRow) (subset : Fields) :
    Ok (valuesFit thread subset) ↔ ∀ held, thread.values = some held → Readable held subset := by
  unfold valuesFit
  cases subset with
  | nil =>
    refine iff_of_true (ok_known _) fun held _ => ?_
    cases held <;> exact trivial
  | cons field rest =>
    cases thread.values with
    | none => exact iff_of_true (ok_known _) nofun
    | some held => simpa using contained_ok held (field :: rest)

theorem thread_answers {query : ThreadQuery} {thread : ThreadRow} : Answers query.test thread ↔ ReadsThread query thread := by
  unfold Answers ThreadQuery.test ReadsThread
  rw [ok_and,ok_and,ok_and,valuesFit_ok]
  refine and_congr_right fun _ => forall_congr' fun _ => ?_
  exact ⟨fun both fits => (both.2 fits).1,fun reads => ⟨ok_known _,fun fits => ⟨reads fits,fun _ => ok_known _⟩⟩⟩

theorem accepted_thread (query : ThreadQuery) : accepted query.test = wantsThread query := by
  funext thread
  unfold accepted ThreadQuery.test wantsThread
  rw [yes_and,yes_and,yes_and]
  simp only [Bool.and_assoc,yes]

theorem assistant_answers {query : AssistantQuery} {assistant : AssistantRow} :
    Answers (query.test env) assistant ↔ ReadsAssistant env query assistant := by
  unfold Answers AssistantQuery.test ReadsAssistant fitsAssistant
  rw [ok_and,ok_and,ok_and]
  simp [ok_known,yes]

theorem accepted_assistant (query : AssistantQuery) : accepted (query.test env) = wantsAssistant env query := by
  funext assistant
  unfold accepted AssistantQuery.test wantsAssistant fitsAssistant
  rw [yes_and,yes_and,yes_and]
  simp only [Bool.and_assoc,yes]

theorem cron_answers {query : CronQuery} {cron : CronRow} : Answers query.countTest cron ↔
    (fitsCron query cron = true → Ok (authorizes query.filters cron.metadata)) := by
  unfold Answers CronQuery.countTest fitsCron
  rw [ok_and,ok_and,ok_and]
  simp [ok_known,yes]

theorem accepted_cron (query : CronQuery) (cron : CronRow) : accepted query.countTest cron =
    (fitsCron query cron && yes (authorizes query.filters cron.metadata)) := by
  unfold accepted CronQuery.countTest fitsCron
  rw [yes_and,yes_and,yes_and]
  simp only [Bool.and_assoc,yes]

-- A search that does not ask for enabled crons tests what the count tests.
theorem test_countTest {query : CronQuery} (every : query.enabled = none) : query.test = query.countTest := by
  funext cron
  unfold CronQuery.test CronQuery.countTest
  rw [every]
  rfl

end queries

section threads
variable {env : Environment} {query : ThreadQuery} {threads : List ThreadRow}

theorem scan_keep (test : ThreadRow → Except Raised Bool) (threads : List ThreadRow) :
    (scan test threads).2 = (keep test threads).map (List.map filled) := by
  induction threads with
  | nil => rfl
  | cons thread rest ih =>
    unfold scan keep
    cases test thread with
    | error raised => rfl
    | ok answer =>
      dsimp only
      rw [ih]
      cases keep test rest <;> cases answer <;> rfl

def settled (test : ThreadRow → Except Raised Bool) (thread : ThreadRow) : ThreadRow := if accepted test thread then filled thread else thread

theorem scan_settles {test : ThreadRow → Except Raised Bool} (answers : ∀ thread ∈ threads, Answers test thread) :
    (scan test threads).1 = threads.map (settled test) := by
  induction threads with
  | nil => rfl
  | cons thread rest ih =>
    obtain ⟨answer,known⟩ := answers thread List.mem_cons_self
    have later := ih fun other member => answers other (List.mem_cons_of_mem _ member)
    unfold scan
    simp only [known,later,List.map_cons,settled,accepted,yes]

theorem test_settled (thread : ThreadRow) : query.test (settled query.test thread) = query.test thread := by
  unfold settled
  split <;> rfl

theorem settled_twice (thread : ThreadRow) : settled query.test (settled query.test thread) = settled query.test thread := by
  have same : accepted query.test (settled query.test thread) = accepted query.test thread := congrArg yes (test_settled thread)
  unfold settled at same ⊢
  rw [same]
  split <;> rfl

theorem found_settled (threads : List ThreadRow) : ((threads.map (settled query.test)).filter (accepted query.test)).map filled =
    (threads.filter (accepted query.test)).map filled := by
  induction threads with
  | nil => rfl
  | cons thread rest ih =>
    have same : accepted query.test (settled query.test thread) = accepted query.test thread := congrArg yes (test_settled thread)
    rw [List.map_cons,List.filter_cons,List.filter_cons,same]
    split
    · rename_i wanted
      rw [List.map_cons,List.map_cons,ih,settled,wanted]
      rfl
    · exact ih

theorem threadLe_order (env : Environment) (sortBy sortOrder : Option String) : TotalOrder (threadLe env sortBy sortOrder) := by
  unfold threadLe
  split <;> exact ordering_leOn _ _

theorem search_scan (sortBy sortOrder : Option String) (limit offset : Nat) (threads : List ThreadRow) :
    searchThreads env query [] sortBy sortOrder limit threads offset = ((scan query.test threads).1,
      (scan query.test threads).2.map fun found => paginate (found.mergeSort (threadLe env sortBy sortOrder)) limit offset) := rfl

-- Whatever the order and the page size, the search lists what the count counts.
def ThreadsAgree (env : Environment) (query : ThreadQuery) (threads : List ThreadRow) : Prop :=
  ∀ sortBy sortOrder, Agreement (searchThreads env query [] sortBy sortOrder) (countThreads query threads) threads
    (threadLe env sortBy sortOrder) ((threads.filter (wantsThread query)).map filled)

theorem threads_agree : ThreadsAgree env query threads ↔ ∀ thread ∈ threads, ReadsThread query thread := by
  constructor
  · intro agree thread member
    obtain ⟨page,answered⟩ := (agree none none).answers 1 0 Nat.one_pos
    rw [search_scan,scan_keep] at answered
    cases kept : keep query.test threads with
    | error raised =>
      rw [kept] at answered
      cases answered
    | ok found => exact thread_answers.mp (keep_answers kept thread member)
  · intro reads sortBy sortOrder
    have answers : ∀ thread ∈ threads, Answers query.test thread := fun thread member => thread_answers.mpr (reads thread member)
    have again : ∀ thread ∈ threads.map (settled query.test), Answers query.test thread := by
      intro other member
      obtain ⟨thread,listed,rfl⟩ := List.mem_map.mp member
      unfold Answers
      rw [test_settled]
      exact answers thread listed
    have order : TotalOrder (threadLe env sortBy sortOrder) := threadLe_order env sortBy sortOrder
    have first : ∀ limit offset, searchThreads env query [] sortBy sortOrder limit threads offset = (threads.map (settled query.test),
        .ok (paginate (((threads.filter (wantsThread query)).map filled).mergeSort (threadLe env sortBy sortOrder)) limit offset)) := by
      intro limit offset
      rw [search_scan,scan_settles answers,scan_keep,keep_ok answers,accepted_thread]
      rfl
    refine agreement_settled order first (fun limit offset => ?_) ?_
    · have twice : settled query.test ∘ settled query.test = settled query.test := funext settled_twice
      have found : ((threads.map (settled query.test)).filter (wantsThread query)).map filled =
          (threads.filter (wantsThread query)).map filled := accepted_thread query ▸ found_settled threads
      rw [search_scan,scan_settles again,scan_keep,keep_ok again,List.map_map,twice,accepted_thread,← found]
      rfl
    · unfold countThreads
      rw [count_keep,keep_ok answers,accepted_thread]
      simp [Except.map]

end threads

section assistants
variable {env : Environment} {query : AssistantQuery} {assistants : List AssistantRow}

def KnownGraph (env : Environment) (query : AssistantQuery) : Prop :=
  ∀ graphId, query.graphId = some graphId → env.assertGraphExists graphId = .ok ()

theorem knowsGraph_iff : knowsGraph env query = .ok () ↔ KnownGraph env query := by
  unfold knowsGraph KnownGraph
  cases query.graphId with
  | none => exact iff_of_true rfl nofun
  | some graphId => simp

theorem assistantLe_order (env : Environment) (sortBy sortOrder : Option String) : TotalOrder (assistantLe env sortBy sortOrder) := by
  unfold assistantLe
  split <;> exact ordering_leOn _ _

def AssistantsAgree (env : Environment) (query : AssistantQuery) (assistants : List AssistantRow) : Prop :=
  ∀ sortBy sortOrder, Agreement (searchAssistants env query sortBy sortOrder) (countAssistants env query assistants) assistants
    (assistantLe env sortBy sortOrder) (assistants.filter (wantsAssistant env query))

theorem assistants_agree : AssistantsAgree env query assistants ↔
    KnownGraph env query ∧ ∀ assistant ∈ assistants, ReadsAssistant env query assistant := by
  constructor
  · intro agree
    obtain ⟨page,answered⟩ := (agree none none).answers 1 0 Nat.one_pos
    unfold searchAssistants at answered
    cases known : knowsGraph env query with
    | error raised =>
      rw [known] at answered
      cases answered
    | ok done =>
      refine ⟨knowsGraph_iff.mp known,fun assistant member => ?_⟩
      rw [known] at answered
      cases kept : keep (query.test env) assistants with
      | error raised =>
        rw [kept] at answered
        cases answered
      | ok found => exact assistant_answers.mp (keep_answers kept assistant member)
  · rintro ⟨known,reads⟩ sortBy sortOrder
    have answers : ∀ assistant ∈ assistants, Answers (query.test env) assistant :=
      fun assistant member => assistant_answers.mpr (reads assistant member)
    have every : ∀ limit offset, searchAssistants env query sortBy sortOrder limit assistants offset = (assistants,
        .ok (paginate ((assistants.filter (wantsAssistant env query)).mergeSort (assistantLe env sortBy sortOrder)) limit offset)) := by
      intro limit offset
      unfold searchAssistants
      rw [knowsGraph_iff.mpr known,keep_ok answers,accepted_assistant]
      rfl
    refine agreement_settled (assistantLe_order env sortBy sortOrder) every every ?_
    unfold countAssistants
    rw [knowsGraph_iff.mpr known,count_keep,keep_ok answers,accepted_assistant]
    rfl

end assistants

section crons
variable {env : Environment} {query : CronQuery} {threads : List ThreadRow} {crons : List CronRow}

theorem cronLe_order {sortBy sortOrder : Option String} {le : CronRow → CronRow → Bool} (valid : cronLe env sortBy sortOrder = some le) :
    TotalOrder le := by
  unfold cronLe at valid
  split at valid
  all_goals first | (cases valid; exact ordering_leOn _ _) | cases valid

-- The second pass looks at the crons that the first one keeps.
theorem found_answers {found : List CronRow} (done : foundCrons query.countTest query threads crons = .ok found) :
    ∀ cron ∈ crons, ReadsCron threads query cron := by
  unfold foundCrons at done
  cases kept : keep query.countTest crons with
  | error raised =>
    rw [kept] at done
    cases done
  | ok first =>
    rw [kept] at done
    have answers := keep_answers kept
    have listed : first = crons.filter (accepted query.countTest) := Except.ok.inj (kept.symm.trans (keep_ok answers))
    intro cron member fits
    have authorized := cron_answers.mp (answers cron member) fits
    refine ⟨authorized,fun passes => keep_answers done cron ?_⟩
    rw [listed]
    exact List.mem_filter.mpr ⟨member,by rw [accepted_cron,fits,passes]; rfl⟩

theorem found_ok (reads : ∀ cron ∈ crons, ReadsCron threads query cron) :
    foundCrons query.countTest query threads crons = .ok (crons.filter (wantsCron threads query)) := by
  have first : ∀ cron ∈ crons, Answers query.countTest cron :=
    fun cron member => cron_answers.mpr fun fits => (reads cron member fits).1
  have second : ∀ cron ∈ crons.filter (accepted query.countTest), Answers (query.threadTest threads) cron := by
    intro cron member
    obtain ⟨listed,kept⟩ := List.mem_filter.mp member
    rw [accepted_cron,Bool.and_eq_true] at kept
    exact (reads cron listed kept.1).2 kept.2
  unfold foundCrons
  rw [keep_ok first]
  refine (keep_ok second).trans (congrArg Except.ok ?_)
  rw [List.filter_filter]
  refine List.filter_congr fun cron _ => ?_
  rw [accepted_cron,Bool.and_comm]
  rfl

-- The count has no say on enabled crons, so neither has the search.
def CronsAgree (env : Environment) (threads : List ThreadRow) (query : CronQuery) (crons : List CronRow) : Prop :=
  ∀ sortBy sortOrder le, cronLe env sortBy sortOrder = some le →
    Agreement (searchCrons env threads {query with enabled := none} sortBy sortOrder) (countCrons threads query crons) crons le
      (crons.filter (wantsCron threads query))

theorem crons_agree : CronsAgree env threads query crons ↔ ∀ cron ∈ crons, ReadsCron threads query cron := by
  have same : ({query with enabled := none} : CronQuery).test = query.countTest := test_countTest rfl
  constructor
  · intro agree
    obtain ⟨page,answered⟩ := (agree none none _ rfl).answers 1 0 Nat.one_pos
    unfold searchCrons at answered
    rw [same] at answered
    change (foundCrons query.countTest query threads crons >>= _) = _ at answered
    cases done : foundCrons query.countTest query threads crons with
    | error raised =>
      rw [done] at answered
      cases answered
    | ok found => exact found_answers done
  · intro reads sortBy sortOrder le valid
    have found : foundCrons query.countTest query threads crons = .ok (crons.filter (wantsCron threads query)) := found_ok reads
    have every : ∀ limit offset, searchCrons env threads {query with enabled := none} sortBy sortOrder limit crons offset =
        (crons,.ok (paginate ((crons.filter (wantsCron threads query)).mergeSort le) limit offset)) := by
      intro limit offset
      unfold searchCrons
      rw [same]
      change (crons,(foundCrons query.countTest query threads crons >>= _)) = _
      rw [found,← paginateAhead_eq,valid]
      rfl
    refine agreement_settled (cronLe_order valid) every every ?_
    unfold countCrons
    rw [found]
    rfl

end crons

-- Listings agree with their counts exactly where their tests can be evaluated
-- on every record that they reach.
theorem listings_agree (env : Environment) (threads : List ThreadRow) (assistants : List AssistantRow) (crons : List CronRow)
    (threadQuery : ThreadQuery) (assistantQuery : AssistantQuery) (cronQuery : CronQuery) :
    (ThreadsAgree env threadQuery threads ↔ ∀ thread ∈ threads, ReadsThread threadQuery thread) ∧
    (AssistantsAgree env assistantQuery assistants ↔
      KnownGraph env assistantQuery ∧ ∀ assistant ∈ assistants, ReadsAssistant env assistantQuery assistant) ∧
    (CronsAgree env threads cronQuery crons ↔ ∀ cron ∈ crons, ReadsCron threads cronQuery cron) :=
  ⟨threads_agree,assistants_agree,crons_agree⟩

-- `Threads.put` and `Runs.put` store `None` under `"values"`.
def rowOf (thread : RuntimeStore.Thread Json) : ThreadRow :=
  ⟨thread.threadId,thread.status,thread.metadata.entries,some (thread.values.getD .null),thread.createdAt,thread.updatedAt,
    thread.stateUpdatedAt⟩

def rowsOf (s : RuntimeStore.Store Json) : List ThreadRow := (s.liveThreads.map s.thread).map rowOf

def ascii : Environment := ⟨String.toUpper,String.toLower,some,fun _ => .ok ()⟩

theorem new_thread_unlisted : ∃ s : Serving.Server Json, (ThreadOps.putThread (.start .empty) 0 ⟨"T",.empty,.raise,none⟩ none).1 = s ∧
    ¬ ThreadsAgree ascii ⟨none,[],[("k",.num 1)],none⟩ (rowsOf s.store) := by
  refine ⟨_,rfl,fun agree => ?_⟩
  have reads := threads_agree.mp agree _ List.mem_cons_self
  exact reads.2 rfl rfl _ rfl

end InmemRuntime.ListingAgreement
