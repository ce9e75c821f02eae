import InmemRuntime.ListingAgreement

namespace InmemRuntime.VisibleRecords
open PythonJson JsonbContainment AuthFilters Paging Listings ListingAgreement
open RuntimeStore (ThreadStatus RunStatus)

-- Runs and versions with the fields that reads look at; versions that older
-- releases have written lack a name or a description.
structure RunRow where
  runId : String
  threadId : String
  status : RunStatus
  metadata : Fields
  createdAt : Int

structure AssistantEntry where
  row : AssistantRow
  description : Option String

structure VersionRow where
  assistantId : String
  version : Nat
  metadata : Fields
  name : Option String
  description : Option (Option String)

structure Records where
  threads : List ThreadRow
  runs : List RunRow
  assistants : List AssistantEntry
  versions : List VersionRow
  crons : List CronRow

-- What the auth handlers answer for a read. Runs are read under the filters of
-- their threads.
structure Filters where
  threads : Option Filter
  assistants : Option Filter
  crons : Option Filter

def Filters.none : Filters := ⟨.none,.none,.none⟩

inductive Read where
  | searchThreads (query : ThreadQuery) (ids : List String) (sortBy sortOrder : Option String) (limit offset : Nat)
  | countThreads (query : ThreadQuery)
  | getThread (threadId : String)
  | getRun (runId threadId : String)
  | searchRuns (threadId : String) (status : Option RunStatus) (limit offset : Nat)
  | searchAssistants (query : AssistantQuery) (sortBy sortOrder : Option String) (limit offset : Nat)
  | countAssistants (query : AssistantQuery)
  | getAssistant (assistantId : String)
  | getVersions (assistantId : String) (metadata : Fields) (limit offset : Nat)
  | searchCrons (query : CronQuery) (sortBy sortOrder : Option String) (limit offset : Nat)
  | countCrons (query : CronQuery)
  | getCron (cronId : String)

inductive Answer where
  | threads (page : List ThreadRow) (cursor : Option Nat)
  | runs (page : List RunRow)
  | assistants (page : List AssistantRow) (cursor : Option Nat)
  | entries (found : List AssistantEntry)
  | versions (page : List VersionRow)
  | crons (page : List CronRow) (cursor : Option Nat)
  | count (count : Nat)

-- `not filters`.
def lenient (filters : Option Filter) : Bool := filters.all Filter.isEmpty

-- The first record that a test finds is changed in place.
def modifyFirst {α : Type} (found : α → Bool) (change : α → α) : List α → List α
  | [] => []
  | row :: rest => if found row then change row :: rest else row :: modifyFirst found change rest

section reading

-- `Threads._get_with_filters`.
def getWithFilters (threads : List ThreadRow) (threadId : String) (filters : Option Filter) :
    List ThreadRow × Except Raised (Option ThreadRow) :=
  match threads.find? fun thread => thread.threadId == threadId with
  | none => (threads,.ok none)
  | some thread =>
    match authorizes filters thread.metadata with
    | .error raised => (threads,.error raised)
    | .ok false => (threads,.ok none)
    | .ok true => (modifyFirst (fun thread => thread.threadId == threadId) filled threads,.ok (some (filled thread)))

def threadNotFound (threadId : String) : Raised := .http 404 ("Thread with ID " ++ threadId ++ " not found")

-- `Threads.get`.
def getThread (threads : List ThreadRow) (threadId : String) (filters : Option Filter) : List ThreadRow × Except Raised Answer :=
  let found := getWithFilters threads threadId filters
  (found.1,found.2 >>= fun thread => match thread with
    | none => .error (threadNotFound threadId)
    | some thread => .ok (.threads [thread] none))

-- `Runs.get`, which looks for the thread only where there are filters.
def getRun (threads : List ThreadRow) (runs : List RunRow) (runId threadId : String) (filters : Option Filter) :
    List ThreadRow × Except Raised Answer :=
  match runs.find? fun run => run.runId == runId && run.threadId == threadId with
  | none => (threads,.ok (.runs []))
  | some run =>
    if lenient filters then (threads,.ok (.runs [run])) else
    let found := getWithFilters threads run.threadId filters
    (found.1,found.2.map fun thread => .runs (if thread.isSome then [run] else []))

-- The tests of `Runs.search`, whose metadata is always empty.
def runTest (threads : List ThreadRow) (threadId : String) (status : Option RunStatus) (filters : Option Filter) (run : RunRow) :
    Except Raised Bool :=
  .ok (run.threadId == threadId) <&&> .ok (isJsonbContained run.metadata []) <&&>
    (if lenient filters then .ok true else (getWithFilters threads threadId filters).2.map Option.isSome) <&&>
    .ok (status.all fun status => run.status == status)

def searchRuns (threads : List ThreadRow) (runs : List RunRow) (threadId : String) (status : Option RunStatus) (limit offset : Nat)
    (filters : Option Filter) : List ThreadRow × Except Raised Answer :=
  let looks := !lenient filters && runs.any fun run => run.threadId == threadId && isJsonbContained run.metadata []
  (if looks then (getWithFilters threads threadId filters).1 else threads,
    (keep (runTest threads threadId status filters) runs).map fun found =>
      .runs (((found.mergeSort (leOn true RunRow.createdAt)).drop offset).take limit))

-- `Assistants.get`.
def getAssistant (assistants : List AssistantEntry) (assistantId : String) (filters : Option Filter) : Except Raised Answer :=
  (keep (fun entry => .ok (entry.row.assistantId == assistantId) <&&> authorizes filters entry.row.metadata) assistants).map .entries

def versionTest (assistantId : String) (metadata : Fields) (filters : Option Filter) (version : VersionRow) : Except Raised Bool :=
  .ok (version.assistantId == assistantId) <&&> .ok (metadataFits version.metadata metadata) <&&> authorizes filters version.metadata

-- "the name was not included in the assistant_versions table": what a selected
-- version lacks is filled in, from the description that came last.
def fillVersions (selected : VersionRow → Bool) (name : String) : Option String → List VersionRow → List VersionRow
  | _,[] => []
  | description,version :: rest =>
    if selected version then
      {version with name := some (version.name.getD name), description := some (version.description.getD description)} ::
        fillVersions selected name (version.description.getD description) rest
    else version :: fillVersions selected name description rest

-- `Assistants.get_versions`.
def getVersions (assistants : List AssistantEntry) (versions : List VersionRow) (assistantId : String) (metadata : Fields)
    (limit offset : Nat) (filters : Option Filter) : List VersionRow × Except Raised Answer :=
  match assistants.find? fun entry => entry.row.assistantId == assistantId with
  | none => (versions,.error (.http 404 ("Assistant " ++ assistantId ++ " not found")))
  | some entry =>
    match keep (versionTest assistantId metadata filters) versions with
    | .error raised => (versions,.error raised)
    | .ok _ =>
      let selected := accepted (versionTest assistantId metadata filters)
      let versions := fillVersions selected entry.row.name entry.description versions
      (versions,.ok (.versions ((((versions.filter selected).mergeSort (leOn true VersionRow.version)).drop offset).take limit)))

-- `Crons.get`.
def getCron (crons : List CronRow) (cronId : String) (filters : Option Filter) : Except Raised Answer :=
  (keep (fun cron => .ok (cron.cronId == cronId) <&&> authorizes filters cron.metadata) crons).map fun found => .crons found none

def perform (env : Environment) (filters : Filters) (records : Records) : Read → Records × Except Raised Answer
  | .searchThreads query ids sortBy sortOrder limit offset =>
    let done := searchThreads env {query with filters := filters.threads} ids sortBy sortOrder limit records.threads offset
    ({records with threads := done.1},done.2.map fun page => .threads page.1 page.2)
  | .countThreads query => (records,(countThreads {query with filters := filters.threads} records.threads).map .count)
  | .getThread threadId =>
    let done := getThread records.threads threadId filters.threads
    ({records with threads := done.1},done.2)
  | .getRun runId threadId =>
    let done := getRun records.threads records.runs runId threadId filters.threads
    ({records with threads := done.1},done.2)
  | .searchRuns threadId status limit offset =>
    let done := searchRuns records.threads records.runs threadId status limit offset filters.threads
    ({records with threads := done.1},done.2)
  | .searchAssistants query sortBy sortOrder limit offset =>
    (records,(searchAssistants env {query with filters := filters.assistants} sortBy sortOrder limit
      (records.assistants.map AssistantEntry.row) offset).2.map fun page => .assistants page.1 page.2)
  | .countAssistants query =>
    (records,(countAssistants env {query with filters := filters.assistants} (records.assistants.map AssistantEntry.row)).map .count)
  | .getAssistant assistantId => (records,getAssistant records.assistants assistantId filters.assistants)
  | .getVersions assistantId metadata limit offset =>
    let done := getVersions records.assistants records.versions assistantId metadata limit offset filters.assistants
    ({records with versions := done.1},done.2)
  | .searchCrons query sortBy sortOrder limit offset =>
    (records,(searchCrons env records.threads {query with filters := filters.crons, threadFilters := filters.threads} sortBy sortOrder
      limit records.crons offset).2.map fun page => .crons page.1 page.2)
  | .countCrons query =>
    (records,(countCrons records.threads {query with filters := filters.crons, threadFilters := filters.threads} records.crons).map .count)
  | .getCron cronId => (records,getCron records.crons cronId filters.crons)

end reading

-- What the filters leave of the records.
section visibility

def admits (filters : Option Filter) (metadata : Fields) : Bool := yes (authorizes filters metadata)

def admitsRun (filters : Option Filter) (threads : List ThreadRow) (run : RunRow) : Bool :=
  lenient filters || (threads.find? fun thread => thread.threadId == run.threadId).any fun thread => admits filters thread.metadata

def admitsCron (filters : Filters) (threads : List ThreadRow) (cron : CronRow) : Bool :=
  admits filters.crons cron.metadata && cron.threadId.all fun threadId => admits filters.threads (threadMetadata threads threadId)

-- Two reads look past the filters: for its versions an assistant is found, and
-- fills them in, whatever the filters say of it, and a cron is got whatever they
-- say of its thread.
def visibleAssistants (filters : Filters) (assistants : List AssistantEntry) : Read → List AssistantEntry
  | .getVersions assistantId _ _ _ =>
    assistants.filter fun entry => entry.row.assistantId == assistantId || admits filters.assistants entry.row.metadata
  | _ => assistants.filter fun entry => admits filters.assistants entry.row.metadata

def visibleCrons (filters : Filters) (threads : List ThreadRow) (crons : List CronRow) : Read → List CronRow
  | .getCron _ => crons.filter fun cron => admits filters.crons cron.metadata
  | _ => crons.filter (admitsCron filters threads)

def visible (filters : Filters) (records : Records) (read : Read) : Records :=
  {threads := records.threads.filter fun thread => admits filters.threads thread.metadata
   runs := records.runs.filter (admitsRun filters.threads records.threads)
   assistants := visibleAssistants filters records.assistants read
   versions := records.versions.filter fun version => admits filters.assistants version.metadata
   crons := visibleCrons filters records.threads records.crons read}

-- The filters can be evaluated on all that they are asked about.
structure Evaluates (filters : Filters) (records : Records) : Prop where
  threads : ∀ thread ∈ records.threads, Ok (authorizes filters.threads thread.metadata)
  assistants : ∀ entry ∈ records.assistants, Ok (authorizes filters.assistants entry.row.metadata)
  versions : ∀ version ∈ records.versions, Ok (authorizes filters.assistants version.metadata)
  crons : ∀ cron ∈ records.crons, Ok (authorizes filters.crons cron.metadata) ∧
    ∀ threadId, cron.threadId = some threadId → Ok (authorizes filters.threads (threadMetadata records.threads threadId))

end visibility
section threads
variable {env : Environment} {threads : List ThreadRow} {filters : Option Filter}

theorem keep_admitted {α : Type} {rows : List α} {metadata : α → Fields} {test plain : α → Except Raised Bool}
    (evaluates : ∀ row ∈ rows, Ok (authorizes filters (metadata row)))
    (passes : ∀ row, authorizes filters (metadata row) = .ok true → test row = plain row)
    (fails : ∀ row, authorizes filters (metadata row) = .ok false → test row = .ok false) :
    keep test rows = keep plain (rows.filter fun row => admits filters (metadata row)) := by
  have both : ∀ row ∈ rows, test row = (authorizes filters (metadata row) <&&> plain row) := by
    intro row member
    obtain ⟨answer,known⟩ := evaluates row member
    rw [known]
    cases answer with
    | true => exact passes row known
    | false => exact fails row known
  rw [keep_congr both,keep_and evaluates]
  rfl

theorem searchThreads_visible (query : ThreadQuery) (evaluates : ∀ thread ∈ threads, Ok (authorizes filters thread.metadata))
    (ids : List String) (sortBy sortOrder : Option String) (limit offset : Nat) :
    (searchThreads env {query with filters := filters} ids sortBy sortOrder limit threads offset).2 =
      (searchThreads env {query with filters := none} ids sortBy sortOrder limit
        (threads.filter fun thread => admits filters thread.metadata) offset).2 := by
  unfold searchThreads
  cases idSet env ids with
  | error raised => rfl
  | ok allowed =>
    dsimp only
    rw [scan_keep,scan_keep]
    refine congrArg _ (congrArg _ (keep_admitted evaluates (fun thread known => ?_) fun thread known => ?_))
    · simp only [ThreadQuery.test,known]
      rfl
    · simp only [ThreadQuery.test,known]
      split <;> rfl

theorem countThreads_visible (query : ThreadQuery) (evaluates : ∀ thread ∈ threads, Ok (authorizes filters thread.metadata)) :
    countThreads {query with filters := filters} threads =
      countThreads {query with filters := none} (threads.filter fun thread => admits filters thread.metadata) := by
  unfold countThreads
  rw [count_keep,count_keep]
  refine congrArg _ (keep_admitted evaluates (fun thread known => ?_) fun thread known => ?_)
  · simp only [ThreadQuery.test,known]
    rfl
  · simp only [ThreadQuery.test,known]
    rfl

-- With one record of an id, the first that is admitted is the first.
theorem find_filter {α : Type} {rows : List α} {id : α → String} (distinct : (rows.map id).Nodup) (keep : α → Bool) (wanted : String) :
    (rows.filter keep).find? (fun row => id row == wanted) = (rows.find? fun row => id row == wanted).filter keep := by
  induction rows with
  | nil => rfl
  | cons row rest ih =>
    obtain ⟨fresh,later⟩ := List.nodup_cons.mp distinct
    have after := ih later
    rw [List.filter_cons,List.find?_cons]
    cases here : id row == wanted with
    | false =>
      split
      · rw [List.find?_cons,here,after]
      · exact after
    | true =>
      have absent : rest.find? (fun other => id other == wanted) = none := by
        refine List.find?_eq_none.mpr fun other member same => ?_
        have equal : id other = id row := by rw [eq_of_beq same,eq_of_beq here]
        exact fresh (List.mem_map.mpr ⟨other,member,equal⟩)
      rw [absent] at after
      split
      · rename_i kept
        rw [List.find?_cons,here]
        simp [Option.filter,kept]
      · rename_i dropped
        rw [after]
        simp [Option.filter,dropped]

theorem getThread_visible (evaluates : ∀ thread ∈ threads, Ok (authorizes filters thread.metadata))
    (distinct : (threads.map ThreadRow.threadId).Nodup) (threadId : String) :
    (getThread threads threadId filters).2 =
      (getThread (threads.filter fun thread => admits filters thread.metadata) threadId none).2 := by
  unfold getThread getWithFilters
  rw [find_filter distinct]
  cases found : threads.find? fun thread => thread.threadId == threadId with
  | none => rfl
  | some thread =>
    obtain ⟨answer,known⟩ := evaluates thread (List.mem_of_find?_eq_some found)
    have admitted : admits filters thread.metadata = answer := by rw [admits,known]; rfl
    simp only [Option.filter,admitted,known]
    cases answer <;> rfl

end threads

section runs
variable {threads : List ThreadRow} {runs : List RunRow} {filters : Option Filter}

theorem getWithFilters_some (evaluates : ∀ thread ∈ threads, Ok (authorizes filters thread.metadata)) (threadId : String) :
    (getWithFilters threads threadId filters).2.map Option.isSome =
      .ok ((threads.find? fun thread => thread.threadId == threadId).any fun thread => admits filters thread.metadata) := by
  unfold getWithFilters
  cases found : threads.find? fun thread => thread.threadId == threadId with
  | none => rfl
  | some thread =>
    obtain ⟨answer,known⟩ := evaluates thread (List.mem_of_find?_eq_some found)
    cases answer <;> simp [admits,known,yes,Except.map]

-- What all wanted rows have in common does not change which comes first.
theorem find_steady {α : Type} {rows : List α} {found keep : α → Bool} {common : Bool} (steady : ∀ row, found row = true → keep row = common) :
    (rows.filter keep).find? found = (rows.find? found).filter keep := by
  induction rows with
  | nil => rfl
  | cons row rest ih =>
    rw [List.filter_cons,List.find?_cons]
    cases here : found row with
    | false =>
      split
      · rw [List.find?_cons,here]
        exact ih
      · exact ih
    | true =>
      split
      · rename_i kept
        rw [List.find?_cons,here]
        simp [Option.filter,kept]
      · rename_i dropped
        rw [ih]
        cases later : rest.find? found with
        | none => simp [Option.filter,dropped]
        | some other =>
          have same := (steady other (List.find?_some later)).trans (steady row here).symm
          simp [Option.filter,dropped,same]

theorem getRun_visible {shown : List ThreadRow} (evaluates : ∀ thread ∈ threads, Ok (authorizes filters thread.metadata))
    (runId threadId : String) :
    (getRun threads runs runId threadId filters).2 = (getRun shown (runs.filter (admitsRun filters threads)) runId threadId none).2 := by
  have steady : ∀ run : RunRow, (run.runId == runId && run.threadId == threadId) = true →
      admitsRun filters threads run = admitsRun filters threads ⟨"",threadId,.pending,[],0⟩ := by
    intro run same
    simp only [Bool.and_eq_true,beq_iff_eq] at same
    simp only [admitsRun,same.2]
  unfold getRun
  rw [find_steady steady]
  cases looked : runs.find? fun run => run.runId == runId && run.threadId == threadId with
  | none => rfl
  | some run =>
    cases free : lenient filters with
    | true =>
      simp only [Option.filter,admitsRun,free,Bool.true_or,↓reduceIte]
      rfl
    | false =>
      have known := getWithFilters_some evaluates run.threadId
      cases answered : (getWithFilters threads run.threadId filters).2 with
      | error raised => simp [answered,Except.map] at known
      | ok thread =>
        simp only [answered,Except.map,Except.ok.injEq] at known
        simp only [Bool.false_eq_true,↓reduceIte,Option.filter,admitsRun,free,Bool.false_or,answered,Except.map,known]
        split <;> rfl

theorem searchRuns_visible {shown : List ThreadRow} (evaluates : ∀ thread ∈ threads, Ok (authorizes filters thread.metadata))
    (threadId : String) (status : Option RunStatus) (limit offset : Nat) :
    (searchRuns threads runs threadId status limit offset filters).2 =
      (searchRuns shown (runs.filter (admitsRun filters threads)) threadId status limit offset none).2 := by
  have same : ∀ run ∈ runs, runTest threads threadId status filters run =
      ((.ok (admitsRun filters threads run) : Except Raised Bool) <&&> runTest shown threadId status none run) := by
    intro run _
    unfold runTest
    by_cases mine : run.threadId = threadId
    · subst mine
      rw [getWithFilters_some evaluates]
      have plain : lenient none = true := rfl
      cases free : lenient filters with
      | true => simp [admitsRun,free,plain]; rfl
      | false =>
        simp only [admitsRun,free,plain,Bool.false_or,Bool.false_eq_true,↓reduceIte]
        cases (threads.find? fun thread => thread.threadId == run.threadId).any fun thread => admits filters thread.metadata <;>
          cases isJsonbContained run.metadata [] <;> simp <;> rfl
    · have other : (run.threadId == threadId) = false := by simpa using mine
      rw [other]
      cases admitsRun filters threads run <;> rfl
  unfold searchRuns
  dsimp only
  rw [keep_congr same,keep_and fun _ _ => ok_known _]
  rfl

end runs
section assistants
variable {env : Environment} {entries : List AssistantEntry} {versions : List VersionRow} {filters : Option Filter}

theorem filter_rows (entries : List AssistantEntry) :
    (entries.filter fun entry => admits filters entry.row.metadata).map AssistantEntry.row =
      (entries.map AssistantEntry.row).filter fun row => admits filters row.metadata := by
  rw [List.filter_map]
  rfl

theorem keepAssistants_visible (query : AssistantQuery) (evaluates : ∀ entry ∈ entries, Ok (authorizes filters entry.row.metadata)) :
    keep (AssistantQuery.test env {query with filters := filters}) (entries.map AssistantEntry.row) =
      keep (AssistantQuery.test env {query with filters := none})
        ((entries.filter fun entry => admits filters entry.row.metadata).map AssistantEntry.row) := by
  rw [filter_rows]
  refine keep_admitted (fun row member => ?_) (fun row known => ?_) fun row known => ?_
  · obtain ⟨entry,listed,rfl⟩ := List.mem_map.mp member
    exact evaluates entry listed
  · simp only [AssistantQuery.test,known]
    rfl
  · simp only [AssistantQuery.test,known,Paging.and_false]

theorem searchAssistants_visible (query : AssistantQuery) (evaluates : ∀ entry ∈ entries, Ok (authorizes filters entry.row.metadata))
    (sortBy sortOrder : Option String) (limit offset : Nat) :
    (searchAssistants env {query with filters := filters} sortBy sortOrder limit (entries.map AssistantEntry.row) offset).2 =
      (searchAssistants env {query with filters := none} sortBy sortOrder limit
        ((entries.filter fun entry => admits filters entry.row.metadata).map AssistantEntry.row) offset).2 := by
  unfold searchAssistants
  rw [keepAssistants_visible query evaluates]
  rfl

theorem countAssistants_visible (query : AssistantQuery) (evaluates : ∀ entry ∈ entries, Ok (authorizes filters entry.row.metadata)) :
    countAssistants env {query with filters := filters} (entries.map AssistantEntry.row) =
      countAssistants env {query with filters := none}
        ((entries.filter fun entry => admits filters entry.row.metadata).map AssistantEntry.row) := by
  unfold countAssistants
  rw [count_keep,count_keep,keepAssistants_visible query evaluates]
  rfl

theorem getAssistant_visible (evaluates : ∀ entry ∈ entries, Ok (authorizes filters entry.row.metadata)) (assistantId : String) :
    getAssistant entries assistantId filters =
      getAssistant (entries.filter fun entry => admits filters entry.row.metadata) assistantId none := by
  unfold getAssistant
  refine congrArg _ (keep_admitted evaluates (fun entry known => ?_) fun entry known => ?_)
  · rw [known]
    rfl
  · rw [known,Paging.and_false]

-- Filling in goes by the id and the metadata of a version, and by those that
-- are selected.
theorem fill_filter {selected : VersionRow → Bool} (steady : ∀ version name description,
      selected {version with name := name, description := description} = selected version)
    (name : String) (description : Option String) (versions : List VersionRow) :
    (fillVersions selected name description versions).filter selected =
      fillVersions (fun _ => true) name description (versions.filter selected) := by
  induction versions generalizing description with
  | nil => rfl
  | cons version rest ih =>
    rw [List.filter_cons,fillVersions]
    split
    · rename_i chosen
      rw [List.filter_cons,steady,chosen]
      simp only [↓reduceIte,fillVersions,ih]
    · rename_i passed
      rw [List.filter_cons,ih]
      simp [passed]

theorem getVersions_visible (evaluates : ∀ version ∈ versions, Ok (authorizes filters version.metadata)) (assistantId : String)
    (metadata : Fields) (limit offset : Nat) :
    (getVersions entries versions assistantId metadata limit offset filters).2 =
      (getVersions (entries.filter fun entry => entry.row.assistantId == assistantId || admits filters entry.row.metadata)
        (versions.filter fun version => admits filters version.metadata) assistantId metadata limit offset none).2 := by
  have looked : (entries.filter fun entry => entry.row.assistantId == assistantId || admits filters entry.row.metadata).find?
      (fun entry => entry.row.assistantId == assistantId) = entries.find? fun entry => entry.row.assistantId == assistantId := by
    rw [List.find?_filter]
    congr 1
    funext entry
    cases entry.row.assistantId == assistantId <;> simp
  have same : keep (versionTest assistantId metadata filters) versions =
      keep (versionTest assistantId metadata none) (versions.filter fun version => admits filters version.metadata) := by
    refine keep_admitted evaluates (fun version known => ?_) fun version known => ?_
    · rw [versionTest,known]
      rfl
    · rw [versionTest,known,Paging.and_false,Paging.and_false]
  have both : versions.filter (accepted (versionTest assistantId metadata filters)) =
      (versions.filter fun version => admits filters version.metadata).filter (accepted (versionTest assistantId metadata none)) := by
    rw [List.filter_filter]
    refine List.filter_congr fun version member => ?_
    obtain ⟨answer,known⟩ := evaluates version member
    unfold accepted versionTest admits
    rw [known]
    cases answer with
    | true => rw [yes,Bool.and_true]; rfl
    | false => rw [Paging.and_false,Paging.and_false,yes,Bool.and_false]
  unfold getVersions
  rw [looked]
  cases entries.find? fun entry => entry.row.assistantId == assistantId with
  | none => rfl
  | some entry =>
    dsimp only
    rw [same]
    cases keep (versionTest assistantId metadata none) (versions.filter fun version => admits filters version.metadata) with
    | error raised => rfl
    | ok found =>
      dsimp only
      rw [fill_filter fun _ _ _ => rfl,fill_filter fun _ _ _ => rfl,both]

end assistants

section crons
variable {env : Environment} {threads : List ThreadRow} {crons : List CronRow} {filters : Filters} {query : CronQuery}

-- Both passes over the crons, as one filter.
theorem found_admitted {test plain : CronRow → Except Raised Bool}
    (evaluates : ∀ cron ∈ crons, Ok (authorizes filters.crons cron.metadata) ∧
      ∀ threadId, cron.threadId = some threadId → Ok (authorizes filters.threads (threadMetadata threads threadId)))
    (answers : ∀ cron, Answers plain cron)
    (passes : ∀ cron, authorizes filters.crons cron.metadata = .ok true → test cron = plain cron)
    (fails : ∀ cron, authorizes filters.crons cron.metadata = .ok false → test cron = .ok false) (shown : List ThreadRow) :
    foundCrons test {query with filters := filters.crons, threadFilters := filters.threads} threads crons =
      foundCrons plain {query with filters := none, threadFilters := none} shown (crons.filter (admitsCron filters threads)) := by
  have first : keep test crons = .ok ((crons.filter fun cron => admits filters.crons cron.metadata).filter (accepted plain)) := by
    rw [keep_admitted (fun cron member => (evaluates cron member).1) passes fails,keep_ok fun cron _ => answers cron]
  have free : ∀ cron, ({query with filters := none, threadFilters := none} : CronQuery).threadTest shown cron = .ok true := by
    intro cron
    unfold CronQuery.threadTest
    cases cron.threadId <;> rfl
  have second : ∀ cron ∈ (crons.filter fun cron => admits filters.crons cron.metadata).filter (accepted plain),
      Answers (({query with filters := filters.crons, threadFilters := filters.threads} : CronQuery).threadTest threads) cron := by
    intro cron member
    have listed := (List.mem_filter.mp (List.mem_filter.mp member).1).1
    unfold Answers CronQuery.threadTest
    cases named : cron.threadId with
    | none => exact ok_known _
    | some threadId => exact (evaluates cron listed).2 threadId named
  have threaded : ∀ cron, accepted (({query with filters := filters.crons, threadFilters := filters.threads} : CronQuery).threadTest threads) cron =
      cron.threadId.all fun threadId => admits filters.threads (threadMetadata threads threadId) := by
    intro cron
    unfold accepted CronQuery.threadTest admits
    cases cron.threadId <;> rfl
  unfold foundCrons
  rw [first,keep_ok fun cron _ => answers cron]
  refine (keep_ok second).trans ?_
  refine Eq.trans ?_ (keep_ok fun cron _ => ⟨true,free cron⟩).symm
  have every : ∀ cron, accepted (({query with filters := none, threadFilters := none} : CronQuery).threadTest shown) cron = true := by
    intro cron
    rw [accepted,free]
    rfl
  simp only [List.filter_filter,every,threaded,Bool.true_and]
  refine congrArg _ (List.filter_congr fun cron _ => ?_)
  unfold admitsCron
  cases admits filters.crons cron.metadata <;> cases accepted plain cron <;> simp

theorem plain_answers (cron : CronRow) : Answers ({query with filters := none, threadFilters := none} : CronQuery).test cron ∧
    Answers ({query with filters := none, threadFilters := none} : CronQuery).countTest cron := by
  have open_ : Ok (authorizes none cron.metadata) := ok_known _
  unfold Answers CronQuery.test CronQuery.countTest
  constructor
  · rw [ok_and,ok_and,ok_and,ok_and]
    simp [ok_known,open_]
  · rw [ok_and,ok_and,ok_and]
    simp [ok_known,open_]

theorem searchCrons_visible (query : CronQuery) (evaluates : ∀ cron ∈ crons, Ok (authorizes filters.crons cron.metadata) ∧
      ∀ threadId, cron.threadId = some threadId → Ok (authorizes filters.threads (threadMetadata threads threadId)))
    (shown : List ThreadRow) (sortBy sortOrder : Option String) (limit offset : Nat) :
    (searchCrons env threads {query with filters := filters.crons, threadFilters := filters.threads} sortBy sortOrder limit crons offset).2 =
      (searchCrons env shown {query with filters := none, threadFilters := none} sortBy sortOrder limit
        (crons.filter (admitsCron filters threads)) offset).2 := by
  unfold searchCrons
  rw [found_admitted evaluates (fun cron => (plain_answers cron).1) (fun cron known => ?_) (fun cron known => ?_) shown]
  · simp only [CronQuery.test,known]
    rfl
  · simp only [CronQuery.test,known,Paging.and_false]

theorem countCrons_visible (query : CronQuery) (evaluates : ∀ cron ∈ crons, Ok (authorizes filters.crons cron.metadata) ∧
      ∀ threadId, cron.threadId = some threadId → Ok (authorizes filters.threads (threadMetadata threads threadId)))
    (shown : List ThreadRow) :
    countCrons threads {query with filters := filters.crons, threadFilters := filters.threads} crons =
      countCrons shown {query with filters := none, threadFilters := none} (crons.filter (admitsCron filters threads)) := by
  unfold countCrons
  rw [found_admitted evaluates (fun cron => (plain_answers cron).2) (fun cron known => ?_) (fun cron known => ?_) shown]
  · simp only [CronQuery.countTest,known]
    rfl
  · simp only [CronQuery.countTest,known,Paging.and_false]

theorem getCron_visible (evaluates : ∀ cron ∈ crons, Ok (authorizes filters.crons cron.metadata)) (cronId : String) :
    getCron crons cronId filters.crons = getCron (crons.filter fun cron => admits filters.crons cron.metadata) cronId none := by
  unfold getCron
  refine congrArg _ (keep_admitted evaluates (fun cron known => ?_) fun cron known => ?_)
  · rw [known]
    rfl
  · rw [known,Paging.and_false]

end crons

-- What a caller reads under filters is what anyone would read of the records
-- that are visible to it: the others change no page, no cursor, no order, no
-- count and no error.
theorem reads_visible (env : Environment) (filters : Filters) (records : Records) (read : Read) (evaluates : Evaluates filters records)
    (distinct : (records.threads.map ThreadRow.threadId).Nodup) :
    (perform env filters records read).2 = (perform env .none (visible filters records read) read).2 := by
  cases read with
  | searchThreads query ids sortBy sortOrder limit offset =>
    exact congrArg (Except.map _) (searchThreads_visible query evaluates.threads ids sortBy sortOrder limit offset)
  | countThreads query => exact congrArg (Except.map _) (countThreads_visible query evaluates.threads)
  | getThread threadId => exact getThread_visible evaluates.threads distinct threadId
  | getRun runId threadId => exact getRun_visible evaluates.threads runId threadId
  | searchRuns threadId status limit offset => exact searchRuns_visible evaluates.threads threadId status limit offset
  | searchAssistants query sortBy sortOrder limit offset =>
    exact congrArg (Except.map _) (searchAssistants_visible query evaluates.assistants sortBy sortOrder limit offset)
  | countAssistants query => exact congrArg (Except.map _) (countAssistants_visible query evaluates.assistants)
  | getAssistant assistantId => exact getAssistant_visible evaluates.assistants assistantId
  | getVersions assistantId metadata limit offset => exact getVersions_visible evaluates.versions assistantId metadata limit offset
  | searchCrons query sortBy sortOrder limit offset =>
    exact congrArg (Except.map _) (searchCrons_visible query evaluates.crons _ sortBy sortOrder limit offset)
  | countCrons query => exact congrArg (Except.map _) (countCrons_visible query evaluates.crons _)
  | getCron cronId => exact getCron_visible (fun cron member => (evaluates.crons cron member).1) cronId

-- `t2` is not admitted and has the run `r2` and the cron `c2`.
section toy

def owned (owner : String) : Fields := [("owner",.str owner)]

def mine : Filters := ⟨some ⟨none,none,owned "me"⟩,none,none⟩

def shelf : Records :=
  {threads := [⟨"t1",.idle,owned "me",none,1,1,none⟩,⟨"t2",.busy,owned "you",none,2,2,none⟩]
   runs := [⟨"r1","t1",.success,[],1⟩,⟨"r2","t2",.running,[],2⟩]
   assistants := []
   versions := []
   crons := [⟨"c1","a",some "t1",true,[],none,none,1,1⟩,⟨"c2","a",some "t2",true,[],none,none,2,2⟩]}

theorem shelf_evaluates : Evaluates mine shelf := by
  have me : Ok (authorizes mine.threads (owned "me")) := ⟨true,by rfl⟩
  have you : Ok (authorizes mine.threads (owned "you")) := ⟨false,by rfl⟩
  refine ⟨List.forall_mem_cons.mpr ⟨me,List.forall_mem_singleton.mpr you⟩,nofun,nofun,?_⟩
  refine List.forall_mem_cons.mpr ⟨⟨ok_known _,?_⟩,List.forall_mem_singleton.mpr ⟨ok_known _,?_⟩⟩
  · rintro _ ⟨⟩
    exact me
  · rintro _ ⟨⟩
    exact you

theorem reads_visible_toy : (perform ascii mine shelf (.searchRuns "t2" none 10 0)).2 =
    (perform ascii .none (visible mine shelf (.searchRuns "t2" none 10 0)) (.searchRuns "t2" none 10 0)).2 ∧
      (visible mine shelf (.searchRuns "t2" none 10 0)).runs.length = 1 :=
  ⟨reads_visible ascii mine shelf _ shelf_evaluates (by decide),by decide⟩

end toy

-- Reads fill in `state_updated_at` where it is missing. Nothing that they
-- answer depends on whether another read has done so.
section repeating
variable {env : Environment} {filters : Filters} {records : Records} {threads : List ThreadRow}

def settledRecords (records : Records) : Records := {records with threads := records.threads.map filled}

-- Versions as this release writes them.
def Complete (versions : List VersionRow) : Prop := ∀ version ∈ versions, version.name.isSome ∧ version.description.isSome

theorem filled_twice (thread : ThreadRow) : filled (filled thread) = filled thread := rfl

theorem map_filled_twice (threads : List ThreadRow) : (threads.map filled).map filled = threads.map filled := by
  rw [List.map_map]
  exact List.map_congr_left fun thread _ => filled_twice thread

theorem keep_filled {test : ThreadRow → Except Raised Bool} (steady : ∀ thread, test (filled thread) = test thread) :
    (keep test (threads.map filled)).map (List.map filled) = (keep test threads).map (List.map filled) := by
  rw [keep_map,keep_congr fun thread _ => steady thread]
  cases keep test threads with
  | error raised => rfl
  | ok found => exact congrArg Except.ok (map_filled_twice found)

theorem searchThreads_filled (query : ThreadQuery) (ids : List String) (sortBy sortOrder : Option String) (limit offset : Nat) :
    (searchThreads env query ids sortBy sortOrder limit (threads.map filled) offset).2 =
      (searchThreads env query ids sortBy sortOrder limit threads offset).2 := by
  unfold searchThreads
  cases idSet env ids with
  | error raised => rfl
  | ok allowed =>
    dsimp only
    rw [scan_keep,scan_keep,keep_filled fun _ => rfl]

theorem countThreads_filled (query : ThreadQuery) : countThreads query (threads.map filled) = countThreads query threads := by
  have steady : (fun thread => query.test (filled thread)) = query.test := rfl
  unfold countThreads
  rw [count_keep,count_keep,keep_map,steady]
  cases keep query.test threads with
  | error raised => rfl
  | ok found => exact congrArg Except.ok (List.length_map _)

theorem getWithFilters_filled (threadId : String) (filters : Option Filter) :
    (getWithFilters (threads.map filled) threadId filters).2 = (getWithFilters threads threadId filters).2 := by
  have found : (threads.map filled).find? (fun thread => thread.threadId == threadId) =
      (threads.find? fun thread => thread.threadId == threadId).map filled := by
    rw [List.find?_map]
    rfl
  unfold getWithFilters
  rw [found]
  cases threads.find? fun thread => thread.threadId == threadId with
  | none => rfl
  | some thread =>
    have same : (filled thread).metadata = thread.metadata := rfl
    simp only [Option.map_some,same]
    split <;> rfl

theorem runTest_filled (threadId : String) (status : Option RunStatus) (filters : Option Filter) :
    runTest (threads.map filled) threadId status filters = runTest threads threadId status filters := by
  funext run
  unfold runTest
  rw [getWithFilters_filled]

theorem threadTest_filled (query : CronQuery) : query.threadTest (threads.map filled) = query.threadTest threads := by
  funext cron
  unfold CronQuery.threadTest
  cases cron.threadId with
  | none => rfl
  | some threadId =>
    have same : threadMetadata (threads.map filled) threadId = threadMetadata threads threadId := by
      unfold threadMetadata
      rw [← List.map_reverse,List.find?_map]
      have found : (threads.reverse.find? ((fun thread => thread.threadId == threadId) ∘ filled)) =
          threads.reverse.find? fun thread => thread.threadId == threadId := rfl
      rw [found]
      cases threads.reverse.find? fun thread => thread.threadId == threadId <;> rfl
    dsimp only
    rw [same]

-- Filled in or not, the records answer alike.
theorem perform_settled (read : Read) : (perform env filters (settledRecords records) read).2 = (perform env filters records read).2 := by
  cases read with
  | searchThreads query ids sortBy sortOrder limit offset => exact congrArg (Except.map _) (searchThreads_filled _ ids sortBy sortOrder limit offset)
  | countThreads query => exact congrArg (Except.map _) (countThreads_filled _)
  | getThread threadId =>
    simp only [perform,getThread,settledRecords,getWithFilters_filled]
  | getRun runId threadId =>
    simp only [perform,getRun,settledRecords]
    split
    · rfl
    · split
      · rfl
      · simp only [getWithFilters_filled]
  | searchRuns threadId status limit offset => simp only [perform,searchRuns,settledRecords,runTest_filled]
  | searchCrons query sortBy sortOrder limit offset => simp only [perform,searchCrons,foundCrons,settledRecords,threadTest_filled]
  | countCrons query => simp only [perform,countCrons,foundCrons,settledRecords,threadTest_filled]
  | _ => rfl

theorem modifyFirst_filled (found : ThreadRow → Bool) (threads : List ThreadRow) :
    (modifyFirst found filled threads).map filled = threads.map filled := by
  induction threads with
  | nil => rfl
  | cons thread rest ih =>
    unfold modifyFirst
    split
    · rfl
    · rw [List.map_cons,List.map_cons,ih]

theorem getWithFilters_keeps (threadId : String) (filters : Option Filter) :
    (getWithFilters threads threadId filters).1.map filled = threads.map filled := by
  unfold getWithFilters
  split
  · rfl
  · split
    · rfl
    · rfl
    · exact modifyFirst_filled _ _

theorem scan_keeps (test : ThreadRow → Except Raised Bool) (threads : List ThreadRow) :
    (scan test threads).1.map filled = threads.map filled := by
  induction threads with
  | nil => rfl
  | cons thread rest ih =>
    unfold scan
    split
    · rfl
    · rename_i answer _
      rw [List.map_cons,List.map_cons,ih]
      cases answer <;> rfl

theorem fill_complete {versions : List VersionRow} (complete : Complete versions) (selected : VersionRow → Bool) (name : String)
    (description : Option String) : fillVersions selected name description versions = versions := by
  induction versions generalizing description with
  | nil => rfl
  | cons version rest ih =>
    obtain ⟨own,others⟩ := List.forall_mem_cons.mp complete
    obtain ⟨assistantId,number,metadata,name_,description_⟩ := version
    obtain ⟨text,rfl⟩ := Option.isSome_iff_exists.mp own.1
    obtain ⟨text_,rfl⟩ := Option.isSome_iff_exists.mp own.2
    unfold fillVersions
    rw [ih others,ih others]
    split <;> rfl

theorem perform_keeps (complete : Complete records.versions) (read : Read) :
    settledRecords (perform env filters records read).1 = settledRecords records := by
  have threads_ : ∀ {threads}, threads.map filled = records.threads.map filled → settledRecords {records with threads := threads} =
      settledRecords records := by
    intro threads same
    simp only [settledRecords,same]
  cases read with
  | searchThreads query ids sortBy sortOrder limit offset =>
    refine threads_ ?_
    unfold searchThreads
    split
    · rfl
    · exact scan_keeps _ _
  | getThread threadId => exact threads_ (getWithFilters_keeps _ _)
  | getRun runId threadId =>
    refine threads_ ?_
    unfold getRun
    split
    · rfl
    · split
      · rfl
      · exact getWithFilters_keeps _ _
  | searchRuns threadId status limit offset =>
    refine threads_ ?_
    unfold searchRuns
    dsimp only
    split
    · exact getWithFilters_keeps _ _
    · rfl
  | getVersions assistantId metadata limit offset =>
    have same : (getVersions records.assistants records.versions assistantId metadata limit offset filters.assistants).1 = records.versions := by
      unfold getVersions
      split
      · rfl
      · split
        · rfl
        · exact fill_complete complete _ _ _
    simp only [perform,same]
  | _ => rfl

end repeating

-- Whoever has read whatever before, with filters of their own: a read answers
-- as if it were the first.
theorem reads_repeat (env : Environment) (records : Records) (complete : Complete records.versions) (prior : List (Filters × Read))
    (filters : Filters) (read : Read) :
    (perform env filters (prior.foldl (fun records asked => (perform env asked.1 records asked.2).1) records) read).2 =
      (perform env filters records read).2 := by
  induction prior generalizing records with
  | nil => rfl
  | cons asked rest ih =>
    have same : settledRecords (perform env asked.1 records asked.2).1 = settledRecords records := perform_keeps complete asked.2
    have versions : (perform env asked.1 records asked.2).1.versions = records.versions := by
      simpa only [settledRecords] using congrArg Records.versions same
    rw [List.foldl_cons,ih _ (versions ▸ complete),← perform_settled,same,perform_settled]

theorem reads_repeat_toy : (perform ascii .none (perform ascii mine shelf (.getThread "t1")).1 (.getThread "t1")).2 =
    (perform ascii .none shelf (.getThread "t1")).2 :=
  reads_repeat ascii shelf nofun [(mine,.getThread "t1")] .none (.getThread "t1")

end InmemRuntime.VisibleRecords
