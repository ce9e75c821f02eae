import InmemRuntime.ThreadRecords

namespace InmemRuntime.PatchUpdates
open OrderedDict ObjectHeap ThreadTtl RuntimeStore Serving ThreadOps ThreadRecords Tasks

variable {J : Type}

def callOf : PatchTask J → PatchCall J
  | .called call | .authorizing call _ | .waiting call _ _ => call

-- The step that goes past both waits, or finds nothing to wait for.
def Reaches (w : Wake J) (s : Server J) : PatchTask J → Prop
  | .called _ => True
  | .authorizing call _ => (∃ filters, w.auth = .ok filters) ∧ s.maintenance.contains call.threadId = false
  | .waiting call _ _ => s.maintenance.contains call.threadId = false

def Carries (s : Store J) (threadId : String) (metadata : Metadata J) : Prop :=
  ∃ ref ∈ s.liveThreads, (s.thread ref).threadId = threadId ∧ (s.thread ref).metadata = metadata

structure Untouched (s s' : Store J) : Prop where
  live : s'.liveThreads = s.liveThreads
  records : ∀ ref ∈ s.liveThreads, s'.thread ref = s.thread ref
  ttls : s'.ttls = s.ttls

-- What is returned is stored, and what is gone stays gone.
structure Delivers (w : Wake J) (s : Server J) (task : PatchTask J) : Prop where
  stored : ∀ refs, (stepPatch w s task).2 = .returned refs → ∀ ref ∈ refs,
    Carries (stepPatch w s task).1.store (callOf task).threadId ((stepPatch w s task).1.store.thread ref).metadata
  gone : Reaches w s task → s.store.findThread (callOf task).threadId = none →
    (stepPatch w s task).2 = .returned [] ∧ Untouched s.store (stepPatch w s task).1.store

def Rejected (now : Int) (ttl : Option TtlConfig) : Prop :=
  ∃ config fault, ttl = some config ∧ normalizeTtlConfig now (some config) = .error fault

-- The list that the patch holds is still the one in the store. Otherwise a
-- write to it is seen nowhere: no harm is done when there is nothing to write,
-- or when the thread is live and the call fails on its TTL or changes nothing.
def ListCurrent (s : Store J) (now : Int) (call : PatchCall J) (list : Nat) (filters : Filters J) : Prop :=
  list = s.boundThreads ∨ ∀ ref, capturedThread s list call.threadId = some ref →
    passes filters (s.thread ref).metadata = true →
    (∃ live, s.findThread call.threadId = some live) ∧
    (Rejected now call.ttl ∨ Carries s call.threadId ((s.thread ref).metadata.update call.metadata.entries))

def Current (w : Wake J) (s : Server J) (task : PatchTask J) : Prop :=
  Reaches w s task → match task with
    | .called _ => True
    | .authorizing call list => ∀ filters, w.auth = .ok filters → ListCurrent s.store w.now call list filters
    | .waiting call list filters => ListCurrent s.store w.now call list filters

theorem overrideTtl_cases {τ : Type} {s : Server J} {now : Int} {threadId : String} {ttl : Option TtlConfig}
    {value : List Nat} {result : Server J × Outcome τ (List Nat)} (overrides : overrideTtl s now threadId ttl value = result) :
    (¬ Rejected now ttl ∧ ∃ ttls, result = (s.withStore {s.store with ttls},.returned value)) ∨
      (Rejected now ttl ∧ ∃ fault, result = (s,.raised fault)) := by
  subst overrides
  cases ttl with
  | none => exact .inl ⟨by simp [Rejected],s.store.ttls,rfl⟩
  | some config =>
    cases normal : normalizeTtlConfig now (some config) with
    | error fault => exact .inr ⟨⟨config,fault,rfl,normal⟩,fault,by simp [overrideTtl,setThreadTtlOverride,normal]⟩
    | ok policy =>
      refine .inl ⟨by simp [Rejected,normal],?_⟩
      cases policy <;> exact ⟨_,by simp only [overrideTtl,setThreadTtlOverride,normal]; rfl⟩

theorem thread_replaceThread_old {s : Store J} {list ref : Nat} {threadId : String} {thread : Thread J}
    (used : ref < s.threads.next) : (replaceThread s list threadId thread).thread ref = s.thread ref :=
  Heap.read_alloc_old used

theorem thread_replaceThread_new (s : Store J) (list : Nat) (threadId : String) (thread : Thread J) :
    (replaceThread s list threadId thread).thread s.threads.next = thread := Heap.read_alloc_new _ _

theorem carries_stale {s s' : Store J} {threadId : String} {metadata : Metadata J} (live : s'.liveThreads = s.liveThreads)
    (records : ∀ ref ∈ s.liveThreads, s'.thread ref = s.thread ref) :
    Carries s' threadId metadata ↔ Carries s threadId metadata := by
  unfold Carries
  rw [live]
  constructor
  · rintro ⟨ref,member,same,equal⟩
    rw [records ref member] at same equal
    exact ⟨ref,member,same,equal⟩
  · rintro ⟨ref,member,same,equal⟩
    refine ⟨ref,member,?_⟩
    rw [records ref member]
    exact ⟨same,equal⟩

theorem untouched_refl (s : Store J) : Untouched s s := ⟨rfl,fun _ _ => rfl,rfl⟩

-- What the two parts of `Delivers` say of the section after the waits.
structure DeliversAt (s : Server J) (call : PatchCall J) (result : Server J × Outcome (PatchTask J) (List Nat)) : Prop where
  stored : ∀ refs, result.2 = .returned refs → ∀ ref ∈ refs,
    Carries result.1.store call.threadId (result.1.store.thread ref).metadata
  gone : s.store.findThread call.threadId = none → result.2 = .returned [] ∧ Untouched s.store result.1.store

theorem deliversAt_empty (s : Server J) (call : PatchCall J) : DeliversAt s call (s,.returned []) := by
  refine ⟨?_,fun _ => ⟨rfl,untouched_refl _⟩⟩
  intro refs returned ref member
  cases returned
  cases member

theorem captured_threadId {s : Store J} {list ref : Nat} {threadId : String}
    (captured : capturedThread s list threadId = some ref) : (s.thread ref).threadId = threadId := by
  simpa [Store.isThread] using List.find?_some captured

-- The store after the record was replaced in the list that the patch holds.
def written (s : Store J) (now : Int) (call : PatchCall J) (list ref : Nat) : Store J :=
  replaceThread s list call.threadId (patched (s.thread ref) call.metadata now)

theorem patchThread_parts {s : Server J} {now : Int} {call : PatchCall J} {list ref : Nat} {filters : Filters J}
    (captured : capturedThread s.store list call.threadId = some ref)
    (admitted : passes filters (s.store.thread ref).metadata = true) :
    (¬ Rejected now call.ttl ∧ ∃ ttls, patchThread s now call list filters =
      (s.withStore {written s.store now call list ref with ttls},.returned [s.store.threads.next])) ∨
    (Rejected now call.ttl ∧ ∃ fault, patchThread s now call list filters =
      (s.withStore (written s.store now call list ref),.raised fault)) := by
  unfold patchThread
  rw [captured]
  simp only [admitted,Bool.not_true,Bool.false_eq_true,↓reduceIte]
  exact overrideTtl_cases rfl

theorem written_new (s : Store J) (now : Int) (call : PatchCall J) (list ref : Nat) :
    (written s now call list ref).thread s.threads.next = patched (s.thread ref) call.metadata now :=
  thread_replaceThread_new _ _ _ _

theorem patchThread_bound {s : Server J} {now : Int} {call : PatchCall J} {ref : Nat} {filters : Filters J}
    (captured : capturedThread s.store s.store.boundThreads call.threadId = some ref)
    (admitted : passes filters (s.store.thread ref).metadata = true) :
    DeliversAt s call (patchThread s now call s.store.boundThreads filters) := by
  have live : s.store.findThread call.threadId = some ref := captured
  refine ⟨?_,fun absent => by simp [live] at absent⟩
  intro refs returned new member
  rcases patchThread_parts captured admitted with ⟨_,ttls,result⟩ | ⟨_,fault,result⟩
  · rw [result] at returned ⊢
    cases returned
    rw [List.mem_singleton.mp member]
    have present : s.store.threads.next ∈ (written s.store now call s.store.boundThreads ref).liveThreads := by
      rw [written,live_replaceThread_bound]
      exact mem_replaceFirst_new (Option.isSome_iff_exists.mpr ⟨ref,live⟩)
    refine ⟨s.store.threads.next,present,?_,rfl⟩
    exact (congrArg Thread.threadId (written_new s.store now call s.store.boundThreads ref)).trans
      (captured_threadId captured)
  · rw [result] at returned
    cases returned

theorem patchThread_stale {s : Server J} {now : Int} {call : PatchCall J} {list ref : Nat} {filters : Filters J}
    (used : LiveUsed s.store) (captured : capturedThread s.store list call.threadId = some ref)
    (admitted : passes filters (s.store.thread ref).metadata = true) (stale : list ≠ s.store.boundThreads) :
    DeliversAt s call (patchThread s now call list filters) ↔
      (∃ live, s.store.findThread call.threadId = some live) ∧ (Rejected now call.ttl ∨
        Carries s.store call.threadId ((s.store.thread ref).metadata.update call.metadata.entries)) := by
  have records : ∀ other ∈ s.store.liveThreads, (written s.store now call list ref).thread other = s.store.thread other :=
    fun other member => thread_replaceThread_old (used other member)
  have seen : Carries (written s.store now call list ref) call.threadId
      ((written s.store now call list ref).thread s.store.threads.next).metadata ↔
      Carries s.store call.threadId ((s.store.thread ref).metadata.update call.metadata.entries) := by
    have same : (written s.store now call list ref).liveThreads = s.store.liveThreads := live_replaceThread_stale stale
    rw [carries_stale same records,written_new]
    rfl
  have given : ∀ refs, (patchThread s now call list filters).2 = .returned refs → refs ≠ [] := by
    intro refs returned
    rcases patchThread_parts captured admitted with ⟨_,ttls,result⟩ | ⟨_,fault,result⟩ <;> rw [result] at returned
    · cases returned
      simp
    · cases returned
  constructor
  · rintro ⟨stored,gone⟩
    refine ⟨?_,?_⟩
    · cases found : s.store.findThread call.threadId with
      | none => exact absurd rfl (given [] (gone found).1)
      | some live => exact ⟨live,rfl⟩
    · rcases patchThread_parts captured admitted with ⟨_,ttls,result⟩ | ⟨rejected,_⟩
      · rw [result] at stored
        exact .inr (seen.mp (stored _ rfl s.store.threads.next (by simp)))
      · exact .inl rejected
  · rintro ⟨⟨live,found⟩,landed⟩
    refine ⟨?_,fun absent => by simp [found] at absent⟩
    intro refs returned new member
    rcases patchThread_parts captured admitted with ⟨accepted,ttls,result⟩ | ⟨_,fault,result⟩ <;>
      rw [result] at returned
    · rw [result]
      cases returned
      rw [List.mem_singleton.mp member]
      exact seen.mpr (landed.resolve_left accepted)
    · cases returned

theorem deliversAt_iff {s : Server J} {now : Int} {call : PatchCall J} {list : Nat} {filters : Filters J}
    (used : LiveUsed s.store) :
    DeliversAt s call (patchThread s now call list filters) ↔ ListCurrent s.store now call list filters := by
  cases captured : capturedThread s.store list call.threadId with
  | none =>
    have nothing : patchThread s now call list filters = (s,.returned []) := by simp [patchThread,captured]
    rw [nothing]
    exact iff_of_true (deliversAt_empty s call) (.inr (by simp [captured]))
  | some ref =>
    by_cases admitted : passes filters (s.store.thread ref).metadata = true
    · by_cases bound : list = s.store.boundThreads
      · subst bound
        exact iff_of_true (patchThread_bound captured admitted) (.inl rfl)
      · rw [patchThread_stale used captured admitted bound]
        simp [ListCurrent,bound,captured,admitted]
    · have nothing : patchThread s now call list filters = (s,.returned []) := by simp [patchThread,captured,admitted]
      rw [nothing]
      refine iff_of_true (deliversAt_empty s call) (.inr ?_)
      intro other same passing
      cases captured.symm.trans same
      exact absurd passing admitted

theorem delivers_suspended {w : Wake J} {s : Server J} {task again : PatchTask J}
    (waits : stepPatch w s task = (s,.suspended again)) (before : ¬ Reaches w s task) : Delivers w s task := by
  refine ⟨?_,fun reached => absurd reached before⟩
  intro refs returned
  rw [waits] at returned
  cases returned

theorem delivers_section {w : Wake J} {s : Server J} {task : PatchTask J} {list : Nat} {filters : Filters J}
    (goes : stepPatch w s task = patchThread s w.now (callOf task) list filters) (reached : Reaches w s task) :
    Delivers w s task ↔ DeliversAt s (callOf task) (patchThread s w.now (callOf task) list filters) := by
  constructor
  · rintro ⟨stored,gone⟩
    rw [goes] at stored gone
    exact ⟨stored,gone reached⟩
  · rintro ⟨stored,gone⟩
    constructor <;> rw [goes]
    · exact stored
    · exact fun _ => gone

theorem delivers_iff {w : Wake J} {s : Server J} {task : PatchTask J} (used : LiveUsed s.store) :
    Delivers w s task ↔ Current w s task := by
  cases task with
  | called call =>
    refine iff_of_true ⟨?_,?_⟩ fun _ => trivial
    · intro refs returned ref member
      unfold stepPatch at returned
      dsimp only at returned
      split at returned <;> cases returned
      cases member
    · intro _ absent
      have nothing : stepPatch w s (.called call) = (s,.returned []) := by
        dsimp only [callOf] at absent
        simp only [stepPatch,absent]
      rw [nothing]
      exact ⟨rfl,untouched_refl _⟩
  | authorizing call list =>
    cases answer : w.auth with
    | error fault =>
      have unreached : ¬ Reaches w s (.authorizing call list) := by simp [Reaches,answer]
      refine iff_of_true ⟨?_,fun reached => absurd reached unreached⟩ fun reached => absurd reached unreached
      intro refs returned
      simp [stepPatch,authorized,answer] at returned
    | ok filters =>
      by_cases held : s.maintenance.contains call.threadId = true
      · have unreached : ¬ Reaches w s (.authorizing call list) := fun reached => Bool.eq_false_iff.mp reached.2 held
        have waits : stepPatch w s (.authorizing call list) = (s,.suspended (.waiting call list filters)) := by
          simp only [stepPatch,authorized,answer,gated,held,↓reduceIte]
        exact iff_of_true (delivers_suspended waits unreached) fun reached => absurd reached unreached
      · have reached : Reaches w s (.authorizing call list) := ⟨⟨filters,answer⟩,Bool.eq_false_iff.mpr held⟩
        have goes : stepPatch w s (.authorizing call list) = patchThread s w.now call list filters := by
          simp only [stepPatch,authorized,answer,gated,held,Bool.false_eq_true,↓reduceIte]
        rw [delivers_section goes reached,deliversAt_iff used]
        simp [Current,reached,answer,callOf]
  | waiting call list filters =>
    by_cases held : s.maintenance.contains call.threadId = true
    · have unreached : ¬ Reaches w s (.waiting call list filters) := fun reached => Bool.eq_false_iff.mp reached held
      have waits : stepPatch w s (.waiting call list filters) = (s,.suspended (.waiting call list filters)) := by
        simp only [stepPatch,gated,held,↓reduceIte]
      exact iff_of_true (delivers_suspended waits unreached) fun reached => absurd reached unreached
    · have reached : Reaches w s (.waiting call list filters) := Bool.eq_false_iff.mpr held
      have goes : stepPatch w s (.waiting call list filters) = patchThread s w.now call list filters := by
        simp only [stepPatch,gated,held,Bool.false_eq_true,↓reduceIte]
      rw [delivers_section goes reached,deliversAt_iff used]
      simp [Current,reached,callOf]

-- A condition on every step of every patch in a run.
def OnPatch (condition : Wake J → Server J → PatchTask J → Prop) : Pool J × Event J → Prop :=
  TaskPool.Meets (fun _ => True) fun w s task => ∀ patch, task = .patch patch → condition w s patch

variable {text : String → J} {globalTtl : Option TtlConfig}

theorem patches_deliver {start p : Pool J} {taken : List (Pool J × Event J)} (runs : Runs text globalTtl start taken p)
    (used : LiveUsed start.shared.store) :
    (∀ step ∈ taken, OnPatch Delivers step) ↔ ∀ step ∈ taken, OnPatch Current step := by
  have live := (runs_live runs used).2
  have each : ∀ step ∈ taken, OnPatch Delivers step ↔ OnPatch Current step := by
    rintro ⟨pool,event⟩ member
    cases event with
    | call task => exact Iff.rfl
    | resume index wake =>
      refine forall₄_congr fun task here patch same => ?_
      exact delivers_iff (live _ member)
  exact forall₂_congr each

def toyServer : Server String := .start (ofThreads ["T","U"])

def patchAlone : List (Event String) :=
  [.call (.patch (.called ⟨"T",Dict.empty.insert "k" "v",none⟩)),.resume 0 (.quiet 0),.resume 0 (.quiet 0)]

theorem patches_deliver_alone : ∃ taken p, Runs id none ⟨toyServer,[]⟩ taken p ∧ ∀ step ∈ taken, OnPatch Delivers step := by
  have runs := TaskPool.perform_runs .nil (rfl : TaskPool.perform (resume id none) ⟨toyServer,[]⟩ patchAlone = some _)
  refine ⟨_,_,runs,(patches_deliver runs (ofThreads_used _)).mpr ?_⟩
  refine List.forall_mem_cons.mpr ⟨trivial,List.forall_mem_cons.mpr ⟨?_,List.forall_mem_cons.mpr ⟨?_,by simp⟩⟩⟩
  · intro task here patch same reached
    cases here
    cases same
    trivial
  · intro task here patch same reached
    cases here
    cases same
    exact fun _ _ => .inl rfl

-- The patch of `T` waits for its handler while `U` is deleted.
def patchAcrossDelete : List (Event String) :=
  [.call (.patch (.called ⟨"T",Dict.empty.insert "k" "v",none⟩)),.resume 0 (.quiet 0),.call (.delete (.called "U")),
    .resume 1 (.quiet 0),.resume 1 (.quiet 0),.resume 1 (.quiet 0),.resume 1 (.quiet 0)]

theorem patch_lost : ∃ taken p next, Runs id none ⟨toyServer,[]⟩ taken p ∧
    TaskPool.advance (resume id none) p (.resume 0 (.quiet 0)) = some next ∧ ¬ OnPatch Delivers (p,.resume 0 (.quiet 0)) := by
  refine ⟨_,_,_,TaskPool.perform_runs .nil (rfl : TaskPool.perform _ _ patchAcrossDelete = some _),rfl,?_⟩
  intro delivers
  have here := delivers _ rfl _ rfl
  obtain ⟨ref,member,_,metadata⟩ := here.stored [2] rfl 2 (by simp)
  change ref ∈ [0] at member
  cases List.mem_singleton.mp member
  exact absurd (congrArg Dict.entries metadata) (by decide)

end InmemRuntime.PatchUpdates
