import InmemRuntime.AssistantOps

namespace InmemRuntime.VersionHistory
open OrderedDict ThreadTtl RuntimeStore Serving SystemAssistants AssistantOps

section tables
variable {J : Type} {t : AssistantTables J} {assistantId : String}

abbrev key (v : AssistantVersion J) : String × Nat := (v.assistantId,v.version)

-- The six fields that an assistant shares with its version.
structure Agrees (a : AssistantRecord J) (v : AssistantVersion J) : Prop where
  graphId : a.graphId = v.graphId
  config : a.config = v.config
  context : a.context = some v.context
  metadata : a.metadata = v.metadata
  name : a.name = v.name
  description : a.description = v.description

structure AgreesWithHistory (t : AssistantTables J) : Prop where
  entry : ∀ a ∈ t.assistants, ∃ v, (t.versions.filter fun v => key v = (a.assistantId,a.version)) = [v] ∧ Agrees a v
  single : (t.versions.map key).Nodup

-- The same, as the operations keep it.
structure Consistent (t : AssistantTables J) : Prop where
  entry : ∀ a ∈ t.assistants, ∃ v ∈ t.versions, key v = (a.assistantId,a.version) ∧ Agrees a v
  single : (t.versions.map key).Nodup

theorem filter_key {rows : List (AssistantVersion J)} (single : (rows.map key).Nodup) {v : AssistantVersion J} (member : v ∈ rows) :
    (rows.filter fun row => key row = key v) = [v] := by
  induction rows with
  | nil => cases member
  | cons first rest ih =>
    obtain ⟨apart,tail⟩ := List.nodup_cons.mp single
    rcases List.mem_cons.mp member with rfl | later
    · have none_ : (rest.filter fun row => key row = key v) = [] := by
        apply List.filter_eq_nil_iff.mpr
        intro row held same
        exact apart (List.mem_map.mpr ⟨row,held,of_decide_eq_true same⟩)
      rw [List.filter_cons_of_pos (by simp),none_]
    · have other : key first ≠ key v := fun same => apart (same ▸ List.mem_map_of_mem later)
      rw [List.filter_cons_of_neg (by simpa using other)]
      exact ih tail later

theorem Consistent.agrees (consistent : Consistent t) : AgreesWithHistory t := by
  refine ⟨fun a member => ?_,consistent.single⟩
  obtain ⟨v,stored,same,agrees⟩ := consistent.entry a member
  refine ⟨v,?_,agrees⟩
  rw [← same]
  exact filter_key consistent.single stored

theorem empty_consistent : Consistent (.empty : AssistantTables J) := ⟨by simp [AssistantTables.empty],.nil⟩

-- One more version, and assistants of which each is an old one or agrees with it.
theorem grown (consistent : Consistent t) {entry : AssistantVersion J} (fresh : key entry ∉ t.versions.map key)
    {assistants : List (AssistantRecord J)} (each : ∀ a ∈ assistants, a ∈ t.assistants ∨
      key entry = (a.assistantId,a.version) ∧ Agrees a entry) : Consistent ⟨assistants,t.versions ++ [entry]⟩ := by
  refine ⟨fun a member => ?_,?_⟩
  · rcases each a member with old | ⟨same,agrees⟩
    · obtain ⟨v,stored,same,agrees⟩ := consistent.entry a old
      exact ⟨v,List.mem_append_left _ stored,same,agrees⟩
    · exact ⟨entry,by simp,same,agrees⟩
  · rw [List.map_append]
    refine List.nodup_append.mpr ⟨consistent.single,List.pairwise_singleton _ _,?_⟩
    intro k old k' new
    rw [List.mem_singleton.mp new]
    rintro rfl
    exact fresh old

theorem mem_updateFirst {f : AssistantRecord J → AssistantRecord J} {a x : AssistantRecord J} {all : List (AssistantRecord J)}
    (found : (all.find? fun a => a.assistantId == assistantId) = some a) (member : x ∈ updateFirst assistantId f all) :
    x ∈ all ∨ x = f a := by
  induction all with
  | nil => cases member
  | cons first rest ih =>
    rw [List.find?_cons] at found
    unfold updateFirst at member
    cases here : first.assistantId == assistantId with
    | true =>
      rw [here] at found
      cases found
      rw [if_pos here] at member
      rcases List.mem_cons.mp member with rfl | later
      · exact .inr rfl
      · exact .inl (List.mem_cons_of_mem _ later)
    | false =>
      rw [here] at found
      rw [if_neg (by simp [here])] at member
      rcases List.mem_cons.mp member with rfl | later
      · exact .inl List.mem_cons_self
      · exact (ih found later).imp (List.mem_cons_of_mem _) id

theorem find_named {a : AssistantRecord J} (found : t.find assistantId = some a) : a ∈ t.assistants ∧ a.assistantId = assistantId :=
  ⟨List.mem_of_find?_eq_some found,by simpa using List.find?_some found⟩

-- The next version of an assistant lies above all it has had.
theorem nextVersion_fresh {version : Nat} (next : nextVersion t assistantId = some version) :
    (assistantId,version) ∉ t.versions.map key := by
  intro held
  obtain ⟨v,stored,same⟩ := List.mem_map.mp held
  obtain ⟨rfl,rfl⟩ := Prod.mk.inj same
  unfold nextVersion at next
  split at next
  · rename_i bare
    rw [List.isEmpty_iff.mp bare] at stored
    cases stored
  · obtain ⟨highest,most,above⟩ := Option.map_eq_some_iff.mp next
    have mine : v.version ∈ (t.versions.filter fun w => w.assistantId == v.assistantId).map AssistantVersion.version :=
      List.mem_map.mpr ⟨v,List.mem_filter.mpr ⟨stored,by simp⟩,rfl⟩
    have bound := (List.max?_eq_some_iff.mp most).2 _ mine
    omega

end tables

section calls
variable {J : Type} {json : Json J} {t : AssistantTables J} {now : Int} {graph : Option Fault} {filters : Filters J}

theorem put_cases (json : Json J) (now : Int) (graph : Option Fault) (t : AssistantTables J) (call : PutAssistantCall J)
    (filters : Filters J) : (putAssistant json now graph t call filters).1 = t ∨
      checkContext json graph call.config call.context = .ok () ∧ t.find call.assistantId = none ∧
      (putAssistant json now graph t call filters).1 =
        ⟨t.assistants ++ [newAssistant json now call],t.versions ++ [newVersion json now call]⟩ := by
  unfold putAssistant
  split
  · exact .inl rfl
  · rename_i checked
    split
    · refine .inl ?_
      split
      · rfl
      · split <;> rfl
    · exact .inr ⟨checked,‹_›,rfl⟩

theorem new_agrees (json : Json J) (now : Int) (call : PutAssistantCall J) :
    Agrees (newAssistant json now call) (newVersion json now call) := ⟨rfl,rfl,rfl,rfl,rfl,rfl⟩

theorem put_consistent (consistent : Consistent t) {call : PutAssistantCall J}
    (fresh : checkContext json graph call.config call.context = .ok () → t.find call.assistantId = none →
      (call.assistantId,1) ∉ t.versions.map key) : Consistent (putAssistant json now graph t call filters).1 := by
  rcases put_cases json now graph t call filters with same | ⟨checked,absent,same⟩
  · rw [same]
    exact consistent
  · rw [same]
    refine grown consistent (fresh checked absent) fun a member => ?_
    rcases List.mem_append.mp member with old | new
    · exact .inl old
    · rw [List.mem_singleton.mp new]
      exact .inr ⟨rfl,new_agrees json now call⟩

theorem patch_cases (json : Json J) (now : Int) (graph : Option Fault) (t : AssistantTables J) (call : PatchAssistantCall J)
    (filters : Filters J) : (patchAssistant json now graph t call filters).1 = t ∨
      ∃ a version, t.find call.assistantId = some a ∧ passes filters a.metadata = true ∧
        nextVersion t call.assistantId = some version ∧ (patchAssistant json now graph t call filters).1 =
          ⟨updateFirst call.assistantId (patchedAssistant now (patchedVersion json now call a version)) t.assistants,
            t.versions ++ [patchedVersion json now call a version]⟩ := by
  unfold patchAssistant
  split
  · exact .inl rfl
  · split
    · exact .inl rfl
    · rename_i found
      split
      · exact .inl rfl
      · rename_i allowed
        split
        · exact .inl rfl
        · exact .inr ⟨_,_,found,by simpa using allowed,‹_›,rfl⟩

theorem patch_consistent (consistent : Consistent t) {call : PatchAssistantCall J} :
    Consistent (patchAssistant json now graph t call filters).1 := by
  rcases patch_cases json now graph t call filters with same | ⟨a,version,found,_,next,same⟩
  · rw [same]
    exact consistent
  · rw [same]
    refine grown consistent (nextVersion_fresh next) fun x member => ?_
    rcases mem_updateFirst found member with old | rfl
    · exact .inl old
    · refine .inr ⟨?_,rfl,rfl,rfl,rfl,rfl,rfl⟩
      exact congrArg (·,version) (find_named found).2.symm

theorem chosen_parts {assistantId : String} {version : Nat} {a : AssistantRecord J} {v : AssistantVersion J}
    (chosen : chosenVersion t assistantId version filters = .ok (a,v)) :
    t.find assistantId = some a ∧ v ∈ t.versions ∧ key v = (assistantId,version) := by
  unfold chosenVersion at chosen
  split at chosen
  · cases chosen
  · split at chosen
    · cases chosen
    · split at chosen
      · cases chosen
      · rename_i found _ _ _ stored
        cases chosen
        have named := List.find?_some stored
        exact ⟨found,List.mem_of_find?_eq_some stored,by simpa [key] using named⟩

-- What `set_latest` leaves alone agrees already.
def Alike (a : AssistantRecord J) (v : AssistantVersion J) : Prop := v.graphId = a.graphId ∧ a.context = some v.context

theorem latest_agrees {a : AssistantRecord J} {v : AssistantVersion J} (alike : Alike a v) : Agrees (latestAssistant now v a) v :=
  ⟨alike.1.symm,rfl,alike.2,rfl,rfl,rfl⟩

theorem setLatest_consistent (consistent : Consistent t) {assistantId : String} {version : Nat}
    (alike : ∀ a v, chosenVersion t assistantId version filters = .ok (a,v) → Alike a v) :
    Consistent (setLatest now t assistantId version filters).1 := by
  unfold setLatest
  split
  · exact consistent
  · rename_i a v chosen
    obtain ⟨found,stored,same⟩ := chosen_parts chosen
    refine ⟨fun x member => ?_,consistent.single⟩
    rcases mem_updateFirst found member with old | rfl
    · exact consistent.entry x old
    · refine ⟨v,stored,?_,latest_agrees (alike a v chosen)⟩
      rw [Prod.ext_iff] at same ⊢
      exact ⟨same.1.trans (find_named found).2.symm,rfl⟩

theorem delete_consistent (consistent : Consistent t) {cleanup : Option Fault} {assistantId : String} :
    Consistent (deleteAssistant cleanup t assistantId filters).1 := by
  have removed : Consistent (removeAssistant t assistantId) := by
    refine ⟨fun a member => ?_,consistent.single.sublist (List.filter_sublist.map _)⟩
    obtain ⟨old,other⟩ := List.mem_filter.mp member
    obtain ⟨v,stored,same,agrees⟩ := consistent.entry a old
    refine ⟨v,List.mem_filter.mpr ⟨stored,?_⟩,same,agrees⟩
    rw [show v.assistantId = a.assistantId from congrArg Prod.fst same]
    exact other
  unfold deleteAssistant
  split
  · exact consistent
  · split
    · exact consistent
    · split
      · exact consistent
      · exact removed

theorem startPool_consistent [DecidableEq J] (consistent : Consistent t) : Consistent (startPool json t) := by
  refine ⟨fun a member => ?_,consistent.single⟩
  rcases mem_removeSystem member with none_ | ⟨b,old,same⟩
  · cases none_
  · obtain ⟨v,stored,named,agrees⟩ := consistent.entry b old
    have kept : AssistantRecord.filled json b = b := by
      unfold AssistantRecord.filled
      rw [agrees.context]
      exact congrArg (fun context => {b with context}) agrees.context.symm
    rw [kept,or_self] at same
    rw [same]
    exact ⟨v,stored,named,agrees⟩

end calls

section result
variable {J : Type} {json : Json J}

-- An assistant is created when no version of its id is left, and the chosen
-- version has the graph and the context that the assistant has.
def Sound (json : Json J) (s : Storage J) : Wake J × Operation J → Prop
  | (w,.put call) => ∀ filters, w.auth = .ok filters → checkContext json w.failure call.config call.context = .ok () →
      s.tables.find call.assistantId = none → (call.assistantId,1) ∉ s.tables.versions.map key
  | (w,.setLatest assistantId version) => ∀ filters a v, w.auth = .ok filters →
      chosenVersion s.tables assistantId version filters = .ok (a,v) → Alike a v
  | _ => True

structure Kept (s : Storage J) : Prop where
  tables : Consistent s.tables
  disk : Consistent s.disk

theorem answered_kept {ρ : Type} {w : Wake J} {s : Storage J} {go : Filters J → AssistantTables J × Except Fault ρ} (kept : Kept s)
    (goes : ∀ filters, w.auth = .ok filters → Consistent (go filters).1) : Kept (answered w s go) := by
  unfold answered
  split
  · exact kept
  · exact ⟨goes _ ‹_›,kept.disk⟩

-- What `set_latest` answers is that version.
structure Shows (t : AssistantTables J) (a : AssistantRecord J) (assistantId : String) (version : Nat) : Prop where
  named : a.assistantId = assistantId ∧ a.version = version
  entry : ∃ v ∈ t.versions, key v = (assistantId,version) ∧ Agrees a v

theorem latest_shows {t : AssistantTables J} {now : Int} {filters : Filters J} {assistantId : String} {version : Nat}
    {a : AssistantRecord J} (alike : ∀ a v, chosenVersion t assistantId version filters = .ok (a,v) → Alike a v)
    (answer : (setLatest now t assistantId version filters).2 = .ok a) :
    Shows (setLatest now t assistantId version filters).1 a assistantId version := by
  unfold setLatest at answer ⊢
  split at answer
  · cases answer
  · rename_i old v chosen
    cases answer
    obtain ⟨found,stored,same⟩ := chosen_parts chosen
    exact ⟨⟨(find_named found).2,congrArg Prod.snd same⟩,v,stored,same,latest_agrees (alike old v chosen)⟩

variable [DecidableEq J]

theorem step_kept (s : Storage J) (event : Wake J × Operation J) (kept : Kept s) (sound : Sound json s event) :
    Kept (step json s event) := by
  obtain ⟨w,operation⟩ := event
  cases operation with
  | put call => exact answered_kept kept fun filters answer => put_consistent kept.tables (sound filters answer)
  | patch call => exact answered_kept kept fun _ _ => patch_consistent kept.tables
  | setLatest assistantId version =>
    exact answered_kept kept fun filters answer => setLatest_consistent kept.tables fun a v => sound filters a v answer
  | delete assistantId => exact answered_kept kept fun _ _ => delete_consistent kept.tables
  | flush => exact ⟨kept.tables,kept.tables⟩
  | restart => exact ⟨startPool_consistent kept.disk,kept.disk⟩

theorem versions_agree (json : Json J) (taken : List (Storage J × (Wake J × Operation J))) (s : Storage J)
    (runs : Runs json taken s) (sound : ∀ row ∈ taken, Sound json row.1 row.2) :
    AgreesWithHistory s.tables ∧ ∀ row ∈ taken, AgreesWithHistory row.1.tables ∧
      ∀ assistantId version filters a, row.2.2 = .setLatest assistantId version → row.2.1.auth = .ok filters →
        (setLatest row.2.1.now row.1.tables assistantId version filters).2 = .ok a →
        Shows (step json row.1 row.2).tables a assistantId version := by
  obtain ⟨here,earlier⟩ := Histories.runs_invariant runs ⟨empty_consistent,empty_consistent⟩ step_kept sound
  refine ⟨here.tables.agrees,fun row member => ⟨(earlier row member).tables.agrees,?_⟩⟩
  intro assistantId version filters a call answer result
  have allowed := sound row member
  obtain ⟨state,w,operation⟩ := row
  dsimp only at call answer result allowed ⊢
  subst call
  have shown := latest_shows (fun a v => allowed filters a v answer) result
  unfold step answered
  dsimp only
  rw [answer]
  exact shown

end result

-- Texts as JSON values; only the empty one is false.
def texts : Json String := ⟨fun text => text != "","",id⟩

def quiet (operation : Operation String) : Wake String × Operation String := (.quiet 0,operation)

def made (graphId createdBy : String) : Operation String :=
  .put ⟨"a",graphId,.empty,some "c",Dict.empty.insert "created_by" createdBy,.doNothing,"n",none⟩

def moved (graphId : Option String) : Operation String := .patch ⟨"a",.empty,none,graphId,.empty,some "m",some "d"⟩

def ran (operations : List (Operation String)) : List (Storage String × (Wake String × Operation String)) :=
  Histories.trace (step texts) ⟨.empty,.empty⟩ (operations.map quiet)

theorem ran_runs (operations : List (Operation String)) :
    Runs texts (ran operations) ((operations.map quiet).foldl (step texts) ⟨.empty,.empty⟩) :=
  Histories.runs_trace .nil (operations.map quiet)

-- Back to the first version after a change of the name and the description.
theorem versions_agree_toy : ∃ s, Runs texts (ran [made "g" "user",moved none,.setLatest "a" 1]) s ∧ AgreesWithHistory s.tables := by
  refine ⟨_,ran_runs _,(versions_agree texts _ _ (ran_runs _) ?_).1⟩
  refine List.forall_mem_cons.mpr ⟨fun _ _ _ _ => by simp [AssistantTables.empty],?_⟩
  refine List.forall_mem_cons.mpr ⟨trivial,List.forall_mem_cons.mpr ⟨?_,fun _ none_ => (List.not_mem_nil none_).elim⟩⟩
  intro filters a v answer chosen
  cases answer
  cases chosen
  exact ⟨rfl,rfl⟩

-- The graph of the version is not taken over. And the versions of a system
-- assistant outlive it, so that it gets a second version 1.
theorem history_breaks :
    (∃ s, Runs texts (ran [made "g" "user",moved (some "h"),.setLatest "a" 1]) s ∧ ¬ AgreesWithHistory s.tables) ∧
    ∃ s, Runs texts (ran [made "g" "system",.flush,.restart,made "g" "system"]) s ∧ ¬ AgreesWithHistory s.tables := by
  refine ⟨⟨_,ran_runs _,fun agrees => ?_⟩,_,ran_runs _,fun agrees => absurd agrees.single (by decide +kernel)⟩
  obtain ⟨v,only,same⟩ := agrees.entry _ List.mem_cons_self
  cases only
  exact absurd same.graphId (by decide)

end InmemRuntime.VersionHistory
