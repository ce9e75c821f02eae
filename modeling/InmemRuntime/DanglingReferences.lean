import InmemRuntime.WorldReferences
import InmemRuntime.DeniedMutations

namespace InmemRuntime.DanglingReferences
open OrderedDict ThreadTtl RuntimeStore Serving ThreadOps AssistantOps
open ThreadRecords ThreadDeletion Mutations References WorldReferences
open RecordIds (threadIds)
open DeniedMutations (toyPackages waking)

variable {J : Type}

-- Calls begin at their first line.
def Fresh : Mutation J → Prop
  | .put (.called _) | .patch (.called _) | .delete (.called _) | .prune (.called _) | .copy (.called _) => True
  | .update (.called _) | .sweep (.called _) | .putRun (.called _) | .deleteRun (.called _ _) | .cancel _ (.called _) => True
  | .putAssistant (.called _) | .patchAssistant (.called _) | .setLatest (.called _) | .deleteAssistant (.called _ _) => True
  | .putCron _ (.called _) | .updateCron (.called _) | .deleteCron (.called _) => True
  | _ => False

theorem fresh_ready {packages : Packages J} {s : World J} {task : Mutation J} (fresh : Fresh task) : Ready packages s task := by
  cases task with
  | delete task => cases task <;> trivial
  | prune task => cases task <;> trivial
  | sweep task => cases task <;> trivial
  | deleteAssistant task => cases task <;> trivial
  | putCron fields task => cases task <;> trivial
  | other change => exact fresh.elim
  | _ => trivial

section runs
variable [DecidableEq J] {packages : Packages J}

-- One step of any call.
theorem resume_proper {w : Wake J} {s : World J} {task : Mutation J} (used : LiveUsed s.store) (ready : Ready packages s task)
    (guarded : Guarded packages w s task) : Proper packages s (Mutations.resume packages w s task) := by
  cases task with
  | put task => exact goes_proper (server_maintains (put_upholds used task)) fun _ _ => trivial
  | patch task => exact goes_proper (server_maintains (patch_upholds used task guarded)) fun _ _ => trivial
  | delete task =>
    exact goes_proper (deleteWhole_maintains task ready) fun _ suspends => deleteWhole_names used ready suspends
  | prune task => exact prune_proper used task ready
  | copy task => exact goes_proper (store_maintains rfl rfl (copy_upholds used task)) fun _ _ => trivial
  | update task => exact update_proper task
  | sweep task => exact sweep_proper used task ready guarded
  | putRun task => exact goes_proper (server_maintains (putRun_upholds used task)) fun _ _ => trivial
  | deleteRun task => exact deleteRun_proper task
  | cancel told task => exact cancel_proper told task
  | signal key action => exact ⟨store_maintains rfl rfl (.refl _),delivery_ready⟩
  | delivering queue message => exact ⟨store_maintains rfl rfl (.refl _),fun _ none_ => (List.not_mem_nil none_).elim⟩
  | putAssistant task => exact putAssistant_proper task
  | patchAssistant task => exact asking_proper .patchAssistant (fun _ _ => trivial) patchAssistant_maintains task
  | setLatest task => exact asking_proper .setLatest (fun _ _ => trivial) setLatest_maintains task
  | deleteAssistant task => exact deleteAssistant_proper used task ready
  | putCron fields task => exact putCron_proper task ready guarded
  | updateCron task => exact asking_proper .updateCron (fun _ _ => trivial) updateCron_maintains task
  | deleteCron task => exact asking_proper .deleteCron (fun _ _ => trivial) deleteCron_maintains task
  | other change => exact ready.elim

-- Every call is one of the API's, and each of the three steps that act on what
-- was looked up before an await still finds its record.
def Careful (packages : Packages J) : Pool J × Event J → Prop := TaskPool.Meets Fresh (Guarded packages)

structure Sound (packages : Packages J) (p : Pool J) : Prop where
  used : LiveUsed p.shared.store
  referenced : Referenced p.shared
  ready : ∀ task ∈ p.tasks, Ready packages p.shared task

theorem advance_sound {p next : Pool J} {event : Event J} (sound : Sound packages p) (careful : Careful packages (p,event))
    (step : TaskPool.advance (Mutations.resume packages) p event = some next) : Sound packages next := by
  cases event with
  | call task =>
    cases Option.some.inj step
    refine ⟨sound.used,sound.referenced,fun other member => ?_⟩
    rcases List.mem_append.mp member with old | new
    · exact sound.ready other old
    · rw [List.mem_singleton.mp new]
      exact fresh_ready careful
  | resume index w =>
    obtain ⟨before,task,after,split,found,rfl⟩ := TaskPool.resume_parts step
    have proper := resume_proper sound.used (sound.ready task (by simp [split])) (careful task found)
    have grows := proper.maintains.grows
    refine ⟨grows.live sound.used,proper.maintains.referenced sound.referenced,fun other member => ?_⟩
    rcases List.mem_append.mp member with first | later
    · rcases List.mem_append.mp first with old | new
      · exact ready_later grows (sound.ready other (by simp [split,old]))
      · exact proper.ready other new
    · exact ready_later grows (sound.ready other (by simp [split,later]))

theorem references_hold (packages : Packages J) (start : World J) (p : Pool J) (taken : List (Pool J × Event J))
    (used : LiveUsed start.store) (referenced : Referenced start) (runs : Runs packages ⟨start,[]⟩ taken p)
    (careful : ∀ step ∈ taken, Careful packages step) : Referenced p.shared ∧ ∀ step ∈ taken, Referenced step.1.shared := by
  have begins : Sound packages ⟨start,[]⟩ := ⟨used,referenced,fun _ none_ => (List.not_mem_nil none_).elim⟩
  obtain ⟨last,sound⟩ := TaskPool.runs_invariant runs begins (fun _ _ _ here careful step => advance_sound here careful step) careful
  exact ⟨last.referenced,fun step member => (sound step member).referenced⟩

end runs

-- An assistant and a thread, and the call that gives them a cron.
def someAssistant : AssistantRecord String := ⟨"a","g",.empty,none,.empty,"",0,0,1,none⟩

def someThread : Thread String := ⟨"t",.idle,.empty,0,0,some 0,none,none,none⟩

def toyWorld : World String :=
  ⟨⟨.start ((Store.empty).appendThread someThread),⟨[someAssistant],[]⟩,.empty⟩,.empty,DeniedMutations.toyWorld.saver,
    DeniedMutations.toyWorld.streams⟩

def someFields : CronFields String := ⟨"","","",none,true,none,.empty,0,0⟩

def putting : Mutation String := .putCron someFields (.called ⟨some "c","a",some "t",.empty⟩)

theorem toy_used : LiveUsed toyWorld.store := by
  intro ref member
  rw [List.mem_singleton.mp (member : ref ∈ [0])]
  decide

theorem toy_referenced : Referenced toyWorld :=
  ⟨⟨fun _ none_ => (List.not_mem_nil none_).elim,fun _ none_ => (List.not_mem_nil none_).elim,nofun⟩,
    fun _ none_ => (List.not_mem_nil none_).elim⟩

def puts : List (Event String) := [.call putting,.resume 0 waking,.resume 0 waking,.resume 0 waking,.resume 0 waking]

-- `Crons.put` alone.
theorem references_hold_toy : ∃ taken p, Runs toyPackages ⟨toyWorld,[]⟩ taken p ∧ p.shared.store.crons = [⟨"c","t"⟩] ∧ p.tasks = [] ∧
    Referenced p.shared := by
  have runs := TaskPool.perform_runs .nil (rfl : TaskPool.perform (Mutations.resume toyPackages) ⟨toyWorld,[]⟩ puts = some _)
  refine ⟨_,_,runs,rfl,rfl,(references_hold toyPackages toyWorld _ _ toy_used toy_referenced runs ?_).1⟩
  refine List.forall_mem_cons.mpr ⟨trivial,?_⟩
  iterate 4 refine List.forall_mem_cons.mpr ⟨fun task found => by cases found; (first | trivial | exact fun _ _ _ same => by cases same; rfl),?_⟩
  exact fun _ none_ => (List.not_mem_nil none_).elim

-- The assistant goes while the handler of the thread is asked.
def interleaved : List (Event String) :=
  [.call putting,.resume 0 waking,.resume 0 waking,.resume 0 waking,.call (.deleteAssistant (.called "a" false)),
    .resume 1 waking,.resume 1 waking,.resume 1 waking,.resume 1 waking,.resume 0 waking]

def Begins : Pool J × Event J → Prop := TaskPool.Meets Fresh fun _ _ _ => True

theorem cron_outlives_assistant : Referenced toyWorld ∧ ∃ taken p, Runs toyPackages ⟨toyWorld,[]⟩ taken p ∧
    (∀ step ∈ taken, Begins step) ∧ ¬ Referenced p.shared := by
  have runs := TaskPool.perform_runs .nil (rfl : TaskPool.perform (Mutations.resume toyPackages) ⟨toyWorld,[]⟩ interleaved = some _)
  refine ⟨toy_referenced,_,_,runs,?_,fun referenced => ?_⟩
  · iterate 10 refine List.forall_mem_cons.mpr ⟨by first | trivial | exact fun _ _ => trivial,?_⟩
    exact fun _ none_ => (List.not_mem_nil none_).elim
  · obtain ⟨a,listed,_⟩ := referenced.assistants ⟨"c","t"⟩ List.mem_cons_self
    exact List.not_mem_nil listed

end InmemRuntime.DanglingReferences
