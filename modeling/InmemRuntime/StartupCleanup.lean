import InmemRuntime.PoolContents

namespace InmemRuntime.StartupCleanup
open Persistence SystemAssistants PoolCycles SingleWriter PoolRestarts PoolContents

section cleanup
variable {J : Type}

-- The assistants of the file that a process on that disk loads.
def persisted (disk : List (Write (Content J))) : List (Assistant J) := (found (imported disk).registry).assistants

-- `GLOBAL_STORE["assistants"]`.
def assistants (s : Process J) : List (Assistant J) := (contentOf s.registry globalStore).store.assistants

-- What the loop is for: those of the system are gone, and every other one has
-- a context.
def cleaned (bare : J) (all : List (Assistant J)) : List (Assistant J) := (all.filter fun a => !a.isSystem).map (filled bare)

-- Behind a record of the system comes one that the loop may step over.
def Skippable (a b : Assistant J) : Prop := a.isSystem = true → b.isSystem = false ∧ b.context.isSome = true

theorem filled_iff {bare : J} {a : Assistant J} : filled bare a = a ↔ a.context.isSome = true := by
  obtain ⟨createdBy,context,fields⟩ := a
  cases context <;> simp [filled]

theorem separate_iff {bare : J} {a b : Assistant J} : Separate Assistant.isSystem (filled bare) a b ↔ Skippable a b :=
  imp_congr_right fun _ => and_congr_right fun _ => filled_iff

variable [DecidableEq J]

theorem dropSystem_exact (bare : J) (all : List (Assistant J)) : dropSystem bare all = cleaned bare all ↔ all.IsChain Skippable := by
  have loop := removeSystem_exact (filled_fills bare) all [] (by simp)
  have chains : all.IsChain (Separate Assistant.isSystem (filled bare)) ↔ all.IsChain Skippable :=
    ⟨fun chain => chain.imp fun _ _ => separate_iff.mp,fun chain => chain.imp fun _ _ => separate_iff.mpr⟩
  exact loop.trans chains

-- The configuration of the Store is another matter than the assistants.
theorem start_assistants (settings : Settings J) (disk : List (Write (Content J))) :
    assistants (startPool settings (imported disk)) = dropSystem settings.bare (persisted disk) := by
  have ready := imported_ready settings disk
  have configured := configure_steady settings ready.toSteady ready.fresh
  obtain ⟨s',spares,marked,started⟩ : ∃ s' : Process J, Spares (imported disk).registry s'.registry storeFiles ∧ Marked s'.registry ∧
      startPool settings (imported disk) = {s' with registry := enrolled settings s'.registry} :=
    ⟨_,configured.1,configured.2.1,startPool_eq settings (imported disk)⟩
  have counted := home_spared spares retry_apart.2.1 ready.counted
  have recorded := home_spared spares ops_apart.2.1 ready.recorded
  have after := enrolled_enrolled settings marked (spares.alive.trans ready.alive) counted recorded
  have loaded : found s'.registry = found (imported disk).registry := by
    unfold found
    rw [spares.file _ ops_apart.2.1,spares.content _ ready.recorded.used (by rw [ready.recorded.name]; exact ops_apart.2.1)]
  unfold assistants persisted
  rw [started,after.records,loaded]
  rfl

theorem startup_drops_system (settings : Settings J) (disk : List (Write (Content J))) :
    assistants (startPool settings (imported disk)) = cleaned settings.bare (persisted disk) ↔ (persisted disk).IsChain Skippable := by
  rw [start_assistants]
  exact dropSystem_exact settings.bare (persisted disk)

end cleanup

-- A file with the assistants of two graphs that the system made, side by side.
def neighbours : List (Write (Content Nat)) :=
  [⟨OPS_FILENAME,1,.records ⟨[],[],[⟨some "system",some 0,1⟩,⟨some "system",some 0,2⟩,⟨some "user",some 0,3⟩],[],[],[]⟩⟩]

theorem neighbour_survives : persisted neighbours = [⟨some "system",some 0,1⟩,⟨some "system",some 0,2⟩,⟨some "user",some 0,3⟩] ∧
    assistants (startPool plain (imported neighbours)) = [⟨some "system",some 0,2⟩,⟨some "user",some 0,3⟩] ∧
    assistants (startPool plain (imported neighbours)) ≠ cleaned 0 (persisted neighbours) := by decide +kernel

end InmemRuntime.StartupCleanup
