import InmemRuntime.Store

namespace InmemRuntime.Serving
open OrderedDict ThreadTtl RuntimeStore

-- The process: `conn.store`, `_THREAD_TTL_MAINTENANCE` and whether `RUN_LOCK`
-- is held.
structure Server (J : Type) where
  store : Store J
  maintenance : List String
  runLock : Bool

-- What the outside supplies when a suspended coroutine goes on: the clock, the
-- answer or exception of what it awaited, the next `uuid4()` and which runs
-- have stream subscribers. A step reads what its code asks for there.
structure Wake (J : Type) where
  now : Int
  clock : Nat → Int
  newId : String
  auth : Except Fault (Filters J)
  failure : Option Fault
  queues : Option String → String → Bool

-- Every handler agrees without filters and nothing fails.
def Wake.quiet {J : Type} (now : Int) : Wake J := ⟨now,fun _ => now,"",.ok none,none,fun _ _ => false⟩

inductive Outcome (τ ρ : Type) where
  | suspended (task : τ)
  | returned (value : ρ)
  | raised (fault : Fault)

variable {J : Type} {τ τ' ρ : Type}

def Server.start (store : Store J) : Server J := ⟨store,[],false⟩

def Server.withStore (s : Server J) (store : Store J) : Server J := {s with store}

@[simp] theorem Server.store_withStore (s : Server J) (store : Store J) : (s.withStore store).store = store := rfl
@[simp] theorem Server.maintenance_withStore (s : Server J) (store : Store J) :
    (s.withStore store).maintenance = s.maintenance := rfl
@[simp] theorem Server.runLock_withStore (s : Server J) (store : Store J) : (s.withStore store).runLock = s.runLock := rfl

-- An awaited cleanup may take its time, and may raise.
def external (w : Wake J) (s : Server J) (go : Server J × Outcome τ ρ) : Server J × Outcome τ ρ :=
  match w.failure with
  | some fault => (s,.raised fault)
  | none => go

-- `await handle_event(...)`, then the code that follows it.
def authorized (w : Wake J) (s : Server J) (go : Filters J → Server J × Outcome τ ρ) : Server J × Outcome τ ρ :=
  match w.auth with
  | .error fault => (s,.raised fault)
  | .ok filters => go filters

-- `_wait_for_thread_ttl_maintenance`: each turn of its loop looks again.
def gated (s : Server J) (threadId : String) (again : τ) (go : Server J × Outcome τ ρ) : Server J × Outcome τ ρ :=
  if s.maintenance.contains threadId then (s,.suspended again) else go

end InmemRuntime.Serving
