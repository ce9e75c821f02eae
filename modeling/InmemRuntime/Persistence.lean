import InmemRuntime.OrderedDict
import InmemRuntime.ObjectHeap
import InmemRuntime.Histories

namespace InmemRuntime.Persistence
open OrderedDict ObjectHeap

-- `owner` is `_PERSISTENCE_OWNER_ATTR`; `none` is unset or `None`.
structure PersistentDict (α : Type) where
  filename : String
  content : α
  owner : Option Bool
deriving DecidableEq,Repr

-- One `sync`: what it wrote, and the dict that wrote.
structure Write (α : Type) where
  filename : String
  writer : Nat
  content : α
deriving DecidableEq,Repr

-- `_stores` refers to the dicts weakly: a collected one is not found. The disk
-- is told by what was written to it, the last write of a file being its content.
structure Registry (α : Type) where
  dicts : Heap (PersistentDict α)
  collected : List Nat
  stores : Dict String Nat
  disk : List (Write α)

-- What `dict.clear` and the `clear` of the dict's own class leave.
structure Clearing (α : Type) where
  bare : α
  clear : α → α

namespace Registry
variable {α : Type}

def live (r : Registry α) (d : Nat) : Bool := d < r.dicts.next && !r.collected.contains d

-- `current_ref() if current_ref is not None else None`.
def current (r : Registry α) (filename : String) : Option Nat := (r.stores.get? filename).filter fun d => !r.collected.contains d

def setOwner (r : Registry α) (d : Nat) (owner : Option Bool) : Registry α :=
  {r with dicts := r.dicts.write d {r.dicts.read d with owner}}

def setContent (r : Registry α) (d : Nat) (content : α) : Registry α :=
  {r with dicts := r.dicts.write d {r.dicts.read d with content}}

def sync (r : Registry α) (d : Nat) : Registry α :=
  {r with disk := r.disk ++ [⟨(r.dicts.read d).filename,d,(r.dicts.read d).content⟩]}

def file (r : Registry α) (filename : String) : Option α :=
  ((r.disk.filter fun write => write.filename = filename).getLast?).map Write.content

def create (r : Registry α) (filename : String) (content : α) : Registry α :=
  {r with dicts := (r.dicts.alloc ⟨filename,content,none⟩).1}

def registerPersistentDict (r : Registry α) (d : Nat) : Registry α :=
  let filename := (r.dicts.read d).filename
  if (r.current filename).any (· ≠ d) then r.setOwner d (some false)
  else {r.setOwner d (some true) with stores := r.stores.insert filename d}

def unregisterPersistentDict (r : Registry α) (d : Nat) : Registry α :=
  let filename := (r.dicts.read d).filename
  if r.current filename = some d then {r with stores := r.stores.erase filename} else r

-- `fails` when the final `sync` raises.
def closePersistentDict (clearing : Clearing α) (r : Registry α) (d : Nat) (fails : Bool) : Registry α :=
  let dict := r.dicts.read d
  if dict.owner = some false then r.setContent d clearing.bare
  else if (r.current dict.filename).any (· ≠ d) then (r.setOwner d (some false)).setContent d clearing.bare
  else if fails then r
  else
    let closed := ((r.sync d).setContent d (clearing.clear dict.content)).setOwner d none
    {closed with stores := r.stores.erase dict.filename}

def flushOne (failing : List Nat) (r : Registry α) (row : String × Nat) : Registry α :=
  if r.stores.get? row.1 ≠ some row.2 then r
  else if r.collected.contains row.2 then {r with stores := r.stores.erase row.1}
  else if failing.contains row.2 then r
  else r.sync row.2

-- `_flush_registered_once`; a dict whose `sync` raises stays for the next time.
def flushRegisteredOnce (r : Registry α) (failing : List Nat) : Registry α := r.stores.entries.foldl (flushOne failing) r

end Registry

inductive Call (α : Type) where
  | create (filename : String) (content : α)
  | mutate (d : Nat) (content : α)
  | register (d : Nat)
  | unregister (d : Nat)
  | close (d : Nat) (fails : Bool)
  | flush (failing : List Nat)
  | collect (d : Nat)
deriving DecidableEq,Repr

-- Nobody can call for a dict that is gone.
def step (clearing : Clearing α) (r : Registry α) : Call α → Registry α
  | .create filename content => r.create filename content
  | .mutate d content => if r.live d then r.setContent d content else r
  | .register d => if r.live d then r.registerPersistentDict d else r
  | .unregister d => if r.live d then r.unregisterPersistentDict d else r
  | .close d fails => if r.live d then r.closePersistentDict clearing d fails else r
  | .flush failing => r.flushRegisteredOnce failing
  | .collect d => {r with collected := d :: r.collected}

abbrev Runs (clearing : Clearing α) : Registry α → List (Registry α × Call α) → Registry α → Prop :=
  Histories.Runs (step clearing)

-- No dict exists yet; what object a fresh reference would name does not matter.
def start (nothing : PersistentDict α) : Registry α := ⟨⟨fun _ => nothing,0⟩,[],.empty,[]⟩

end InmemRuntime.Persistence
