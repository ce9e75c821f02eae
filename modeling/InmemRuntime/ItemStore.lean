import InmemRuntime.Buckets
import InmemRuntime.Outcomes

namespace InmemRuntime.ItemStore
open OrderedDict Buckets

abbrev Namespace := List String

-- Items are found under `(namespace, key)`.
abbrev ItemKey := Namespace × String

-- What `float` and `datetime` raise.
inductive Raised where
  | typeError
  | valueError
  | overflowError
deriving DecidableEq

-- `Q` describes a search or a listing, `T` what a caller gives as a ttl and `F`
-- the number it is turned into; `V` is a value and `E` an embedding.
variable {Q T F V E : Type}

structure GetOp where
  key : ItemKey
  refreshTtl : Bool

structure SearchOp (Q : Type) where
  query : Q
  refreshTtl : Bool

-- A put without a value deletes.
structure PutOp (T V : Type) where
  key : ItemKey
  value : Option V
  ttl : Option T

inductive Op (Q T V : Type) where
  | get (op : GetOp)
  | search (op : SearchOp Q)
  | put (op : PutOp T V)
  | listNamespaces (query : Q)

-- The code outside the repository that a batch runs. `timedelta` gives
-- microseconds, `paths` where a put has text to embed and `pick` what a search
-- answers out of its candidates, given the embedding of what it looks for.
structure Base (Q T F V E : Type) where
  float : T → Except Raised F
  timedelta : F → Except Raised Int
  accepts : Q → ItemKey → V → Bool
  pick : Q → Option E → List ((ItemKey × V) × Option (Dict String E)) → List (ItemKey × V)
  listing : Q → List Namespace → List Namespace
  paths : PutOp T V → List String
  estimate : ItemKey → Option V → Option (Dict String E) → Int

structure TtlRecord (F : Type) where
  expiresAt : Int
  ttlMinutes : F

-- `SizeTracker`.
structure SizeTracker where
  entries : Dict ItemKey Int
  totalBytes : Int

namespace SizeTracker

def clear : SizeTracker := ⟨.empty,0⟩

def setSize (t : SizeTracker) (entry : ItemKey) (sizeBytes : Int) : SizeTracker :=
  let sizeBytes := max 0 sizeBytes
  let oldSize := (t.entries.get? entry).getD 0
  ⟨t.entries.insert entry sizeBytes,t.totalBytes + (sizeBytes - oldSize)⟩

def remove (t : SizeTracker) (entry : ItemKey) : SizeTracker × Int :=
  let sizeBytes := (t.entries.get? entry).getD 0
  (⟨t.entries.erase entry,t.totalBytes - sizeBytes⟩,sizeBytes)

end SizeTracker

structure SweepStats where
  deletedItems : Nat
  deletedSizeBytes : Int
  totalBeforeBytes : Int

structure Store (F V E : Type) where
  data : Rows Namespace String V
  vectors : Rows Namespace String (Dict String E)
  ttl : Dict ItemKey (TtlRecord F)
  sizeTracker : SizeTracker
  lastTtlSweepStats : SweepStats

def Store.live (s : Store F V E) (key : ItemKey) : Prop := (s.data.item? key).isSome

-- What raises leaves what it has done so far.
def andThen {σ α β : Type} (done : σ × Except Raised α) (next : σ → α → σ × Except Raised β) : σ × Except Raised β :=
  match done.2 with
  | .error raised => (done.1,.error raised)
  | .ok value => next done.1 value

variable (base : Base Q T F V E)

-- `now + timedelta(minutes=ttl_minutes)`, in microseconds from the first
-- instant that a `datetime` can hold to the last.
def expiry (now : Int) (ttlMinutes : F) : Except Raised Int := do
  let duration ← base.timedelta ttlMinutes
  if 0 ≤ now + duration ∧ now + duration ≤ 315537897599999999 then return now + duration
  else throw .overflowError

def trackItemSize (s : Store F V E) (key : ItemKey) : Store F V E :=
  match s.data.item? key with
  | none => {s with sizeTracker := (s.sizeTracker.remove key).1}
  | some item =>
    {s with sizeTracker := s.sizeTracker.setSize key (base.estimate key (some item) (s.vectors.item? key))}

def dropOrphanedTtlRecords (s : Store F V E) : Store F V E :=
  {s with ttl := s.ttl.filter fun key _ => (s.data.item? key).isSome}

def rebuildSizeTracking (s : Store F V E) : Store F V E :=
  (s.data.items.map Prod.fst).foldl (trackItemSize base) {s with sizeTracker := .clear}

-- `__init__`, from what was loaded of the three files.
def start (data : Rows Namespace String V) (vectors : Rows Namespace String (Dict String E))
    (ttl : Dict ItemKey (TtlRecord F)) : Store F V E :=
  let s := rebuildSizeTracking base (dropOrphanedTtlRecords ⟨data,vectors,ttl,.clear,⟨0,0,0⟩⟩)
  {s with lastTtlSweepStats := ⟨0,0,s.sizeTracker.totalBytes⟩}

def refreshTtl (s : Store F V E) (now : Int) (key : ItemKey) : Store F V E × Except Raised Unit :=
  match s.ttl.get? key with
  | none => (s,.ok ())
  | some record =>
    match expiry base now record.ttlMinutes with
    | .error raised => (s,.error raised)
    | .ok expiresAt => ({s with ttl := s.ttl.insert key ⟨expiresAt,record.ttlMinutes⟩},.ok ())

def refreshAll (now : Int) : Store F V E → List ItemKey → Store F V E × Except Raised Unit
  | s,[] => (s,.ok ())
  | s,key :: keys => andThen (refreshTtl base s now key) fun s _ => refreshAll now s keys

inductive Result (V : Type) where
  | nothing
  | item (item : Option V)
  | found (items : List (ItemKey × V))
  | namespaces (names : List Namespace)

-- A position of `results`: filled, or kept for a search whose candidates are
-- chosen already.
inductive Slot (Q V E : Type) where
  | filled (result : Result V)
  | searching (op : SearchOp Q) (candidates : List ((ItemKey × V) × Option (Dict String E)))

def candidates (s : Store F V E) (query : Q) : List ((ItemKey × V) × Option (Dict String E)) :=
  (s.data.items.filter fun item => base.accepts query item.1 item.2).map fun item => (item,s.vectors.item? item.1)

def slot (s : Store F V E) : Op Q T V → Slot Q V E
  | .get op => .filled (.item (s.data.item? op.key))
  | .search op => .searching op (candidates base s op.query)
  | .put _ => .filled .nothing
  | .listNamespaces query => .filled (.namespaces (base.listing query s.data.keys))

-- The last put for a key wins.
def putOps (ops : List (Op Q T V)) : Dict ItemKey (PutOp T V) :=
  ops.foldl (fun puts op => match op with
    | .put op => puts.insert op.key op
    | _ => puts) .empty

def refreshedGet : Op Q T V × Slot Q V E → Option ItemKey
  | (.get op,.filled (.item (some _))) => if op.refreshTtl then some op.key else none
  | _ => none

structure Prepared (Q T V E : Type) where
  slots : List (Slot Q V E)
  putOps : Dict ItemKey (PutOp T V)

def prepareOps (s : Store F V E) (now : Int) (ops : List (Op Q T V)) :
    Store F V E × Except Raised (Prepared Q T V E) :=
  let slots := ops.map (slot base s)
  andThen (refreshAll base now s ((ops.zip slots).filterMap refreshedGet)) fun s _ => (s,.ok ⟨slots,putOps ops⟩)

def Slot.isSearch : Slot Q V E → Bool
  | .filled _ => false
  | .searching _ _ => true

def fill (queries : Q → Option E) : Slot Q V E → Result V
  | .filled result => result
  | .searching op candidates => .found (base.pick op.query (queries op.query) candidates)

def refreshedSearch (queries : Q → Option E) : Slot Q V E → List ItemKey
  | .filled _ => []
  | .searching op candidates =>
    if op.refreshTtl then (base.pick op.query (queries op.query) candidates).map Prod.fst else []

def batchSearch (s : Store F V E) (now : Int) (queries : Q → Option E) (slots : List (Slot Q V E)) :
    Store F V E × Except Raised (List (Result V)) :=
  andThen (refreshAll base now s (slots.flatMap (refreshedSearch base queries))) fun s _ =>
    (s,.ok (slots.map (fill base queries)))

-- `_extract_texts`: where the puts that carry a value have text to embed.
def texts (puts : Dict ItemKey (PutOp T V)) : List (ItemKey × String) :=
  (puts.entries.filter fun put => put.2.value.isSome).flatMap fun put => (base.paths put.2).map fun path => (put.1,path)

-- `_insertinmem_store`, with the embedding that was computed for each text.
def insertVectors (embedded : ItemKey × String → E) (s : Store F V E) (toEmbed : List (ItemKey × String)) : Store F V E :=
  {s with vectors := toEmbed.foldl (fun vectors text =>
    vectors.set text.1 (((vectors.item? text.1).getD .empty).insert text.2 (embedded text))) s.vectors}

def ttlUpdate (now : Int) (put : ItemKey × PutOp T V) : Except Raised (ItemKey × Option (TtlRecord F)) :=
  match put.2.value,put.2.ttl with
  | some _,some ttl => do
    let ttlMinutes ← base.float ttl
    let expiresAt ← expiry base now ttlMinutes
    return (put.1,some ⟨expiresAt,ttlMinutes⟩)
  | _,_ => return (put.1,none)

-- `InMemoryStore._apply_put_ops`.
def writeItem (s : Store F V E) (put : ItemKey × PutOp T V) : Store F V E :=
  match put.2.value with
  | none => {s with data := s.data.pop put.1, vectors := s.vectors.pop put.1}
  | some value => {s with data := s.data.set put.1 value}

def writeTtl (s : Store F V E) (update : ItemKey × Option (TtlRecord F)) : Store F V E :=
  match update.2 with
  | none => {s with ttl := s.ttl.erase update.1}
  | some record => {s with ttl := s.ttl.insert update.1 record}

def dropEmptyBuckets (s : Store F V E) (name : Namespace) : Store F V E :=
  {s with data := s.data.dropEmpty name, vectors := s.vectors.dropEmpty name}

-- Every ttl is validated before anything is written.
def applyPutOps (s : Store F V E) (now : Int) (puts : Dict ItemKey (PutOp T V)) : Store F V E × Except Raised Unit :=
  match puts.entries.mapM (ttlUpdate base now) with
  | .error raised => (s,.error raised)
  | .ok updates =>
    let s := puts.entries.foldl writeItem s
    let s := updates.foldl writeTtl s
    let s := puts.keys.foldl (trackItemSize base) s
    ((puts.keys.map Prod.fst).foldl dropEmptyBuckets s,.ok ())

-- The clock as it is read while the gets, the searches and the puts are
-- worked off, and what the embedding service answers on the way.
structure Readings (Q E : Type) where
  prepared : Int
  searched : Int
  applied : Int
  queried : Except Raised (Q → Option E)
  embedded : Except Raised (ItemKey × String → E)

-- `if search_ops:` and what it guards.
def search (s : Store F V E) (r : Readings Q E) (slots : List (Slot Q V E)) : Store F V E × Except Raised (List (Result V)) :=
  if slots.any Slot.isSearch then
    match r.queried with
    | .error raised => (s,.error raised)
    | .ok queries => batchSearch base s r.searched queries slots
  else (s,.ok (slots.map (fill base fun _ => none)))

def write (s : Store F V E) (r : Readings Q E) (puts : Dict ItemKey (PutOp T V)) : Store F V E × Except Raised Unit :=
  if (texts base puts).isEmpty then applyPutOps base s r.applied puts
  else
    match r.embedded with
    | .error raised => (s,.error raised)
    | .ok embedded => applyPutOps base (insertVectors embedded s (texts base puts)) r.applied puts

def batch (s : Store F V E) (r : Readings Q E) (ops : List (Op Q T V)) : Store F V E × Except Raised (List (Result V)) :=
  andThen (prepareOps base s r.prepared ops) fun s prepared =>
    andThen (search base s r prepared.slots) fun s results =>
      andThen (write base s r prepared.putOps) fun s _ => (s,.ok results)

structure Swept (F V E : Type) where
  store : Store F V E
  deleted : Nat
  deletedSize : Int

def sweepItem (swept : Swept F V E) (key : ItemKey) : Swept F V E :=
  let s := swept.store
  let removed := s.sizeTracker.remove key
  let present := (s.data.item? key).isSome
  ⟨{s with
      data := if present then s.data.pop key else s.data
      vectors := if (s.vectors.get? key.1).isSome then s.vectors.pop key else s.vectors
      sizeTracker := removed.1
      ttl := s.ttl.erase key},
    if present then swept.deleted + 1 else swept.deleted,
    if present then swept.deletedSize + removed.2 else swept.deletedSize⟩

-- `sweep_ttl` once it holds the lock.
def sweepTtl (s : Store F V E) (now : Int) : Store F V E × Nat :=
  let expired := (s.ttl.filter fun _ record => record.expiresAt ≤ now).keys
  let swept := expired.foldl sweepItem ⟨s,0,0⟩
  let cleaned := (expired.map Prod.fst).foldl dropEmptyBuckets swept.store
  ({cleaned with lastTtlSweepStats := ⟨swept.deleted,swept.deletedSize,s.sizeTracker.totalBytes⟩},swept.deleted)

section effects
variable {base} {s : Store F V E} {now : Int}

theorem andThen_ok {σ α β : Type} {done : σ × Except Raised α} {next : σ → α → σ × Except Raised β} {last : σ} {b : β}
    (ran : andThen done next = (last,.ok b)) : ∃ a, done.2 = .ok a ∧ next done.1 a = (last,.ok b) := by
  obtain ⟨s,outcome⟩ := done
  cases outcome with
  | error raised => simp [andThen] at ran
  | ok a => exact ⟨a,rfl,ran⟩

theorem expiry_ok {minutes : F} {expiresAt : Int} (reached : expiry base now minutes = .ok expiresAt) :
    ∃ duration, base.timedelta minutes = .ok duration ∧ expiresAt = now + duration := by
  unfold expiry at reached
  cases known : base.timedelta minutes with
  | error raised => simp [known,bind,Except.bind] at reached
  | ok duration =>
    simp only [known,bind,Except.bind] at reached
    split at reached
    · exact ⟨duration,rfl,(Except.ok.inj reached).symm⟩
    · cases reached

-- A refresh moves the time at which a record expires, and nothing else.
structure Refreshes (s s' : Store F V E) : Prop where
  data : s'.data = s.data
  vectors : s'.vectors = s.vectors
  sizes : s'.sizeTracker = s.sizeTracker
  ttl : ∀ key, (s'.ttl.get? key).isSome = (s.ttl.get? key).isSome

theorem Refreshes.refl : Refreshes s s := ⟨rfl,rfl,rfl,fun _ => rfl⟩

theorem Refreshes.trans {s' s'' : Store F V E} (first : Refreshes s s') (second : Refreshes s' s'') : Refreshes s s'' :=
  ⟨second.data.trans first.data,second.vectors.trans first.vectors,second.sizes.trans first.sizes,
    fun key => (second.ttl key).trans (first.ttl key)⟩

theorem refreshTtl_refreshes (key : ItemKey) : Refreshes s (refreshTtl base s now key).1 := by
  unfold refreshTtl
  split
  · exact .refl
  · rename_i record found
    split
    · exact .refl
    · refine ⟨rfl,rfl,rfl,fun other => ?_⟩
      by_cases same : key = other
      · subst same
        simp [found]
      · rw [Dict.get?_insert_other (by simpa using same)]

theorem refreshAll_refreshes (keys : List ItemKey) : Refreshes s (refreshAll base now s keys).1 := by
  induction keys generalizing s with
  | nil => exact .refl
  | cons key keys ih =>
    unfold refreshAll andThen
    split
    · exact refreshTtl_refreshes key
    · exact (refreshTtl_refreshes key).trans ih

theorem prepareOps_ok {ops : List (Op Q T V)} {s' : Store F V E} {prepared : Prepared Q T V E}
    (ran : prepareOps base s now ops = (s',.ok prepared)) : prepared = ⟨ops.map (slot base s),putOps ops⟩ ∧
      refreshAll base now s ((ops.zip (ops.map (slot base s))).filterMap refreshedGet) = (s',.ok ()) := by
  unfold prepareOps at ran
  obtain ⟨⟨⟩,done,rest⟩ := andThen_ok ran
  obtain ⟨rfl,same⟩ := Prod.mk.inj rest
  exact ⟨(Except.ok.inj same).symm,Prod.ext rfl done⟩

-- Without a search there is nothing that a search refreshes.
theorem search_ok {r : Readings Q E} {slots : List (Slot Q V E)} {s' : Store F V E} {results : List (Result V)}
    (ran : search base s r slots = (s',.ok results)) : ∃ queries, results = slots.map (fill base queries) ∧
      refreshAll base r.searched s (slots.flatMap (refreshedSearch base queries)) = (s',.ok ()) := by
  unfold search at ran
  split at ran
  · split at ran
    · cases ran
    · rename_i queries _
      obtain ⟨⟨⟩,done,rest⟩ := andThen_ok ran
      obtain ⟨rfl,same⟩ := Prod.mk.inj rest
      exact ⟨queries,(Except.ok.inj same).symm,Prod.ext rfl done⟩
  · rename_i searchless
    have nothing : slots.flatMap (refreshedSearch base fun _ => none) = [] := by
      refine List.flatMap_eq_nil_iff.mpr fun slot member => ?_
      cases slot with
      | filled result => rfl
      | searching op candidates => exact absurd (List.any_eq_true.mpr ⟨_,member,rfl⟩) searchless
    obtain ⟨rfl,same⟩ := Prod.mk.inj ran
    exact ⟨fun _ => none,(Except.ok.inj same).symm,by rw [nothing]; rfl⟩

-- Vectors go in for items that a put is about to store.
structure Embeds (puts : Dict ItemKey (PutOp T V)) (s s' : Store F V E) : Prop where
  data : s'.data = s.data
  ttl : s'.ttl = s.ttl
  sizes : s'.sizeTracker = s.sizeTracker
  vectors : ∀ key, (s'.vectors.item? key).isSome → (s.vectors.item? key).isSome ∨ ∃ put, puts.get? key = some put ∧ put.value.isSome

theorem texts_valued {puts : Dict ItemKey (PutOp T V)} {text : ItemKey × String} (member : text ∈ texts base puts) :
    ∃ put, puts.get? text.1 = some put ∧ put.value.isSome := by
  obtain ⟨⟨key,put⟩,kept,path⟩ := List.mem_flatMap.mp member
  obtain ⟨row,valued⟩ := List.mem_filter.mp kept
  obtain ⟨_,_,rfl⟩ := List.mem_map.mp path
  exact ⟨put,Dict.mem_iff.mp row,valued⟩

theorem insertVectors_embeds {puts : Dict ItemKey (PutOp T V)} (embedded : ItemKey × String → E) :
    Embeds puts s (insertVectors embedded s (texts base puts)) := by
  refine ⟨rfl,rfl,rfl,fun key present => ?_⟩
  by_cases named : key ∈ (texts base puts).map Prod.fst
  · obtain ⟨text,member,rfl⟩ := List.mem_map.mp named
    exact .inr (texts_valued member)
  · left
    have same : (insertVectors embedded s (texts base puts)).vectors.item? key = s.vectors.item? key :=
      loop_other (fun vectors key => Rows.item? vectors key) (fun vectors text key apart => by simp [Rows.item?_set,apart])
        (fun text member same => named (List.mem_map.mpr ⟨text,member,same⟩)) s.vectors
    exact same ▸ present

theorem write_ok {r : Readings Q E} {puts : Dict ItemKey (PutOp T V)} {s' : Store F V E} (ran : write base s r puts = (s',.ok ())) :
    ∃ embedded, Embeds puts s embedded ∧ applyPutOps base embedded r.applied puts = (s',.ok ()) := by
  unfold write at ran
  split at ran
  · exact ⟨s,⟨rfl,rfl,rfl,fun _ => .inl⟩,ran⟩
  · split at ran
    · cases ran
    · rename_i embedded _
      exact ⟨_,insertVectors_embeds embedded,ran⟩

@[simp] theorem trackItemSize_data (s : Store F V E) (key : ItemKey) : (trackItemSize base s key).data = s.data := by
  unfold trackItemSize
  split <;> rfl

@[simp] theorem trackItemSize_vectors (s : Store F V E) (key : ItemKey) : (trackItemSize base s key).vectors = s.vectors := by
  unfold trackItemSize
  split <;> rfl

@[simp] theorem trackItemSize_ttl (s : Store F V E) (key : ItemKey) : (trackItemSize base s key).ttl = s.ttl := by
  unfold trackItemSize
  split <;> rfl

@[simp] theorem writeItem_ttl (s : Store F V E) (put : ItemKey × PutOp T V) : (writeItem s put).ttl = s.ttl := by
  unfold writeItem
  split <;> rfl

@[simp] theorem writeItem_sizes (s : Store F V E) (put : ItemKey × PutOp T V) : (writeItem s put).sizeTracker = s.sizeTracker := by
  unfold writeItem
  split <;> rfl

@[simp] theorem writeTtl_data (s : Store F V E) (update : ItemKey × Option (TtlRecord F)) : (writeTtl s update).data = s.data := by
  unfold writeTtl
  split <;> rfl

@[simp] theorem writeTtl_vectors (s : Store F V E) (update : ItemKey × Option (TtlRecord F)) : (writeTtl s update).vectors = s.vectors := by
  unfold writeTtl
  split <;> rfl

@[simp] theorem writeTtl_sizes (s : Store F V E) (update : ItemKey × Option (TtlRecord F)) :
    (writeTtl s update).sizeTracker = s.sizeTracker := by
  unfold writeTtl
  split <;> rfl

theorem writeItem_item (s : Store F V E) (put : ItemKey × PutOp T V) (key : ItemKey) :
    (writeItem s put).data.item? key = if put.1 == key then put.2.value else s.data.item? key := by
  unfold writeItem
  split
  · rename_i deletes
    rw [Rows.item?_pop,deletes]
  · rename_i value valued
    rw [Rows.item?_set,valued]

theorem writeItem_vectors (s : Store F V E) (put : ItemKey × PutOp T V) (key : ItemKey) :
    (writeItem s put).vectors.item? key = if put.1 == key && put.2.value.isNone then none else s.vectors.item? key := by
  unfold writeItem
  split
  · rename_i deletes
    simp [Rows.item?_pop,deletes]
  · rename_i value valued
    simp [valued]

theorem writeTtl_ttl (s : Store F V E) (update : ItemKey × Option (TtlRecord F)) (key : ItemKey) :
    (writeTtl s update).ttl.get? key = if update.1 == key then update.2 else s.ttl.get? key := by
  unfold writeTtl
  split
  · rename_i removes
    rw [Dict.get?_erase,removes]
  · rename_i record stores
    rw [Dict.get?_insert,stores]

-- What the puts that are applied leave behind.
structure Written (base : Base Q T F V E) (now : Int) (puts : Dict ItemKey (PutOp T V)) (s s' : Store F V E) : Prop where
  data : ∀ key, s'.data.item? key = match puts.get? key with
    | none => s.data.item? key
    | some put => put.value
  vectors : ∀ key, s'.vectors.item? key = if (puts.get? key).any (·.value.isNone) then none else s.vectors.item? key
  ttl : ∀ key, match puts.get? key with
    | none => s'.ttl.get? key = s.ttl.get? key
    | some put => ttlUpdate base now (key,put) = .ok (key,s'.ttl.get? key)

theorem ttlUpdate_key {put : ItemKey × PutOp T V} {update : ItemKey × Option (TtlRecord F)} (updated : ttlUpdate base now put = .ok update) :
    update.1 = put.1 := by
  unfold ttlUpdate at updated
  split at updated
  · rename_i ttl _ _
    cases number : base.float ttl with
    | error raised => simp [number,bind,Except.bind] at updated
    | ok minutes =>
      cases reached : expiry base now minutes with
      | error raised => simp [number,reached,bind,Except.bind] at updated
      | ok expiresAt =>
        simp only [number,reached,bind,Except.bind,pure,Except.pure] at updated
        cases updated
        rfl
  · cases updated
    rfl

theorem updates_named {rows : List (ItemKey × PutOp T V)} {updates : List (ItemKey × Option (TtlRecord F))}
    (each : List.Forall₂ (fun put update => ttlUpdate base now put = .ok update) rows updates) :
    updates.map Prod.fst = rows.map Prod.fst := by
  induction each with
  | nil => rfl
  | cons first _ ih => rw [List.map_cons,List.map_cons,ttlUpdate_key first,ih]

theorem updates_row {rows : List (ItemKey × PutOp T V)} {updates : List (ItemKey × Option (TtlRecord F))}
    (each : List.Forall₂ (fun put update => ttlUpdate base now put = .ok update) rows updates)
    {put : ItemKey × PutOp T V} (member : put ∈ rows) : ∃ update ∈ updates, ttlUpdate base now put = .ok update := by
  induction each with
  | nil => cases member
  | cons first _ ih =>
    rcases List.mem_cons.mp member with rfl | later
    · exact ⟨_,List.mem_cons_self,first⟩
    · obtain ⟨update,among,updated⟩ := ih later
      exact ⟨update,List.mem_cons_of_mem _ among,updated⟩

section passes
variable {puts : Dict ItemKey (PutOp T V)}

theorem absent_rows {key : ItemKey} (absent : puts.get? key = none) : ∀ put ∈ puts.entries, put.1 ≠ key :=
  fun put member => by simpa using Dict.get?_none_iff.mp absent put member

theorem writeItems_data (s : Store F V E) (key : ItemKey) :
    (puts.entries.foldl writeItem s).data.item? key = match puts.get? key with
      | none => s.data.item? key
      | some put => put.value := by
  have other : ∀ (s : Store F V E) (put : ItemKey × PutOp T V) key, put.1 ≠ key →
      (writeItem s put).data.item? key = s.data.item? key := by
    intro s put key apart
    simp [writeItem_item,apart]
  cases stored : puts.get? key with
  | none => exact loop_other (fun s key => s.data.item? key) other (absent_rows stored) s
  | some put =>
    have own := loop_own (fun (s : Store F V E) key => s.data.item? key) (fun put : ItemKey × PutOp T V => put.2.value)
      (fun s put => by simp [writeItem_item]) other puts.keys_nodup (Dict.mem_iff.mpr stored) s
    exact own

theorem writeItems_vectors (s : Store F V E) (key : ItemKey) : (puts.entries.foldl writeItem s).vectors.item? key =
    if (puts.get? key).any (·.value.isNone) then none else s.vectors.item? key := by
  have rows : ∀ (rows : List (ItemKey × PutOp T V)) (s : Store F V E), (rows.foldl writeItem s).vectors.item? key =
      if rows.any fun put => put.1 == key && put.2.value.isNone then none else s.vectors.item? key := by
    intro rows
    induction rows with
    | nil => intro s; rfl
    | cons put rest ih =>
      intro s
      rw [List.foldl_cons,ih,writeItem_vectors,List.any_cons]
      cases put.1 == key && put.2.value.isNone with
      | true => simp
      | false => rw [Bool.false_or]; rfl
  rw [rows]
  congr 1
  cases stored : puts.get? key with
  | none =>
    simp only [Option.any_none,Bool.false_eq_true,eq_iff_iff,iff_false,Bool.not_eq_true,List.any_eq_false]
    intro put member
    simp [absent_rows stored put member]
  | some put =>
    simp only [Option.any_some,eq_iff_iff,List.any_eq_true,Bool.and_eq_true,beq_iff_eq]
    refine ⟨fun ⟨row,member,same,deletes⟩ => ?_,fun deletes => ⟨(key,put),Dict.mem_iff.mpr stored,rfl,deletes⟩⟩
    obtain ⟨name,other⟩ := row
    subst same
    cases stored.symm.trans (Dict.mem_iff.mp member)
    exact deletes

theorem writeTtls_ttl (s : Store F V E) {updates : List (ItemKey × Option (TtlRecord F))}
    (each : List.Forall₂ (fun put update => ttlUpdate base now put = .ok update) puts.entries updates) (key : ItemKey) :
    match puts.get? key with
    | none => (updates.foldl writeTtl s).ttl.get? key = s.ttl.get? key
    | some put => ttlUpdate base now (key,put) = .ok (key,(updates.foldl writeTtl s).ttl.get? key) := by
  have named := updates_named each
  have other : ∀ (s : Store F V E) (update : ItemKey × Option (TtlRecord F)) key, update.1 ≠ key →
      (writeTtl s update).ttl.get? key = s.ttl.get? key := by
    intro s update key apart
    simp [writeTtl_ttl,apart]
  cases stored : puts.get? key with
  | none =>
    refine loop_other (fun s key => s.ttl.get? key) other (fun update member same => ?_) s
    have among : key ∈ puts.entries.map Prod.fst := named ▸ List.mem_map.mpr ⟨update,member,same⟩
    obtain ⟨put,row,at_⟩ := List.mem_map.mp among
    exact absent_rows stored put row at_
  | some put =>
    obtain ⟨update,member,updated⟩ := updates_row each (Dict.mem_iff.mpr stored)
    have own := loop_own (fun (s : Store F V E) key => s.ttl.get? key)
      (fun update : ItemKey × Option (TtlRecord F) => update.2)
      (fun s update => by simp [writeTtl_ttl]) other (named ▸ puts.keys_nodup) member s
    rw [ttlUpdate_key updated] at own
    obtain ⟨key',value⟩ := update
    cases ttlUpdate_key updated
    exact updated.trans (congrArg (fun value => Except.ok (key,value)) own.symm)

end passes

-- Each pass of `_apply_put_ops` writes its own part of the store.
theorem applyPutOps_written {puts : Dict ItemKey (PutOp T V)} {s' : Store F V E}
    (applied : applyPutOps base s now puts = (s',.ok ())) : Written base now puts s s' := by
  unfold applyPutOps at applied
  split at applied
  · cases applied
  · rename_i updates mapped
    obtain ⟨rfl,-⟩ := Prod.mk.inj applied
    have each := Outcomes.mapM_ok.mp mapped
    refine ⟨fun key => ?_,fun key => ?_,fun key => ?_⟩
    · rw [loop_same (fun s : Store F V E => s.data.item? key) (by simp [dropEmptyBuckets]),
        loop_same (fun s : Store F V E => s.data.item? key) (by simp),
        loop_same (fun s : Store F V E => s.data.item? key) (by simp)]
      exact writeItems_data s key
    · rw [loop_same (fun s : Store F V E => s.vectors.item? key) (by simp [dropEmptyBuckets]),
        loop_same (fun s : Store F V E => s.vectors.item? key) (by simp),
        loop_same (fun s : Store F V E => s.vectors.item? key) (by simp)]
      exact writeItems_vectors s key
    · rw [loop_same (fun s : Store F V E => s.ttl.get? key) (by simp [dropEmptyBuckets]),
        loop_same (fun s : Store F V E => s.ttl.get? key) (by simp)]
      have updated := writeTtls_ttl (puts.entries.foldl writeItem s) each key
      rwa [loop_same (fun s : Store F V E => s.ttl.get? key) (by simp) puts.entries] at updated

theorem sweepItem_data (swept : Swept F V E) (gone key : ItemKey) :
    (sweepItem swept gone).store.data.item? key = if gone = key then none else swept.store.data.item? key := by
  unfold sweepItem
  dsimp only
  split
  · simp [Rows.item?_pop]
  · rename_i missing
    by_cases same : gone = key
    · simpa [same] using missing
    · simp [same]

theorem sweepItem_vectors (swept : Swept F V E) (gone key : ItemKey) :
    (sweepItem swept gone).store.vectors.item? key = if gone = key then none else swept.store.vectors.item? key := by
  unfold sweepItem
  dsimp only
  split
  · simp [Rows.item?_pop]
  · rename_i missing
    by_cases same : gone = key
    · subst same
      simp [Rows.item?,Rows.bucket,Option.not_isSome_iff_eq_none.mp missing]
    · simp [same]

theorem sweepItem_ttl (swept : Swept F V E) (gone key : ItemKey) :
    (sweepItem swept gone).store.ttl.get? key = if gone = key then none else swept.store.ttl.get? key := by
  simp [sweepItem,Dict.get?_erase]

-- What is due at a sweep.
def Store.due (s : Store F V E) (now : Int) (key : ItemKey) : Prop := ∃ record, s.ttl.get? key = some record ∧ record.expiresAt ≤ now

instance (s : Store F V E) (now : Int) (key : ItemKey) : Decidable (s.due now key) :=
  decidable_of_iff ((s.ttl.get? key).any (·.expiresAt ≤ now)) (by simp [Store.due,Option.any_eq_true])

theorem mem_expired (s : Store F V E) (now : Int) (key : ItemKey) :
    key ∈ (s.ttl.filter fun _ record => record.expiresAt ≤ now).keys ↔ s.due now key := by
  rw [Dict.mem_keys,Dict.contains_iff]
  simp [Dict.get?_keep,Option.filter_eq_some_iff,Store.due]

structure Sweeps (now : Int) (s s' : Store F V E) : Prop where
  data : ∀ key, s'.data.item? key = if s.due now key then none else s.data.item? key
  vectors : ∀ key, s'.vectors.item? key = if s.due now key then none else s.vectors.item? key
  ttl : ∀ key, s'.ttl.get? key = if s.due now key then none else s.ttl.get? key

theorem sweepTtl_sweeps : Sweeps now s (sweepTtl s now).1 := by
  unfold sweepTtl
  let expired := (s.ttl.filter fun _ record => record.expiresAt ≤ now).keys
  refine ⟨fun key => ?_,fun key => ?_,fun key => ?_⟩
  · rw [loop_same (fun s : Store F V E => s.data.item? key) (by simp [dropEmptyBuckets])]
    simpa only [expired,mem_expired] using loop_erase (fun swept : Swept F V E => swept.store.data.item?) sweepItem_data expired ⟨s,0,0⟩ key
  · rw [loop_same (fun s : Store F V E => s.vectors.item? key) (by simp [dropEmptyBuckets])]
    simpa only [expired,mem_expired] using loop_erase (fun swept : Swept F V E => swept.store.vectors.item?) sweepItem_vectors expired ⟨s,0,0⟩ key
  · rw [loop_same (fun s : Store F V E => s.ttl.get? key) (by simp [dropEmptyBuckets])]
    simpa only [expired,mem_expired] using loop_erase (fun swept : Swept F V E => swept.store.ttl.get?) sweepItem_ttl expired ⟨s,0,0⟩ key

end effects
end InmemRuntime.ItemStore
