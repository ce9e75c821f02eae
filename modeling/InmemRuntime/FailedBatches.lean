import InmemRuntime.ItemStore

namespace InmemRuntime.FailedBatches
open OrderedDict Buckets ItemStore

variable {Q T F V E : Type} (base : Base Q T F V E)

-- A ttl that is no number, no duration or moves past the last `datetime`.
def Unrepresentable (now : Int) (ttl : T) : Prop := ∀ minutes, base.float ttl = .ok minutes → ∃ raised, expiry base now minutes = .error raised

def Carries (r : Readings Q E) (ops : List (Op Q T V)) : Prop :=
  ∃ op, .put op ∈ ops ∧ ∃ ttl, op.ttl = some ttl ∧ Unrepresentable base r.applied ttl

-- The items of a store, and the records of what the puts name.
structure Untouched (puts : Dict ItemKey (PutOp T V)) (s s' : Store F V E) : Prop where
  data : s'.data = s.data
  vectors : s'.vectors = s.vectors
  sizes : s'.sizeTracker = s.sizeTracker
  ttl : ∀ key, puts.contains key = true → s'.ttl.get? key = s.ttl.get? key

structure Restores (s : Store F V E) (r : Readings Q E) (ops : List (Op Q T V)) : Prop where
  raises : ∃ raised, (batch base s r ops).2 = .error raised
  untouched : Untouched (putOps ops) s (batch base s r ops).1

-- `_refresh_ttl` gets through.
def refreshable (s : Store F V E) (now : Int) (key : ItemKey) : Bool :=
  match s.ttl.get? key with
  | none => true
  | some record => (expiry base now record.ttlMinutes).toBool

-- A refresh at that time writes what is there.
def Settled (s : Store F V E) (now : Int) (key : ItemKey) : Prop :=
  ∀ record, s.ttl.get? key = some record → expiry base now record.ttlMinutes = .ok record.expiresAt

section condition
variable (s : Store F V E) (r : Readings Q E) (ops : List (Op Q T V))

def slots : List (Slot Q V E) := ops.map (slot base s)

-- What the gets refresh, and what the searches do.
def getKeys : List ItemKey := (ops.zip (slots base s ops)).filterMap refreshedGet
def searchKeys (queries : Q → Option E) : List ItemKey := (slots base s ops).flatMap (refreshedSearch base queries)

-- The refreshes up to the first that raises.
def refreshed (now : Int) (keys : List ItemKey) : List ItemKey := keys.takeWhile (refreshable base s now)

def GetsPass : Prop := (getKeys base s ops).all (refreshable base s r.prepared) = true

def searchedKeys : List ItemKey :=
  match r.queried with
  | .error _ => []
  | .ok queries => refreshed base s r.searched (searchKeys base s ops queries)

def SearchesPass : Prop :=
  match r.queried with
  | .error _ => (slots base s ops).any Slot.isSearch = false
  | .ok queries => (searchKeys base s ops queries).all (refreshable base s r.searched) = true

-- The put that counts for its key has a value and a ttl that raises.
def Rejected : Prop := ∃ key put, (putOps ops).get? key = some put ∧ put.value.isSome ∧
  ∃ ttl, put.ttl = some ttl ∧ Unrepresentable base r.applied ttl

def Embedded (embedding : ItemKey × String → E) : Prop :=
  ∀ text ∈ texts base (putOps ops), (s.vectors.item? text.1).bind (·.get? text.2) = some (embedding text)

-- Where the puts have text, its embedding is stored already, if one comes.
def WriteHolds : Prop :=
  if (texts base (putOps ops)).isEmpty then Rejected base r ops
  else
    match r.embedded with
    | .error _ => True
    | .ok embedding => Rejected base r ops ∧ Embedded base s ops embedding

-- No record of what the puts name is moved by the last refresh that reaches
-- it, and the puts, if they are come to, are rejected with nothing written.
structure Holds : Prop where
  moved : GetsPass base s r ops → ∀ key ∈ searchedKeys base s r ops, (putOps ops).contains key = true → Settled base s r.searched key
  kept : ∀ key ∈ refreshed base s r.prepared (getKeys base s ops), (putOps ops).contains key = true →
    (GetsPass base s r ops → key ∉ searchedKeys base s r ops) → Settled base s r.prepared key
  write : GetsPass base s r ops → SearchesPass base s r ops → WriteHolds base s r ops

end condition

section refreshes
variable {base} {s s' : Store F V E} {now : Int}

-- `_refresh_ttl` on a record.
def moved (base : Base Q T F V E) (now : Int) (record : TtlRecord F) : TtlRecord F :=
  match expiry base now record.ttlMinutes with
  | .error _ => record
  | .ok expiresAt => ⟨expiresAt,record.ttlMinutes⟩

@[simp] theorem moved_minutes (record : TtlRecord F) : (moved base now record).ttlMinutes = record.ttlMinutes := by
  unfold moved
  split <;> rfl

theorem moved_minutes_all (record : Option (TtlRecord F)) :
    (record.map (moved base now)).map TtlRecord.ttlMinutes = record.map TtlRecord.ttlMinutes := by
  cases record with
  | none => rfl
  | some record => simp

theorem moved_passes {record : TtlRecord F} {expiresAt : Int} (reached : expiry base now record.ttlMinutes = .ok expiresAt) :
    moved base now record = ⟨expiresAt,record.ttlMinutes⟩ := by
  simp [moved,reached]

theorem moved_raises {record : TtlRecord F} {raised : Raised} (fails : expiry base now record.ttlMinutes = .error raised) :
    moved base now record = record := by
  simp [moved,fails]

theorem moved_again {earlier : Int} {record : TtlRecord F} {expiresAt : Int} (reached : expiry base now record.ttlMinutes = .ok expiresAt) :
    moved base now (moved base earlier record) = moved base now record := by
  have minutes : (moved base earlier record).ttlMinutes = record.ttlMinutes := moved_minutes record
  rw [moved_passes reached,moved_passes (by rw [minutes]; exact reached),minutes]

theorem moved_twice : moved base now ∘ moved base now = moved base now := by
  funext record
  cases reached : expiry base now record.ttlMinutes with
  | error raised => rw [Function.comp_apply,moved_raises reached,moved_raises reached]
  | ok expiresAt => exact moved_again reached

theorem refreshTtl_absent {key : ItemKey} (stored : s.ttl.get? key = none) : refreshTtl base s now key = (s,.ok ()) := by
  simp only [refreshTtl,stored]

theorem refreshTtl_raised {key : ItemKey} {record : TtlRecord F} {raised : Raised} (stored : s.ttl.get? key = some record)
    (fails : expiry base now record.ttlMinutes = .error raised) : refreshTtl base s now key = (s,.error raised) := by
  simp only [refreshTtl,stored,fails]

theorem refreshTtl_written {key : ItemKey} {record : TtlRecord F} {expiresAt : Int} (stored : s.ttl.get? key = some record)
    (reached : expiry base now record.ttlMinutes = .ok expiresAt) :
    refreshTtl base s now key = ({s with ttl := s.ttl.insert key ⟨expiresAt,record.ttlMinutes⟩},.ok ()) := by
  simp only [refreshTtl,stored,reached]

theorem refreshTtl_get? (key other : ItemKey) : (refreshTtl base s now key).1.ttl.get? other =
    if key = other then (s.ttl.get? other).map (moved base now) else s.ttl.get? other := by
  cases stored : s.ttl.get? key with
  | none =>
    rw [refreshTtl_absent stored]
    by_cases same : key = other
    · subst same
      simp [stored]
    · simp [same]
  | some record =>
    cases reached : expiry base now record.ttlMinutes with
    | error raised =>
      rw [refreshTtl_raised stored reached]
      by_cases same : key = other
      · subst same
        simp [stored,moved_raises reached]
      · simp [same]
    | ok expiresAt =>
      rw [refreshTtl_written stored reached]
      by_cases same : key = other
      · subst same
        simp [stored,moved_passes reached]
      · simp [same,Dict.get?_insert]

theorem refreshable_eq {key : ItemKey} {record : TtlRecord F} (stored : s.ttl.get? key = some record) :
    refreshable base s now key = (expiry base now record.ttlMinutes).toBool := by
  simp only [refreshable,stored]

theorem refreshTtl_raises {key : ItemKey} (fails : refreshable base s now key = false) :
    ∃ raised, refreshTtl base s now key = (s,.error raised) := by
  cases stored : s.ttl.get? key with
  | none => simp [refreshable,stored] at fails
  | some record =>
    rw [refreshable_eq stored] at fails
    cases reached : expiry base now record.ttlMinutes with
    | error raised => exact ⟨raised,refreshTtl_raised stored reached⟩
    | ok expiresAt => simp [reached,Except.toBool] at fails

theorem refreshTtl_passes {key : ItemKey} (passes : refreshable base s now key = true) : (refreshTtl base s now key).2 = .ok () := by
  cases stored : s.ttl.get? key with
  | none => rw [refreshTtl_absent stored]
  | some record =>
    rw [refreshable_eq stored] at passes
    cases reached : expiry base now record.ttlMinutes with
    | error raised => simp [reached,Except.toBool] at passes
    | ok expiresAt => rw [refreshTtl_written stored reached]

-- The minutes of a record never change, and so not what can be refreshed.
def Alike (s s' : Store F V E) : Prop :=
  ∀ key, (s'.ttl.get? key).map TtlRecord.ttlMinutes = (s.ttl.get? key).map TtlRecord.ttlMinutes

theorem refreshable_alike (alike : Alike s s') : refreshable base s' now = refreshable base s now := by
  funext key
  have minutes := alike key
  unfold refreshable
  cases stored : s.ttl.get? key with
  | none =>
    rw [stored] at minutes
    simp [Option.map_eq_none_iff.mp minutes]
  | some record =>
    rw [stored] at minutes
    obtain ⟨record',stored',same⟩ := Option.map_eq_some_iff.mp minutes
    simp [stored',same]

theorem refreshTtl_alike (key : ItemKey) : Alike s (refreshTtl base s now key).1 := by
  intro other
  rw [refreshTtl_get?]
  split
  · exact moved_minutes_all _
  · rfl

theorem refreshAll_cons (key : ItemKey) (keys : List ItemKey) (passes : refreshable base s now key = true) :
    refreshAll base now s (key :: keys) = refreshAll base now (refreshTtl base s now key).1 keys := by
  rw [refreshAll,andThen,refreshTtl_passes passes]

theorem refreshAll_stops {key : ItemKey} (keys : List ItemKey) (fails : refreshable base s now key = false) :
    ∃ raised, refreshAll base now s (key :: keys) = (s,.error raised) := by
  obtain ⟨raised,stopped⟩ := refreshTtl_raises fails
  exact ⟨raised,by rw [refreshAll,andThen,stopped]⟩

-- A loop over keys refreshes those before the first that raises.
theorem refreshAll_get? (keys : List ItemKey) (other : ItemKey) : (refreshAll base now s keys).1.ttl.get? other =
    if other ∈ refreshed base s now keys then (s.ttl.get? other).map (moved base now) else s.ttl.get? other := by
  induction keys generalizing s with
  | nil => simp [refreshAll,refreshed]
  | cons key keys ih =>
    cases passes : refreshable base s now key with
    | false =>
      obtain ⟨raised,stopped⟩ := refreshAll_stops keys passes
      simp [stopped,refreshed,passes]
    | true =>
      have alike : refreshable base (refreshTtl base s now key).1 now = refreshable base s now := refreshable_alike (refreshTtl_alike key)
      rw [refreshAll_cons key keys passes,ih,refreshTtl_get?]
      unfold refreshed
      rw [alike,List.takeWhile_cons,if_pos passes]
      by_cases same : key = other
      · subst same
        simp [moved_twice]
      · simp [same,Ne.symm same]

theorem refreshAll_passes (keys : List ItemKey) :
    (refreshAll base now s keys).2 = .ok () ↔ keys.all (refreshable base s now) = true := by
  induction keys generalizing s with
  | nil => simp [refreshAll]
  | cons key keys ih =>
    cases passes : refreshable base s now key with
    | false =>
      obtain ⟨raised,stopped⟩ := refreshAll_stops keys passes
      simp [stopped,passes]
    | true =>
      rw [refreshAll_cons key keys passes,ih,refreshable_alike (refreshTtl_alike key),List.all_cons,passes,Bool.true_and]

theorem settled_iff {key : ItemKey} (passes : refreshable base s now key = true) :
    (s.ttl.get? key).map (moved base now) = s.ttl.get? key ↔ Settled base s now key := by
  unfold refreshable at passes
  unfold Settled
  cases stored : s.ttl.get? key with
  | none => simp
  | some record =>
    obtain ⟨expiresAt,minutes⟩ := record
    cases reached : expiry base now minutes with
    | error raised => simp [stored,reached,Except.toBool] at passes
    | ok due => simp [moved,reached]

end refreshes

section phases
variable {base} {s : Store F V E} {r : Readings Q E} {ops : List (Op Q T V)}

theorem outcome_error {α : Type} {outcome : Except Raised α} (fails : ∀ value, outcome ≠ .ok value) : ∃ raised, outcome = .error raised := by
  cases outcome with
  | error raised => exact ⟨raised,rfl⟩
  | ok value => exact absurd rfl (fails value)

-- What a loop over texts stores is found under each of them.
theorem insertVectors_get? (embedding : ItemKey × String → E) (toEmbed : List (ItemKey × String)) (text : ItemKey × String)
    (s : Store F V E) : ((insertVectors embedding s toEmbed).vectors.item? text.1).bind (·.get? text.2) =
      if text ∈ toEmbed then some (embedding text) else (s.vectors.item? text.1).bind (·.get? text.2) := by
  induction toEmbed generalizing s with
  | nil => rfl
  | cons first rest ih =>
    have turn := ih (insertVectors embedding s [first])
    rw [show insertVectors embedding (insertVectors embedding s [first]) rest = insertVectors embedding s (first :: rest) from rfl] at turn
    rw [turn]
    obtain ⟨at_,path⟩ := first
    obtain ⟨at',path'⟩ := text
    by_cases same : at_ = at'
    · subst same
      by_cases hit : path = path'
      · subst hit
        simp [insertVectors,Rows.item?_set]
      · cases stored : s.vectors.item? at_ <;> simp [insertVectors,Rows.item?_set,Dict.get?_insert,hit,Ne.symm hit,stored]
    · simp [insertVectors,Rows.item?_set,same,Ne.symm same]

theorem insertVectors_same {embedding : ItemKey × String → E} {toEmbed : List (ItemKey × String)}
    (stored : ∀ text ∈ toEmbed, (s.vectors.item? text.1).bind (·.get? text.2) = some (embedding text)) :
    insertVectors embedding s toEmbed = s := by
  induction toEmbed with
  | nil => rfl
  | cons first rest ih =>
    obtain ⟨vectors,present,found⟩ := Option.bind_eq_some_iff.mp (stored first List.mem_cons_self)
    have turn : insertVectors embedding s [first] = s := by
      simp [insertVectors,present,Dict.insert_same found,Rows.set_same present]
    have later := ih fun text member => stored text (List.mem_cons_of_mem _ member)
    calc insertVectors embedding s (first :: rest) = insertVectors embedding (insertVectors embedding s [first]) rest := rfl
      _ = s := by rw [turn,later]

theorem mapM_raises {α β : Type} {f : α → Except Raised β} {rows : List α} :
    (∃ raised, rows.mapM f = .error raised) ↔ ∃ row ∈ rows, ∃ raised, f row = .error raised := by
  induction rows with
  | nil => simp [pure,Except.pure]
  | cons row rest ih =>
    cases first : f row with
    | error raised => simp [List.mapM_cons,first,bind,Except.bind]
    | ok value =>
      have later : (∃ raised, (row :: rest).mapM f = .error raised) ↔ ∃ raised, rest.mapM f = .error raised := by
        cases others : rest.mapM f <;> simp [List.mapM_cons,first,others,bind,Except.bind,pure,Except.pure]
      rw [later,ih]
      simp [first]

theorem ttlUpdate_raises {now : Int} {put : ItemKey × PutOp T V} : (∃ raised, ttlUpdate base now put = .error raised) ↔
    put.2.value.isSome ∧ ∃ ttl, put.2.ttl = some ttl ∧ Unrepresentable base now ttl := by
  obtain ⟨key,key',value,ttl⟩ := put
  cases value with
  | none => simp [ttlUpdate,pure,Except.pure]
  | some value =>
    cases ttl with
    | none => simp [ttlUpdate,pure,Except.pure]
    | some ttl =>
      cases number : base.float ttl with
      | error raised => simp [ttlUpdate,Unrepresentable,number,bind,Except.bind]
      | ok minutes =>
        cases reached : expiry base now minutes <;>
          simp [ttlUpdate,Unrepresentable,number,reached,bind,Except.bind,pure,Except.pure]

theorem applyPutOps_raises (s : Store F V E) :
    (∃ raised, (applyPutOps base s r.applied (putOps ops)).2 = .error raised) ↔ Rejected base r ops := by
  have mapped : Rejected base r ops ↔ ∃ raised, (putOps ops).entries.mapM (ttlUpdate base r.applied) = .error raised := by
    rw [mapM_raises]
    constructor
    · intro ⟨key,put,stored,rejected⟩
      exact ⟨(key,put),Dict.mem_iff.mpr stored,ttlUpdate_raises.mpr rejected⟩
    · intro ⟨⟨key,put⟩,member,raises⟩
      exact ⟨key,put,Dict.mem_iff.mp member,ttlUpdate_raises.mp raises⟩
  rw [mapped]
  unfold applyPutOps
  cases (putOps ops).entries.mapM (ttlUpdate base r.applied) <;> simp

theorem applyPutOps_stops {s : Store F V E} {raised : Raised} (raises : (applyPutOps base s r.applied (putOps ops)).2 = .error raised) :
    (applyPutOps base s r.applied (putOps ops)).1 = s := by
  unfold applyPutOps at raises ⊢
  cases mapped : (putOps ops).entries.mapM (ttlUpdate base r.applied) with
  | error _ => rfl
  | ok updates => simp [mapped] at raises

theorem embedded_iff {embedding : ItemKey × String → E} :
    (insertVectors embedding s (texts base (putOps ops))).vectors = s.vectors ↔ Embedded base s ops embedding := by
  constructor
  · intro same text member
    rw [← same,insertVectors_get?,if_pos member]
  · intro stored
    rw [insertVectors_same stored]

-- What is written is at most the embeddings.
theorem write_stops {raised : Raised} (raises : (write base s r (putOps ops)).2 = .error raised) :
    ∃ vectors, (write base s r (putOps ops)).1 = {s with vectors := vectors} := by
  unfold write at raises ⊢
  split
  · rename_i bare
    rw [if_pos bare] at raises
    exact ⟨s.vectors,applyPutOps_stops raises⟩
  · rename_i bare
    rw [if_neg bare] at raises
    cases answer : r.embedded with
    | error _ => exact ⟨s.vectors,rfl⟩
    | ok embedding =>
      rw [answer] at raises
      exact ⟨_,applyPutOps_stops raises⟩

theorem write_holds : ((∃ raised, (write base s r (putOps ops)).2 = .error raised) ∧ (write base s r (putOps ops)).1.vectors = s.vectors) ↔
    WriteHolds base s r ops := by
  unfold write WriteHolds
  split
  · rw [applyPutOps_raises,and_iff_left_iff_imp]
    intro rejected
    obtain ⟨raised,raises⟩ := (applyPutOps_raises s).mpr rejected
    rw [applyPutOps_stops raises]
  · cases answer : r.embedded with
    | error raised => simp
    | ok embedding =>
      dsimp only
      rw [applyPutOps_raises]
      apply and_congr_right
      intro rejected
      obtain ⟨raised,raises⟩ := (applyPutOps_raises (insertVectors embedding s (texts base (putOps ops)))).mpr rejected
      rw [applyPutOps_stops raises]
      exact embedded_iff

theorem no_search (queries : Q → Option E) (none_ : (slots base s ops).any Slot.isSearch = false) : searchKeys base s ops queries = [] := by
  refine List.flatMap_eq_nil_iff.mpr fun slot member => ?_
  have plain := List.any_eq_false.mp none_ slot member
  cases slot with
  | filled result => rfl
  | searching op candidates => exact absurd rfl plain

theorem batchSearch_fst {s' : Store F V E} (now : Int) (queries : Q → Option E) (slots : List (Slot Q V E)) :
    (batchSearch base s' now queries slots).1 = (refreshAll base now s' (slots.flatMap (refreshedSearch base queries))).1 := by
  unfold batchSearch andThen
  split <;> rfl

theorem batchSearch_passes {s' : Store F V E} (now : Int) (queries : Q → Option E) (slots : List (Slot Q V E)) :
    (∃ results, (batchSearch base s' now queries slots).2 = .ok results) ↔
      (refreshAll base now s' (slots.flatMap (refreshedSearch base queries))).2 = .ok () := by
  unfold batchSearch andThen
  split
  · rename_i raised fails
    simp [fails]
  · rename_i done passes
    simp [passes]

-- The searches of a batch refresh what they would have refreshed before the
-- gets did.
theorem search_get? {s' : Store F V E} (alike : Alike s s') (key : ItemKey) :
    (search base s' r (slots base s ops)).1.ttl.get? key =
      if key ∈ searchedKeys base s r ops then (s'.ttl.get? key).map (moved base r.searched) else s'.ttl.get? key := by
  unfold search searchedKeys
  cases searches : (slots base s ops).any Slot.isSearch with
  | false =>
    cases r.queried with
    | error raised => simp
    | ok queries => simp [no_search queries searches,refreshed]
  | true =>
    cases r.queried with
    | error raised => simp
    | ok queries =>
      dsimp only
      rw [if_pos rfl,batchSearch_fst,refreshAll_get?]
      unfold refreshed
      rw [refreshable_alike alike]
      rfl

theorem search_passes {s' : Store F V E} (alike : Alike s s') :
    (∃ results, (search base s' r (slots base s ops)).2 = .ok results) ↔ SearchesPass base s r ops := by
  unfold search SearchesPass
  cases searches : (slots base s ops).any Slot.isSearch with
  | false =>
    cases r.queried with
    | error raised => simp
    | ok queries => simp [no_search queries searches]
  | true =>
    cases r.queried with
    | error raised => simp
    | ok queries =>
      dsimp only
      rw [if_pos rfl,batchSearch_passes,refreshAll_passes,refreshable_alike alike]
      rfl

theorem search_refreshes {s' : Store F V E} : Refreshes s' (search base s' r (slots base s ops)).1 := by
  unfold search
  split
  · split
    · exact .refl
    · rw [batchSearch_fst]
      exact refreshAll_refreshes _
  · exact .refl

-- The store once the gets are refreshed.
def prepared (base : Base Q T F V E) (s : Store F V E) (r : Readings Q E) (ops : List (Op Q T V)) : Store F V E :=
  (refreshAll base r.prepared s (getKeys base s ops)).1

theorem prepared_alike : Alike s (prepared base s r ops) := by
  intro key
  unfold prepared
  rw [refreshAll_get?]
  split
  · exact moved_minutes_all _
  · rfl

theorem prepared_refreshes : Refreshes s (prepared base s r ops) := refreshAll_refreshes _

theorem prepareOps_fst : (prepareOps base s r.prepared ops).1 = prepared base s r ops := by
  unfold prepareOps andThen prepared getKeys slots
  dsimp only
  split <;> rfl

theorem prepareOps_passes : GetsPass base s r ops ↔ (prepareOps base s r.prepared ops).2 = .ok ⟨slots base s ops,putOps ops⟩ := by
  unfold GetsPass
  rw [← refreshAll_passes]
  unfold prepareOps andThen getKeys slots
  dsimp only
  split
  · rename_i raised fails
    simp [fails]
  · rename_i done passes
    simp [passes]

theorem prepareOps_raises (stops : ¬ GetsPass base s r ops) : ∃ raised, (prepareOps base s r.prepared ops).2 = .error raised := by
  have fails : (refreshAll base r.prepared s (getKeys base s ops)).2 ≠ .ok () := fun passes => stops ((refreshAll_passes _).mp passes)
  obtain ⟨raised,raises⟩ := outcome_error fun (_ : Unit) passes => fails passes
  refine ⟨raised,?_⟩
  unfold prepareOps andThen
  dsimp only
  rw [show (refreshAll base r.prepared s ((ops.zip (ops.map (slot base s))).filterMap refreshedGet)).2 = .error raised from raises]

-- The store once the searches are answered too.
def answered (base : Base Q T F V E) (s : Store F V E) (r : Readings Q E) (ops : List (Op Q T V)) : Store F V E :=
  (search base (prepared base s r ops) r (slots base s ops)).1

theorem answered_refreshes : Refreshes s (answered base s r ops) := prepared_refreshes.trans search_refreshes

-- How far a batch gets.
theorem batch_prepares (stops : ¬ GetsPass base s r ops) :
    ∃ raised, batch base s r ops = (prepared base s r ops,.error raised) := by
  obtain ⟨raised,raises⟩ := prepareOps_raises stops
  refine ⟨raised,?_⟩
  unfold batch andThen
  rw [raises,prepareOps_fst]

theorem batch_answers (gets : GetsPass base s r ops) (stops : ¬ SearchesPass base s r ops) :
    ∃ raised, batch base s r ops = (answered base s r ops,.error raised) := by
  have fails : ¬ ∃ results, (search base (prepared base s r ops) r (slots base s ops)).2 = .ok results :=
    fun passes => stops ((search_passes prepared_alike).mp passes)
  obtain ⟨raised,raises⟩ := outcome_error fun results passes => fails ⟨results,passes⟩
  refine ⟨raised,?_⟩
  unfold batch andThen
  rw [prepareOps_passes.mp gets,prepareOps_fst]
  dsimp only
  rw [raises]
  rfl

theorem batch_writes (gets : GetsPass base s r ops) (searches : SearchesPass base s r ops) :
    (batch base s r ops).1 = (write base (answered base s r ops) r (putOps ops)).1 ∧
      ∀ raised, (batch base s r ops).2 = .error raised ↔ (write base (answered base s r ops) r (putOps ops)).2 = .error raised := by
  obtain ⟨results,passes⟩ := (search_passes prepared_alike).mpr searches
  unfold batch andThen
  rw [prepareOps_passes.mp gets,prepareOps_fst]
  dsimp only
  rw [passes]
  dsimp only
  rw [show (search base (prepared base s r ops) r (slots base s ops)).1 = answered base s r ops from rfl]
  cases write base (answered base s r ops) r (putOps ops) with
  | mk s' outcome => cases outcome <;> simp

theorem refreshed_passes {now : Int} {keys : List ItemKey} {key : ItemKey} (member : key ∈ refreshed base s now keys) :
    refreshable base s now key = true :=
  List.all_eq_true.mp List.all_takeWhile key member

theorem searched_passes {key : ItemKey} (member : key ∈ searchedKeys base s r ops) : refreshable base s r.searched key = true := by
  unfold searchedKeys at member
  split at member
  · cases member
  · exact refreshed_passes member

theorem prepared_get? (key : ItemKey) : (prepared base s r ops).ttl.get? key =
    if key ∈ refreshed base s r.prepared (getKeys base s ops) then (s.ttl.get? key).map (moved base r.prepared) else s.ttl.get? key :=
  refreshAll_get? _ key

-- The later refresh of a record is the one that shows.
theorem answered_get? (key : ItemKey) : (answered base s r ops).ttl.get? key =
    if key ∈ searchedKeys base s r ops then (s.ttl.get? key).map (moved base r.searched) else (prepared base s r ops).ttl.get? key := by
  unfold answered
  rw [search_get? prepared_alike]
  split
  · rename_i member
    rw [prepared_get?]
    split
    · have passes := searched_passes member
      cases stored : s.ttl.get? key with
      | none => rfl
      | some record =>
        rw [refreshable_eq stored] at passes
        cases reached : expiry base r.searched record.ttlMinutes with
        | error raised => simp [reached,Except.toBool] at passes
        | ok expiresAt => simp [moved_again reached]
    · rfl
  · rfl

theorem prepared_settles (key : ItemKey) : (prepared base s r ops).ttl.get? key = s.ttl.get? key ↔
    (key ∈ refreshed base s r.prepared (getKeys base s ops) → Settled base s r.prepared key) := by
  rw [prepared_get?]
  split
  · rename_i member
    rw [settled_iff (refreshed_passes member)]
    exact ⟨fun settled _ => settled,fun settled => settled member⟩
  · rename_i absent
    exact ⟨fun _ member => absurd member absent,fun _ => rfl⟩

theorem answered_settles (key : ItemKey) : (answered base s r ops).ttl.get? key = s.ttl.get? key ↔
    (key ∈ searchedKeys base s r ops → Settled base s r.searched key) ∧
      (key ∈ refreshed base s r.prepared (getKeys base s ops) → key ∉ searchedKeys base s r ops → Settled base s r.prepared key) := by
  rw [answered_get?]
  split
  · rename_i member
    rw [settled_iff (searched_passes member)]
    exact ⟨fun settled => ⟨fun _ => settled,fun _ absent => absurd member absent⟩,fun both => both.1 member⟩
  · rename_i absent
    rw [prepared_settles]
    exact ⟨fun settled => ⟨fun member => absurd member absent,fun member _ => settled member⟩,fun both member => both.2 member absent⟩

-- A batch that stops before it comes to the puts has only refreshed records.
theorem stopped_restores {s' : Store F V E} {raised : Raised} (refreshes : Refreshes s s') (stopped : batch base s r ops = (s',.error raised)) :
    Restores base s r ops ↔ ∀ key, (putOps ops).contains key = true → s'.ttl.get? key = s.ttl.get? key := by
  constructor
  · intro restores key named
    have kept := restores.untouched.ttl key named
    rwa [stopped] at kept
  · intro kept
    refine ⟨⟨raised,by rw [stopped]⟩,?_⟩
    rw [stopped]
    exact ⟨refreshes.data,refreshes.vectors,refreshes.sizes,kept⟩

theorem writeHolds_same {s' : Store F V E} (same : s'.vectors = s.vectors) : WriteHolds base s' r ops ↔ WriteHolds base s r ops := by
  unfold WriteHolds Embedded
  rw [same]

-- A batch that gets to the puts has to fail there, before it embeds anything
-- new.
theorem writes_restore (gets : GetsPass base s r ops) (searches : SearchesPass base s r ops) : Restores base s r ops ↔
    (∀ key, (putOps ops).contains key = true → (answered base s r ops).ttl.get? key = s.ttl.get? key) ∧ WriteHolds base s r ops := by
  obtain ⟨store,outcome⟩ := batch_writes gets searches
  have refreshes : Refreshes s (answered base s r ops) := answered_refreshes
  rw [← writeHolds_same refreshes.vectors,← write_holds]
  constructor
  · intro ⟨⟨raised,raises⟩,untouched⟩
    have failed := (outcome raised).mp raises
    obtain ⟨vectors,stopped⟩ := write_stops failed
    rw [store] at untouched
    refine ⟨fun key named => ?_,⟨raised,failed⟩,untouched.vectors.trans refreshes.vectors.symm⟩
    have kept := untouched.ttl key named
    rwa [stopped] at kept
  · intro ⟨kept,⟨raised,failed⟩,same⟩
    obtain ⟨vectors,stopped⟩ := write_stops failed
    refine ⟨⟨raised,(outcome raised).mpr failed⟩,?_⟩
    rw [store]
    refine ⟨?_,same.trans refreshes.vectors,?_,fun key named => ?_⟩
    · rw [stopped]
      exact refreshes.data
    · rw [stopped]
      exact refreshes.sizes
    · rw [stopped]
      exact kept key named

theorem restores_iff : Restores base s r ops ↔ Holds base s r ops := by
  by_cases gets : GetsPass base s r ops
  · have reached : (∀ key, (putOps ops).contains key = true → (answered base s r ops).ttl.get? key = s.ttl.get? key) ∧
        (SearchesPass base s r ops → WriteHolds base s r ops) ↔ Holds base s r ops := by
      constructor
      · intro ⟨kept,write⟩
        have settled := fun key named => (answered_settles key).mp (kept key named)
        exact ⟨fun _ key member named => (settled key named).1 member,
          fun key member named absent => (settled key named).2 member (absent gets),fun _ => write⟩
      · intro ⟨moved,kept,write⟩
        refine ⟨fun key named => (answered_settles key).mpr ⟨fun member => moved gets key member named,?_⟩,write gets⟩
        exact fun member absent => kept key member named fun _ => absent
    rw [← reached]
    by_cases searches : SearchesPass base s r ops
    · rw [writes_restore gets searches]
      simp [searches]
    · obtain ⟨raised,stopped⟩ := batch_answers gets searches
      rw [stopped_restores answered_refreshes stopped]
      simp [searches]
  · obtain ⟨raised,stopped⟩ := batch_prepares gets
    rw [stopped_restores prepared_refreshes stopped]
    constructor
    · intro kept
      exact ⟨fun pass => absurd pass gets,fun key member named _ => (prepared_settles key).mp (kept key named) member,
        fun pass => absurd pass gets⟩
    · intro ⟨_,kept,_⟩ key named
      exact (prepared_settles key).mpr fun member => kept key member named fun pass => absurd pass gets

theorem failed_batch_restores (base : Base Q T F V E) (s : Store F V E) (r : Readings Q E) (ops : List (Op Q T V)) :
    (Carries base r ops → Restores base s r ops) ↔ (Carries base r ops → Holds base s r ops) :=
  imp_congr_right fun _ => restores_iff

end phases

-- A put of "value" with the ttl `nan`, whose text is embedded as 7.
section toy

def toyBase : Base Unit (Option Int) (Option Int) String Nat where
  float := .ok
  timedelta
    | none => .error .valueError
    | some minutes => .ok (minutes * 60000000)
  accepts _ _ _ := true
  pick _ _ candidates := candidates.map Prod.fst
  listing _ names := names
  paths _ := ["$"]
  estimate _ _ _ := 1

def toyStore : Store (Option Int) String Nat := start toyBase .empty .empty .empty

def toyReadings : Readings Unit Nat := ⟨0,0,0,.ok fun _ => none,.ok fun _ => 7⟩

def toyKey : ItemKey := (["memories"],"item")

def toyOps : List (Op Unit (Option Int) String) := [.put ⟨toyKey,some "value",some none⟩]

-- The batch raises with the embedding stored and no item.
theorem embedding_stays : Carries toyBase toyReadings toyOps ∧
    ((batch toyBase toyStore toyReadings toyOps).1.vectors.item? toyKey).isSome = true ∧
    (batch toyBase toyStore toyReadings toyOps).1.data.item? toyKey = none ∧ ¬ Restores toyBase toyStore toyReadings toyOps := by
  refine ⟨⟨_,List.mem_singleton_self _,_,rfl,fun minutes number => ?_⟩,by decide,by decide,fun restores => ?_⟩
  · cases number
    exact ⟨.valueError,rfl⟩
  · have same := congrArg (fun vectors => (Rows.item? vectors toyKey).isSome) restores.untouched.vectors
    exact absurd same (by decide)

end toy
end InmemRuntime.FailedBatches
