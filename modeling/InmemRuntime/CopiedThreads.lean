import InmemRuntime.CopiedCheckpoints

namespace InmemRuntime.CopiedThreads
open TextReplace JsonString OrderedDict CheckpointData CheckpointSaver ThreadCopy UuidTexts IdReplacement CopiedCheckpoints

-- What the saver holds once `json.loads` has given it back. A surrogate without
-- its partner is no character; what stands for a `str` that has one is `unpaired`.
section reading
variable (unpaired : List Nat → Option String)

def readStr (value : List Nat) : Option String :=
  if value.all fun code => decide code.isValidChar then some (String.ofList (value.map Char.ofNat)) else unpaired value

def readTyped : Decoded → Option Typed
  | .list [.str type,.bytes data] => (readStr unpaired type).map fun type => ⟨type,data⟩
  | _ => none

def readParent : Decoded → Option (Option CheckpointId)
  | .none => some none
  | .str value => (readStr unpaired value).map fun id => some (.text id)
  | _ => none

def readEntry (row : List Nat × Decoded) : Option (CheckpointId × Entry) :=
  match row.2 with
  | .list [checkpoint,metadata,parentId] => do
    let id ← readStr unpaired row.1
    let checkpoint ← readTyped unpaired checkpoint
    let metadata ← readTyped unpaired metadata
    let parentId ← readParent unpaired parentId
    return (.text id,⟨checkpoint,metadata,parentId⟩)
  | _ => none

def readRows {κ ν : Type} [BEq κ] (readRow : List Nat × Decoded → Option (κ × ν)) : Decoded → Option (Dict κ ν)
  | .dict rows => (rows.mapM readRow).map Dict.empty.update
  | _ => none

def readCheckpoints (row : List Nat × Decoded) : Option (String × Checkpoints) := do
  let ns ← readStr unpaired row.1
  let checkpoints ← readRows (readEntry unpaired) row.2
  return (ns,checkpoints)

def readNamespaces : Decoded → Option (Dict String Checkpoints) := readRows (readCheckpoints unpaired)

def readWrite : Decoded → Option Write
  | .list [.str taskId,.str channel,value,.str taskPath] => do
    let taskId ← readStr unpaired taskId
    let channel ← readStr unpaired channel
    let value ← readTyped unpaired value
    let taskPath ← readStr unpaired taskPath
    return ⟨taskId,channel,value,taskPath⟩
  | _ => none

end reading

section copying
variable (unpaired : List Nat → Option String)

-- Nothing comes back where an id is a `UUID`, which JSON has no encoding for.
def copiedNamespaces (newThreadId threadId : UuidText) (namespaces : Dict String Checkpoints) : Option (Dict String Checkpoints) := do
  let data ← storedNamespaces namespaces
  let copied ← (replaceThreadId data newThreadId threadId).toOption
  readNamespaces unpaired copied

def copiedWrite (newThreadId threadId : UuidText) (write : Write) : Option Write := do
  let copied ← (replaceThreadId (storedWrite write) newThreadId threadId).toOption
  readWrite unpaired copied

-- The keys of a group are not sent through JSON.
def copiedGroup (newThreadId threadId : UuidText) (group : WriteGroup) : Option WriteGroup :=
  (group.entries.mapM fun row => (copiedWrite unpaired newThreadId threadId row.2).map (Prod.mk row.1)).map Dict.empty.update

-- The saver's part of `Threads.copy`. Reading the source creates its bucket; the
-- copy is a plain dictionary.
def copyThread (s : Saver) (source target : UuidText) : Option Saver := do
  let namespaces := s.namespaces source.str
  let copied ← copiedNamespaces unpaired target source namespaces.dict
  let groups := s.writes.entries.filter fun row => row.1.threadId == source.str
  let mapped ← groups.mapM fun row =>
    (copiedGroup unpaired target source row.2).map (Prod.mk {row.1 with threadId := target.str})
  let values := s.blobs.entries.filter fun row => row.1.threadId == source.str
  return {
    storage := (s.storage.insert source.str namespaces).insert target.str ⟨copied,false⟩
    writes := s.writes.update mapped
    blobs := s.blobs.update (values.map fun row => ({row.1 with threadId := target.str},row.2))
    sizeState := s.sizeState.copyThread source.str target.str}

def groupsBefore (newThreadId threadId : UuidText) : List (WriteKey × WriteGroup) → List (WriteKey × WriteGroup)
  | [] => []
  | row::rest => match copiedGroup unpaired newThreadId threadId row.2 with
    | some group => ({row.1 with threadId := newThreadId.str},group)::groupsBefore newThreadId threadId rest
    | none => []

-- What an exception leaves. The storage raises before anything is stored; a group
-- of writes raises when the storage and the groups before it are.
def brokenOff (s : Saver) (source target : UuidText) : Saver :=
  let namespaces := s.namespaces source.str
  match copiedNamespaces unpaired target source namespaces.dict with
  | some copied => {s with
    storage := (s.storage.insert source.str namespaces).insert target.str ⟨copied,false⟩
    writes := s.writes.update (groupsBefore unpaired target source (s.writes.entries.filter fun row => row.1.threadId == source.str))}
  | none => s

-- A thread's id is a `UUID`, and so is the one that is drawn for the copy.
def copied (s : Saver) (threadId newThreadId : String) : Saver :=
  match uuidText? threadId,uuidText? newThreadId with
  | some source,some target => (copyThread unpaired s source target).getD (brokenOff unpaired s source target)
  | _,_ => s

end copying

section values
variable {unpaired : List Nat → Option String}

theorem codes_back (text : List Char) : (codes text).map Char.ofNat = text := by
  rw [codes,List.map_map]
  exact (List.map_congr_left fun c _ => Char.ofNat_toNat c).trans (List.map_id _)

theorem codes_valid (text : List Char) : (codes text).all (fun code => decide code.isValidChar) = true := by
  refine List.all_eq_true.mpr fun code member => ?_
  obtain ⟨c,_,rfl⟩ := List.mem_map.mp member
  exact decide_eq_true c.valid

@[simp] theorem readStr_codes (text : String) : readStr unpaired (codes text.toList) = some text := by
  rw [readStr,if_pos (codes_valid _),codes_back,String.ofList_toList]

@[simp] theorem readTyped_decoded (value : Typed) : readTyped unpaired (decodedTyped value) = some value := by
  simp [decodedTyped,decodedStr,readTyped]

theorem readWrite_decoded (write : Write) : readWrite unpaired (decodedWrite write) = some write := by
  simp [decodedWrite,decodedStr,readWrite]

theorem replaceParent_text {sub : IdSubstitution} {parent copy : Option CheckpointId} (replaced_ : replaceParent sub parent = some copy) :
    copy = copy.map fun id => .text id.str := by
  cases parent with
  | none =>
    cases replaced_
    rfl
  | some id =>
    obtain ⟨new,made,rfl⟩ := Option.map_eq_some_iff.mp replaced_
    rw [(replaceId_text made).2]
    rfl

theorem readParent_decoded {parent : Option CheckpointId} (text : parent = parent.map fun id => .text id.str) :
    readParent unpaired (parent.elim .none fun id => decodedStr id.str) = some parent := by
  cases parent with
  | none => rfl
  | some id =>
    simp only [Option.elim_some,decodedStr,readParent,readStr_codes]
    exact congrArg some text.symm

-- An id that came through JSON is a text.
theorem readEntry_decoded {sub : IdSubstitution} {row copy : CheckpointId × Entry} (made : replaceEntry sub row = some copy) :
    readEntry unpaired (decodedEntry copy) = some copy := by
  unfold replaceEntry at made
  split at made
  · rename_i id parentId named linked
    cases made
    have text : id = .text id.str := by
      rw [(replaceId_text named).2]
      rfl
    simp only [readEntry,decodedEntry,readTyped_decoded,readParent_decoded (replaceParent_text linked),readStr_codes,
      Option.bind_eq_bind,Option.bind_some]
    rw [← text]
    rfl
  · cases made

-- Rows that are rewritten one by one and stored in a new dictionary give the
-- old one with new values exactly when no row changes its key or is lost.
theorem stored_rows {κ ν μ : Type} [BEq κ] (d : Dict κ ν) (f : κ × ν → Option (κ × μ)) (g : κ → ν → μ) :
    (d.entries.mapM f).map Dict.empty.update = some (d.mapValues g) ↔ ∀ row ∈ d.entries, f row = some (row.1,g row.1 row.2) := by
  constructor
  · intro stored
    obtain ⟨rows,mapped,equal⟩ := Option.map_eq_some_iff.mp stored
    have related := Outcomes.mapM_some.mp mapped
    have full : (Dict.empty.update rows).entries = rows := by
      refine Dict.update_full ?_
      rw [equal,Dict.entries_mapValues,List.length_map,related.length_eq,Dict.entries_empty,List.length_nil,Nat.zero_add]
    rw [← full,equal,Dict.entries_mapValues,List.forall₂_map_right_iff] at related
    exact List.forall₂_same.mp related
  · intro kept
    have mapped : d.entries.mapM f = some (d.mapValues g).entries := by
      rw [Dict.entries_mapValues,Outcomes.mapM_some,List.forall₂_map_right_iff,List.forall₂_same]
      exact kept
    rw [mapped,Option.map_some]
    exact congrArg some (Dict.ext (Dict.entries_update (d.mapValues g).distinct (by simp)))

theorem readRows_decoded {κ ν : Type} [BEq κ] {d : Dict κ ν} {readRow : List Nat × Decoded → Option (κ × ν)}
    {shown : κ × ν → List Nat × Decoded} (each : ∀ row ∈ d.entries, readRow (shown row) = some row) :
    readRows readRow (.dict (d.entries.map shown)) = some d := by
  have rows : (d.entries.map shown).mapM readRow = some d.entries := by
    rw [Outcomes.mapM_some,List.forall₂_map_left_iff,List.forall₂_same]
    exact each
  rw [readRows,rows,Option.map_some]
  exact congrArg some (Dict.ext (Dict.entries_update d.distinct (by simp)))

-- What the rows of a new dictionary come from.
theorem mem_fresh {κ ν : Type} [BEq κ] [LawfulBEq κ] {rows : List (κ × ν)} {row : κ × ν}
    (member : row ∈ (Dict.empty.update rows).entries) : row ∈ rows := by
  rcases Dict.get?_update_source (Dict.mem_iff.mp member) with early | ⟨source,listed,same,same'⟩
  · cases early
  · rwa [← Prod.ext_iff.mpr (⟨eq_of_beq same,same'⟩ : source.1 = row.1 ∧ source.2 = row.2)]

theorem readCheckpoints_decoded {sub : IdSubstitution} {row copy : String × Checkpoints}
    (made : replaceCheckpoints sub row = some copy) : readCheckpoints unpaired (decodedCheckpoints copy) = some copy := by
  obtain ⟨rows,mapped,rfl⟩ := Option.map_eq_some_iff.mp made
  have each : ∀ e ∈ (Dict.empty.update rows : Checkpoints).entries, readEntry unpaired (decodedEntry e) = some e := by
    intro e member
    obtain ⟨old,_,here⟩ := Outcomes.mapM_source mapped (mem_fresh member)
    exact readEntry_decoded here
  simp [readCheckpoints,decodedCheckpoints,readRows_decoded each]

theorem readNamespaces_decoded {sub : IdSubstitution} {namespaces copy : Dict String Checkpoints}
    (made : replaceNamespaces sub namespaces = some copy) : readNamespaces unpaired (decodedNamespaces copy) = some copy := by
  obtain ⟨rows,mapped,rfl⟩ := Option.map_eq_some_iff.mp made
  refine readRows_decoded fun row member => ?_
  obtain ⟨old,_,here⟩ := Outcomes.mapM_source mapped (mem_fresh member)
  exact readCheckpoints_decoded here

end values

section intact
variable {newThreadId threadId : UuidText}

theorem storedEntry_named {row : CheckpointId × Entry} {entry : List Char × Stored} (stored : storedEntry row = some entry) :
    row.1 = .text row.1.str ∧ entry.1 = row.1.str.toList := by
  obtain ⟨name,named,stored⟩ := Option.bind_eq_some_iff.mp stored
  obtain ⟨parent,_,rfl⟩ := Option.map_eq_some_iff.mp stored
  obtain ⟨id,kept⟩ := row
  cases id with
  | text value =>
    cases named
    exact ⟨rfl,rfl⟩
  | uuid value => cases named

theorem storedEntry_tuple {row : CheckpointId × Entry} {entry : List Char × Stored} (stored : storedEntry row = some entry) :
    ∃ parent, entry.2 = .tuple [storedTyped row.2.checkpoint,storedTyped row.2.metadata,parent] ∧
      (parent = .none ∨ ∃ text, parent = .str text) := by
  obtain ⟨name,_,stored⟩ := Option.bind_eq_some_iff.mp stored
  obtain ⟨parent,linked,rfl⟩ := Option.map_eq_some_iff.mp stored
  refine ⟨parent,rfl,?_⟩
  cases held : row.2.parentId with
  | none =>
    rw [held] at linked
    exact .inl (Option.some.inj linked).symm
  | some id =>
    rw [held] at linked
    obtain ⟨text,_,rfl⟩ := Option.map_eq_some_iff.mp linked
    exact .inr ⟨text,rfl⟩

-- Checkpoints are no texts, so nothing passes for the encoding of bytes.
theorem stored_untyped {namespaces : Dict String Checkpoints} {data : Stored} (stored : storedNamespaces namespaces = some data) :
    ∀ part ∈ data.parts, part.Untyped := by
  obtain ⟨entries,mapped,rfl⟩ := Option.map_eq_some_iff.mp stored
  have inner : ∀ entry ∈ entries, ∃ rows, entry.2 = .dict rows ∧ ∀ row ∈ rows, ∃ items, row.2 = .tuple items ∧
      ∀ item ∈ items, ∀ part ∈ item.parts, part.Untyped := by
    intro entry listed
    obtain ⟨_,_,here⟩ := Outcomes.mapM_source mapped listed
    obtain ⟨rows,mapped',rfl⟩ := Option.map_eq_some_iff.mp here
    refine ⟨rows,rfl,fun row member => ?_⟩
    obtain ⟨_,_,held⟩ := Outcomes.mapM_source mapped' member
    obtain ⟨parent,shape,linked⟩ := storedEntry_tuple held
    refine ⟨_,shape,?_⟩
    rcases linked with rfl | ⟨text,rfl⟩ <;> simp [storedTyped,Stored.parts,Stored.partsItems,Stored.Untyped]
  simp only [Stored.parts,List.forall_mem_cons,forall_entries]
  refine ⟨fun entry listed _ text same => ?_,fun entry listed => ?_⟩
  · obtain ⟨rows,shape,_⟩ := inner entry listed
    cases shape.symm.trans same
  · obtain ⟨rows,shape,deeper⟩ := inner entry listed
    simp only [shape,Stored.parts,List.forall_mem_cons,forall_entries]
    refine ⟨fun row member _ text same => ?_,fun row member => ?_⟩
    · obtain ⟨items,shape,_⟩ := deeper row member
      cases shape.symm.trans same
    · obtain ⟨items,shape,untyped⟩ := deeper row member
      simp only [shape,Stored.parts,List.forall_mem_cons,forall_items]
      exact ⟨trivial,untyped⟩

-- Only a `UUID` among the ids keeps the storage from being copied.
theorem stored_isSome (sub : IdSubstitution) (namespaces : Dict String Checkpoints) :
    (storedNamespaces namespaces).isSome = (replaceNamespaces sub namespaces).isSome := by
  have entries : ∀ row, (storedEntry row).isSome = (replaceEntry sub row).isSome := by
    rintro ⟨id,⟨checkpoint,metadata,parentId⟩⟩
    cases id with
    | uuid => cases parentId <;> rfl
    | text => cases parentId with
      | none => rfl
      | some parent => cases parent <;> rfl
  simp only [storedNamespaces,replaceNamespaces,storedCheckpoints,replaceCheckpoints,Option.isSome_map,Outcomes.mapM_isSome,entries]

variable (unpaired : List Nat → Option String)

-- Where everything comes back as it should, the code's copy is the saver's.
theorem copiedNamespaces_intact {namespaces : Dict String Checkpoints} (intact : ∀ data, storedNamespaces namespaces = some data →
    ∀ part ∈ data.parts, part.Intact newThreadId threadId) :
    copiedNamespaces unpaired newThreadId threadId namespaces = replaceNamespaces (substitution newThreadId threadId) namespaces := by
  unfold copiedNamespaces
  cases stored : storedNamespaces namespaces with
  | none =>
    have missing := stored_isSome (substitution newThreadId threadId) namespaces
    rw [stored] at missing
    exact (Option.isNone_iff_eq_none.mp (Option.isSome_eq_false_iff.mp missing.symm)).symm
  | some data =>
    obtain ⟨copied,made,shown,_⟩ := namespaces_copied stored (intact data stored)
    simp only [Option.bind_eq_bind,Option.bind_some,replaceThreadId_intact (stored_untyped stored) (intact data stored),shown,made]
    exact readNamespaces_decoded made

theorem copiedWrite_intact {write : Write} (intact : ∀ part ∈ (storedWrite write).parts, part.Intact newThreadId threadId) :
    copiedWrite unpaired newThreadId threadId write = some (replaceWrite (substitution newThreadId threadId) write) := by
  have untyped : ∀ part ∈ (storedWrite write).parts, part.Untyped := by
    simp [storedWrite,storedTyped,Stored.parts,Stored.partsItems,Stored.Untyped]
  rw [copiedWrite,replaceThreadId_intact untyped intact,(write_copied write ("",0)).1]
  exact readWrite_decoded _

-- The keys of the group stay as they are.
theorem copiedGroup_some {group : WriteGroup} {f : Write → Write} :
    copiedGroup unpaired newThreadId threadId group = some (group.mapValues fun _ write => f write) ↔
      ∀ row ∈ group.entries, copiedWrite unpaired newThreadId threadId row.2 = some (f row.2) := by
  rw [copiedGroup,stored_rows]
  simp only [Option.map_eq_some_iff,Prod.mk.injEq,true_and,exists_eq_right]

end intact

-- What a thread holds comes back from JSON with the new id in its texts.
structure Substituted (s : Saver) (source target : UuidText) : Prop where
  namespaces : ∀ data, storedNamespaces (s.namespaces source.str).dict = some data → ∀ part ∈ data.parts, part.Intact target source
  writes : ∀ row ∈ s.writes.entries, row.1.threadId = source.str → ∀ e ∈ row.2.entries,
    ∀ part ∈ (storedWrite e.2).parts, part.Intact target source

-- A drawn id under which nothing is stored yet.
structure UnusedTarget (s : Saver) (source target : String) : Prop where
  other : source ≠ target
  writes : ∀ row ∈ s.writes.entries, row.1.threadId ≠ target
  blobs : ∀ row ∈ s.blobs.entries, row.1.threadId ≠ target

theorem copyThread_substituted (unpaired : List Nat → Option String) {s : Saver} {source target : UuidText}
    (substituted : Substituted s source target) :
    copyThread unpaired s source target = ThreadCopy.copyThread (substitution target source) s source.str target.str := by
  have groups : ((s.writes.entries.filter fun row => row.1.threadId == source.str).mapM fun row =>
      (copiedGroup unpaired target source row.2).map (Prod.mk {row.1 with threadId := target.str})) =
      some ((s.writes.entries.filter fun row => row.1.threadId == source.str).map fun row =>
        ({row.1 with threadId := target.str},replaceGroup (substitution target source) row.2)) := by
    rw [Outcomes.mapM_some,List.forall₂_map_right_iff,List.forall₂_same]
    intro row member
    obtain ⟨listed,mine⟩ := List.mem_filter.mp member
    have whole := substituted.writes row listed (eq_of_beq mine)
    rw [(copiedGroup_some unpaired).mpr fun e held => copiedWrite_intact unpaired (whole e held)]
    rfl
  unfold copyThread ThreadCopy.copyThread
  simp only [copiedNamespaces_intact unpaired substituted.namespaces,groups]
  cases replaceNamespaces (substitution target source) (s.namespaces source.str).dict <;> rfl

theorem copied_uuid (unpaired : List Nat → Option String) (s : Saver) (source target : UuidText) :
    copied unpaired s source.str target.str = (copyThread unpaired s source target).getD (brokenOff unpaired s source target) := by
  rw [copied,uuidText_str,uuidText_str]

theorem copyThread_fields {unpaired : List Nat → Option String} {s copy : Saver} {source target : UuidText}
    (copied : copyThread unpaired s source target = some copy) :
    ∃ dict mapped, copiedNamespaces unpaired target source (s.namespaces source.str).dict = some dict ∧
      ((s.writes.entries.filter fun row => row.1.threadId == source.str).mapM fun row =>
        (copiedGroup unpaired target source row.2).map (Prod.mk {row.1 with threadId := target.str})) = some mapped ∧
      copy.storage = (s.storage.insert source.str (s.namespaces source.str)).insert target.str ⟨dict,false⟩ ∧
      copy.writes = s.writes.update mapped ∧
      copy.blobs = s.blobs.update ((s.blobs.entries.filter fun row => row.1.threadId == source.str).map fun row =>
        ({row.1 with threadId := target.str},row.2)) := by
  obtain ⟨dict,namespaces,copied⟩ := Option.bind_eq_some_iff.mp copied
  obtain ⟨mapped,groups,copied⟩ := Option.bind_eq_some_iff.mp copied
  cases Option.some.inj copied
  exact ⟨dict,mapped,namespaces,groups,rfl,rfl,rfl⟩

theorem mapped_target {unpaired : List Nat → Option String} {source target : UuidText} {groups mapped : List (WriteKey × WriteGroup)}
    (came : (groups.mapM fun row => (copiedGroup unpaired target source row.2).map (Prod.mk {row.1 with threadId := target.str})) =
      some mapped) {row : WriteKey × WriteGroup} (member : row ∈ mapped) : row.1.threadId = target.str := by
  obtain ⟨old,_,here⟩ := Outcomes.mapM_source came member
  obtain ⟨group,_,rfl⟩ := Option.map_eq_some_iff.mp here
  rfl

theorem groupsBefore_target {unpaired : List Nat → Option String} {source target : UuidText} {groups : List (WriteKey × WriteGroup)} :
    ∀ row ∈ groupsBefore unpaired target source groups, row.1.threadId = target.str := by
  induction groups with
  | nil => exact fun row none_ => (List.not_mem_nil none_).elim
  | cons row rest ih =>
    unfold groupsBefore
    split
    · exact List.forall_mem_cons.mpr ⟨rfl,ih⟩
    · exact fun row none_ => (List.not_mem_nil none_).elim

-- Whether it raises or not, what is copied goes to the new id only.
structure CopiesTo (target : String) (s s' : Saver) : Prop where
  checkpoints : ∀ threadId ns, target ≠ threadId → s'.checkpointsAt threadId ns = s.checkpointsAt threadId ns
  writes : ∃ groups, s'.writes = s.writes.update groups ∧ ∀ row ∈ groups, row.1.threadId = target
  blobs : ∃ values, s'.blobs = s.blobs.update values ∧ ∀ row ∈ values, row.1.threadId = target

theorem copiesTo_refl (target : String) (s : Saver) : CopiesTo target s s :=
  ⟨fun _ _ _ => rfl,⟨[],rfl,fun _ none_ => (List.not_mem_nil none_).elim⟩,⟨[],rfl,fun _ none_ => (List.not_mem_nil none_).elim⟩⟩

theorem storage_copiesTo {s s' : Saver} {source target : String} {dict : Dict String Checkpoints}
    (storage : s'.storage = (s.storage.insert source (s.namespaces source)).insert target ⟨dict,false⟩) {threadId : String} (ns : String)
    (apart : target ≠ threadId) : s'.checkpointsAt threadId ns = s.checkpointsAt threadId ns := by
  unfold Saver.checkpointsAt
  rw [storage,Dict.get?_insert_other (beq_false_of_ne apart)]
  by_cases same : source = threadId
  · subst same
    rw [Dict.get?_insert_self]
    unfold Saver.namespaces
    cases s.storage.get? source <;> rfl
  · rw [Dict.get?_insert_other (beq_false_of_ne same)]

theorem copyThread_copiesTo {unpaired : List Nat → Option String} {s copy : Saver} {source target : UuidText}
    (copied : copyThread unpaired s source target = some copy) : CopiesTo target.str s copy := by
  obtain ⟨dict,mapped,_,groups,storage,writes,blobs⟩ := copyThread_fields copied
  refine ⟨fun threadId ns => storage_copiesTo storage ns,⟨mapped,writes,fun row => mapped_target groups⟩,⟨_,blobs,fun row member => ?_⟩⟩
  obtain ⟨old,_,rfl⟩ := List.mem_map.mp member
  rfl

theorem brokenOff_copiesTo (unpaired : List Nat → Option String) (s : Saver) (source target : UuidText) :
    CopiesTo target.str s (brokenOff unpaired s source target) := by
  unfold brokenOff
  dsimp only
  split
  · exact ⟨fun threadId ns => storage_copiesTo rfl ns,⟨_,rfl,groupsBefore_target⟩,(copiesTo_refl _ s).blobs⟩
  · exact copiesTo_refl _ s

theorem copied_copiesTo (unpaired : List Nat → Option String) (s : Saver) (source target : String) :
    CopiesTo target s (copied unpaired s source target) := by
  unfold copied
  split
  · rename_i source' target' _ read
    rw [← uuidText_some read]
    cases made : copyThread unpaired s source' target' with
    | none => exact brokenOff_copiesTo unpaired s source' target'
    | some copy => exact copyThread_copiesTo made
  · exact copiesTo_refl _ s

-- Nothing raises once the storage has come back, where the texts are intact.
theorem copied_substituted (unpaired : List Nat → Option String) {s : Saver} {source target : UuidText}
    (substituted : Substituted s source target) :
    copied unpaired s source.str target.str =
      (ThreadCopy.copyThread (substitution target source) s source.str target.str).getD s := by
  rw [copied_uuid,copyThread_substituted unpaired substituted]
  unfold ThreadCopy.copyThread brokenOff
  simp only [copiedNamespaces_intact unpaired substituted.namespaces]
  cases replaceNamespaces (substitution target source) (s.namespaces source.str).dict <;> rfl

-- Two keys that become one are one.
theorem keys_same {newThreadId threadId : UuidText} {entries : List (List Char × Stored)}
    (intact : (Stored.dict entries).Intact newThreadId threadId) {entry entry' : List Char × Stored} (listed : entry ∈ entries)
    (listed' : entry' ∈ entries)
    (same : replacedText newThreadId threadId entry.1 = replacedText newThreadId threadId entry'.1) : entry.1 = entry'.1 :=
  congrArg Prod.fst (List.inj_on_of_nodup_map intact.2 listed listed' same)

theorem substituted_fresh {s copy : Saver} {source target : UuidText} (unused : UnusedTarget s source.str target.str)
    (storage : s.storage.get? target.str = none) (substituted : Substituted s source target)
    (copied : ThreadCopy.copyThread (substitution target source) s source.str target.str = some copy) :
    FreshTarget (substitution target source) s source.str target.str := by
  have made : (replaceNamespaces (substitution target source) (s.namespaces source.str).dict).isSome = true := by
    unfold ThreadCopy.copyThread at copied
    dsimp only at copied
    split at copied
    · cases copied
    · rename_i dict replaced_
      rw [replaced_]
      rfl
  rw [← stored_isSome] at made
  obtain ⟨data,stored⟩ := Option.isSome_iff_exists.mp made
  have intact := substituted.namespaces data stored
  obtain ⟨entries,mapped,rfl⟩ := Option.map_eq_some_iff.mp stored
  simp only [Stored.parts,List.forall_mem_cons,forall_entries] at intact
  have text : ∀ {name name' : String}, (substitution target source).text name = (substitution target source).text name' →
      replacedText target source name.toList = replacedText target source name'.toList := String.ofList_injective
  refine ⟨unused.other,storage,unused.writes,unused.blobs,fun ns here ns' here' same => ?_,fun row member id here id' here' same => ?_⟩
  · obtain ⟨row,member,rfl⟩ := List.mem_map.mp here
    obtain ⟨row',member',rfl⟩ := List.mem_map.mp here'
    obtain ⟨entry,listed,found⟩ := Outcomes.mapM_result mapped member
    obtain ⟨entry',listed',found'⟩ := Outcomes.mapM_result mapped member'
    obtain ⟨rows,_,rfl⟩ := Option.map_eq_some_iff.mp found
    obtain ⟨rows',_,rfl⟩ := Option.map_eq_some_iff.mp found'
    exact String.toList_injective (keys_same intact.1 listed listed' (text same))
  · obtain ⟨entry,listed,found⟩ := Outcomes.mapM_result mapped member
    have deeper := intact.2 entry listed
    obtain ⟨rows,mapped',rfl⟩ := Option.map_eq_some_iff.mp found
    simp only [Stored.parts,List.forall_mem_cons] at deeper
    obtain ⟨e,held,rfl⟩ := List.mem_map.mp here
    obtain ⟨e',held',rfl⟩ := List.mem_map.mp here'
    obtain ⟨item,listed_,came⟩ := Outcomes.mapM_result mapped' held
    obtain ⟨item',listed_',came'⟩ := Outcomes.mapM_result mapped' held'
    have names := keys_same deeper.1 listed_ listed_'
    rw [(storedEntry_named came).2,(storedEntry_named came').2] at names
    exact String.toList_injective (names (text same))

end InmemRuntime.CopiedThreads
