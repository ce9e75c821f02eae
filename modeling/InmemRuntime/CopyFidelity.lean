import InmemRuntime.CopiedThreads
import InmemRuntime.SizeExact

namespace InmemRuntime.CopyFidelity
open TextReplace JsonString OrderedDict CheckpointData CheckpointSaver UuidTexts IdReplacement CopiedCheckpoints CopiedThreads
open ThreadCopy (replaceTyped replaceId replaceParent replaceEntry replaceCheckpoints replaceNamespaces replaceWrite)

-- What `get_tuple` decodes its answer from; `values` are the blobs that the
-- channel versions of the checkpoint point at, less those of type `empty`.
structure Tuple where
  id : CheckpointId
  entry : Entry
  writes : WriteGroup
  values : List (String × Typed)
deriving DecidableEq

inductive Answer where
  | stored (threadId ns : String) (id : CheckpointId)
  | written
  | tuple (found : Option Tuple)
  | raised
deriving DecidableEq

-- A call of the saver on one thread, whose id stands in every configuration.
inductive SaverCall (J : Type) where
  | put (config : PutConfig J) (checkpoint : Checkpoint J) (metadata : Dict String J) (newVersions : Dict String Version)
  | putWrites (ns : String) (id : CheckpointId) (writes : List (String × J)) (taskId taskPath : String)
  | getTuple (ns : String) (checkpointId : Option CheckpointId)

def loadBlobs (s : Saver) (threadId ns : String) (versions : Dict String Version) : List (String × Typed) :=
  versions.entries.filterMap fun row =>
    match s.blobs.get? ⟨threadId,ns,row.1,row.2⟩ with
    | some value => if value.type = "empty" then none else some (row.1,value)
    | none => none

section calling
variable {J : Type} (base : Base J) (threadId : String)

-- A `put` that fails has stored its blobs before it looks for the namespace.
def perform (s : Saver) : SaverCall J → Saver × Answer
  | .put config checkpoint metadata newVersions =>
    match put (max 0) base s {config with threadId} checkpoint metadata newVersions with
    | some after => (after,.stored threadId config.checkpointNs checkpoint.id)
    | none =>
      let blobs := storeBlobs threadId config.checkpointNs (blobFor base checkpoint) s.blobs newVersions.entries
      ({s with blobs},.raised)
  | .putWrites ns id writes taskId taskPath =>
    (putWrites (max 0) base s ⟨threadId,ns,id⟩ writes taskId taskPath,.written)
  | .getTuple ns checkpointId =>
    match getTuple s threadId ns checkpointId with
    | some (after,found) =>
      let values := fun entry => loadBlobs s threadId ns (base.loadsCheckpoint entry.checkpoint).channelVersions
      (after,.tuple (found.map fun row => ⟨row.1,row.2.1,row.2.2,values row.2.1⟩))
    | none => (s,.raised)

def answers (s : Saver) : List (SaverCall J) → List Answer
  | [] => []
  | call :: rest => (perform base threadId s call).2 :: answers (perform base threadId s call).1 rest

-- Writes go to a dictionary of their own, whatever namespaces there are.
def SaverCall.Within (names : List String) : SaverCall J → Prop
  | .put config _ _ _ => config.checkpointNs ∈ names
  | .putWrites .. => True
  | .getTuple ns _ => ns ∈ names

end calling

section references
variable (newThreadId threadId : UuidText)

def carryTyped (value : Typed) : Typed := ⟨value.type,replaceBytes threadId newThreadId value.data⟩

def carryEntry (entry : Entry) : Entry :=
  ⟨carryTyped newThreadId threadId entry.checkpoint,carryTyped newThreadId threadId entry.metadata,entry.parentId⟩

def carryWrite (write : Write) : Write := {write with value := carryTyped newThreadId threadId write.value}

def carryGroup (group : WriteGroup) : WriteGroup := group.mapValues fun _ write => carryWrite newThreadId threadId write

def carryNamespaces (namespaces : Dict String Checkpoints) : Dict String Checkpoints :=
  namespaces.mapValues fun _ checkpoints => checkpoints.mapValues fun _ entry => carryEntry newThreadId threadId entry

-- The thread that `put` and `put_writes` would have built from the rows of the
-- source: the same names, payloads with the new id, and a default dictionary.
def putBuilt (s : Saver) (source target : UuidText) : Saver :=
  let namespaces := s.namespaces source.str
  let groups := s.writes.entries.filter fun row => row.1.threadId == source.str
  let values := s.blobs.entries.filter fun row => row.1.threadId == source.str
  {storage := (s.storage.insert source.str namespaces).insert target.str ⟨carryNamespaces target source namespaces.dict,true⟩
   writes := s.writes.update (groups.map fun row => ({row.1 with threadId := target.str},carryGroup target source row.2))
   blobs := s.blobs.update (values.map fun row => ({row.1 with threadId := target.str},row.2))
   sizeState := s.sizeState.copyThread source.str target.str}

-- The id is nowhere in the text, nor does an escape of it run into the id.
def Unnamed (text : List Char) : Prop := ¬threadId.text <:+: text ∧ straddles escape threadId.text text = false

instance (text : List Char) : Decidable (Unnamed threadId text) := inferInstanceAs (Decidable (_ ∧ _))

-- An id that goes through the copy as it is: a text without the source id.
def KeptId : CheckpointId → Prop
  | .text value => Unnamed threadId value.toList
  | .uuid _ => False

structure KeptEntry (row : CheckpointId × Entry) : Prop where
  id : KeptId threadId row.1
  parentId : ∀ parent, row.2.parentId = some parent → KeptId threadId parent
  checkpoint : Unnamed threadId row.2.checkpoint.type.toList
  metadata : Unnamed threadId row.2.metadata.type.toList

structure KeptWrite (write : Write) : Prop where
  taskId : Unnamed threadId write.taskId.toList
  channel : Unnamed threadId write.channel.toList
  value : Unnamed threadId write.value.type.toList
  taskPath : Unnamed threadId write.taskPath.toList

structure KeptCheckpoints (row : String × Checkpoints) : Prop where
  ns : Unnamed threadId row.1.toList
  entries : ∀ e ∈ row.2.entries, KeptEntry threadId e

-- No name that the source holds is an object or contains the id of the source.
structure Copyable (s : Saver) (source : UuidText) : Prop where
  namespaces : ∀ row ∈ (s.namespaces source.str).dict.entries, KeptCheckpoints source row
  writes : ∀ row ∈ s.writes.entries, row.1.threadId = source.str → ∀ e ∈ row.2.entries, KeptWrite source e.2

end references

-- The same checkpoints, writes and blobs under one thread id, in one order.
structure SameThread (threadId : String) (s s' : Saver) : Prop where
  dict : (s.namespaces threadId).dict = (s'.namespaces threadId).dict
  writes : ∀ ns id, s.writes.get? ⟨threadId,ns,id⟩ = s'.writes.get? ⟨threadId,ns,id⟩
  blobs : ∀ ns channel version, s.blobs.get? ⟨threadId,ns,channel,version⟩ = s'.blobs.get? ⟨threadId,ns,channel,version⟩

-- `Threads.copy`, where no `str` that comes back may have a surrogate alone.
abbrev copyThread (s : Saver) (source target : UuidText) : Option Saver := CopiedThreads.copyThread (fun _ => none) s source target

-- The copy is made, the source keeps what it had, and the copy holds and
-- answers what the thread built by the saver does.
def Faithful {J : Type} (base : Base J) (s : Saver) (source target : UuidText) (calls : List (SaverCall J)) : Prop :=
  ∃ copy, copyThread s source target = some copy ∧ SameThread source.str copy s ∧
    SameThread target.str copy (putBuilt s source target) ∧
    answers base target.str copy calls = answers base target.str (putBuilt s source target) calls

-- One thread in two savers: the mapping of the first is a plain dictionary, that
-- of the second creates what is missing, and nothing else tells them apart.
structure Alike (threadId : String) (names : List String) (plain auto : Saver) : Prop where
  storage : ∃ dict, plain.storage.get? threadId = some ⟨dict,false⟩ ∧ auto.storage.get? threadId = some ⟨dict,true⟩ ∧
    ∀ ns, dict.contains ns = true ↔ ns ∈ names
  writes : plain.writes = auto.writes
  blobs : plain.blobs = auto.blobs

section simulation
variable {J : Type} {base : Base J} {threadId : String} {names : List String} {plain auto : Saver}

theorem alike_resized (alike : Alike threadId names plain auto) (x y : SizeTracking.SizeState) :
    Alike threadId names {plain with sizeState := x} {auto with sizeState := y} :=
  ⟨alike.storage,alike.writes,alike.blobs⟩

-- A namespace that the thread has reads the same in both.
theorem bucket_held (alike : Alike threadId names plain auto) {ns : String} (held : ns ∈ names) :
    ∃ checkpoints, plain.bucket threadId ns = some checkpoints ∧ auto.bucket threadId ns = some checkpoints := by
  obtain ⟨dict,left,right,listed⟩ := alike.storage
  obtain ⟨checkpoints,found⟩ := Dict.contains_iff.mp ((listed ns).mpr held)
  refine ⟨checkpoints,?_,?_⟩
  · simp [Saver.bucket,Saver.namespaces,left,found]
  · simp [Saver.bucket,Saver.namespaces,right,found]

-- One that it lacks is a `KeyError` in the first and empty in the second.
theorem bucket_missing (alike : Alike threadId names plain auto) {ns : String} (missing : ns ∉ names) :
    plain.bucket threadId ns = none ∧ auto.bucket threadId ns = some .empty := by
  obtain ⟨dict,left,right,listed⟩ := alike.storage
  have absent : dict.get? ns = none := by
    rw [← Dict.contains_eq_false_iff]
    exact Bool.eq_false_iff.mpr fun present => missing ((listed ns).mp present)
  constructor
  · simp [Saver.bucket,Saver.namespaces,left,absent]
  · simp [Saver.bucket,Saver.namespaces,right,absent]

theorem setBucket_alike (alike : Alike threadId names plain auto) {ns : String} (held : ns ∈ names)
    (checkpoints : Checkpoints) :
    Alike threadId names (plain.setBucket threadId ns checkpoints) (auto.setBucket threadId ns checkpoints) := by
  obtain ⟨dict,left,right,listed⟩ := alike.storage
  refine ⟨⟨dict.insert ns checkpoints,?_,?_,fun other => ?_⟩,alike.writes,alike.blobs⟩
  · simp [Saver.setBucket,Saver.namespaces,left]
  · simp [Saver.setBucket,Saver.namespaces,right]
  · rw [Dict.contains_iff,Dict.get?_insert,← listed other,Dict.contains_iff]
    by_cases same : ns = other
    · subst same
      simpa using Dict.contains_iff.mp ((listed ns).mpr held)
    · simp [same]

theorem blobs_alike (alike : Alike threadId names plain auto) {blobs blobs' : Dict BlobKey Typed} (same : blobs = blobs') :
    Alike threadId names {plain with blobs} {auto with blobs := blobs'} :=
  ⟨alike.storage,alike.writes,same⟩

variable (base) in
theorem basePut_held (alike : Alike threadId names plain auto) {config : PutConfig J} (mine : config.threadId = threadId)
    (held : config.checkpointNs ∈ names) (checkpoint : Checkpoint J) (metadata : Dict String J)
    (newVersions : Dict String Version) :
    ∃ plain' auto', basePut base plain config checkpoint metadata newVersions = some plain' ∧
      basePut base auto config checkpoint metadata newVersions = some auto' ∧ Alike threadId names plain' auto' := by
  subst mine
  have stored := blobs_alike alike (congrArg (fun blobs => storeBlobs config.threadId config.checkpointNs
    (blobFor base checkpoint) blobs newVersions.entries) alike.blobs)
  obtain ⟨checkpoints,left,right⟩ := bucket_held stored held
  exact ⟨_,_,by simp only [basePut,left]; rfl,by simp only [basePut,right],setBucket_alike stored held _⟩

theorem readTuple_alike (alike : Alike threadId names plain auto) (ns : String) (id : CheckpointId) (entry : Entry) :
    ∃ plain' auto' found, readTuple plain threadId ns id entry = (plain',found) ∧
      readTuple auto threadId ns id entry = (auto',found) ∧ Alike threadId names plain' auto' := by
  have group : plain.group ⟨threadId,ns,id⟩ = auto.group ⟨threadId,ns,id⟩ := by rw [Saver.group,Saver.group,alike.writes]
  simp only [readTuple,group,alike.writes]
  exact ⟨_,_,_,rfl,rfl,alike.storage,rfl,alike.blobs⟩

-- Both raise, because the ids do not compare, or both answer the same.
theorem getTuple_held (alike : Alike threadId names plain auto) {ns : String} (held : ns ∈ names)
    (checkpointId : Option CheckpointId) :
    (getTuple plain threadId ns checkpointId = none ∧ getTuple auto threadId ns checkpointId = none) ∨
      ∃ plain' auto' found, getTuple plain threadId ns checkpointId = some (plain',found) ∧
        getTuple auto threadId ns checkpointId = some (auto',found) ∧ Alike threadId names plain' auto' := by
  obtain ⟨checkpoints,left,right⟩ := bucket_held alike held
  have opened := setBucket_alike alike held checkpoints
  cases checkpointId with
  | some id =>
    cases found : checkpoints.get? (.text id.str) with
    | some entry =>
      obtain ⟨plain',auto',row,first,second,after⟩ := readTuple_alike opened ns (.text id.str) entry
      refine .inr ⟨plain',auto',row,?_,?_,after⟩ <;> simp only [getTuple,left,right,found,first,second]
    | none => refine .inr ⟨_,_,none,?_,?_,opened⟩ <;> simp only [getTuple,left,right,found]
  | none =>
    cases latest : newest checkpoints.keys with
    | none => refine .inr ⟨_,_,none,?_,?_,opened⟩ <;> simp only [getTuple,left,right,latest]
    | some id =>
      by_cases ordered : comparable checkpoints.keys
      · cases found : checkpoints.get? id with
        | some entry =>
          obtain ⟨plain',auto',row,first,second,after⟩ := readTuple_alike opened ns id entry
          refine .inr ⟨plain',auto',row,?_,?_,after⟩ <;>
            simp only [getTuple,left,right,latest,ordered,found,first,second,↓reduceIte]
        | none => refine .inr ⟨_,_,none,?_,?_,opened⟩ <;> simp only [getTuple,left,right,latest,ordered,found,↓reduceIte]
      · refine .inl ⟨?_,?_⟩ <;> simp only [getTuple,left,right,latest,ordered,Bool.false_eq_true,↓reduceIte]

variable (base) in
theorem perform_held (alike : Alike threadId names plain auto) {call : SaverCall J} (held : call.Within names) :
    (perform base threadId plain call).2 = (perform base threadId auto call).2 ∧
      Alike threadId names (perform base threadId plain call).1 (perform base threadId auto call).1 := by
  cases call with
  | put config checkpoint metadata newVersions =>
    obtain ⟨plain',auto',left,right,after⟩ := basePut_held base alike
      (show ({config with threadId} : PutConfig J).threadId = threadId from rfl) held checkpoint
      (mergedMetadata {config with threadId} metadata) newVersions
    simp only [perform,put,left,right]
    exact ⟨trivial,alike_resized after _ _⟩
  | putWrites ns id writes taskId taskPath =>
    refine ⟨rfl,alike.storage,?_,alike.blobs⟩
    simp only [perform,putWrites,basePutWrites,alike.writes]
  | getTuple ns checkpointId =>
    have loaded : loadBlobs plain threadId ns = loadBlobs auto threadId ns := by
      funext versions
      rw [loadBlobs,loadBlobs,alike.blobs]
    rcases getTuple_held alike held checkpointId with ⟨left,right⟩ | ⟨plain',auto',found,left,right,after⟩
    · simp only [perform,left,right]
      exact ⟨trivial,alike⟩
    · simp only [perform,left,right,loaded]
      exact ⟨trivial,after⟩

variable (base) in
-- Outside of the namespaces that the copy was given, only the copy raises.
theorem perform_missing (alike : Alike threadId names plain auto) {call : SaverCall J} (missing : ¬call.Within names) :
    (perform base threadId plain call).2 = .raised ∧ (perform base threadId auto call).2 ≠ .raised := by
  cases call with
  | put config checkpoint metadata newVersions =>
    have stored := blobs_alike alike (congrArg (fun blobs => storeBlobs threadId config.checkpointNs
      (blobFor base checkpoint) blobs newVersions.entries) alike.blobs)
    obtain ⟨left,right⟩ := bucket_missing stored missing
    simp only [perform,put,basePut,left,right]
    exact ⟨trivial,Answer.noConfusion⟩
  | putWrites => exact absurd trivial missing
  | getTuple ns checkpointId =>
    obtain ⟨left,right⟩ := bucket_missing alike missing
    have empty : ∃ after, getTuple auto threadId ns checkpointId = some (after,none) := by
      cases checkpointId with
      | some id => exact ⟨_,by simp only [getTuple,right]; rfl⟩
      | none => exact ⟨_,by simp only [getTuple,right]; rfl⟩
    obtain ⟨after,answered⟩ := empty
    have failed : getTuple plain threadId ns checkpointId = none := by simp only [getTuple,left]
    simp only [perform,failed,answered]
    exact ⟨trivial,Answer.noConfusion⟩

theorem answers_same (alike : Alike threadId names plain auto) (calls : List (SaverCall J)) :
    answers base threadId plain calls = answers base threadId auto calls ↔ ∀ call ∈ calls, call.Within names := by
  induction calls generalizing plain auto with
  | nil => simp [answers]
  | cons call rest ih =>
    rw [List.forall_mem_cons,answers,answers,List.cons.injEq]
    by_cases held : call.Within names
    · obtain ⟨same,after⟩ := perform_held base alike held
      rw [ih after]
      exact and_congr_left fun _ => ⟨fun _ => held,fun _ => same⟩
    · obtain ⟨failed,answered⟩ := perform_missing base alike held
      exact ⟨fun ⟨same,_⟩ => absurd (same.symm.trans failed) answered,fun ⟨within,_⟩ => absurd within held⟩

end simulation

section names
variable {newThreadId threadId : UuidText}

theorem readStr_some {value : List Nat} {text : String} (read : readStr (fun _ => none) value = some text) : value = codes text.toList := by
  unfold readStr at read
  split at read
  · rename_i valid
    cases read
    rw [String.toList_ofList,codes,List.map_map]
    refine (List.map_id value).symm.trans (List.map_congr_left fun code member => ?_)
    have valid' : code.isValidChar := of_decide_eq_true (List.all_eq_true.mp valid code member)
    rw [Function.comp_apply,Char.ofNat,dif_pos valid']
    rfl
  · cases read

theorem name_kept (other : threadId ≠ newThreadId) {name : String} {value : List Nat}
    (read : readText newThreadId threadId name.toList = some value) :
    readStr (fun _ => none) value = some name ↔ Unnamed threadId name.toList := by
  rw [Unnamed,← content_kept other]
  constructor
  · exact fun back => read.trans (congrArg some (readStr_some back))
  · intro same
    cases read.symm.trans same
    exact readStr_codes name

theorem typed_kept (other : threadId ≠ newThreadId) {value : Typed} {copy : Decoded}
    (yields : Yields newThreadId threadId (storedTyped value) copy)
    (read : readTyped (fun _ => none) copy = some (carryTyped newThreadId threadId value)) : Unnamed threadId value.type.toList := by
  unfold readTyped at read
  split at read
  · rename_i type data
    obtain ⟨name,back,same⟩ := Option.map_eq_some_iff.mp read
    cases (yields_items _ rfl).mp yields with
    | cons first _ =>
      obtain ⟨value',here,same'⟩ := yields_text.mp first
      cases same'
      cases (Typed.mk.inj same).1
      exact (name_kept other here).mp back
  · cases read

theorem parent_kept (other : threadId ≠ newThreadId) {parentId : Option CheckpointId} {data : Stored} {copy : Decoded}
    (stored : storedParent parentId = some data) (yields : Yields newThreadId threadId data copy)
    (read : readParent (fun _ => none) copy = some parentId) : ∀ parent, parentId = some parent → KeptId threadId parent := by
  rintro parent rfl
  cases parent with
  | uuid value => cases stored
  | text value =>
    cases stored
    obtain ⟨value',here,rfl⟩ := yields_text.mp yields
    obtain ⟨name,back,same⟩ := Option.map_eq_some_iff.mp read
    cases same
    exact (name_kept other here).mp back

theorem entry_kept (other : threadId ≠ newThreadId) {row : CheckpointId × Entry} {entry : List Char × Stored} {out : List Nat × Decoded}
    (stored : storedEntry row = some entry) (yields : YieldsEntry newThreadId threadId entry out)
    (read : readEntry (fun _ => none) out = some (row.1,carryEntry newThreadId threadId row.2)) : KeptEntry threadId row := by
  obtain ⟨id,⟨checkpoint,metadata,parentId⟩⟩ := row
  obtain ⟨name,named,stored⟩ := Option.bind_eq_some_iff.mp stored
  obtain ⟨parent,linked,rfl⟩ := Option.map_eq_some_iff.mp stored
  unfold readEntry at read
  split at read
  · rename_i first second third shape
    obtain ⟨id',back,read⟩ := Option.bind_eq_some_iff.mp read
    obtain ⟨checkpoint',readCheckpoint,read⟩ := Option.bind_eq_some_iff.mp read
    obtain ⟨metadata',readMetadata,read⟩ := Option.bind_eq_some_iff.mp read
    obtain ⟨parentId',readParent_,read⟩ := Option.bind_eq_some_iff.mp read
    cases read
    cases named
    obtain ⟨key,items⟩ := yields
    rw [shape] at items
    cases (yields_items _ rfl).mp items with
    | cons one rest => cases rest with
      | cons two rest => cases rest with
        | cons three _ =>
          exact ⟨(name_kept other key).mp back,parent_kept other linked three readParent_,
            typed_kept other one readCheckpoint,typed_kept other two readMetadata⟩
  · cases read

theorem write_kept (other : threadId ≠ newThreadId) {write : Write}
    (copied : copiedWrite (fun _ => none) newThreadId threadId write = some (carryWrite newThreadId threadId write)) :
    KeptWrite threadId write := by
  obtain ⟨copy,ran,read⟩ := Option.bind_eq_some_iff.mp copied
  have yields := replaced_yields ran
  unfold readWrite at read
  split at read
  · obtain ⟨taskId,first,read⟩ := Option.bind_eq_some_iff.mp read
    obtain ⟨channel,second,read⟩ := Option.bind_eq_some_iff.mp read
    obtain ⟨value,third,read⟩ := Option.bind_eq_some_iff.mp read
    obtain ⟨taskPath,fourth,read⟩ := Option.bind_eq_some_iff.mp read
    cases read
    cases (yields_items _ rfl).mp yields with
    | cons one rest => cases rest with
      | cons two rest => cases rest with
        | cons three rest => cases rest with
          | cons four _ =>
            obtain ⟨_,one,same⟩ := yields_text.mp one
            cases same
            obtain ⟨_,two,same⟩ := yields_text.mp two
            cases same
            obtain ⟨_,four,same⟩ := yields_text.mp four
            cases same
            exact ⟨(name_kept other one).mp first,(name_kept other two).mp second,typed_kept other three third,
              (name_kept other four).mp fourth⟩
  · cases read

end names

section rows
variable {newThreadId threadId : UuidText}

-- A dictionary of as many rows as were sent has come back with all of them.
theorem rows_back {κ ν μ : Type} [BEq κ] {d : Dict κ ν} {g : κ → ν → μ} {store : κ × ν → Option (List Char × Stored)}
    {readRow : List Nat × Decoded → Option (κ × μ)} {entries : List (List Char × Stored)} {copy : Decoded}
    (mapped : d.entries.mapM store = some entries) (yields : Yields newThreadId threadId (.dict entries) copy)
    (read : readRows readRow copy = some (d.mapValues g)) :
    ∀ row ∈ d.entries, ∃ entry, store row = some entry ∧
      ∃ out, YieldsEntry newThreadId threadId entry out ∧ readRow out = some (row.1,g row.1 row.2) := by
  obtain ⟨rows,each,decoded⟩ := (yields_dict entries copy).mp yields
  unfold readRows at read
  split at read
  · rename_i kept
    obtain ⟨results,back,stored⟩ := Option.map_eq_some_iff.mp read
    rw [Outcomes.mapM_some] at mapped back
    have held := bytesDecoder_dict decoded
    have sizes : (Dict.empty.update results).entries.length = rows.length := by
      rw [stored,Dict.entries_mapValues,List.length_map,mapped.length_eq,each.length_eq]
    have fewer := Dict.update_length (Dict.empty : Dict κ μ) results
    have fewer' := Dict.update_length (Dict.empty : Dict (List Nat) Decoded) rows
    have same := back.length_eq
    rw [held] at fewer'
    simp only [Dict.entries_empty,List.length_nil,Nat.zero_add] at fewer fewer'
    have rows_ : kept = rows := by
      rw [← held,Dict.update_full (by rw [held]; simp only [Dict.entries_empty,List.length_nil]; omega)]
      rfl
    have results_ : results = (d.mapValues g).entries := by
      rw [← stored,Dict.update_full (by simp only [Dict.entries_empty,List.length_nil]; omega)]
      rfl
    rw [rows_,results_] at back
    have joined := Outcomes.forall₂_through.mp ⟨entries,mapped,Outcomes.forall₂_through.mp ⟨rows,each,back⟩⟩
    rw [Dict.entries_mapValues,List.forall₂_map_right_iff,List.forall₂_same] at joined
    exact joined
  · cases read

theorem checkpoints_kept (other : threadId ≠ newThreadId) {row : String × Checkpoints} {entry : List Char × Stored}
    {out : List Nat × Decoded} (stored : storedCheckpoints row = some entry) (yields : YieldsEntry newThreadId threadId entry out)
    (read : readCheckpoints (fun _ => none) out =
      some (row.1,row.2.mapValues fun _ entry => carryEntry newThreadId threadId entry)) : KeptCheckpoints threadId row := by
  obtain ⟨entries,mapped,rfl⟩ := Option.map_eq_some_iff.mp stored
  obtain ⟨ns,back,read⟩ := Option.bind_eq_some_iff.mp read
  obtain ⟨checkpoints,held,read⟩ := Option.bind_eq_some_iff.mp read
  cases read
  refine ⟨(name_kept other yields.1).mp back,fun e member => ?_⟩
  obtain ⟨stored_,here,out_,came,read⟩ := rows_back mapped yields.2 held e member
  exact entry_kept other here came read

theorem namespaces_kept (other : threadId ≠ newThreadId) {namespaces : Dict String Checkpoints}
    (copied : copiedNamespaces (fun _ => none) newThreadId threadId namespaces =
      some (carryNamespaces newThreadId threadId namespaces)) : ∀ row ∈ namespaces.entries, KeptCheckpoints threadId row := by
  obtain ⟨data,stored,copied⟩ := Option.bind_eq_some_iff.mp copied
  obtain ⟨copy,ran,read⟩ := Option.bind_eq_some_iff.mp copied
  obtain ⟨entries,mapped,rfl⟩ := Option.map_eq_some_iff.mp stored
  have yields := replaced_yields ran
  intro row member
  obtain ⟨entry,here,out,came,read⟩ := rows_back mapped yields read row member
  exact checkpoints_kept other here came read

end rows

-- What is kept is intact, and what the saver's copy makes of it is carried.
section carried
variable {newThreadId threadId : UuidText}

theorem text_kept {name : String} (kept : Unnamed threadId name.toList) :
    (substitution newThreadId threadId).text name = name := by
  simp [substitution,replacedText,replaceAll_absent kept.1]

theorem typed_carried {value : Typed} (kept : Unnamed threadId value.type.toList) :
    replaceTyped (substitution newThreadId threadId) value = carryTyped newThreadId threadId value := by
  rw [replaceTyped,text_kept kept]
  rfl

theorem id_carried {id : CheckpointId} (kept : KeptId threadId id) : replaceId (substitution newThreadId threadId) id = some id := by
  cases id with
  | text value => rw [replaceId,text_kept kept]
  | uuid value => cases kept

theorem entry_carried {row : CheckpointId × Entry} (kept : KeptEntry threadId row) :
    replaceEntry (substitution newThreadId threadId) row = some (row.1,carryEntry newThreadId threadId row.2) := by
  have parent : replaceParent (substitution newThreadId threadId) row.2.parentId = some row.2.parentId := by
    cases held : row.2.parentId with
    | none => rfl
    | some id => rw [replaceParent,id_carried (kept.parentId id held)]; rfl
  simp only [replaceEntry,id_carried kept.id,parent,typed_carried kept.checkpoint,typed_carried kept.metadata,carryEntry]

theorem namespaces_carried {namespaces : Dict String Checkpoints} (kept : ∀ row ∈ namespaces.entries, KeptCheckpoints threadId row) :
    replaceNamespaces (substitution newThreadId threadId) namespaces = some (carryNamespaces newThreadId threadId namespaces) := by
  refine (stored_rows namespaces _ _).mpr fun row member => ?_
  have entries := (stored_rows row.2 (replaceEntry (substitution newThreadId threadId))
    fun _ entry => carryEntry newThreadId threadId entry).mpr fun e listed => entry_carried ((kept row member).entries e listed)
  obtain ⟨rows,mapped,same⟩ := Option.map_eq_some_iff.mp entries
  rw [replaceCheckpoints,mapped,Option.map_some,same,text_kept (kept row member).ns]

variable (newThreadId) in
theorem whole_kept {text : List Char} (kept : Unnamed threadId text) : Whole newThreadId threadId text := .inr kept.2

-- Names that are kept stay apart.
theorem dict_intact {κ ν : Type} [BEq κ] [LawfulBEq κ] {d : Dict κ ν} {store : κ × ν → Option (List Char × Stored)}
    {entries : List (List Char × Stored)} (name : κ → List Char) (mapped : d.entries.mapM store = some entries)
    (named : ∀ row ∈ d.entries, ∀ entry, store row = some entry → entry.1 = name row.1)
    (kept : ∀ row ∈ d.entries, Unnamed threadId (name row.1))
    (apart : ∀ row ∈ d.entries, ∀ row' ∈ d.entries, name row.1 = name row'.1 → row.1 = row'.1) :
    (Stored.dict entries).Intact newThreadId threadId := by
  have source : ∀ entry ∈ entries, ∃ row ∈ d.entries, entry.1 = name row.1 := by
    intro entry listed
    obtain ⟨row,member,here⟩ := Outcomes.mapM_source mapped listed
    exact ⟨row,member,named row member entry here⟩
  refine ⟨fun entry listed => ?_,?_⟩
  · obtain ⟨row,member,same⟩ := source entry listed
    rw [same]
    exact whole_kept newThreadId (kept row member)
  · have names : (entries.map fun entry => replacedText newThreadId threadId entry.1) = d.entries.map fun row => name row.1 := by
      have rows := Outcomes.mapM_some.mp mapped
      symm
      rw [← List.forall₂_eq_eq_eq,List.forall₂_map_left_iff,List.forall₂_map_right_iff]
      refine (List.forall₂_iff_get.mpr ⟨rows.length_eq,fun i here there => ?_⟩)
      have at_ := (List.forall₂_iff_get.mp rows).2 i here there
      have member := List.get_mem d.entries ⟨i,here⟩
      rw [named _ member _ at_,replacedText,replaceAll_absent (kept _ member).1]
    rw [names]
    refine List.Nodup.map_on (fun row member row' member' same => ?_) (d.keys_nodup.of_map _)
    have same := apart row member row' member' same
    exact Prod.ext same (Option.some.inj ((Dict.mem_iff.mp member).symm.trans (same ▸ Dict.mem_iff.mp member')))

theorem entry_intact {row : CheckpointId × Entry} {entry : List Char × Stored} (stored : storedEntry row = some entry)
    (kept : KeptEntry threadId row) : ∀ part ∈ entry.2.parts, part.Intact newThreadId threadId := by
  obtain ⟨name,_,stored⟩ := Option.bind_eq_some_iff.mp stored
  obtain ⟨parent,linked,rfl⟩ := Option.map_eq_some_iff.mp stored
  have parent_ : ∀ part ∈ parent.parts, part.Intact newThreadId threadId := by
    cases held : row.2.parentId with
    | none =>
      rw [held] at linked
      cases linked
      simp [Stored.parts,Stored.Intact]
    | some id =>
      rw [held] at linked
      cases id with
      | uuid value => cases linked
      | text value =>
        cases linked
        simpa [Stored.parts,Stored.Intact] using whole_kept newThreadId (kept.parentId _ held)
  have checkpoint := whole_kept newThreadId kept.checkpoint
  have metadata := whole_kept newThreadId kept.metadata
  simpa [storedTyped,Stored.parts,Stored.partsItems,Stored.Intact,checkpoint,metadata] using parent_

theorem namespaces_intact {namespaces : Dict String Checkpoints} (kept : ∀ row ∈ namespaces.entries, KeptCheckpoints threadId row)
    {data : Stored} (stored : storedNamespaces namespaces = some data) : ∀ part ∈ data.parts, part.Intact newThreadId threadId := by
  obtain ⟨entries,mapped,rfl⟩ := Option.map_eq_some_iff.mp stored
  simp only [Stored.parts,List.forall_mem_cons,forall_entries]
  refine ⟨dict_intact String.toList mapped (fun row _ entry here => ?_) (fun row member => (kept row member).ns)
    (fun _ _ _ _ same => String.toList_injective same),fun entry listed => ?_⟩
  · obtain ⟨rows,_,rfl⟩ := Option.map_eq_some_iff.mp here
    rfl
  · obtain ⟨row,member,here⟩ := Outcomes.mapM_source mapped listed
    obtain ⟨rows,mapped',rfl⟩ := Option.map_eq_some_iff.mp here
    simp only [Stored.parts,List.forall_mem_cons,forall_entries]
    have texts : ∀ e ∈ row.2.entries, e.1 = .text e.1.str := by
      intro e held
      cases id : e.1 with
      | text value => rfl
      | uuid value =>
        have named := ((kept row member).entries e held).id
        rw [id] at named
        cases named
    refine ⟨dict_intact (fun id : CheckpointId => id.str.toList) mapped' (fun e _ entry came => (storedEntry_named came).2) (fun e held => ?_)
      (fun e held e' held' same => ?_),fun entry held => ?_⟩
    · have named := ((kept row member).entries e held).id
      rw [texts e held] at named
      exact named
    · rw [texts e held,texts e' held',String.toList_injective same]
    · obtain ⟨e,listed',came⟩ := Outcomes.mapM_source mapped' held
      exact entry_intact came ((kept row member).entries e listed')

theorem write_intact {write : Write} (kept : KeptWrite threadId write) :
    ∀ part ∈ (storedWrite write).parts, part.Intact newThreadId threadId := by
  have taskId := whole_kept newThreadId kept.taskId
  have channel := whole_kept newThreadId kept.channel
  have value := whole_kept newThreadId kept.value
  have taskPath := whole_kept newThreadId kept.taskPath
  simp [storedWrite,storedTyped,Stored.parts,Stored.partsItems,Stored.Intact,taskId,channel,value,taskPath]

end carried

-- What `_replace_thread_id` makes of a thread is carried exactly where all names are kept.
section contents
variable {newThreadId threadId : UuidText} {s copy : Saver} {source target : UuidText}

theorem copiedNamespaces_kept (other : threadId ≠ newThreadId) (namespaces : Dict String Checkpoints) :
    copiedNamespaces (fun _ => none) newThreadId threadId namespaces = some (carryNamespaces newThreadId threadId namespaces) ↔
      ∀ row ∈ namespaces.entries, KeptCheckpoints threadId row := by
  constructor
  · exact namespaces_kept other
  · intro kept
    rw [copiedNamespaces_intact _ fun data stored => namespaces_intact kept stored]
    exact namespaces_carried kept

theorem copiedWrite_kept (other : threadId ≠ newThreadId) (write : Write) :
    copiedWrite (fun _ => none) newThreadId threadId write = some (carryWrite newThreadId threadId write) ↔ KeptWrite threadId write := by
  constructor
  · exact write_kept other
  · intro kept
    rw [copiedWrite_intact _ (write_intact kept),replaceWrite,text_kept kept.taskId,text_kept kept.channel,text_kept kept.taskPath,
      typed_carried kept.value]
    rfl

theorem copiedGroup_kept (other : threadId ≠ newThreadId) (group : WriteGroup) :
    copiedGroup (fun _ => none) newThreadId threadId group = some (carryGroup newThreadId threadId group) ↔
      ∀ e ∈ group.entries, KeptWrite threadId e.2 := by
  rw [carryGroup,copiedGroup_some]
  exact forall₂_congr fun e _ => copiedWrite_kept other e.2

-- The groups of the source as they come back are carried where names are kept.
theorem groups_kept (other : source ≠ target) (kept : ∀ row ∈ s.writes.entries, row.1.threadId = source.str →
    ∀ e ∈ row.2.entries, KeptWrite source e.2) :
    ((s.writes.entries.filter fun row => row.1.threadId == source.str).mapM fun row =>
      (copiedGroup (fun _ => none) target source row.2).map (Prod.mk {row.1 with threadId := target.str})) =
      some ((s.writes.entries.filter fun row => row.1.threadId == source.str).map fun row =>
        ({row.1 with threadId := target.str},carryGroup target source row.2)) := by
  rw [Outcomes.mapM_some,List.forall₂_map_right_iff,List.forall₂_same]
  intro row member
  obtain ⟨listed,mine⟩ := List.mem_filter.mp member
  rw [(copiedGroup_kept other row.2).mpr (kept row listed (eq_of_beq mine))]
  rfl

-- Equal groups under the new id have come from writes whose names were kept.
theorem same_kept (unused : UnusedTarget s source.str target.str) (other : source ≠ target) (copied : copyThread s source target = some copy)
    (same : ∀ ns id, copy.writes.get? ⟨target.str,ns,id⟩ = (putBuilt s source target).writes.get? ⟨target.str,ns,id⟩) :
    ∀ row ∈ s.writes.entries, row.1.threadId = source.str → ∀ e ∈ row.2.entries, KeptWrite source e.2 := by
  intro row member mine
  obtain ⟨_,mapped,_,groups,_,writes,_⟩ := copyThread_fields copied
  have listed : row ∈ s.writes.entries.filter fun row => row.1.threadId == source.str := List.mem_filter.mpr ⟨member,by simp [mine]⟩
  -- What came back, written as a function of the row, is what `retarget_entries` asks for.
  have rows : mapped = (s.writes.entries.filter fun row => row.1.threadId == source.str).map fun row =>
      ({row.1 with threadId := target.str},(copiedGroup (fun _ => none) target source row.2).getD .empty) := by
    rw [Outcomes.mapM_some] at groups
    symm
    rw [← List.forall₂_eq_eq_eq,List.forall₂_map_left_iff]
    refine groups.imp fun row back came => ?_
    obtain ⟨group,held,rfl⟩ := Option.map_eq_some_iff.mp came
    rw [held,Option.getD_some]
  have stored := fun rewrite_ => SizeCopy.retarget_entries source.str WriteKey.threadId
    (fun key => {key with threadId := target.str}) rewrite_ s.writes SizeCopy.writeKey_apart (SizeCopy.writeKey_fresh unused.writes)
  have left : copy.writes.get? {row.1 with threadId := target.str} =
      some ((copiedGroup (fun _ => none) target source row.2).getD .empty) := by
    rw [writes,rows,← Dict.mem_iff,stored fun group => (copiedGroup (fun _ => none) target source group).getD .empty]
    exact List.mem_append_right _ (List.mem_map.mpr ⟨row,listed,rfl⟩)
  have right : (putBuilt s source target).writes.get? {row.1 with threadId := target.str} = some (carryGroup target source row.2) := by
    rw [putBuilt,← Dict.mem_iff,stored (carryGroup target source)]
    exact List.mem_append_right _ (List.mem_map.mpr ⟨row,listed,rfl⟩)
  rw [same,right] at left
  refine (copiedGroup_kept other row.2).mp ?_
  obtain ⟨back,_,came⟩ : ∃ back ∈ mapped, (copiedGroup (fun _ => none) target source row.2).map
      (Prod.mk {row.1 with threadId := target.str}) = some back := Outcomes.mapM_result groups listed
  obtain ⟨group,held,_⟩ := Option.map_eq_some_iff.mp came
  rw [held,Option.getD_some] at left
  rw [held,Option.some.inj left]

-- Nothing is ever stored under the source's id.
theorem source_kept (unused : UnusedTarget s source.str target.str) (copied : copyThread s source target = some copy) :
    SameThread source.str copy s := by
  obtain ⟨dict,mapped,_,groups,storage,writes,blobs⟩ := copyThread_fields copied
  have apart : (target.str == source.str) = false := by simpa using unused.other.symm
  refine ⟨?_,fun ns id => ?_,fun ns channel version => ?_⟩
  · simp only [Saver.namespaces,storage,Dict.get?_insert_other apart,Dict.get?_insert_self,Option.getD_some]
  · rw [writes]
    refine Dict.get?_update_other fun row member => Bool.eq_false_iff.mpr fun clash => ?_
    exact unused.other ((mapped_target groups member).symm.trans (congrArg WriteKey.threadId (eq_of_beq clash))).symm
  · rw [blobs]
    refine Dict.get?_update_other fun row member => Bool.eq_false_iff.mpr fun clash => ?_
    obtain ⟨old,_,rfl⟩ := List.mem_map.mp member
    exact unused.other (blobKey_beq.mp clash).1.symm

theorem putBuilt_dict : ((putBuilt s source target).namespaces target.str).dict =
    carryNamespaces target source (s.namespaces source.str).dict := by
  simp only [Saver.namespaces,putBuilt,Dict.get?_insert_self,Option.getD_some]

theorem copy_made (other : source ≠ target) (copyable : Copyable s source) : ∃ copy, copyThread s source target = some copy := by
  simp only [copyThread,CopiedThreads.copyThread,(copiedNamespaces_kept other _).mpr copyable.namespaces,
    groups_kept other copyable.writes]
  exact ⟨_,rfl⟩

theorem copy_alike (other : source ≠ target) (copied : copyThread s source target = some copy) (copyable : Copyable s source) :
    Alike target.str (s.namespaces source.str).dict.keys copy (putBuilt s source target) := by
  obtain ⟨dict,mapped,namespaces,groups,storage,writes,blobs⟩ := copyThread_fields copied
  rw [(copiedNamespaces_kept other _).mpr copyable.namespaces] at namespaces
  rw [groups_kept other copyable.writes] at groups
  cases Option.some.inj namespaces
  cases Option.some.inj groups
  refine ⟨⟨_,by rw [storage,Dict.get?_insert_self],by rw [putBuilt,Dict.get?_insert_self],fun ns => ?_⟩,writes,blobs⟩
  rw [Dict.mem_keys]
  simp [Dict.contains,carryNamespaces]

end contents

-- Exactly then a copied thread is as good as one that the saver built: its
-- source holds no id that is an object and no name that contains its own id,
-- and the copy is used in no namespace that the source did not have.
theorem copies_faithful {J : Type} (base : Base J) (s : Saver) (source target : UuidText) (calls : List (SaverCall J))
    (unused : UnusedTarget s source.str target.str) :
    Faithful base s source target calls ↔
      Copyable s source ∧ ∀ call ∈ calls, call.Within (s.namespaces source.str).dict.keys := by
  have other : source ≠ target := fun same => unused.other (congrArg UuidText.str same)
  constructor
  · intro ⟨copy,copied,_,same,answered⟩
    obtain ⟨dict,_,namespaces,_,storage,_,_⟩ := copyThread_fields copied
    have held : (copy.namespaces target.str).dict = dict := by
      simp only [Saver.namespaces,storage,Dict.get?_insert_self,Option.getD_some]
    rw [← held,same.dict,putBuilt_dict] at namespaces
    have copyable : Copyable s source :=
      ⟨(copiedNamespaces_kept other _).mp namespaces,same_kept unused other copied same.writes⟩
    exact ⟨copyable,(answers_same (copy_alike other copied copyable) calls).mp answered⟩
  · intro ⟨copyable,held⟩
    obtain ⟨copy,copied⟩ := copy_made other copyable
    have alike := copy_alike other copied copyable
    obtain ⟨dict,left,right,_⟩ := alike.storage
    refine ⟨copy,copied,source_kept unused copied,⟨?_,fun _ _ => ?_,fun _ _ _ => ?_⟩,(answers_same alike calls).mpr held⟩
    · simp only [Saver.namespaces,left,right,Option.getD_some]
    · rw [alike.writes]
    · rw [alike.blobs]

def toyCall : SaverCall (List UInt8) :=
  .put ⟨"u","",none,.empty,.empty⟩ ⟨.text "b",Dict.empty.insert "messages" [5],[3]⟩ .empty (Dict.empty.insert "messages" (.int 2))

def toySource : Saver :=
  ((put (max 0) SizeExact.toyBase clear ⟨toyThread.str,"",none,.empty,.empty⟩ ⟨.text "a",Dict.empty.insert "messages" [1],[2]⟩ .empty
    (Dict.empty.insert "messages" (.int 1))).getD clear)

theorem copies_faithful_toy : Faithful SizeExact.toyBase toySource toyThread toyCopy
    [toyCall,.putWrites "other" (.text "b") [] "task" "",.getTuple "" none] := by
  have names : (toySource.namespaces toyThread.str).dict.keys = [""] := by decide +kernel
  have roots : ∀ row ∈ (toySource.namespaces toyThread.str).dict.entries, row.1 = "" ∧ ∀ e ∈ row.2.entries,
      e.1 = .text "a" ∧ e.2.parentId = none ∧ e.2.checkpoint.type = "msgpack" ∧ e.2.metadata.type = "json" := by decide +kernel
  have kept : ∀ text ∈ ["","a","msgpack","json"], Unnamed toyThread text.toList := by decide +kernel
  refine (copies_faithful _ _ _ _ _ ⟨by decide +kernel,by decide +kernel,by decide +kernel⟩).mpr
    ⟨⟨fun row member => ?_,fun row member => ?_⟩,?_⟩
  · obtain ⟨ns,entries⟩ := roots row member
    refine ⟨by rw [ns]; exact kept "" (by simp),fun e listed => ?_⟩
    obtain ⟨id,parentId,checkpoint,metadata⟩ := entries e listed
    refine ⟨by rw [id]; exact kept "a" (by simp),fun parent linked => ?_,?_,?_⟩
    · rw [parentId] at linked
      cases linked
    · rw [checkpoint]
      exact kept "msgpack" (by simp)
    · rw [metadata]
      exact kept "json" (by simp)
  · cases (show row ∈ [] from member)
  · rw [names]
    exact List.forall_mem_cons.mpr ⟨by simp [toyCall,SaverCall.Within],by simp [SaverCall.Within]⟩

-- A thread that was copied before its first run: the copy's first `put` fails.
theorem copy_unusable : ¬Faithful SizeExact.toyBase clear toyThread toyCopy [toyCall] := by
  intro ⟨copy,copied,_,_,same⟩
  have copyable : Copyable clear toyThread := ⟨fun _ member => (by cases member),fun _ member => (by cases member)⟩
  have held := (answers_same (copy_alike (by decide +kernel) copied copyable) [toyCall]).mp same
  cases held toyCall List.mem_cons_self

end InmemRuntime.CopyFidelity
