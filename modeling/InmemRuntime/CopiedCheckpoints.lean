import InmemRuntime.IdReplacement
import InmemRuntime.ThreadCopy

namespace InmemRuntime.CopiedCheckpoints
open TextReplace JsonString OrderedDict CheckpointData CheckpointSaver ThreadCopy UuidTexts IdReplacement

theorem ofList_size (text : List Char) : (String.ofList text).utf8ByteSize = (text.map Char.utf8Size).sum := by
  induction text with
  | nil => rfl
  | cons c text ih =>
    rw [String.ofList_cons]
    simp [ih]

-- What replacing the id does to texts and to bytes keeps their lengths.
def substitution (newThreadId threadId : UuidText) : IdSubstitution where
  text value := String.ofList (replacedText newThreadId threadId value.toList)
  data := replaceBytes threadId newThreadId
  text_length value := by
    rw [ofList_size,replacedText,replaceText_size,← ofList_size,String.ofList_toList]
  data_length := replaceBytes_length threadId newThreadId

-- The values that `Threads.copy` sends through JSON, as the saver holds them. A
-- `UUID` among the ids cannot be encoded.
section stored

def storedTyped (value : Typed) : Stored := .tuple [.str value.type.toList,.bytes value.data]

def storedId : CheckpointId → Option (List Char)
  | .text value => some value.toList
  | .uuid _ => none

def storedParent : Option CheckpointId → Option Stored
  | some id => (storedId id).map .str
  | none => some .none

def storedEntry (row : CheckpointId × Entry) : Option (List Char × Stored) :=
  (storedId row.1).bind fun id => (storedParent row.2.parentId).map fun parent =>
    (id,.tuple [storedTyped row.2.checkpoint,storedTyped row.2.metadata,parent])

def storedCheckpoints (row : String × Checkpoints) : Option (List Char × Stored) :=
  (row.2.entries.mapM storedEntry).map fun entries => (row.1.toList,.dict entries)

def storedNamespaces (namespaces : Dict String Checkpoints) : Option Stored :=
  (namespaces.entries.mapM storedCheckpoints).map .dict

def storedWrite (write : Write) : Stored :=
  .tuple [.str write.taskId.toList,.str write.channel.toList,storedTyped write.value,.str write.taskPath.toList]

end stored

-- The same values as JSON gives them back.
section decoded

def decodedStr (value : String) : Decoded := .str (codes value.toList)

def decodedTyped (value : Typed) : Decoded := .list [decodedStr value.type,.bytes value.data]

def decodedEntry (row : CheckpointId × Entry) : List Nat × Decoded :=
  (codes row.1.str.toList,.list [decodedTyped row.2.checkpoint,decodedTyped row.2.metadata,
    row.2.parentId.elim .none fun id => decodedStr id.str])

def decodedCheckpoints (row : String × Checkpoints) : List Nat × Decoded :=
  (codes row.1.toList,.dict (row.2.entries.map decodedEntry))

def decodedNamespaces (namespaces : Dict String Checkpoints) : Decoded := .dict (namespaces.entries.map decodedCheckpoints)

def decodedWrite (write : Write) : Decoded :=
  .list [decodedStr write.taskId,decodedStr write.channel,decodedTyped write.value,decodedStr write.taskPath]

end decoded

def entrySizes (row : String × Checkpoints) : List Int := row.2.entries.map fun entry => checkpointEntrySize entry.1 entry.2

-- Two ways through the rows of a dictionary that agree on each row.
theorem mapM_follow {α β γ δ ε : Type} {f : α → Option β} {g : α → Option γ} {shown : β → δ} {shown' : γ → δ} {size : α → ε}
    {size' : γ → ε} {rows : List α} {found : List β} (mapped : rows.mapM f = some found)
    (each : ∀ row ∈ rows, ∀ b ∈ found, f row = some b → ∃ c, g row = some c ∧ shown b = shown' c ∧ size' c = size row) :
    ∃ copies, rows.mapM g = some copies ∧ found.map shown = copies.map shown' ∧ copies.map size' = rows.map size := by
  simp only [Outcomes.mapM_some] at mapped ⊢
  induction mapped with
  | nil => exact ⟨[],.nil,rfl,rfl⟩
  | cons here _ ih =>
    obtain ⟨c,first,same,weight⟩ := each _ List.mem_cons_self _ List.mem_cons_self here
    obtain ⟨copies,others,same',weight'⟩ := ih fun row listed b member =>
      each row (List.mem_cons_of_mem _ listed) b (List.mem_cons_of_mem _ member)
    exact ⟨c :: copies,.cons first others,congrArg₂ List.cons same same',congrArg₂ List.cons weight weight'⟩

section copies
variable {newThreadId threadId : UuidText}

theorem replaced_str (value : String) :
    replaced newThreadId threadId (.str value.toList) = decodedStr ((substitution newThreadId threadId).text value) := by
  simp [replaced,decodedStr,substitution]

theorem replaced_typed (value : Typed) :
    replaced newThreadId threadId (storedTyped value) = decodedTyped (replaceTyped (substitution newThreadId threadId) value) := by
  simp [storedTyped,replaced,replacedItems,decodedTyped,decodedStr,replaceTyped,substitution]

variable (newThreadId threadId) in
theorem replaced_parent {parent : Option CheckpointId} {value : Stored} (stored : storedParent parent = some value) :
    ∃ copy, replaceParent (substitution newThreadId threadId) parent = some copy ∧
      replaced newThreadId threadId value = copy.elim .none fun id => decodedStr id.str := by
  cases parent with
  | none =>
    cases stored
    exact ⟨none,rfl,rfl⟩
  | some id =>
    cases id with
    | text text =>
      cases stored
      exact ⟨some (.text ((substitution newThreadId threadId).text text)),rfl,replaced_str text⟩
    | uuid text => cases stored

variable (newThreadId threadId) in
theorem entry_copied {row : CheckpointId × Entry} {entry : List Char × Stored} (stored : storedEntry row = some entry) :
    ∃ copy, replaceEntry (substitution newThreadId threadId) row = some copy ∧
      replacedEntry newThreadId threadId entry = decodedEntry copy ∧
      checkpointEntrySize copy.1 copy.2 = checkpointEntrySize row.1 row.2 := by
  obtain ⟨id,⟨checkpoint,metadata,parentId⟩⟩ := row
  obtain ⟨name,named,stored⟩ := Option.bind_eq_some_iff.mp stored
  obtain ⟨parent,linked,rfl⟩ := Option.map_eq_some_iff.mp stored
  obtain ⟨copy,replaced_,shown⟩ := replaced_parent newThreadId threadId linked
  cases id with
  | uuid text => cases named
  | text text =>
    cases named
    have made : replaceEntry (substitution newThreadId threadId) (.text text,⟨checkpoint,metadata,parentId⟩) = some
        (.text ((substitution newThreadId threadId).text text),⟨replaceTyped (substitution newThreadId threadId) checkpoint,
          replaceTyped (substitution newThreadId threadId) metadata,copy⟩) := by
      simp only [replaceEntry,replaceId,replaced_]
    refine ⟨_,made,?_,(replaceEntry_parts made).2⟩
    simp only [replacedEntry,decodedEntry,replaced,replacedItems,replaced_typed,shown,CheckpointId.str]
    simp [substitution]

theorem keys_apart {entries : List (List Char × Stored)} (intact : (Stored.dict entries).Intact newThreadId threadId) :
    ((entries.map (replacedEntry newThreadId threadId)).map Prod.fst).Nodup := by
  rw [replacedEntry_keys,List.nodup_map_iff codes_injective]
  exact intact.2

theorem checkpoints_copied {row : String × Checkpoints} {entry : List Char × Stored} (stored : storedCheckpoints row = some entry)
    (intact : ∀ part ∈ entry.2.parts, part.Intact newThreadId threadId) :
    ∃ copy, replaceCheckpoints (substitution newThreadId threadId) row = some copy ∧
      replacedEntry newThreadId threadId entry = decodedCheckpoints copy ∧ entrySizes copy = entrySizes row := by
  obtain ⟨entries,mapped,rfl⟩ := Option.map_eq_some_iff.mp stored
  obtain ⟨copies,made,shown,sizes⟩ := mapM_follow mapped fun row _ entry _ here => entry_copied newThreadId threadId here
  have distinct : (copies.map fun copy => codes copy.1.str.toList).Nodup := by
    have apart := keys_apart (intact _ List.mem_cons_self)
    rw [shown,List.map_map] at apart
    exact apart
  have kept := dict_copied (fun id : CheckpointId => codes id.str.toList) distinct
  refine ⟨_,by rw [replaceCheckpoints,made]; rfl,?_,?_⟩
  · simp only [replacedEntry,decodedCheckpoints,replaced,replacedEntries_map,shown,kept]
    simp [substitution]
  · rw [entrySizes,entrySizes,kept,sizes]

theorem namespaces_copied {namespaces : Dict String Checkpoints} {data : Stored} (stored : storedNamespaces namespaces = some data)
    (intact : ∀ part ∈ data.parts, part.Intact newThreadId threadId) :
    ∃ copied, replaceNamespaces (substitution newThreadId threadId) namespaces = some copied ∧
      replaced newThreadId threadId data = decodedNamespaces copied ∧
      copied.entries.map entrySizes = namespaces.entries.map entrySizes := by
  obtain ⟨entries,mapped,rfl⟩ := Option.map_eq_some_iff.mp stored
  have later : ∀ entry ∈ entries, ∀ part ∈ entry.2.parts, part.Intact newThreadId threadId := by
    simp only [Stored.parts,List.forall_mem_cons,forall_entries] at intact
    exact intact.2
  obtain ⟨copies,made,shown,sizes⟩ := mapM_follow mapped fun row _ entry listed here => checkpoints_copied here (later entry listed)
  have distinct : (copies.map fun copy => codes copy.1.toList).Nodup := by
    have apart := keys_apart (intact _ List.mem_cons_self)
    rw [shown,List.map_map] at apart
    exact apart
  have kept := dict_copied (fun ns : String => codes ns.toList) distinct
  refine ⟨_,by rw [replaceNamespaces,made]; rfl,?_,?_⟩
  · simp only [replaced,replacedEntries_map,shown,decodedNamespaces,kept]
  · rw [kept,sizes]

theorem write_copied (write : Write) (key : String × Int) :
    replaced newThreadId threadId (storedWrite write) = decodedWrite (replaceWrite (substitution newThreadId threadId) write) ∧
      writeSize key (replaceWrite (substitution newThreadId threadId) write) = writeSize key write := by
  constructor
  · simp only [storedWrite,replaced,replacedItems,replaced_typed,decodedWrite,replaceWrite]
    simp [decodedStr,substitution]
  · simp [writeSize,replaceWrite,replaceTyped_size,componentSize,(substitution newThreadId threadId).text_length]

end copies

-- Exactly when every part is intact does the code give the value with the id
-- replaced in it, of the same lengths; a thread's checkpoints and pending writes
-- are then those that the saver's copy has, with the sizes that are tracked.
theorem substitution_exact (newThreadId threadId : UuidText) :
    (∀ data : StoredData, Substitutes newThreadId threadId data.value ↔
      ∀ part ∈ data.value.parts, part.Intact newThreadId threadId) ∧
    (∀ (data : StoredData) (namespaces : Dict String Checkpoints), storedNamespaces namespaces = some data.value →
      (∀ part ∈ data.value.parts, part.Intact newThreadId threadId) →
      ∃ copied, replaceNamespaces (substitution newThreadId threadId) namespaces = some copied ∧
        replaceThreadId data.value newThreadId threadId = .ok (decodedNamespaces copied) ∧
        copied.entries.map entrySizes = namespaces.entries.map entrySizes) ∧
    ∀ write : Write, (∀ part ∈ (storedWrite write).parts, part.Intact newThreadId threadId) →
      replaceThreadId (storedWrite write) newThreadId threadId =
        .ok (decodedWrite (replaceWrite (substitution newThreadId threadId) write)) ∧
      ∀ key, writeSize key (replaceWrite (substitution newThreadId threadId) write) = writeSize key write := by
  refine ⟨substitutes_iff newThreadId threadId,fun data namespaces stored intact => ?_,fun write intact => ?_⟩
  · obtain ⟨copied,made,shown,sizes⟩ := namespaces_copied stored intact
    obtain ⟨_,ran,rfl,_⟩ := (substitutes_iff newThreadId threadId data).mpr intact
    exact ⟨copied,made,by rw [ran,shown],sizes⟩
  · have proper : ∀ part ∈ (storedWrite write).parts, part.Proper := by
      simp [storedWrite,storedTyped,Stored.parts,Stored.partsItems,Stored.Proper]
    obtain ⟨_,ran,rfl,_⟩ := (substitutes_iff newThreadId threadId ⟨storedWrite write,proper⟩).mpr intact
    exact ⟨by rw [ran,(write_copied write ("",0)).1],fun key => (write_copied write key).2⟩

def toyThread : UuidText := ⟨"00e90000-0000-4000-8000-000000000000".toList,by decide +kernel⟩

def toyCopy : UuidText := ⟨"3f2b0000-0000-4000-8000-00000000001a".toList,by decide +kernel⟩

def toyNamespaces : Dict String Checkpoints :=
  Dict.empty.insert "" (Dict.empty.insert (.text "c")
    ⟨⟨"msgpack",120 :: encode toyThread.text⟩,⟨"json",encode (toyThread.text ++ ['\u00e9'])⟩,some (.text (String.ofList toyThread.text))⟩)

def toyWrite : Write := ⟨"t",String.ofList ('\u00e9' :: toyThread.text),⟨"json",encode toyThread.text⟩,""⟩

def toyData : StoredData := ⟨(storedNamespaces toyNamespaces).getD .none,by decide +kernel⟩

theorem substitution_exact_toy : Substitutes toyCopy toyThread toyData.value ∧
    (∃ copied, replaceNamespaces (substitution toyCopy toyThread) toyNamespaces = some copied ∧
      replaceThreadId toyData.value toyCopy toyThread = .ok (decodedNamespaces copied) ∧
      copied.entries.map entrySizes = toyNamespaces.entries.map entrySizes) ∧
    replaceThreadId (storedWrite toyWrite) toyCopy toyThread = .ok (decodedWrite (replaceWrite (substitution toyCopy toyThread) toyWrite)) ∧
      ∀ key, writeSize key (replaceWrite (substitution toyCopy toyThread) toyWrite) = writeSize key toyWrite := by
  obtain ⟨exact_,namespaces,writes⟩ := substitution_exact toyCopy toyThread
  have intact : ∀ part ∈ toyData.value.parts, part.Intact toyCopy toyThread := by decide +kernel
  exact ⟨(exact_ toyData).mpr intact,namespaces toyData toyNamespaces rfl intact,writes toyWrite (by decide +kernel)⟩

-- After an accented letter the end of an id completes an escape to the id.
def accented : StoredData := ⟨.str ('\u00e9' :: toyThread.text.drop 4),by decide +kernel⟩

theorem accent_overrun : replaceThreadId accented.value toyCopy toyThread = .ok (.str (0x3f2b :: codes (toyCopy.text.drop 4))) ∧
    ¬Substitutes toyCopy toyThread accented.value := by
  have read : readText toyCopy toyThread ('\u00e9' :: toyThread.text.drop 4) = some (0x3f2b :: codes (toyCopy.text.drop 4)) := by
    decide +kernel
  have ran : replaceThreadId accented.value toyCopy toyThread = .ok (.str (0x3f2b :: codes (toyCopy.text.drop 4))) := by
    refine (replaceThreadId_yields toyCopy toyThread accented.value _).mpr ⟨by decide +kernel,.str _,?_,rfl⟩
    simp only [accented,toJson,readJson,JsonText.Json.traverse,read,Option.map_some]
  refine ⟨ran,?_⟩
  rintro ⟨copy,ran',same,_⟩
  rw [ran,same] at ran'
  injection ran' with whole
  injection whole with value
  exact absurd value (by decide +kernel)

end InmemRuntime.CopiedCheckpoints
