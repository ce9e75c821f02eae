import InmemRuntime.UuidTexts
import InmemRuntime.PythonInt
import InmemRuntime.Base64
import InmemRuntime.OrderedDict
import InmemRuntime.Outcomes
import Mathlib.Data.List.Nodup

namespace InmemRuntime.IdReplacement
open TextReplace JsonString JsonText Base64 OrderedDict Outcomes UuidTexts
open PythonInt (maxStrDigits)

-- What checkpoint storage and pending writes hold: a `str` is its characters.
inductive Stored where
  | none
  | bool (value : Bool)
  | int (value : Int)
  | str (value : List Char)
  | bytes (value : List UInt8)
  | list (items : List Stored)
  | tuple (items : List Stored)
  | dict (entries : List (List Char × Stored))

-- What comes back from JSON: a `str` may hold a surrogate without its partner,
-- so that it is its code points.
inductive Decoded where
  | none
  | bool (value : Bool)
  | int (value : Int)
  | float (text : List Char)
  | str (value : List Nat)
  | bytes (value : List UInt8)
  | list (items : List Decoded)
  | dict (entries : List (List Nat × Decoded))

-- `value` is the `ValueError` in place of an encoding error, `decode` an error of
-- `json.loads`; the others are errors of `bytes_decoder`.
inductive Fault where
  | value
  | decode
  | key
  | attribute
  | unicode
  | base64
deriving DecidableEq,Repr

def typeKey : List Char := ['_','_','t','y','p','e','_','_']

def bytesName : List Char := ['b','y','t','e','s']

def valueKey : List Char := ['v','a','l','u','e']

def intDigits (value : Int) : Nat := (Nat.toDigits 10 value.natAbs).length

-- The text of bytes that are ASCII.
def ascii (data : List UInt8) : List Char := data.map fun byte => Char.ofNat byte.toNat

section encoding
variable (newThreadId threadId : UuidText)

def bytesEncoder (obj : List UInt8) : Json (List Char) Int :=
  .obj [(typeKey,.str bytesName),(valueKey,.str (ascii (b64encode (replaceBytes threadId newThreadId obj))))]

mutual
def toJson : Stored → Json (List Char) Int
  | .none => .null
  | .bool value => .bool value
  | .int value => .num value
  | .str value => .str value
  | .bytes value => bytesEncoder newThreadId threadId value
  | .list items | .tuple items => .arr (toJsonItems items)
  | .dict entries => .obj (toJsonEntries entries)
def toJsonItems : List Stored → List (Json (List Char) Int)
  | [] => []
  | item :: rest => toJson item :: toJsonItems rest
def toJsonEntries : List (List Char × Stored) → List (List Char × Json (List Char) Int)
  | [] => []
  | (key,value) :: rest => (key,toJson value) :: toJsonEntries rest
end

end encoding

-- A value together with everything inside it.
mutual
def Stored.parts : Stored → List Stored
  | .list items => .list items :: Stored.partsItems items
  | .tuple items => .tuple items :: Stored.partsItems items
  | .dict entries => .dict entries :: Stored.partsEntries entries
  | value => [value]
def Stored.partsItems : List Stored → List Stored
  | [] => []
  | item :: rest => item.parts ++ Stored.partsItems rest
def Stored.partsEntries : List (List Char × Stored) → List Stored
  | [] => []
  | (_,value) :: rest => value.parts ++ Stored.partsEntries rest
end

-- `int.__repr__` refuses numbers with too many digits.
def Stored.printable : Stored → Bool
  | .int value => decide (intDigits value ≤ maxStrDigits)
  | _ => true

-- `json.dumps(data,cls=BytesEncoder,indent=2)`.
def dumps (data : Stored) (newThreadId threadId : UuidText) : Option (List Char) :=
  if data.parts.all Stored.printable then some (render (escapeAll escape) 0 (toJson newThreadId threadId data)) else Option.none

section decoding

def Decoded.isText (text : List Char) : Decoded → Bool
  | .str value => value == codes text
  | _ => false

-- `text.encode("utf-8")`; a surrogate has no encoding.
def encodeCodes (value : List Nat) : Option (List UInt8) :=
  if value.all fun code => decide code.isValidChar then some (encode (value.map Char.ofNat)) else Option.none

def decodeValue : Option Decoded → Except Fault Decoded
  | Option.none => .error .key
  | some (.str value) => match encodeCodes value with
    | Option.none => .error .unicode
    | some text => match b64decode text with
      | Option.none => .error .base64
      | some data => .ok (.bytes data)
  | some _ => .error .attribute

def bytesDecoder (obj : Dict (List Nat) Decoded) : Except Fault Decoded :=
  if (obj.get? (codes typeKey)).any (Decoded.isText bytesName) then decodeValue (obj.get? (codes valueKey)) else .ok (.dict obj.entries)

-- The values of a document as `json.loads` builds them with the hook: a key that
-- comes again keeps its place and takes the later value.
mutual
def restore : Json (List Nat) Number → Except Fault Decoded
  | .null => .ok .none
  | .bool value => .ok (.bool value)
  | .num (.int value) => .ok (.int value)
  | .num (.float text) => .ok (.float text)
  | .str value => .ok (.str value)
  | .arr items => (restoreItems items).map .list
  | .obj fields => (restoreFields fields).bind fun rows => bytesDecoder (Dict.empty.update rows)
def restoreItems : List (Json (List Nat) Number) → Except Fault (List Decoded)
  | [] => .ok []
  | item :: rest => (restore item).bind fun read => (restoreItems rest).map (read :: ·)
def restoreFields : List (List Nat × Json (List Nat) Number) → Except Fault (List (List Nat × Decoded))
  | [] => .ok []
  | (key,value) :: rest => (restore value).bind fun read => (restoreFields rest).map ((key,read) :: ·)
end

end decoding

def replaceThreadId (data : Stored) (newThreadId threadId : UuidText) : Except Fault Decoded :=
  match dumps data newThreadId threadId with
  | Option.none => .error .value
  | some jsonStr => match loads maxStrDigits (replaceAll threadId.text newThreadId.text jsonStr) with
    | Option.none => .error .decode
    | some document => restore document

mutual
def Decoded.parts : Decoded → List Decoded
  | .list items => .list items :: Decoded.partsItems items
  | .dict entries => .dict entries :: Decoded.partsEntries entries
  | value => [value]
def Decoded.partsItems : List Decoded → List Decoded
  | [] => []
  | item :: rest => item.parts ++ Decoded.partsItems rest
def Decoded.partsEntries : List (List Nat × Decoded) → List Decoded
  | [] => []
  | (_,value) :: rest => value.parts ++ Decoded.partsEntries rest
end

-- The lengths of the strings and of the byte strings of a value, in their order:
-- the items that Python counts and the bytes that `_component_size` does.
def textSizes (text : List Char) : Nat × Nat := (text.length,(text.map Char.utf8Size).sum)

def codesSizes (value : List Nat) : Nat × Nat := (value.length,(value.map fun code => (Char.ofNat code).utf8Size).sum)

def Stored.ownSizes : Stored → List (Nat × Nat)
  | .str value => [textSizes value]
  | .bytes value => [(value.length,value.length)]
  | .dict entries => entries.map fun entry => textSizes entry.1
  | _ => []

def Decoded.ownSizes : Decoded → List (Nat × Nat)
  | .str value => [codesSizes value]
  | .bytes value => [(value.length,value.length)]
  | .dict entries => entries.map fun entry => codesSizes entry.1
  | _ => []

def Stored.sizes (data : Stored) : List (Nat × Nat) := data.parts.flatMap Stored.ownSizes

def Decoded.sizes (data : Decoded) : List (Nat × Nat) := data.parts.flatMap Decoded.ownSizes

-- A dictionary as Python has it, and none that `bytes_decoder` could take for bytes.
def Stored.Proper : Stored → Prop
  | .dict entries => (entries.map Prod.fst).Nodup ∧ typeKey ∉ entries.map Prod.fst
  | _ => True

instance : DecidablePred Stored.Proper
  | .dict _ => inferInstanceAs (Decidable (_ ∧ _))
  | .none | .bool _ | .int _ | .str _ | .bytes _ | .list _ | .tuple _ => isTrue trivial

-- No dictionary has a text where `bytes_decoder` looks for the name of bytes.
def Stored.Untyped : Stored → Prop
  | .dict entries => ∀ entry ∈ entries, entry.1 = typeKey → ∀ text, entry.2 ≠ .str text
  | _ => True

theorem Stored.Proper.untyped {data : Stored} (proper : data.Proper) : data.Untyped := by
  cases data with
  | dict entries => exact fun entry listed named => absurd (List.mem_map.mpr ⟨entry,listed,named⟩) proper.2
  | none | bool | int | str | bytes | list | tuple => trivial

structure StoredData where
  value : Stored
  proper : ∀ part ∈ value.parts, part.Proper

-- The purpose: the value with the id replaced in each of its texts.
section purpose
variable (newThreadId threadId : UuidText)

def replacedText (text : List Char) : List Char := replaceAll threadId.text newThreadId.text text

mutual
def replaced : Stored → Decoded
  | .none => .none
  | .bool value => .bool value
  | .int value => .int value
  | .str value => .str (codes (replacedText newThreadId threadId value))
  | .bytes value => .bytes (replaceBytes threadId newThreadId value)
  | .list items | .tuple items => .list (replacedItems items)
  | .dict entries => .dict (replacedEntries entries)
def replacedItems : List Stored → List Decoded
  | [] => []
  | item :: rest => replaced item :: replacedItems rest
def replacedEntries : List (List Char × Stored) → List (List Nat × Decoded)
  | [] => []
  | (key,value) :: rest => (codes (replacedText newThreadId threadId key),replaced value) :: replacedEntries rest
end

def Substitutes (data : Stored) : Prop :=
  ∃ copy, replaceThreadId data newThreadId threadId = .ok copy ∧ copy = replaced newThreadId threadId data ∧ copy.sizes = data.sizes

-- No escape in the text runs into an occurrence of the id, or the ids are one.
def Whole (text : List Char) : Prop := threadId = newThreadId ∨ straddles escape threadId.text text = false

instance (text : List Char) : Decidable (Whole newThreadId threadId text) := inferInstanceAs (Decidable (_ ∨ _))

def Stored.Intact : Stored → Prop
  | .int value => intDigits value ≤ maxStrDigits
  | .str value => Whole newThreadId threadId value
  | .dict entries => (∀ entry ∈ entries, Whole newThreadId threadId entry.1) ∧
      (entries.map fun entry => replacedText newThreadId threadId entry.1).Nodup
  | _ => True

instance : DecidablePred (Stored.Intact newThreadId threadId)
  | .int _ => Nat.decLe _ _
  | .str _ => inferInstanceAs (Decidable (Whole ..))
  | .dict _ => inferInstanceAs (Decidable (_ ∧ _))
  | .none | .bool _ | .bytes _ | .list _ | .tuple _ => isTrue trivial

end purpose

section parts

theorem Stored.induct {motive : Stored → Prop} (none : motive .none) (bool : ∀ value, motive (.bool value))
    (int : ∀ value, motive (.int value)) (str : ∀ value, motive (.str value)) (bytes : ∀ value, motive (.bytes value))
    (list : ∀ items, (∀ item ∈ items, motive item) → motive (.list items))
    (tuple : ∀ items, (∀ item ∈ items, motive item) → motive (.tuple items))
    (dict : ∀ entries, (∀ entry ∈ entries, motive entry.2) → motive (.dict entries)) (data : Stored) : motive data := by
  refine @Stored.rec motive (fun items => ∀ item ∈ items, motive item) (fun entries => ∀ entry ∈ entries, motive entry.2)
    (fun entry => motive entry.2) none bool int str bytes list tuple dict ?_ ?_ ?_ ?_ (fun _ _ holds => holds) data
  · exact fun _ member => absurd member List.not_mem_nil
  · exact fun first rest holds holds' => List.forall_mem_cons.mpr ⟨holds,holds'⟩
  · exact fun _ member => absurd member List.not_mem_nil
  · exact fun first rest holds holds' => List.forall_mem_cons.mpr ⟨holds,holds'⟩

variable (newThreadId threadId : UuidText)

theorem partsItems_flatMap (items : List Stored) : Stored.partsItems items = items.flatMap Stored.parts := by
  induction items with
  | nil => rfl
  | cons item rest ih => rw [Stored.partsItems,ih,List.flatMap_cons]

theorem partsEntries_flatMap (entries : List (List Char × Stored)) :
    Stored.partsEntries entries = entries.flatMap fun entry => entry.2.parts := by
  induction entries with
  | nil => rfl
  | cons entry rest ih => rw [Stored.partsEntries,ih,List.flatMap_cons]

theorem decodedItems_flatMap (items : List Decoded) : Decoded.partsItems items = items.flatMap Decoded.parts := by
  induction items with
  | nil => rfl
  | cons item rest ih => rw [Decoded.partsItems,ih,List.flatMap_cons]

theorem decodedEntries_flatMap (entries : List (List Nat × Decoded)) :
    Decoded.partsEntries entries = entries.flatMap fun entry => entry.2.parts := by
  induction entries with
  | nil => rfl
  | cons entry rest ih => rw [Decoded.partsEntries,ih,List.flatMap_cons]

theorem replacedItems_map (items : List Stored) :
    replacedItems newThreadId threadId items = items.map (replaced newThreadId threadId) := by
  induction items with
  | nil => rfl
  | cons item rest ih => rw [replacedItems,ih,List.map_cons]

def replacedEntry (entry : List Char × Stored) : List Nat × Decoded :=
  (codes (replacedText newThreadId threadId entry.1),replaced newThreadId threadId entry.2)

theorem replacedEntry_keys (entries : List (List Char × Stored)) : (entries.map (replacedEntry newThreadId threadId)).map Prod.fst =
    (entries.map fun entry => replacedText newThreadId threadId entry.1).map codes := by
  rw [List.map_map,List.map_map]
  rfl

theorem replacedEntries_map (entries : List (List Char × Stored)) :
    replacedEntries newThreadId threadId entries = entries.map (replacedEntry newThreadId threadId) := by
  induction entries with
  | nil => rfl
  | cons entry rest ih => rw [replacedEntries,ih,List.map_cons]; rfl

theorem toJsonItems_map (items : List Stored) : toJsonItems newThreadId threadId items = items.map (toJson newThreadId threadId) := by
  induction items with
  | nil => rfl
  | cons item rest ih => rw [toJsonItems,ih,List.map_cons]

theorem toJsonEntries_map (entries : List (List Char × Stored)) :
    toJsonEntries newThreadId threadId entries = entries.map fun entry => (entry.1,toJson newThreadId threadId entry.2) := by
  induction entries with
  | nil => rfl
  | cons entry rest ih => rw [toJsonEntries,ih,List.map_cons]

theorem forall_items {Q : Stored → Prop} (items : List Stored) :
    (∀ part ∈ Stored.partsItems items, Q part) ↔ ∀ item ∈ items, ∀ part ∈ item.parts, Q part := by
  rw [partsItems_flatMap,List.forall_mem_flatMap]

theorem forall_entries {Q : Stored → Prop} (entries : List (List Char × Stored)) :
    (∀ part ∈ Stored.partsEntries entries, Q part) ↔ ∀ entry ∈ entries, ∀ part ∈ entry.2.parts, Q part := by
  rw [partsEntries_flatMap,List.forall_mem_flatMap]

-- The parts of the copy are the copies of the parts.
theorem replaced_parts (data : Stored) :
    (replaced newThreadId threadId data).parts = data.parts.map (replaced newThreadId threadId) := by
  have items : ∀ items : List Stored, (∀ item ∈ items, (replaced newThreadId threadId item).parts =
      item.parts.map (replaced newThreadId threadId)) →
      Decoded.partsItems (replacedItems newThreadId threadId items) = (Stored.partsItems items).map (replaced newThreadId threadId) := by
    intro items each
    rw [replacedItems_map,decodedItems_flatMap,partsItems_flatMap,List.flatMap_map,List.map_flatMap]
    exact List.flatMap_congr each
  induction data using Stored.induct with
  | none | bool | int | str | bytes => rfl
  | list entries ih | tuple entries ih => simp only [replaced,Decoded.parts,Stored.parts,List.map_cons,items entries ih]
  | dict entries ih =>
    simp only [replaced,Decoded.parts,Stored.parts,List.map_cons,List.cons.injEq,true_and]
    rw [replacedEntries_map,decodedEntries_flatMap,partsEntries_flatMap,List.flatMap_map,List.map_flatMap]
    exact List.flatMap_congr ih

theorem replacedText_sizes (text : List Char) : codesSizes (codes (replacedText newThreadId threadId text)) = textSizes text := by
  have sizes : (codes (replacedText newThreadId threadId text)).map (fun code => (Char.ofNat code).utf8Size) =
      (replacedText newThreadId threadId text).map Char.utf8Size := by
    rw [codes,List.map_map]
    exact List.map_congr_left fun c _ => congrArg Char.utf8Size (Char.ofNat_toNat c)
  rw [codesSizes,sizes,codes,List.length_map,replacedText,replaceText_length,replaceText_size,textSizes]

theorem replaced_ownSizes (data : Stored) : (replaced newThreadId threadId data).ownSizes = data.ownSizes := by
  cases data with
  | none | bool | int | list | tuple => rfl
  | str value => exact congrArg (fun sizes => [sizes]) (replacedText_sizes newThreadId threadId value)
  | bytes value => simp only [replaced,Decoded.ownSizes,Stored.ownSizes,replaceBytes_length]
  | dict entries =>
    simp only [replaced,Decoded.ownSizes,Stored.ownSizes,replacedEntries_map,List.map_map]
    exact List.map_congr_left fun entry _ => replacedText_sizes newThreadId threadId entry.1

theorem replaced_sizes (data : Stored) : (replaced newThreadId threadId data).sizes = data.sizes := by
  rw [Decoded.sizes,replaced_parts,Stored.sizes,List.flatMap_map]
  exact List.flatMap_congr fun part _ => replaced_ownSizes newThreadId threadId part

end parts

section base64

-- Base64 text is made of characters that stand for themselves, without hyphens.
theorem base64_plain (data : List UInt8) (coded : ∀ byte ∈ data, byte = pad ∨ ∃ n < 64, byte = digit n) :
    (∀ c ∈ ascii data, escape c = [c] ∧ c ≠ '-') ∧ encodeCodes (codes (ascii data)) = some data := by
  have table : ∀ n < 64, escape (Char.ofNat (digit n).toNat) = [Char.ofNat (digit n).toNat] ∧ Char.ofNat (digit n).toNat ≠ '-' ∧
      String.utf8EncodeChar (Char.ofNat (digit n).toNat) = [digit n] := by decide +kernel
  have each : ∀ byte ∈ data, escape (Char.ofNat byte.toNat) = [Char.ofNat byte.toNat] ∧ Char.ofNat byte.toNat ≠ '-' ∧
      String.utf8EncodeChar (Char.ofNat byte.toNat) = [byte] := by
    intro byte member
    rcases coded byte member with rfl | ⟨n,small,rfl⟩
    · decide +kernel
    · exact table n small
  have back : (codes (ascii data)).map Char.ofNat = ascii data := by
    rw [codes,List.map_map]
    exact (List.map_congr_left fun c _ => Char.ofNat_toNat c).trans (List.map_id _)
  refine ⟨fun c member => ?_,?_⟩
  · obtain ⟨byte,listed,rfl⟩ := List.mem_map.mp member
    exact ⟨(each byte listed).1,(each byte listed).2.1⟩
  · have valid : (codes (ascii data)).all (fun code => decide code.isValidChar) = true := by
      refine List.all_eq_true.mpr fun code member => ?_
      obtain ⟨c,_,rfl⟩ := List.mem_map.mp member
      exact decide_eq_true c.valid
    rw [encodeCodes,if_pos valid,back,encode,ascii,List.flatMap_map]
    refine congrArg some ((List.flatMap_congr fun byte member => (each byte member).2.2).trans ?_)
    exact List.flatMap_singleton' data

end base64

section inversion

def restoreField (field : List Nat × Json (List Nat) Number) : Except Fault (List Nat × Decoded) :=
  (restore field.2).map fun read => (field.1,read)

theorem restoreItems_mapM (items : List (Json (List Nat) Number)) : restoreItems items = items.mapM restore := by
  induction items with
  | nil => rfl
  | cons item rest ih =>
    rw [restoreItems,List.mapM_cons,ih]
    cases rest.mapM restore <;> rfl

theorem restoreFields_mapM (fields : List (List Nat × Json (List Nat) Number)) : restoreFields fields = fields.mapM restoreField := by
  induction fields with
  | nil => rfl
  | cons field rest ih =>
    obtain ⟨key,value⟩ := field
    rw [restoreFields,List.mapM_cons,ih,restoreField]
    cases restore value with
    | error fault => rfl
    | ok read => cases rest.mapM restoreField <;> rfl

-- A dictionary whose keys stay apart is copied with all of its rows.
theorem dict_copied {κ ν : Type} [BEq κ] [LawfulBEq κ] {rows : List (κ × ν)} (name : κ → List Nat)
    (distinct : (rows.map fun row => name row.1).Nodup) : (Dict.empty.update rows).entries = rows := by
  refine Dict.entries_update ?_ fun _ _ _ member => by cases member
  rw [List.Nodup,List.pairwise_map] at distinct
  exact distinct.imp fun apart => beq_eq_false_iff_ne.mpr fun same => apart (congrArg name same)

theorem decodeValue_bytes {held : Option Decoded} {value : Decoded} (decoded : decodeValue held = .ok value) :
    ∃ data, value = .bytes data := by
  unfold decodeValue at decoded
  split at decoded
  · cases decoded
  · split at decoded
    · cases decoded
    · split at decoded
      · cases decoded
      · cases decoded
        exact ⟨_,rfl⟩
  · cases decoded

theorem bytesDecoder_dict {obj : Dict (List Nat) Decoded} {entries : List (List Nat × Decoded)}
    (decoded : bytesDecoder obj = .ok (.dict entries)) : obj.entries = entries := by
  unfold bytesDecoder at decoded
  split at decoded
  · obtain ⟨data,same⟩ := decodeValue_bytes decoded
    cases same
  · cases decoded
    rfl

theorem bytesDecoder_other {obj : Dict (List Nat) Decoded}
    (untyped : ∀ entry ∈ obj.entries, entry.1 = codes typeKey → entry.2.isText bytesName = false) :
    bytesDecoder obj = .ok (.dict obj.entries) := by
  have other : (obj.get? (codes typeKey)).any (Decoded.isText bytesName) = false := by
    cases found : obj.get? (codes typeKey) with
    | none => rfl
    | some value => exact untyped _ (Dict.mem_iff.mpr found) rfl
  rw [bytesDecoder,other]
  rfl

theorem replaced_isText {newThreadId threadId : UuidText} {data : Stored} (other : ∀ text, data ≠ .str text) (text : List Char) :
    (replaced newThreadId threadId data).isText text = false := by
  cases data with
  | str value => exact absurd rfl (other value)
  | none | bool | int | bytes | list | tuple | dict => rfl

end inversion

section copies
variable (newThreadId threadId : UuidText)

def readText (text : List Char) : Option (List Nat) := unescape (content threadId newThreadId text)

def readJson (json : Json (List Char) Int) : Option (Json (List Nat) Number) :=
  json.traverse (readText newThreadId threadId) (readBack maxStrDigits)

-- The value comes back from its document as `copy`.
def Yields (data : Stored) (copy : Decoded) : Prop :=
  ∃ document, readJson newThreadId threadId (toJson newThreadId threadId data) = some document ∧ restore document = .ok copy

theorem replaceThreadId_yields (data : Stored) (copy : Decoded) :
    replaceThreadId data newThreadId threadId = .ok copy ↔
      data.parts.all Stored.printable = true ∧ Yields newThreadId threadId data copy := by
  have read : loads maxStrDigits (replaceAll threadId.text newThreadId.text
      (render (escapeAll escape) 0 (toJson newThreadId threadId data))) = readJson newThreadId threadId (toJson newThreadId threadId data) := by
    rw [replace_render newThreadId.text threadId.inward]
    exact loads_render (content_closed threadId newThreadId) maxStrDigits _
  unfold replaceThreadId dumps Yields
  by_cases printable : data.parts.all Stored.printable = true
  · simp only [if_pos printable,read]
    cases readJson newThreadId threadId (toJson newThreadId threadId data) with
    | none => simp
    | some document => simp [printable]
  · simp [printable]

variable {newThreadId threadId}

theorem replaced_yields {data : Stored} {copy : Decoded} (ran : (replaceThreadId data newThreadId threadId).toOption = some copy) :
    Yields newThreadId threadId data copy := by
  cases outcome : replaceThreadId data newThreadId threadId with
  | error fault =>
    rw [outcome] at ran
    cases ran
  | ok value =>
    rw [outcome] at ran
    cases ran
    exact ((replaceThreadId_yields newThreadId threadId data copy).mp outcome).2

theorem yields_text {text : List Char} {copy : Decoded} :
    Yields newThreadId threadId (.str text) copy ↔ ∃ value, readText newThreadId threadId text = some value ∧ copy = .str value := by
  simp only [Yields,toJson,readJson,Json.traverse,Option.map_eq_some_iff]
  constructor
  · rintro ⟨_,⟨value,read,rfl⟩,same⟩
    exact ⟨value,read,(Except.ok.inj same).symm⟩
  · rintro ⟨value,read,rfl⟩
    exact ⟨_,⟨value,read,rfl⟩,rfl⟩

theorem yields_str (text : List Char) :
    Yields newThreadId threadId (.str text) (replaced newThreadId threadId (.str text)) ↔ Whole newThreadId threadId text := by
  rw [Whole,← content_read,yields_text]
  constructor
  · rintro ⟨value,read,same⟩
    injection same with same
    exact read.trans (congrArg some same.symm)
  · exact fun read => ⟨_,read,rfl⟩

theorem yields_unique {data : Stored} {copy copy' : Decoded} (yields : Yields newThreadId threadId data copy)
    (yields' : Yields newThreadId threadId data copy') : copy = copy' := by
  obtain ⟨document,read,restored⟩ := yields
  obtain ⟨document',read',restored'⟩ := yields'
  cases read.symm.trans read'
  exact Except.ok.inj (restored.symm.trans restored')

theorem yields_int (value : Int) :
    Yields newThreadId threadId (.int value) (.int value) ↔ intDigits value ≤ maxStrDigits := by
  simp only [Yields,toJson,readJson,Json.traverse,readBack,intDigits,Option.map_eq_some_iff]
  constructor
  · rintro ⟨_,⟨number,read,rfl⟩,_⟩
    by_contra long
    rw [if_neg long] at read
    cases read
  · exact fun short => ⟨_,⟨_,if_pos short,rfl⟩,rfl⟩

theorem yields_items (items : List Stored) {toValue : List Stored → Stored} {copies : List Decoded}
    (shape : toJson newThreadId threadId (toValue items) = .arr (toJsonItems newThreadId threadId items)) :
    Yields newThreadId threadId (toValue items) (.list copies) ↔ List.Forall₂ (Yields newThreadId threadId) items copies := by
  have each : List.Forall₂ (Yields newThreadId threadId) items copies ↔
      ∃ documents, (items.mapM fun item => readJson newThreadId threadId (toJson newThreadId threadId item)) = some documents ∧
        documents.mapM restore = .ok copies := mapM_twice.symm
  rw [each]
  simp only [Yields,shape,readJson,Json.traverse,traverseItems_collect,collect_map,toJsonItems_map,List.mapM_map,
    Option.map_eq_some_iff]
  constructor
  · rintro ⟨_,⟨documents,read,rfl⟩,restored⟩
    obtain ⟨values,all,same⟩ := map_ok.mp restored
    cases same
    exact ⟨documents,read,by rw [← restoreItems_mapM,all]⟩
  · rintro ⟨documents,read,restored⟩
    exact ⟨_,⟨documents,read,rfl⟩,map_ok.mpr ⟨copies,(restoreItems_mapM documents).trans restored,rfl⟩⟩

def YieldsEntry (newThreadId threadId : UuidText) (entry : List Char × Stored) (row : List Nat × Decoded) : Prop :=
  readText newThreadId threadId entry.1 = some row.1 ∧ Yields newThreadId threadId entry.2 row.2

theorem yields_entry (entry : List Char × Stored) (row : List Nat × Decoded) :
    (∃ field, Json.traverseField (readText newThreadId threadId) (readBack maxStrDigits)
      (entry.1,toJson newThreadId threadId entry.2) = some field ∧ restoreField field = .ok row) ↔
      YieldsEntry newThreadId threadId entry row := by
  simp only [Json.traverseField,YieldsEntry,Yields,readJson,Option.bind_eq_some_iff,Option.map_eq_some_iff,restoreField]
  constructor
  · rintro ⟨_,⟨name,key,document,value,rfl⟩,restored⟩
    obtain ⟨copy,here,rfl⟩ := map_ok.mp restored
    exact ⟨key,document,value,here⟩
  · rintro ⟨key,document,value,restored⟩
    exact ⟨_,⟨_,key,document,value,rfl⟩,map_ok.mpr ⟨_,restored,rfl⟩⟩

theorem yields_dict (entries : List (List Char × Stored)) (copy : Decoded) :
    Yields newThreadId threadId (.dict entries) copy ↔
      ∃ rows, List.Forall₂ (YieldsEntry newThreadId threadId) entries rows ∧ bytesDecoder (Dict.empty.update rows) = .ok copy := by
  have each : ∀ rows, List.Forall₂ (YieldsEntry newThreadId threadId) entries rows ↔
      ∃ fields, (entries.mapM fun entry => Json.traverseField (readText newThreadId threadId) (readBack maxStrDigits)
        (entry.1,toJson newThreadId threadId entry.2)) = some fields ∧ restoreFields fields = .ok rows := by
    intro rows
    rw [show YieldsEntry newThreadId threadId = _ from funext fun entry => funext fun row => propext (yields_entry entry row).symm]
    simp only [restoreFields_mapM]
    exact mapM_twice.symm
  simp only [each,Yields,toJson,toJsonEntries_map,readJson,Json.traverse,traverseFields_collect,collect_map,List.mapM_map,
    Option.map_eq_some_iff]
  constructor
  · rintro ⟨_,⟨fields,read,rfl⟩,restored⟩
    obtain ⟨rows,all,decoded⟩ := bind_ok.mp restored
    exact ⟨rows,⟨fields,read,all⟩,decoded⟩
  · rintro ⟨rows,⟨fields,read,all⟩,decoded⟩
    exact ⟨_,⟨fields,read,rfl⟩,bind_ok.mpr ⟨rows,all,decoded⟩⟩

-- Keys that stay apart give a dictionary with all of its entries.
theorem yields_dict_replaced (entries : List (List Char × Stored)) (untyped : (Stored.dict entries).Untyped) :
    Yields newThreadId threadId (.dict entries) (replaced newThreadId threadId (.dict entries)) ↔
      (∀ entry ∈ entries, Whole newThreadId threadId entry.1) ∧
        (entries.map fun entry => replacedText newThreadId threadId entry.1).Nodup ∧
        ∀ entry ∈ entries, Yields newThreadId threadId entry.2 (replaced newThreadId threadId entry.2) := by
  have pointwise : List.Forall₂ (YieldsEntry newThreadId threadId) entries (entries.map (replacedEntry newThreadId threadId)) ↔
      ∀ entry ∈ entries, Whole newThreadId threadId entry.1 ∧
        Yields newThreadId threadId entry.2 (replaced newThreadId threadId entry.2) := by
    rw [List.forall₂_map_right_iff,List.forall₂_same]
    exact forall₂_congr fun entry _ => and_congr_left' (content_read entry.1)
  rw [replaced,replacedEntries_map,yields_dict]
  constructor
  · rintro ⟨rows,each,decoded⟩
    have whole := bytesDecoder_dict decoded
    have full : (Dict.empty.update rows).entries.length = (Dict.empty : Dict (List Nat) Decoded).entries.length + rows.length := by
      rw [whole,List.length_map,each.length_eq,Dict.entries_empty,List.length_nil,Nat.zero_add]
    have same : rows = entries.map (replacedEntry newThreadId threadId) := by
      rw [← whole,Dict.update_full full,Dict.entries_empty,List.nil_append]
    have distinct : (entries.map fun entry => replacedText newThreadId threadId entry.1).Nodup := by
      rw [← List.nodup_map_iff codes_injective,← replacedEntry_keys,← whole]
      exact Dict.keys_nodup _
    rw [same,pointwise] at each
    exact ⟨fun entry listed => (each entry listed).1,distinct,fun entry listed => (each entry listed).2⟩
  · rintro ⟨whole,distinct,later⟩
    refine ⟨_,pointwise.mpr fun entry listed => ⟨whole entry listed,later entry listed⟩,?_⟩
    have keys : ((entries.map (replacedEntry newThreadId threadId)).map Prod.fst).Nodup := by
      rw [replacedEntry_keys,List.nodup_map_iff codes_injective]
      exact distinct
    have rows := dict_copied id keys
    nth_rewrite 2 [← rows]
    refine bytesDecoder_other fun row member same => ?_
    rw [rows] at member
    obtain ⟨entry,listed,rfl⟩ := List.mem_map.mp member
    have named : replacedText newThreadId threadId entry.1 = typeKey := codes_injective same
    rw [replacedText,replaceAll_eq_of_not_mem threadId.some_ newThreadId.hyphen_mem (by decide)] at named
    exact replaced_isText (untyped entry listed named.1) bytesName

theorem yields_bytes (value : List UInt8) :
    Yields newThreadId threadId (.bytes value) (.bytes (replaceBytes threadId newThreadId value)) := by
  have name : ∀ text : List Char, (text.all fun c => escape c == [c]) = true → '-' ∉ text →
      readText newThreadId threadId text = some (codes text) :=
    fun text plain missing => content_plain (fun c member => eq_of_beq (List.all_eq_true.mp plain c member)) missing
  have coded := base64_plain (b64encode (replaceBytes threadId newThreadId value)) fun byte member => mem_b64encode member
  refine ⟨.obj [(codes typeKey,.str (codes bytesName)),
    (codes valueKey,.str (codes (ascii (b64encode (replaceBytes threadId newThreadId value)))))],?_,?_⟩
  · have held : readText newThreadId threadId (ascii (b64encode (replaceBytes threadId newThreadId value))) =
        some (codes (ascii (b64encode (replaceBytes threadId newThreadId value)))) :=
      content_plain (fun c member => (coded.1 c member).1) fun member => (coded.1 _ member).2 rfl
    simp only [readJson,toJson,bytesEncoder,Json.traverse,Json.traverseFields,name typeKey (by decide) (by decide),
      name bytesName (by decide) (by decide),name valueKey (by decide) (by decide),held,Option.bind_some,Option.map_some]
  · have written := coded.2
    have type_ : bytesDecoder (Dict.empty.update [(codes typeKey,.str (codes bytesName)),
        (codes valueKey,.str (codes (ascii (b64encode (replaceBytes threadId newThreadId value)))))]) =
        decodeValue (some (.str (codes (ascii (b64encode (replaceBytes threadId newThreadId value)))))) := rfl
    rw [restore]
    refine type_.trans ?_
    simp only [decodeValue,written,b64decode_encode]

-- A value comes back as it should exactly when each of its parts is intact.
theorem yields_iff (data : Stored) (untyped : ∀ part ∈ data.parts, part.Untyped) :
    Yields newThreadId threadId data (replaced newThreadId threadId data) ↔ ∀ part ∈ data.parts, part.Intact newThreadId threadId := by
  have items : ∀ items : List Stored, (∀ item ∈ items, (∀ part ∈ item.parts, part.Untyped) →
      (Yields newThreadId threadId item (replaced newThreadId threadId item) ↔ ∀ part ∈ item.parts, part.Intact newThreadId threadId)) →
      (∀ part ∈ Stored.partsItems items, part.Untyped) →
      (List.Forall₂ (Yields newThreadId threadId) items (replacedItems newThreadId threadId items) ↔
        ∀ part ∈ Stored.partsItems items, part.Intact newThreadId threadId) := by
    intro items ih untyped
    rw [forall_items] at untyped ⊢
    rw [replacedItems_map,List.forall₂_map_right_iff,List.forall₂_same]
    exact forall₂_congr fun item listed => ih item listed (untyped item listed)
  induction data using Stored.induct with
  | none => exact iff_of_true ⟨_,rfl,rfl⟩ (List.forall_mem_singleton.mpr trivial)
  | bool value => exact iff_of_true ⟨_,rfl,rfl⟩ (List.forall_mem_singleton.mpr trivial)
  | int value =>
    simp only [Stored.parts,List.forall_mem_singleton]
    exact yields_int value
  | str value =>
    simp only [Stored.parts,List.forall_mem_singleton]
    exact yields_str value
  | bytes value => exact iff_of_true (yields_bytes value) (List.forall_mem_singleton.mpr trivial)
  | list entries ih =>
    simp only [Stored.parts,List.forall_mem_cons] at untyped ⊢
    rw [replaced,yields_items entries rfl,items entries ih untyped.2]
    exact ⟨fun later => ⟨trivial,later⟩,And.right⟩
  | tuple entries ih =>
    simp only [Stored.parts,List.forall_mem_cons] at untyped ⊢
    rw [replaced,yields_items entries rfl,items entries ih untyped.2]
    exact ⟨fun later => ⟨trivial,later⟩,And.right⟩
  | dict entries ih =>
    simp only [Stored.parts,List.forall_mem_cons,forall_entries] at untyped ⊢
    rw [yields_dict_replaced entries untyped.1,← and_assoc]
    exact and_congr_right' (forall₂_congr fun entry listed => ih entry listed (untyped.2 entry listed))

end copies

theorem replaceThreadId_intact {newThreadId threadId : UuidText} {data : Stored} (untyped : ∀ part ∈ data.parts, part.Untyped)
    (intact : ∀ part ∈ data.parts, part.Intact newThreadId threadId) :
    replaceThreadId data newThreadId threadId = .ok (replaced newThreadId threadId data) := by
  refine (replaceThreadId_yields newThreadId threadId data _).mpr ⟨?_,(yields_iff data untyped).mpr intact⟩
  refine List.all_eq_true.mpr fun part member => ?_
  have whole := intact part member
  cases part with
  | int value => exact decide_eq_true whole
  | none | bool | str | bytes | list | tuple | dict => rfl

-- The code gives the value with the id replaced in it exactly when no occurrence
-- runs into an escape, no two keys of a dictionary become one, and no integer is
-- too long to print.
theorem substitutes_iff (newThreadId threadId : UuidText) (data : StoredData) :
    Substitutes newThreadId threadId data.value ↔ ∀ part ∈ data.value.parts, part.Intact newThreadId threadId := by
  have untyped : ∀ part ∈ data.value.parts, part.Untyped := fun part member => (data.proper part member).untyped
  constructor
  · rintro ⟨copy,ran,rfl,_⟩
    exact (yields_iff data.value untyped).mp ((replaceThreadId_yields newThreadId threadId data.value _).mp ran).2
  · intro intact
    exact ⟨_,replaceThreadId_intact untyped intact,rfl,replaced_sizes newThreadId threadId data.value⟩

end InmemRuntime.IdReplacement
