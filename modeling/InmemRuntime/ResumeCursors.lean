import InmemRuntime.PythonInt
import InmemRuntime.StreamFeeds

namespace InmemRuntime.ResumeCursors
open PythonInt (Tables)
open Streams
open StreamFeeds (lastId stamp_grows)

-- Both are a `ValueError`: "Not a millisecond-sequence stream ID: …" with the
-- text, and what `int()` raises.
inductive ParseError where
  | noSeparator (text : List Char)
  | notInt (raised : PythonInt.ValueError)
deriving DecidableEq,Repr

-- `messages[start:]`.
def sliceFrom {α : Type} (start : Int) (messages : List α) : List α :=
  messages.drop (if start < 0 then start + messages.length else start).toNat

-- A `put(…, resumable=True)` and what the wall clock reads in it.
structure Call where
  key : RunKey
  message : Message
  reading : Nat

-- `f"{_last_stream_ms}-{_last_stream_seq}"` raises where one of them is too long
-- for `str()`; both are set by then.
def printable (id : MessageId) : Bool := PythonInt.printable id.ms && PythonInt.printable id.seq

def assigned (m : StreamManager) (call : Call) : Option MessageId :=
  let id := (m.generateId call.reading).2
  if !m.refuses call.key && printable id then some id else none

def after (m : StreamManager) (call : Call) : StreamManager :=
  if m.refuses call.key || printable (m.generateId call.reading).2 then (m.put call.reading call.key call.message true).1
  else (m.generateId call.reading).1

-- The calls one after the other, and the ids that they assign as texts.
def record (m : StreamManager) : List Call → StreamManager × List String
  | [] => (m,[])
  | call :: calls =>
    let rest := record (after m call) calls
    (rest.1,((assigned m call).map MessageId.text).toList ++ rest.2)

section parsing
variable (tables : Tables)

def int (text : List Char) : Except ParseError Int := (PythonInt.int tables text).mapError .notInt

-- `_parse_ms_seq_id`; `partition` cuts at the first `-`.
def parseMsSeqId (text : String) : Except ParseError MessageId :=
  match text.toList.dropWhile fun c => c != '-' with
  | [] => .error (.noSeparator text.toList)
  | _ :: seq =>
    match int tables (text.toList.takeWhile fun c => c != '-') with
    | .error raised => .error raised
    | .ok ms =>
      match int tables seq with
      | .error raised => .error raised
      | .ok seq => .ok ⟨ms,seq⟩

-- A stored message without an id, or with one that does not parse, is passed
-- over.
def follows (cursor : MessageId) (message : Message) : Bool :=
  match message.id.map fun id => parseMsSeqId tables id.text with
  | some (.ok candidate) => decide (cursor.Before candidate)
  | _ => false

-- `restore_messages`, with the cursor as the client wrote it.
def restoreMessages (m : StreamManager) (key : RunKey) (messageId : Option String) : Except ParseError (List Message) :=
  match messageId with
  | none => .ok []
  | some text =>
    if '-' ∉ text.toList then
      match int tables text.toList with
      | .error raised => .error raised
      | .ok index => .ok (sliceFrom (index + 1) (m.stored key))
    else
      match parseMsSeqId tables text with
      | .error raised => .error raised
      | .ok cursor => .ok ((m.stored key).filter (follows tables cursor))

def Monotone (texts : List String) : Prop :=
  ∃ ids : List MessageId, texts.map (parseMsSeqId tables) = ids.map .ok ∧ ids.Pairwise MessageId.Before

-- The two numbers that a cursor writes, however long they are.
def msSeq (text : String) : Option MessageId :=
  match text.toList.dropWhile fun c => c != '-' with
  | [] => none
  | _ :: seq => do
    let ms ← PythonInt.numeral tables (text.toList.takeWhile fun c => c != '-')
    let seq ← PythonInt.numeral tables seq
    some ⟨ms,seq⟩

-- What resuming from a cursor promises, whichever of the two formats it has.
structure Resumes (m : StreamManager) (key : RunKey) (cursor : String) : Prop where
  later : ∀ last, msSeq tables cursor = some last →
    restoreMessages tables m key (some cursor) = .ok ((m.stored key).filter (Cursor.after last).precedes)
  index : ∀ i, PythonInt.numeral tables cursor.toList = some i → -1 ≤ i →
    restoreMessages tables m key (some cursor) = .ok ((m.stored key).drop (i + 1).toNat)

-- An index that is written with a `-`: `-1`, or `-0` for the first message.
def Dashed (cursor : String) : Prop :=
  '-' ∈ cursor.toList ∧ ∃ i, PythonInt.numeral tables cursor.toList = some i ∧ -1 ≤ i

def long (text : List Char) : Bool := decide (PythonInt.maxStrDigits < PythonInt.digitCount tables text)

-- An index, or one of the two numbers of an id, with more digits than `int()` reads.
def Long (cursor : String) : Prop :=
  (∃ i, PythonInt.numeral tables cursor.toList = some i ∧ -1 ≤ i ∧ long tables cursor.toList = true) ∨
    (msSeq tables cursor).isSome = true ∧ (long tables (cursor.toList.takeWhile fun c => c != '-') = true ∨
      long tables ((cursor.toList.dropWhile fun c => c != '-').drop 1) = true)

end parsing

-- The ids of a clock that never reads less than 0.
def Counted (id : MessageId) : Prop := 0 ≤ id.ms ∧ 0 ≤ id.seq

def Printed (id : MessageId) : Prop := Counted id ∧ printable id = true

structure Kept (m : StreamManager) : Prop where
  last : -1 ≤ (lastId m).seq
  stored : ∀ key, ∀ message ∈ m.stored key, ∃ id, message.id = some id ∧ Printed id

section ids
variable {tables : Tables} {m : StreamManager}

theorem int_ok {text : List Char} {n : Int} :
    int tables text = .ok n ↔ PythonInt.numeral tables text = some n ∧ long tables text = false := by
  rw [long,decide_eq_false_iff_not,Nat.not_lt,← PythonInt.int_ok]
  unfold int
  cases PythonInt.int tables text with
  | error raised => simp [Except.mapError]
  | ok m => simp [Except.mapError]

theorem int_natural {n : Int} (natural : 0 ≤ n) (short : PythonInt.printable n = true) :
    int tables (toString n).toList = .ok n ∧ '-' ∉ (toString n).toList := by
  obtain ⟨k,rfl⟩ := Int.eq_ofNat_of_zero_le natural
  have same : toString (k : Int) = k.repr := rfl
  rw [same]
  refine ⟨by rw [int,PythonInt.int_repr short]; rfl,fun member => ?_⟩
  rw [Nat.toList_repr] at member
  have digit := Nat.isDigit_of_mem_toDigits (by decide) (by decide) member
  cases digit

-- An id that was printed is read back.
theorem parse_text {id : MessageId} (printed : Printed id) : parseMsSeqId tables id.text = .ok id := by
  obtain ⟨counted,short⟩ := printed
  obtain ⟨shortMs,shortSeq⟩ := Bool.and_eq_true_iff.mp short
  obtain ⟨reads,plain⟩ : int tables (toString id.ms).toList = .ok id.ms ∧ _ := int_natural counted.1 shortMs
  obtain ⟨reads',_⟩ : int tables (toString id.seq).toList = .ok id.seq ∧ _ := int_natural counted.2 shortSeq
  have shape : id.text.toList = (toString id.ms).toList ++ '-' :: (toString id.seq).toList := by
    simp [MessageId.text]
  have front : ∀ c ∈ (toString id.ms).toList, (c != '-') = true := fun c member =>
    bne_iff_ne.mpr fun same => plain (same ▸ member)
  have cut : id.text.toList.dropWhile (fun c => c != '-') = '-' :: (toString id.seq).toList ∧
      id.text.toList.takeWhile (fun c => c != '-') = (toString id.ms).toList := by
    rw [shape,List.dropWhile_append_of_pos front,List.takeWhile_append_of_pos front]
    simp
  simp only [parseMsSeqId,cut,reads,reads']

theorem generated_counted (kept : Kept m) (reading : Nat) : Counted (m.generateId reading).2 := by
  have last : -1 ≤ m.lastSeq := kept.last
  refine ⟨?_,?_⟩
  · have bound : (reading : Int) ≤ max (reading : Int) m.lastMs := le_max_left _ _
    simp only [StreamManager.generateId]
    omega
  · simp only [StreamManager.generateId]
    split <;> omega

theorem put_stores {call : Call} (accepted : m.refuses call.key = false) :
    lastId (m.put call.reading call.key call.message true).1 = (m.generateId call.reading).2 ∧
      ∀ key, (m.put call.reading call.key call.message true).1.stored key =
        if call.key = key then m.stored key ++ [m.stamped call.reading call.message] else m.stored key := by
  have stored : ∀ key, ((m.messageStores.set call.key ((m.messageStores.find call.key).getD [] ++ [m.stamped call.reading call.message])).find key).getD [] =
      if call.key = key then m.stored key ++ [m.stamped call.reading call.message] else m.stored key := by
    intro key
    rw [RunMap.find_set]
    by_cases same : call.key = key
    · simp [same,StreamManager.stored]
    · rw [if_neg same,if_neg same]
      rfl
  unfold StreamManager.put
  rw [if_neg (Bool.eq_false_iff.mp accepted)]
  dsimp only
  split <;> exact ⟨rfl,stored⟩

-- A `put` leaves the logs alone and gives out no id, or gives out one id and
-- stores its message last.
theorem put_cases (m : StreamManager) (call : Call) :
    (assigned m call = none ∧ (∀ key, (after m call).stored key = m.stored key) ∧
      (after m call = m ∨ lastId (after m call) = (m.generateId call.reading).2)) ∨
    assigned m call = some (m.generateId call.reading).2 ∧ printable (m.generateId call.reading).2 = true ∧
      lastId (after m call) = (m.generateId call.reading).2 ∧ ∀ key, (after m call).stored key =
        if call.key = key then m.stored key ++ [m.stamped call.reading call.message] else m.stored key := by
  unfold assigned after
  cases refused : m.refuses call.key with
  | true =>
    have same : (m.put call.reading call.key call.message true).1 = m := by
      unfold StreamManager.put
      rw [if_pos refused]
    simp [same]
  | false =>
    cases short : printable (m.generateId call.reading).2 with
    | false =>
      simp only [short,Bool.not_false,Bool.true_and,Bool.false_or]
      exact .inl ⟨rfl,fun _ => rfl,.inr rfl⟩
    | true =>
      obtain ⟨last,stored⟩ := put_stores refused
      simp only [short,Bool.not_false,Bool.true_and,Bool.false_or,if_true]
      exact .inr ⟨trivial,trivial,last,stored⟩

theorem put_kept (kept : Kept m) (call : Call) : Kept (after m call) ∧
    (after m call = m ∨ lastId (after m call) = (m.generateId call.reading).2) ∧
    ∀ id ∈ assigned m call, id = (m.generateId call.reading).2 ∧ Printed id := by
  have counted := generated_counted kept call.reading
  have last : ∀ m' : StreamManager, (m' = m ∨ lastId m' = (m.generateId call.reading).2) → -1 ≤ (lastId m').seq := by
    intro m' either
    rcases either with same | new
    · rw [same]
      exact kept.last
    · rw [new]
      exact le_trans (by decide) counted.2
  rcases put_cases m call with ⟨none_,logs,either⟩ | ⟨some_,short,new,stored⟩
  · rw [none_]
    refine ⟨⟨last _ either,fun key message member => ?_⟩,either,nofun⟩
    rw [logs key] at member
    exact kept.stored key message member
  · refine ⟨⟨last _ (.inr new),fun key message member => ?_⟩,.inr new,fun id given => ?_⟩
    · rw [stored key] at member
      split at member
      · rcases List.mem_append.mp member with old | added
        · exact kept.stored key message old
        · rw [List.mem_singleton.mp added]
          exact ⟨_,rfl,counted,short⟩
      · exact kept.stored key message member
    · rw [some_] at given
      cases given
      exact ⟨rfl,counted,short⟩

-- Ids are given out in increasing order, above the last one.
theorem record_ids (kept : Kept m) (calls : List Call) : Kept (record m calls).1 ∧ ∃ ids : List MessageId,
    (record m calls).2 = ids.map MessageId.text ∧ (∀ id ∈ ids, Printed id ∧ (lastId m).Before id) ∧ ids.Pairwise MessageId.Before := by
  induction calls generalizing m with
  | nil => exact ⟨kept,[],rfl,by simp,.nil⟩
  | cons call calls ih =>
    obtain ⟨here,either,given⟩ := put_kept kept call
    obtain ⟨there,ids,texts,above,sorted⟩ := ih here
    have grows : (lastId m).Before (m.generateId call.reading).2 := (stamp_grows m _).1
    have later : ∀ id ∈ ids, (lastId m).Before id := by
      intro id member
      rcases either with same | new
      · rw [same] at above
        exact (above id member).2
      · rw [new] at above
        exact grows.trans (above id member).2
    cases mine : assigned m call with
    | none =>
      refine ⟨there,ids,by rw [record,texts,mine]; rfl,fun id member => ⟨(above id member).1,later id member⟩,sorted⟩
    | some id =>
      obtain ⟨rfl,printed⟩ := given id mine
      refine ⟨there,(m.generateId call.reading).2 :: ids,by rw [record,texts,mine]; rfl,?_,?_⟩
      · exact List.forall_mem_cons.mpr ⟨⟨printed,grows⟩,fun id member => ⟨(above id member).1,later id member⟩⟩
      · refine List.pairwise_cons.mpr ⟨fun id member => ?_,sorted⟩
        have new : lastId (after m call) = (m.generateId call.reading).2 := by
          rcases put_cases m call with ⟨none_,_⟩ | ⟨_,_,new,_⟩
          · rw [mine] at none_
            cases none_
          · exact new
        rw [← new]
        exact (above id member).2

theorem follows_precedes (kept : Kept m) {key : RunKey} {message : Message} (member : message ∈ m.stored key) (last : MessageId) :
    follows tables last message = (Cursor.after last).precedes message := by
  obtain ⟨id,same,printed⟩ := kept.stored key message member
  simp [follows,Cursor.precedes,same,parse_text printed]

theorem undashed_cut {text : String} (plain : '-' ∉ text.toList) : text.toList.dropWhile (fun c => c != '-') = [] :=
  List.dropWhile_eq_nil_iff.mpr fun _ member => bne_iff_ne.mpr fun same => plain (same ▸ member)

-- An id is read where both its numbers are written and short enough.
theorem parse_ok {text : String} {last : MessageId} : parseMsSeqId tables text = .ok last ↔
    msSeq tables text = some last ∧ long tables (text.toList.takeWhile fun c => c != '-') = false ∧
      long tables ((text.toList.dropWhile fun c => c != '-').drop 1) = false := by
  unfold parseMsSeqId msSeq
  cases text.toList.dropWhile fun c => c != '-' with
  | nil => simp
  | cons _ seq =>
    simp only [List.drop_succ_cons,List.drop_zero,bind,Option.bind_eq_some_iff,Option.some.injEq]
    constructor
    · intro parsed
      cases first : int tables (text.toList.takeWhile fun c => c != '-') with
      | error raised => simp [first] at parsed
      | ok ms =>
        cases second : int tables seq with
        | error raised => simp [first,second] at parsed
        | ok number =>
          simp only [first,second,Except.ok.injEq] at parsed
          obtain ⟨reads,few⟩ := int_ok.mp first
          obtain ⟨reads',few'⟩ := int_ok.mp second
          exact ⟨⟨ms,reads,number,reads',parsed⟩,few,few'⟩
    · intro written
      obtain ⟨⟨ms,reads,number,reads',same⟩,few,few'⟩ := written
      rw [int_ok.mpr ⟨reads,few⟩,int_ok.mpr ⟨reads',few'⟩]
      exact congrArg Except.ok same

theorem msSeq_dashed {text : String} {last : MessageId} (written : msSeq tables text = some last) : '-' ∈ text.toList := by
  by_contra plain
  unfold msSeq at written
  rw [undashed_cut plain] at written
  cases written

-- The cursor of an index that has a `-` in it does not write an id.
theorem dashed_unwritten {text : String} {i : Int} (reads : PythonInt.numeral tables text.toList = some i)
    (dashed : '-' ∈ text.toList) : msSeq tables text = none := by
  unfold msSeq
  split
  · rfl
  · rw [PythonInt.numeral_before_minus reads dashed]
    rfl

theorem restore_dashed {text : String} (dashed : '-' ∈ text.toList) {key : RunKey} {messages : List Message}
    (restored : restoreMessages tables m key (some text) = .ok messages) : ∃ last, parseMsSeqId tables text = .ok last := by
  unfold restoreMessages at restored
  dsimp only at restored
  rw [if_neg (not_not.mpr dashed)] at restored
  cases parsed : parseMsSeqId tables text with
  | error raised => simp [parsed] at restored
  | ok last => exact ⟨last,rfl⟩

theorem resumes_iff (kept : Kept m) (key : RunKey) (cursor : String) :
    Resumes tables m key cursor ↔ ¬ Dashed tables cursor ∧ ¬ Long tables cursor := by
  constructor
  · intro resumes
    have undashed : ∀ i, PythonInt.numeral tables cursor.toList = some i → -1 ≤ i → '-' ∉ cursor.toList := by
      intro i reads bound dashed
      obtain ⟨last,parsed⟩ := restore_dashed dashed (resumes.index i reads bound)
      have written := (parse_ok.mp parsed).1
      rw [dashed_unwritten reads dashed] at written
      cases written
    refine ⟨fun dashed => ?_,fun long_ => ?_⟩
    · obtain ⟨there,i,reads,bound⟩ := dashed
      exact undashed i reads bound there
    · rcases long_ with ⟨i,reads,bound,many⟩ | ⟨written,many⟩
      · have answer := resumes.index i reads bound
        unfold restoreMessages at answer
        dsimp only at answer
        rw [if_pos (undashed i reads bound)] at answer
        cases known : int tables cursor.toList with
        | error raised => simp [known] at answer
        | ok n =>
          have few := (int_ok.mp known).2
          rw [many] at few
          cases few
      · obtain ⟨last,same⟩ := Option.isSome_iff_exists.mp written
        obtain ⟨other,parsed⟩ := restore_dashed (msSeq_dashed same) (resumes.later last same)
        obtain ⟨_,few,few'⟩ := parse_ok.mp parsed
        rcases many with front | back
        · rw [front] at few
          cases few
        · rw [back] at few'
          cases few'
  · intro spared
    obtain ⟨plain,short⟩ := spared
    refine ⟨fun last written => ?_,fun i reads bound => ?_⟩
    · have parts := not_or.mp fun many => short (.inr ⟨Option.isSome_iff_exists.mpr ⟨last,written⟩,many⟩)
      have parsed := parse_ok.mpr ⟨written,Bool.eq_false_iff.mpr parts.1,Bool.eq_false_iff.mpr parts.2⟩
      have same : (m.stored key).filter (follows tables last) = (m.stored key).filter (Cursor.after last).precedes :=
        List.filter_congr fun message member => follows_precedes kept member last
      simp [restoreMessages,msSeq_dashed written,parsed,same]
    · have undashed : '-' ∉ cursor.toList := fun dashed => plain ⟨dashed,i,reads,bound⟩
      have few : long tables cursor.toList = false := Bool.eq_false_iff.mpr fun many => short (.inl ⟨i,reads,bound,many⟩)
      have known := int_ok.mpr ⟨reads,few⟩
      have start : ¬ i + 1 < 0 := by omega
      simp [restoreMessages,undashed,known,sliceFrom,start]

end ids

-- Ids always come back increasing; resuming is exact from every cursor but an
-- index with a `-` and a number that is too long for `int()`.
theorem ids_and_resume (tables : Tables) (calls : List Call) (key : RunKey) (cursor : String) :
    Monotone tables (record .new calls).2 ∧
      (Resumes tables (record .new calls).1 key cursor ↔ ¬ Dashed tables cursor ∧ ¬ Long tables cursor) := by
  have fresh : Kept .new := ⟨by decide,fun key message member => absurd member List.not_mem_nil⟩
  obtain ⟨kept,ids,texts,counted,sorted⟩ := record_ids fresh calls
  refine ⟨⟨ids,?_,sorted⟩,resumes_iff kept key cursor⟩
  rw [texts,List.map_map]
  exact List.map_congr_left fun id member => parse_text (counted id member).1

def toyTables : Tables := ⟨fun _ => false,fun _ => none⟩

def toyKey : RunKey := ⟨some "t","r"⟩

def toyCall : Call := ⟨toyKey,⟨.stream "r",[1],none⟩,1234567⟩

-- Everything is asked for, and nothing comes.
theorem all_refused : ¬ Resumes toyTables (record .new [toyCall]).1 toyKey "-1" := by
  intro resumes
  have answer := resumes.index (-1) (by decide +kernel) (by decide)
  have raised : restoreMessages toyTables (record .new [toyCall]).1 toyKey (some "-1") = .error (.notInt (.invalidLiteral [])) := by decide +kernel
  rw [raised] at answer
  cases answer

example : (record .new [toyCall,{toyCall with reading := 3},{toyCall with reading := 1234568}]).2 = ["1234567-0","1234567-1","1234568-0"] := by
  decide +kernel

end InmemRuntime.ResumeCursors
