import InmemRuntime.JsonText
import Mathlib.Algebra.GroupWithZero.Nat

namespace InmemRuntime.UuidTexts
open TextReplace JsonString JsonText

def lowerDigits : List Char := (List.range 16).map Nat.digitChar

-- The 36 characters that `str` makes of a UUID.
def isUuidText (text : List Char) : Bool :=
  text.length == 36 && text.zipIdx.all fun row => if row.2 ∈ [8,13,18,23] then row.1 == '-' else lowerDigits.contains row.1

structure UuidText where
  text : List Char
  shape : isUuidText text = true

theorem UuidText.ext {u w : UuidText} (same : u.text = w.text) : u = w := by
  cases u; cases w; cases same; rfl

instance : DecidableEq UuidText := fun u w => decidable_of_iff (u.text = w.text) ⟨UuidText.ext,congrArg UuidText.text⟩

def UuidText.str (u : UuidText) : String := String.ofList u.text

theorem UuidText.str_inj {u w : UuidText} : u.str = w.str ↔ u = w :=
  ⟨fun same => UuidText.ext (String.ofList_injective same),congrArg UuidText.str⟩

def uuidText? (value : String) : Option UuidText :=
  if shape : isUuidText value.toList = true then some ⟨value.toList,shape⟩ else none

theorem uuidText_str (u : UuidText) : uuidText? u.str = some u := by
  have listed : u.str.toList = u.text := String.toList_ofList
  rw [uuidText?,dif_pos (by rw [listed]; exact u.shape)]
  exact congrArg some (UuidText.ext listed)

theorem uuidText_some {value : String} {u : UuidText} (read : uuidText? value = some u) : u.str = value := by
  unfold uuidText? at read
  split at read
  · cases read
    exact String.ofList_toList
  · cases read

section shape
variable (u : UuidText)

theorem UuidText.length : u.text.length = 36 := eq_of_beq (Bool.and_eq_true_iff.mp u.shape).1

theorem UuidText.some_ : u.text ≠ [] := List.ne_nil_of_length_pos (by rw [u.length]; decide)

theorem UuidText.at (i : Nat) (inside : i < u.text.length) :
    if i ∈ [8,13,18,23] then u.text[i] = '-' else LowerHex u.text[i] := by
  have listed : (u.text[i],i) ∈ u.text.zipIdx := by simp [List.mem_zipIdx_iff_getElem?,inside]
  have here := List.all_eq_true.mp (Bool.and_eq_true_iff.mp u.shape).2 _ listed
  split
  · rename_i hyphen
    simpa only [if_pos hyphen,beq_iff_eq] using here
  · rename_i digit
    simp only [if_neg digit,lowerDigits,List.contains_iff_mem,List.mem_map,List.mem_range] at here
    obtain ⟨n,small,same⟩ := here
    exact ⟨n,small,same.symm⟩

theorem UuidText.mem {c : Char} (member : c ∈ u.text) : c = '-' ∨ LowerHex c := by
  obtain ⟨i,inside,rfl⟩ := List.mem_iff_getElem.mp member
  have here := u.at i inside
  split at here
  · exact .inl here
  · exact .inr here

-- The first group has no hyphen.
theorem UuidText.front {back : List Char} (begins : back <+: u.text) (short : back.length ≤ 8) : ∀ c ∈ back, LowerHex c := by
  intro c member
  obtain ⟨i,inside,rfl⟩ := List.mem_iff_getElem.mp member
  have inside' : i < u.text.length := by rw [u.length]; omega
  rw [begins.getElem inside]
  have here := u.at i inside'
  rwa [if_neg (by simp only [List.mem_cons,List.not_mem_nil,or_false]; omega)] at here

theorem UuidText.hyphen : ∃ front tail, u.text = front ++ '-' :: tail ∧ front ≠ [] := by
  have inside : 8 < u.text.length := by rw [u.length]; decide
  have here := u.at 8 inside
  rw [if_pos (by decide)] at here
  refine ⟨u.text.take 8,u.text.drop 9,?_,?_⟩
  · rw [← here,List.cons_getElem_drop_succ,List.take_append_drop]
  · exact List.ne_nil_of_length_pos (by rw [List.length_take]; omega)

theorem UuidText.hyphen_mem : '-' ∈ u.text := by
  obtain ⟨front,tail,shape,_⟩ := u.hyphen
  rw [shape]
  exact List.mem_append_right _ List.mem_cons_self

end shape

theorem lowerHex_plain {c : Char} (digit : c = '-' ∨ LowerHex c) : escape c = [c] ∧ c ≠ '"' ∧ c ≠ '\\' ∧ c ≠ 'u' ∧ c.utf8Size = 1 := by
  rcases digit with rfl | ⟨n,small,rfl⟩
  · decide
  · have table : ∀ n < 16, escape (Nat.digitChar n) = [Nat.digitChar n] ∧ Nat.digitChar n ≠ '"' ∧ Nat.digitChar n ≠ '\\' ∧
        Nat.digitChar n ≠ 'u' ∧ (Nat.digitChar n).utf8Size = 1 := by decide
    exact table n small

theorem UuidText.ordinary (u : UuidText) : '"' ∉ u.text ∧ '\\' ∉ u.text :=
  ⟨fun member => (lowerHex_plain (u.mem member)).2.1 rfl,fun member => (lowerHex_plain (u.mem member)).2.2.1 rfl⟩

theorem UuidText.literal (u : UuidText) : Literal escape u.text where
  self c member := (lowerHex_plain (u.mem member)).1
  marked c := by
    rcases escape_cases c with ⟨letter,shape,_⟩ | ⟨shape,_⟩ | ⟨shape,_⟩ | ⟨shape,_⟩
    · exact .inr ⟨_,_,shape,u.ordinary.2⟩
    · exact .inl shape
    · exact .inr ⟨_,_,shape,u.ordinary.2⟩
    · exact .inr ⟨_,_,shape,u.ordinary.2⟩

theorem UuidText.fits (u : UuidText) (c : Char) : (escape c).length ≤ u.text.length := by
  rw [u.length]
  rcases escape_cases c with ⟨letter,shape,_⟩ | ⟨shape,_⟩ | ⟨shape,_⟩ | ⟨shape,_⟩ <;> rw [shape] <;>
    simp [unitText,hexDigits]

theorem UuidText.apart (u : UuidText) {c : Char} (other : (c != '-' && !lowerDigits.contains c) = true) : c ∉ u.text := by
  intro listed
  simp only [Bool.and_eq_true,bne_iff_ne,Bool.not_eq_true',List.contains_eq_mem,decide_eq_false_iff_not] at other
  rcases u.mem listed with same | ⟨n,small,same⟩
  · exact other.1 same
  · exact other.2 (List.mem_map.mpr ⟨n,List.mem_range.mpr small,same.symm⟩)

-- Nothing in a document but a string has a hyphen after another character.
theorem UuidText.inward (u : UuidText) : Inward u.text where
  some_ := u.some_
  quote_ := u.apart (by decide)
  blank := ⟨u.apart (by decide),u.apart (by decide)⟩
  comma := u.apart (by decide)
  colon := u.apart (by decide)
  square := ⟨u.apart (by decide),u.apart (by decide)⟩
  curly := ⟨u.apart (by decide),u.apart (by decide)⟩
  words word member inside := by
    have table : ∀ word ∈ [['n','u','l','l'],['t','r','u','e'],['f','a','l','s','e']], '-' ∉ word := by decide
    exact table word member (inside.subset u.hyphen_mem)
  numbers value inside := by
    obtain ⟨front,tail,shape,nonempty⟩ := u.hyphen
    obtain ⟨before,after,whole⟩ := inside
    have digits : '-' ∉ Nat.toDigits 10 value.natAbs := fun member => by cases toDigits_isDigit member
    rw [shape] at whole
    unfold intText at whole
    split at whole
    · obtain ⟨c,front,rfl⟩ := List.exists_cons_of_ne_nil nonempty
      refine digits ?_
      cases before with
      | nil =>
        rw [← (List.cons.inj whole).2]
        simp
      | cons d before =>
        rw [← (List.cons.inj whole).2]
        simp
    · exact digits (whole ▸ by simp)

section texts
variable (old new : UuidText)

-- What is left between the quotes once `old` is replaced in the escaped text.
def content (text : List Char) : List Char := replaceAll old.text new.text (escapeAll escape text)

theorem content_closed (text : List Char) : closed false (content old new text) = true := by
  rw [content,closed_replaceAll old.some_ new.some_ old.ordinary new.ordinary,closed_escapeAll]

theorem codes_append (text more : List Char) : codes (text ++ more) = codes text ++ codes more := List.map_append

theorem codes_injective : Function.Injective codes := List.map_injective_iff.mpr fun _ _ => Char.toNat_inj.mp

variable {old new}

theorem unescape_plain_text (u : UuidText) {part : List Char} (inside : part ⊆ u.text) (rest : List Char) :
    unescape (part ++ rest) = (unescape rest).map (codes part ++ ·) := by
  have plain : escapeAll escape part = part := escapeAll_plain (u.literal.subset inside)
  rw [← unescape_escapeAll,plain]

theorem cut_parts {c : Char} {before back more : List Char} (group : escape c = before ++ back) (nonempty : before ≠ [])
    (nonempty' : back ≠ []) (shape : old.text = back ++ more) {fill rest : List Char} {after : List Nat}
    (length : fill.length = back.length) (begins : fill <+: new.text)
    (read : unescape (before ++ (fill ++ rest)) = some (c.toNat :: after)) : fill = back := by
  have plain : ∀ d ∈ back, d ≠ '\\' ∧ d ≠ 'u' := fun d member =>
    have ordinary := lowerHex_plain (old.mem (shape ▸ List.mem_append_left more member))
    ⟨ordinary.2.2.1,ordinary.2.2.2.1⟩
  obtain ⟨short,completed⟩ := escape_completed group nonempty nonempty'
    ⟨fun member => (plain _ member).1 rfl,fun member => (plain _ member).2 rfl⟩
  exact completed fill rest after length (new.front begins (by omega)) read

-- What is read where an occurrence begins inside an escape: the character is
-- its own again, so that both ids begin alike, and the rest of the new one follows.
theorem cut_read {c : Char} {rest : List Char} {after : List Nat} (cut : cuts escape old.text c rest = true)
    (read : unescape (content old new (c :: rest)) = some (c.toNat :: after)) :
    ∃ back more later, back ≠ [] ∧ old.text = back ++ more ∧ rest = more ++ later ∧
      new.text = back ++ new.text.drop back.length ∧
      (unescape (content old new later)).map (codes (new.text.drop back.length) ++ ·) = some after := by
  obtain ⟨before,back,more,later,group,nonempty,nonempty',shape,rfl,result⟩ :=
    replaceAll_cut old.some_ old.literal old.fits new.text cut
  have long : back.length ≤ new.text.length := by
    rw [new.length,← old.length,shape,List.length_append]
    exact Nat.le_add_right _ _
  have split_ : ∀ rest : List Char, new.text ++ rest = new.text.take back.length ++ (new.text.drop back.length ++ rest) := by
    intro rest
    rw [← List.append_assoc,List.take_append_drop]
  rw [content,result,split_] at read
  have back_ : new.text.take back.length = back :=
    cut_parts group nonempty nonempty' shape (by rw [List.length_take,Nat.min_eq_left long]) (List.take_prefix _ _) read
  have right : new.text = back ++ new.text.drop back.length :=
    (List.take_append_drop back.length new.text).symm.trans (congrArg (· ++ _) back_)
  rw [back_,← List.append_assoc,← group,unescape_escape,unescape_plain_text new (List.drop_subset _ _)] at read
  obtain ⟨found,here,same⟩ := Option.map_eq_some_iff.mp read
  exact ⟨back,more,later,nonempty',shape,rfl,right,here.trans (congrArg some (List.cons.inj same).2)⟩

-- Where an occurrence of the id begins inside an escape, the text is not what
-- replacing in it would have given.
theorem straddled (text : List Char) (cut : straddles escape old.text text = true)
    (read : unescape (content old new text) = some (codes (replaceAll old.text new.text text))) : old = new := by
  induction text using replace_induction old.some_ with
  | nil => cases cut
  | hit rest ih =>
    rw [straddles_plain old.literal] at cut
    rw [content,escapeAll_append,escapeAll_plain old.literal,replaceAll_hit old.some_,replaceAll_hit old.some_,
      unescape_plain_text new (List.Subset.refl _),codes_append] at read
    obtain ⟨found,here,same⟩ := Option.map_eq_some_iff.mp read
    exact ih cut (here.trans (congrArg some (List.append_cancel_left same)))
  | miss c rest here ih =>
    rw [replaceAll_miss here] at read
    by_cases cut_ : cuts escape old.text c rest = true
    · obtain ⟨back,more,later,nonempty,shape,rfl,right,here⟩ := cut_read cut_ read
      obtain ⟨tail,_,joined⟩ := Option.map_eq_some_iff.mp here
      have begins : new.text.drop back.length <+: replaceAll old.text new.text (more ++ later) := by
        rw [← List.prefix_map_iff_of_injective fun _ _ => Char.toNat_inj.mp]
        exact ⟨tail,joined⟩
      exact UuidText.ext (replaceAll_overlap nonempty shape right (new.length.trans old.length.symm) begins)
    · have uncut : cuts escape old.text c rest = false := by simpa using cut_
      have later : straddles escape old.text rest = true := by simpa [straddles,uncut] using cut
      rw [content,replaceAll_uncut old.some_ old.literal old.fits new.text here uncut,unescape_escape] at read
      obtain ⟨found,here,same⟩ := Option.map_eq_some_iff.mp read
      exact ih later (here.trans (congrArg some (List.cons.inj same).2))

theorem content_whole {text : List Char} (whole : straddles escape old.text text = false) :
    unescape (content old new text) = some (codes (replaceAll old.text new.text text)) := by
  rw [content,replaceAll_escaped old.some_ old.literal old.fits new.literal whole,unescape_whole]

-- A string is replaced in as it should be unless an occurrence straddles an
-- escape of it.
theorem content_read (text : List Char) :
    unescape (content old new text) = some (codes (replaceAll old.text new.text text)) ↔
      old = new ∨ straddles escape old.text text = false := by
  constructor
  · intro read
    by_cases cut : straddles escape old.text text = true
    · exact .inl (straddled text cut read)
    · exact .inr (by simpa using cut)
  · rintro (rfl | whole)
    · rw [content,replaceAll_same old.some_,replaceAll_same old.some_,unescape_whole]
    · exact content_whole whole

-- A text comes back as it is when it neither holds the id nor runs into it.
theorem content_kept (other : old ≠ new) (text : List Char) :
    unescape (content old new text) = some (codes text) ↔ ¬old.text <:+: text ∧ straddles escape old.text text = false := by
  constructor
  · intro read
    induction text using replace_induction old.some_ with
    | nil => exact ⟨fun inside => old.some_ (List.infix_nil.mp inside),rfl⟩
    | hit rest ih =>
      rw [content,escapeAll_append,escapeAll_plain old.literal,replaceAll_hit old.some_,
        unescape_plain_text new (List.Subset.refl _),codes_append] at read
      obtain ⟨found,_,same⟩ := Option.map_eq_some_iff.mp read
      have front := (List.append_inj same (by simp [codes,old.length,new.length])).1
      exact absurd (UuidText.ext (codes_injective front)).symm other
    | miss c rest here ih =>
      cases cut : cuts escape old.text c rest with
      | true =>
        obtain ⟨back,more,later,_,shape,rfl,right,here⟩ := cut_read cut read
        obtain ⟨found,_,same⟩ := Option.map_eq_some_iff.mp here
        have length : (new.text.drop back.length).length = more.length := by
          have whole := congrArg List.length shape
          rw [List.length_append,old.length] at whole
          rw [List.length_drop,new.length]
          omega
        rw [List.map_append] at same
        have rest_ := codes_injective (List.append_inj same (by simpa [codes] using length)).1
        exact absurd (UuidText.ext (shape.trans (right.trans (congrArg (back ++ ·) rest_)).symm)) other
      | false =>
        rw [content,replaceAll_uncut old.some_ old.literal old.fits new.text here cut,unescape_escape] at read
        obtain ⟨found,later,same⟩ := Option.map_eq_some_iff.mp read
        obtain ⟨absent,whole⟩ := ih (later.trans (congrArg some (List.cons.inj same).2))
        refine ⟨fun inside => ?_,by rw [straddles,cut,whole]; rfl⟩
        rcases List.infix_cons_iff.mp inside with begins | inside
        · exact here begins
        · exact absent inside
  · rintro ⟨absent,whole⟩
    rw [content_whole whole,replaceAll_absent absent]

-- A text without hyphens has no occurrence to replace.
theorem replaceAll_hyphenless {text : List Char} (missing : '-' ∉ text) : replaceAll old.text new.text text = text :=
  replaceAll_absent fun inside => missing (inside.subset old.hyphen_mem)

theorem content_plain {text : List Char} (plain : ∀ c ∈ text, escape c = [c]) (missing : '-' ∉ text) :
    unescape (content old new text) = some (codes text) := by
  have self : escapeAll escape text = text := by
    induction text with
    | nil => rfl
    | cons c text ih =>
      obtain ⟨here,later⟩ := List.forall_mem_cons.mp plain
      rw [escapeAll_cons,here,ih later fun member => missing (List.mem_cons_of_mem _ member)]
      rfl
  have read := unescape_whole text
  rw [self] at read
  rw [content,self,replaceAll_hyphenless missing,read]

end texts

-- The UTF-8 bytes of a text.
section bytes

def encode (text : List Char) : List UInt8 := text.flatMap String.utf8EncodeChar

theorem UuidText.encode_length (u : UuidText) : (encode u.text).length = 36 := by
  have single : ∀ text : List Char, (∀ c ∈ text, c.utf8Size = 1) → (encode text).length = text.length := by
    intro text single
    induction text with
    | nil => rfl
    | cons c text ih =>
      obtain ⟨here,later⟩ := List.forall_mem_cons.mp single
      rw [encode,List.flatMap_cons,List.length_append,String.length_utf8EncodeChar,here,List.length_cons,← ih later]
      exact Nat.add_comm _ _
  rw [single u.text fun c member => (lowerHex_plain (u.mem member)).2.2.2.2,u.length]

theorem UuidText.encode_some (u : UuidText) : encode u.text ≠ [] := List.ne_nil_of_length_pos (by rw [u.encode_length]; decide)

variable (old new : UuidText)

def replaceBytes (data : List UInt8) : List UInt8 := replaceAll (encode old.text) (encode new.text) data

theorem replaceBytes_length (data : List UInt8) : (replaceBytes old new data).length = data.length :=
  replaceAll_length old.encode_some (by rw [old.encode_length,new.encode_length])

theorem replaceText_length (text : List Char) : (replaceAll old.text new.text text).length = text.length :=
  replaceAll_length old.some_ (by rw [old.length,new.length])

theorem UuidText.sizes (u : UuidText) : (u.text.map Char.utf8Size).sum = 36 := by
  rw [List.map_congr_left fun c member => (lowerHex_plain (u.mem member)).2.2.2.2,List.map_const',u.length]
  rfl

theorem replaceText_size (text : List Char) :
    ((replaceAll old.text new.text text).map Char.utf8Size).sum = (text.map Char.utf8Size).sum :=
  replaceAll_sum _ old.some_ (by rw [old.sizes,new.sizes])

end bytes

end InmemRuntime.UuidTexts
