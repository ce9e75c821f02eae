import InmemRuntime.TextReplace

namespace JsonString
open TextReplace

-- The short escapes: the letter after the backslash and the character it stands for.
def shortEscapes : List (Char × Nat) := [('"',34),('\\',92),('n',10),('r',13),('t',9),('f',12),('b',8)]

def hexDigits (unit : Nat) : List Char :=
  [Nat.digitChar (unit / 4096),Nat.digitChar (unit / 256 % 16),Nat.digitChar (unit / 16 % 16),Nat.digitChar (unit % 16)]

def unitText (unit : Nat) : List Char := '\\' :: 'u' :: hexDigits unit

def highUnit (code : Nat) : Nat := 0xd800 + (code - 0x10000) / 1024

def lowUnit (code : Nat) : Nat := 0xdc00 + (code - 0x10000) % 1024

-- A character between the quotes of `json.dumps`, which writes ASCII only.
def escape (c : Char) : List Char :=
  match shortEscapes.find? fun row => row.2 == c.toNat with
  | some (letter,_) => ['\\',letter]
  | none =>
    if 32 ≤ c.toNat ∧ c.toNat ≤ 126 then [c]
    else if c.toNat < 0x10000 then unitText c.toNat
    else unitText (highUnit c.toNat) ++ unitText (lowUnit c.toNat)

def quote (content : List Char) : List Char := '"' :: (content ++ ['"'])

def hexValue (c : Char) : Option Nat :=
  if '0' ≤ c ∧ c ≤ '9' then some (c.toNat - 48)
  else if 'a' ≤ c ∧ c ≤ 'f' then some (c.toNat - 87)
  else if 'A' ≤ c ∧ c ≤ 'F' then some (c.toNat - 55)
  else none

def unitValue (a b c d : Char) : Option Nat :=
  (hexValue a).bind fun a => (hexValue b).bind fun b => (hexValue c).bind fun c => (hexValue d).map fun d =>
    ((a * 16 + b) * 16 + c) * 16 + d

def isHigh (unit : Nat) : Bool := decide (0xd800 ≤ unit ∧ unit ≤ 0xdbff)

def isLow (unit : Nat) : Bool := decide (0xdc00 ≤ unit ∧ unit ≤ 0xdfff)

-- A high surrogate takes up the low one right after it; one alone stays as it is.
def joinUnit (unit : Nat) : List Nat → List Nat
  | low :: codes =>
    if isHigh unit && isLow low then (0x10000 + (unit - 0xd800) * 1024 + (low - 0xdc00)) :: codes else unit :: low :: codes
  | [] => [unit]

def shortCode (letter : Char) : Option Nat := if letter = '/' then some 47 else shortEscapes.lookup letter

-- The code points that the text between two quotes stands for; `none` is a
-- decoding error.
def unescape : List Char → Option (List Nat)
  | [] => some []
  | '\\' :: 'u' :: a :: b :: c :: d :: rest => (unitValue a b c d).bind fun unit => (unescape rest).map (joinUnit unit)
  | '\\' :: letter :: rest => (shortCode letter).bind fun code => (unescape rest).map (code :: ·)
  | c :: rest => if c = '\\' ∨ c.toNat < 32 then none else (unescape rest).map (c.toNat :: ·)

-- The text up to the closing quote and what follows that. `escaped` is set after
-- a backslash, where a quote does not close.
def splitQuote (escaped : Bool) : List Char → Option (List Char × List Char)
  | [] => none
  | c :: rest =>
    if escaped = false ∧ c = '"' then some ([],rest)
    else (splitQuote (!escaped && c == '\\') rest).map fun (content,rest) => (c :: content,rest)

def scanString (text : List Char) : Option (List Nat × List Char) :=
  (splitQuote false text).bind fun (content,rest) => (unescape content).map fun codes => (codes,rest)

def codes (text : List Char) : List Nat := text.map Char.toNat

section escapes
variable {c : Char} {rest : List Char}

theorem escape_cases (c : Char) :
    (∃ letter, escape c = ['\\',letter] ∧ (letter,c.toNat) ∈ shortEscapes) ∨
      (escape c = [c] ∧ 32 ≤ c.toNat ∧ c.toNat ≤ 126 ∧ c ≠ '\\' ∧ c ≠ '"') ∨
      (escape c = unitText c.toNat ∧ (c.toNat < 0xd800 ∨ 0xdfff < c.toNat) ∧ c.toNat < 0x10000) ∨
      (escape c = unitText (highUnit c.toNat) ++ unitText (lowUnit c.toNat) ∧ 0x10000 ≤ c.toNat ∧ c.toNat < 0x110000) := by
  have valid : c.toNat < 0xd800 ∨ 0xdfff < c.toNat ∧ c.toNat < 0x110000 := c.valid
  unfold escape
  cases found : shortEscapes.find? fun row => row.2 == c.toNat with
  | some row =>
    obtain ⟨letter,code⟩ := row
    have same : code = c.toNat := by simpa using List.find?_some found
    exact .inl ⟨letter,rfl,same ▸ List.mem_of_find?_eq_some found⟩
  | none =>
    refine .inr ?_
    have apart : ∀ row ∈ shortEscapes, row.2 ≠ c.toNat := by simpa using found
    simp only []
    split
    · rename_i printable
      refine .inl ⟨rfl,printable.1,printable.2,?_,?_⟩
      · rintro rfl
        exact apart ('\\',92) (by decide) rfl
      · rintro rfl
        exact apart ('"',34) (by decide) rfl
    · split
      · exact .inr (.inl ⟨rfl,by omega,by omega⟩)
      · exact .inr (.inr ⟨rfl,by omega,by omega⟩)

theorem hexValue_digit {n : Nat} (small : n < 16) : hexValue (Nat.digitChar n) = some n := by
  have table : ∀ n < 16, hexValue (Nat.digitChar n) = some n := by decide
  exact table n small

theorem unescape_unit {unit : Nat} (small : unit < 0x10000) (rest : List Char) :
    unescape (unitText unit ++ rest) = (unescape rest).map (joinUnit unit) := by
  have whole : ((unit / 4096 * 16 + unit / 256 % 16) * 16 + unit / 16 % 16) * 16 + unit % 16 = unit := by omega
  have value : unitValue (Nat.digitChar (unit / 4096)) (Nat.digitChar (unit / 256 % 16)) (Nat.digitChar (unit / 16 % 16))
      (Nat.digitChar (unit % 16)) = some unit := by
    simp only [unitValue,hexValue_digit (show unit / 4096 < 16 by omega),hexValue_digit (Nat.mod_lt _ (show 16 > 0 by decide)),
      Option.bind_some,Option.map_some,whole]
  simp only [unitText,hexDigits,List.cons_append,List.nil_append,unescape,value,Option.bind_some]

theorem unescape_letter {letter : Char} (apart : letter ≠ 'u') (rest : List Char) :
    unescape ('\\' :: letter :: rest) = (shortCode letter).bind fun code => (unescape rest).map (code :: ·) := by
  rw [unescape]
  exact fun a b c d more same => absurd same apart

theorem unescape_plain (apart : c ≠ '\\') (printable : 32 ≤ c.toNat) (rest : List Char) :
    unescape (c :: rest) = (unescape rest).map (c.toNat :: ·) := by
  rw [unescape]
  · exact if_neg (by simp [apart]; omega)
  · exact fun a b c d more same => absurd same apart
  · exact fun letter more same => absurd same apart

theorem joinUnit_alone {unit : Nat} (single : isHigh unit = false) (codes : List Nat) : joinUnit unit codes = unit :: codes := by
  cases codes with
  | nil => rfl
  | cons low codes => simp [joinUnit,single]

-- What a unit becomes together with what comes after it.
theorem joinUnit_head {unit code : Nat} {codes after : List Nat} (joined : joinUnit unit codes = code :: after) :
    code = unit ∨ ∃ low, codes.head? = some low ∧ isHigh unit = true ∧ isLow low = true ∧
      code = 0x10000 + (unit - 0xd800) * 1024 + (low - 0xdc00) := by
  cases codes with
  | nil => cases joined; exact .inl rfl
  | cons low codes =>
    simp only [joinUnit] at joined
    split at joined
    · rename_i pair
      rw [Bool.and_eq_true] at pair
      exact .inr ⟨low,rfl,pair.1,pair.2,(List.cons.inj joined).1.symm⟩
    · exact .inl (List.cons.inj joined).1.symm

theorem units_range {code : Nat} (astral : 0x10000 ≤ code) (valid : code < 0x110000) :
    isHigh (highUnit code) = true ∧ isLow (lowUnit code) = true ∧ isHigh (lowUnit code) = false ∧
      highUnit code < 0x10000 ∧ lowUnit code < 0x10000 ∧
      0x10000 + (highUnit code - 0xd800) * 1024 + (lowUnit code - 0xdc00) = code := by
  simp only [isHigh,isLow,decide_eq_true_eq,decide_eq_false_iff_not]
  unfold highUnit lowUnit
  omega

theorem unescape_escape (c : Char) (rest : List Char) :
    unescape (escape c ++ rest) = (unescape rest).map (c.toNat :: ·) := by
  rcases escape_cases c with ⟨letter,shape,listed⟩ | ⟨shape,printable,_,apart,_⟩ | ⟨shape,single,small⟩ | ⟨shape,astral,valid⟩
  · have table : ∀ row ∈ shortEscapes, row.1 ≠ 'u' ∧ shortCode row.1 = some row.2 := by decide
    obtain ⟨apart,code⟩ := table _ listed
    rw [shape,List.cons_append,List.cons_append,List.nil_append,unescape_letter apart,code,Option.bind_some]
  · rw [shape]
    exact unescape_plain apart printable rest
  · have alone : isHigh c.toNat = false := by
      simp only [isHigh,decide_eq_false_iff_not]
      omega
    rw [shape,unescape_unit small]
    exact congrArg (Option.map · _) (funext (joinUnit_alone alone))
  · obtain ⟨high,low,alone,smallHigh,smallLow,whole⟩ := units_range astral valid
    rw [shape,List.append_assoc,unescape_unit smallHigh,unescape_unit smallLow,Option.map_map]
    refine congrArg (Option.map · _) (funext fun codes => ?_)
    rw [Function.comp_apply,joinUnit_alone alone]
    simp only [joinUnit,high,low,Bool.and_self,if_true,whole]

theorem unescape_escapeAll (text rest : List Char) :
    unescape (escapeAll escape text ++ rest) = (unescape rest).map (codes text ++ ·) := by
  induction text with
  | nil => exact (Option.map_id_apply).symm
  | cons c text ih =>
    rw [escapeAll_cons,List.append_assoc,unescape_escape,ih,Option.map_map]
    rfl

theorem unescape_whole (text : List Char) : unescape (escapeAll escape text) = some (codes text) := by
  simpa [unescape] using unescape_escapeAll text []

end escapes

-- A group that an occurrence cuts open has one lower-case completion that gives
-- its character back.
section completion

def LowerHex (c : Char) : Prop := ∃ n < 16, c = Nat.digitChar n

-- Four digits are those of one unit.
theorem four_digits {word : List Char} (length : word.length = 4) (digits : ∀ c ∈ word, LowerHex c) :
    ∃ unit < 0x10000, word = hexDigits unit := by
  match word,length with
  | [a,b,c,d],_ =>
    obtain ⟨i,first,rfl⟩ := digits a (by simp)
    obtain ⟨j,second,rfl⟩ := digits b (by simp)
    obtain ⟨k,third,rfl⟩ := digits c (by simp)
    obtain ⟨l,fourth,rfl⟩ := digits d (by simp)
    refine ⟨((i * 16 + j) * 16 + k) * 16 + l,by omega,?_⟩
    simp only [hexDigits,List.cons.injEq,and_true]
    exact ⟨congrArg _ (by omega),congrArg _ (by omega),congrArg _ (by omega),congrArg _ (by omega)⟩

theorem hexDigits_lower {unit : Nat} (small : unit < 0x10000) : ∀ c ∈ hexDigits unit, LowerHex c := by
  intro c member
  simp only [hexDigits,List.mem_cons,List.not_mem_nil,or_false] at member
  rcases member with rfl | rfl | rfl | rfl
  · exact ⟨_,by omega,rfl⟩
  · exact ⟨_,by omega,rfl⟩
  · exact ⟨_,by omega,rfl⟩
  · exact ⟨_,by omega,rfl⟩

-- A cut inside the text of a unit leaves the backslash and the `u` before it.
theorem unit_cut {unit : Nat} {before back : List Char} (group : unitText unit = before ++ back) (nonempty : before ≠ [])
    (plain : 'u' ∉ back) : ∃ front, before = '\\' :: 'u' :: front ∧ hexDigits unit = front ++ back := by
  match before,nonempty with
  | [_],_ =>
    have follows : 'u' :: hexDigits unit = back := (List.cons.inj group).2
    exact absurd (follows ▸ List.mem_cons_self) plain
  | _ :: _ :: front,_ =>
    obtain ⟨rfl,follows⟩ := List.cons.inj group
    obtain ⟨rfl,digits⟩ := List.cons.inj follows
    exact ⟨front,rfl,digits⟩

theorem unit_completed {unit : Nat} {front back fill : List Char} (small : unit < 0x10000) (group : hexDigits unit = front ++ back)
    (length : fill.length = back.length) (digits : ∀ c ∈ fill, LowerHex c) :
    ∃ other, (∀ rest, unescape ('\\' :: 'u' :: front ++ (fill ++ rest)) = (unescape rest).map (joinUnit other)) ∧
      (other = unit → fill = back) := by
  have four : (front ++ fill).length = 4 := by
    have whole := congrArg List.length group
    simp only [hexDigits,List.length_append,List.length_cons,List.length_nil] at whole ⊢
    omega
  have lower : ∀ c ∈ front ++ fill, LowerHex c := by
    intro c member
    rcases List.mem_append.mp member with here | here
    · exact hexDigits_lower small c (group ▸ List.mem_append_left _ here)
    · exact digits c here
  obtain ⟨other,small',shape⟩ := four_digits four lower
  refine ⟨other,fun rest => ?_,fun same => ?_⟩
  · rw [← unescape_unit small' rest,unitText,← shape]
    simp
  · rw [same,group] at shape
    exact List.append_cancel_left shape

theorem escape_completed {c : Char} {before back : List Char} (group : escape c = before ++ back) (nonempty : before ≠ [])
    (nonempty' : back ≠ []) (plain : '\\' ∉ back ∧ 'u' ∉ back) :
    back.length ≤ 4 ∧ ∀ fill rest after, fill.length = back.length → (∀ c ∈ fill, LowerHex c) →
      unescape (before ++ (fill ++ rest)) = some (c.toNat :: after) → fill = back := by
  have four : ∀ unit front, hexDigits unit = front ++ back → back.length ≤ 4 := by
    intro unit front whole
    have := congrArg List.length whole
    simp only [hexDigits,List.length_append,List.length_cons,List.length_nil] at this
    omega
  rcases escape_cases c with ⟨letter,shape,listed⟩ | ⟨shape,_⟩ | ⟨shape,_,small⟩ | ⟨shape,astral,valid⟩
  · rw [shape] at group
    have table : ∀ row ∈ shortEscapes, ∀ n < 16, shortCode (Nat.digitChar n) = some row.2 → Nat.digitChar n = row.1 := by decide
    match before,back,nonempty,nonempty' with
    | [_],[_],_,_ =>
      obtain ⟨rfl,follows⟩ := List.cons.inj group
      obtain ⟨rfl,_⟩ := List.cons.inj follows
      refine ⟨by simp,fun fill rest after length digits read => ?_⟩
      match fill,length with
      | [x],_ =>
        obtain ⟨n,small,rfl⟩ := digits x List.mem_cons_self
        have apart : ∀ n < 16, Nat.digitChar n ≠ 'u' := by decide
        rw [List.singleton_append,List.singleton_append,unescape_letter (apart n small)] at read
        obtain ⟨code,found,read⟩ := Option.bind_eq_some_iff.mp read
        obtain ⟨codes,_,read⟩ := Option.map_eq_some_iff.mp read
        rw [(List.cons.inj read).1] at found
        rw [table _ listed n small found]
    | _ :: _ :: _,_ :: _,_,_ => simp at group
    | [_],_ :: _ :: _,_,_ => simp at group
  · rw [shape] at group
    match before,back,nonempty,nonempty' with
    | _ :: _,_ :: _,_,_ => simp at group
  · rw [shape] at group
    obtain ⟨front,rfl,digits_⟩ := unit_cut group nonempty plain.2
    refine ⟨four _ _ digits_,fun fill rest after length digits read => ?_⟩
    obtain ⟨other,value,settled⟩ := unit_completed small digits_ length digits
    rw [value] at read
    obtain ⟨codes,_,joined⟩ := Option.map_eq_some_iff.mp read
    rcases joinUnit_head joined with same | ⟨low,_,_,_,same⟩
    · exact settled same.symm
    · omega
  · obtain ⟨high,low,_,smallHigh,smallLow,whole⟩ := units_range astral valid
    rw [shape] at group
    rcases List.append_eq_append_iff.mp group with ⟨middle,rfl,tail⟩ | ⟨middle,_,rfl⟩
    · by_cases open_ : middle = []
      · rw [open_,List.nil_append] at tail
        exact absurd (tail ▸ List.mem_cons_self) plain.1
      · obtain ⟨front,rfl,digits_⟩ := unit_cut tail open_ plain.2
        refine ⟨four _ _ digits_,fun fill rest after length digits read => ?_⟩
        obtain ⟨other,value,settled⟩ := unit_completed smallLow digits_ length digits
        rw [List.append_assoc,unescape_unit smallHigh,value,Option.map_map] at read
        obtain ⟨codes,_,joined⟩ := Option.map_eq_some_iff.mp read
        rcases joinUnit_head joined with same | ⟨unit,first,_,isLow_,same⟩
        · omega
        · obtain ⟨more,split_⟩ := List.head?_eq_some_iff.mp first
          simp only [isLow,decide_eq_true_eq] at low isLow_
          refine settled ?_
          rcases joinUnit_head split_ with same' | ⟨_,_,_,_,same'⟩
          · omega
          · omega
    · exact absurd (List.mem_append_right _ List.mem_cons_self) plain.1

end completion

section literals

-- Whether a text has no quote that would close it, and does not end in the
-- middle of an escape.
def closed (escaped : Bool) : List Char → Bool
  | [] => !escaped
  | c :: rest => (escaped || c != '"') && closed (!escaped && c == '\\') rest

theorem splitQuote_closed {escaped : Bool} {content : List Char} (whole : closed escaped content = true) (rest : List Char) :
    splitQuote escaped (content ++ '"' :: rest) = some (content,rest) := by
  induction content generalizing escaped with
  | nil =>
    have open_ : escaped = false := by simpa [closed] using whole
    simp [splitQuote,open_]
  | cons c content ih =>
    obtain ⟨here,later⟩ := Bool.and_eq_true_iff.mp whole
    have stays : ¬(escaped = false ∧ c = '"') := by
      rintro ⟨rfl,rfl⟩
      simp at here
    rw [List.cons_append,splitQuote,if_neg stays,ih later]
    rfl

theorem scanString_closed {content : List Char} (whole : closed false content = true) (rest : List Char) :
    scanString (content ++ '"' :: rest) = (unescape content).map fun codes => (codes,rest) := by
  rw [scanString,splitQuote_closed whole]
  rfl

-- Characters that are neither a quote nor a backslash bring back the plain state.
theorem closed_plain {escaped : Bool} {plain : List Char} (some_ : plain ≠ []) (ordinary : '"' ∉ plain ∧ '\\' ∉ plain)
    (rest : List Char) : closed escaped (plain ++ rest) = closed false rest := by
  induction plain generalizing escaped with
  | nil => exact absurd rfl some_
  | cons c plain ih =>
    simp only [List.mem_cons,not_or] at ordinary
    obtain ⟨⟨quote_,later⟩,⟨slash,later'⟩⟩ := ordinary
    have here : closed escaped (c :: plain ++ rest) = closed false (plain ++ rest) := by
      simp [closed,bne_iff_ne.mpr (Ne.symm quote_),beq_false_of_ne (Ne.symm slash)]
    rw [here]
    by_cases last : plain = []
    · rw [last]
      rfl
    · exact ih last ⟨later,later'⟩

theorem closed_escape (c : Char) (rest : List Char) : closed false (escape c ++ rest) = closed false rest := by
  have unit : ∀ unit < 0x10000, ∀ rest, closed false (unitText unit ++ rest) = closed false rest := by
    intro unit small rest
    have ordinary : ∀ n < 16, '"' ≠ Nat.digitChar n ∧ '\\' ≠ Nat.digitChar n := by decide
    refine (show _ = closed false (hexDigits unit ++ rest) from rfl).trans (closed_plain (List.cons_ne_nil _ _) ⟨?_,?_⟩ rest)
    · intro member
      obtain ⟨n,small,same⟩ := hexDigits_lower small _ member
      exact (ordinary n small).1 same
    · intro member
      obtain ⟨n,small,same⟩ := hexDigits_lower small _ member
      exact (ordinary n small).2 same
  rcases escape_cases c with ⟨letter,shape,_⟩ | ⟨shape,_,_,slash,quote_⟩ | ⟨shape,_,small⟩ | ⟨shape,astral,valid⟩
  · rw [shape]
    rfl
  · rw [shape]
    exact closed_plain (List.cons_ne_nil _ _) ⟨by simpa using Ne.symm quote_,by simpa using Ne.symm slash⟩ rest
  · rw [shape,unit _ small]
  · obtain ⟨_,_,_,smallHigh,smallLow,_⟩ := units_range astral valid
    rw [shape,List.append_assoc,unit _ smallHigh,unit _ smallLow]

theorem closed_escapeAll (text : List Char) : closed false (escapeAll escape text) = true := by
  induction text with
  | nil => rfl
  | cons c text ih => rw [escapeAll_cons,closed_escape,ih]

-- A replacement of one ordinary text by another leaves the quotes where they are.
theorem closed_replaceAll {old new : List Char} (some_ : old ≠ []) (some_' : new ≠ []) (ordinary : '"' ∉ old ∧ '\\' ∉ old)
    (ordinary' : '"' ∉ new ∧ '\\' ∉ new) (escaped : Bool) (text : List Char) :
    closed escaped (replaceAll old new text) = closed escaped text := by
  induction text using replace_induction some_ generalizing escaped with
  | nil => rfl
  | hit rest ih => rw [replaceAll_hit some_,closed_plain some_' ordinary',closed_plain some_ ordinary,ih]
  | miss a rest here ih => rw [replaceAll_miss here,closed,closed,ih]

end literals

end JsonString
