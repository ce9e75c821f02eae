import InmemRuntime.JsonString
import Mathlib.Data.List.TakeDrop

namespace JsonText
open TextReplace JsonString
universe u v

-- A JSON document over its strings and its numbers.
inductive Json (σ : Type u) (ν : Type v) where
  | null
  | bool (value : Bool)
  | num (value : ν)
  | str (value : σ)
  | arr (items : List (Json σ ν))
  | obj (fields : List (σ × Json σ ν))

section trees
universe u' v' w
variable {σ : Type u} {ν : Type v} {τ : Type u'} {μ : Type v'} {α : Type w}

theorem Json.induct {motive : Json σ ν → Prop} (null : motive .null) (bool : ∀ value, motive (.bool value))
    (num : ∀ value, motive (.num value)) (str : ∀ value, motive (.str value))
    (arr : ∀ items, (∀ item ∈ items, motive item) → motive (.arr items))
    (obj : ∀ fields, (∀ field ∈ fields, motive field.2) → motive (.obj fields)) (json : Json σ ν) : motive json := by
  refine @Json.rec σ ν motive (fun items => ∀ item ∈ items, motive item) (fun fields => ∀ field ∈ fields, motive field.2)
    (fun field => motive field.2) null bool num str arr obj ?_ ?_ ?_ ?_ (fun _ _ holds => holds) json
  · exact fun _ member => absurd member List.not_mem_nil
  · exact fun first rest holds holds' => List.forall_mem_cons.mpr ⟨holds,holds'⟩
  · exact fun _ member => absurd member List.not_mem_nil
  · exact fun first rest holds holds' => List.forall_mem_cons.mpr ⟨holds,holds'⟩

def collect : List (Option α) → Option (List α)
  | [] => some []
  | outcome :: rest => outcome.bind fun item => (collect rest).map (item :: ·)

-- The document with its strings and numbers read, where all can be.
section reading
variable (string : σ → Option τ) (number : ν → Option μ)

mutual
def Json.traverse : Json σ ν → Option (Json τ μ)
  | .null => some .null
  | .bool value => some (.bool value)
  | .num value => (number value).map .num
  | .str value => (string value).map .str
  | .arr items => (Json.traverseItems items).map .arr
  | .obj fields => (Json.traverseFields fields).map .obj
def Json.traverseItems : List (Json σ ν) → Option (List (Json τ μ))
  | [] => some []
  | item :: rest => (Json.traverse item).bind fun read => (Json.traverseItems rest).map (read :: ·)
def Json.traverseFields : List (σ × Json σ ν) → Option (List (τ × Json τ μ))
  | [] => some []
  | (key,value) :: rest =>
    ((string key).bind fun name => (Json.traverse value).map fun read => (name,read)).bind fun field =>
      (Json.traverseFields rest).map (field :: ·)
end

def Json.traverseField (field : σ × Json σ ν) : Option (τ × Json τ μ) :=
  (string field.1).bind fun name => (field.2.traverse string number).map fun read => (name,read)

theorem collect_map {ρ : Type} (f : ρ → Option α) (rows : List ρ) : collect (rows.map f) = rows.mapM f := by
  induction rows with
  | nil => rfl
  | cons row rest ih =>
    rw [List.map_cons,collect,ih,List.mapM_cons]
    cases f row with
    | none => rfl
    | some item => cases rest.mapM f <;> rfl

theorem traverseItems_collect (items : List (Json σ ν)) :
    Json.traverseItems string number items = collect (items.map (Json.traverse string number)) := by
  induction items with
  | nil => rfl
  | cons item rest ih => rw [Json.traverseItems,List.map_cons,collect,ih]

theorem traverseFields_collect (fields : List (σ × Json σ ν)) :
    Json.traverseFields string number fields = collect (fields.map (Json.traverseField string number)) := by
  induction fields with
  | nil => rfl
  | cons field rest ih =>
    obtain ⟨key,value⟩ := field
    rw [Json.traverseFields,List.map_cons,collect,ih]
    rfl

end reading

end trees

-- `json.dumps` with `indent=2`: each entry on a line of its own.
section layout

def newline (level : Nat) : List Char := '\n' :: List.replicate (2 * level) ' '

def closing (level : Nat) (close : Char) : List (List Char) → List Char
  | [] => newline level ++ [close]
  | entry :: rest => ',' :: (newline (level + 1) ++ (entry ++ closing level close rest))

def bracket (level : Nat) (open_ close : Char) : List (List Char) → List Char
  | [] => [open_,close]
  | entry :: rest => open_ :: (newline (level + 1) ++ (entry ++ closing level close rest))

def intText (value : Int) : List Char :=
  if value < 0 then '-' :: Nat.toDigits 10 value.natAbs else Nat.toDigits 10 value.natAbs

variable {σ : Type u} (content : σ → List Char)

def fieldText (key : σ) (value : List Char) : List Char := quote (content key) ++ (':' :: ' ' :: value)

mutual
def render (level : Nat) : Json σ Int → List Char
  | .null => ['n','u','l','l']
  | .bool value => if value then ['t','r','u','e'] else ['f','a','l','s','e']
  | .num value => intText value
  | .str value => quote (content value)
  | .arr items => bracket level '[' ']' (renderItems (level + 1) items)
  | .obj fields => bracket level '{' '}' (renderFields (level + 1) fields)
def renderItems (level : Nat) : List (Json σ Int) → List (List Char)
  | [] => []
  | item :: rest => render level item :: renderItems level rest
def renderFields (level : Nat) : List (σ × Json σ Int) → List (List Char)
  | [] => []
  | (key,value) :: rest => fieldText content key (render level value) :: renderFields level rest
end

theorem renderItems_map (level : Nat) (items : List (Json σ Int)) : renderItems content level items = items.map (render content level) := by
  induction items with
  | nil => rfl
  | cons item rest ih => rw [renderItems,ih,List.map_cons]

theorem renderFields_map (level : Nat) (fields : List (σ × Json σ Int)) :
    renderFields content level fields = fields.map fun field => fieldText content field.1 (render content level field.2) := by
  induction fields with
  | nil => rfl
  | cons field rest ih => rw [renderFields,ih,List.map_cons]

end layout

-- What `json.loads` reads as a number: a float is kept as its text.
inductive Number where
  | int (value : Int)
  | float (text : List Char)
deriving DecidableEq,Repr

section scanning

def isSpace (c : Char) : Bool := c == ' ' || c == '\t' || c == '\n' || c == '\r'

def skipSpace (text : List Char) : List Char := text.dropWhile isSpace

def expect (c : Char) : List Char → Option (List Char)
  | [] => none
  | d :: rest => if d = c then some rest else none

variable {α : Type u}

-- Entries up to the closing bracket. `fuel` bounds their number.
def scanEntries (close : Char) (entry : List Char → Option (α × List Char)) : Nat → List Char → Option (List α × List Char)
  | 0,_ => none
  | fuel + 1,text => (entry text).bind fun (item,rest) =>
    ((expect close (skipSpace rest)).map fun rest => ([item],rest)).or
      ((expect ',' (skipSpace rest)).bind fun rest =>
        (scanEntries close entry fuel (skipSpace rest)).map fun (items,rest) => (item :: items,rest))

def scanBody (close : Char) (entry : List Char → Option (α × List Char)) (fuel : Nat) (text : List Char) :
    Option (List α × List Char) :=
  ((expect close (skipSpace text)).map fun rest => ([],rest)).or (scanEntries close entry fuel (skipSpace text))

def scanField (value : List Char → Option (α × List Char)) (text : List Char) : Option ((List Nat × α) × List Char) :=
  (expect '"' text).bind fun rest => (scanString rest).bind fun (key,rest) =>
    (expect ':' (skipSpace rest)).bind fun rest => (value (skipSpace rest)).map fun (item,rest) => ((key,item),rest)

def scanDigits : List Char → Option (List Char × List Char)
  | [] => none
  | c :: rest =>
    if c = '0' then some ([c],rest)
    else if c.isDigit then some (c :: rest.takeWhile Char.isDigit,rest.dropWhile Char.isDigit)
    else none

def scanFraction : List Char → List Char × List Char
  | [] => ([],[])
  | c :: rest =>
    if c = '.' ∧ rest.takeWhile Char.isDigit ≠ [] then (c :: rest.takeWhile Char.isDigit,rest.dropWhile Char.isDigit)
    else ([],c :: rest)

def scanExponent : List Char → List Char × List Char
  | [] => ([],[])
  | c :: rest =>
    let sign := (rest.take 1).filter fun d => d == '+' || d == '-'
    let digits := rest.drop sign.length
    if (c = 'e' ∨ c = 'E') ∧ digits.takeWhile Char.isDigit ≠ [] then
      (c :: (sign ++ digits.takeWhile Char.isDigit),digits.dropWhile Char.isDigit)
    else ([],c :: rest)

-- Python turns no decimal text of more than `limit` digits into an `int`.
def scanNumber (limit : Nat) (text : List Char) : Option (Number × List Char) :=
  let sign := (text.take 1).filter fun c => c == '-'
  (scanDigits (text.drop sign.length)).bind fun (digits,rest) =>
    let fraction := scanFraction rest
    let exponent := scanExponent fraction.2
    if fraction.1 = [] ∧ exponent.1 = [] then
      let value : Int := (Nat.ofDigitChars 10 digits 0 : Nat)
      if digits.length ≤ limit then some (.int (if sign = [] then value else -value),rest) else none
    else some (.float (sign ++ (digits ++ (fraction.1 ++ exponent.1))),exponent.2)

def constants : List (List Char × Json (List Nat) Number) :=
  [(['n','u','l','l'],.null),(['t','r','u','e'],.bool true),(['f','a','l','s','e'],.bool false),
    (['N','a','N'],.num (.float ['N','a','N'])),
    (['I','n','f','i','n','i','t','y'],.num (.float ['I','n','f','i','n','i','t','y'])),
    (['-','I','n','f','i','n','i','t','y'],.num (.float ['-','I','n','f','i','n','i','t','y']))]

def scanConstant (text : List Char) : Option (Json (List Nat) Number × List Char) :=
  (constants.find? fun row => row.1.isPrefixOf text).map fun row => (row.2,text.drop row.1.length)

-- One value at the beginning of the text. `fuel` bounds the nesting.
def scanOnce (limit : Nat) : Nat → List Char → Option (Json (List Nat) Number × List Char)
  | 0,_ => none
  | fuel + 1,text =>
    ((expect '"' text).bind fun rest => (scanString rest).map fun (value,rest) => (.str value,rest)).or
      (((expect '{' text).bind fun rest =>
          (scanBody '}' (scanField (scanOnce limit fuel)) fuel rest).map fun (fields,rest) => (.obj fields,rest)).or
        (((expect '[' text).bind fun rest =>
            (scanBody ']' (scanOnce limit fuel) fuel rest).map fun (items,rest) => (.arr items,rest)).or
          ((scanConstant text).or ((scanNumber limit text).map fun (value,rest) => (.num value,rest)))))

-- `none` is a decoding error.
def loads (limit : Nat) (text : List Char) : Option (Json (List Nat) Number) :=
  (scanOnce limit (text.length + 1) (skipSpace text)).bind fun (value,rest) => if skipSpace rest = [] then some value else none

end scanning

-- What `json.loads` makes of a number that `json.dumps` wrote.
def readBack (limit : Nat) (value : Int) : Option Number :=
  if (Nat.toDigits 10 value.natAbs).length ≤ limit then some (.int value) else none

section numbers

-- What may come after a number in a document.
def Ends (rest : List Char) : Prop := ∀ c ∈ rest.head?, c = ',' ∨ c = '\n'

-- How a value begins: neither with a space nor with a bracket that closes.
def Starts (text : List Char) : Prop := ∃ c rest, text = c :: rest ∧ isSpace c = false ∧ c ≠ ']' ∧ c ≠ '}'

theorem starts_cons {c : Char} {rest : List Char} (opens : isSpace c = false ∧ c ≠ ']' ∧ c ≠ '}') : Starts (c :: rest) :=
  ⟨c,rest,rfl,opens⟩

theorem toDigits_isDigit {c : Char} {n : Nat} (member : c ∈ Nat.toDigits 10 n) : c.isDigit = true :=
  Nat.isDigit_of_mem_toDigits (by decide) (by decide) member

-- Only zero is written with a zero in front.
theorem toDigits_front {n : Nat} (positive : 0 < n) : ∃ c rest, Nat.toDigits 10 n = c :: rest ∧ c ≠ '0' := by
  induction n using Nat.strongRecOn with
  | ind n ih =>
    rw [Nat.toDigits_eq_if (by decide)]
    split
    · exact ⟨_,[],rfl,fun zero => positive.ne' (Nat.digitChar_eq_zero.mp zero)⟩
    · obtain ⟨c,rest,shape,front⟩ := ih (n / 10) (by omega) (by omega)
      exact ⟨c,rest ++ [Nat.digitChar (n % 10)],by rw [shape]; rfl,front⟩

theorem ends_digits {rest : List Char} (ends : Ends rest) : rest.takeWhile Char.isDigit = [] ∧ rest.dropWhile Char.isDigit = rest := by
  cases rest with
  | nil => exact ⟨rfl,rfl⟩
  | cons c rest =>
    have apart : c.isDigit = false := by rcases ends c rfl with rfl | rfl <;> rfl
    simp [apart]

theorem scanDigits_number {n : Nat} {rest : List Char} (ends : Ends rest) :
    scanDigits (Nat.toDigits 10 n ++ rest) = some (Nat.toDigits 10 n,rest) := by
  obtain ⟨taken,dropped⟩ := ends_digits ends
  rcases Nat.eq_zero_or_pos n with rfl | positive
  · rfl
  · obtain ⟨c,more,shape,front⟩ := toDigits_front positive
    have digits : ∀ d ∈ c :: more, d.isDigit = true := fun d member => toDigits_isDigit (shape ▸ member)
    have later : ∀ d ∈ more, d.isDigit = true := fun d member => digits d (List.mem_cons_of_mem _ member)
    rw [shape,List.cons_append,scanDigits,if_neg front,if_pos (digits c List.mem_cons_self),
      List.takeWhile_append_of_pos later,List.dropWhile_append_of_pos later,taken,dropped,List.append_nil]

theorem ends_fraction {rest : List Char} (ends : Ends rest) : scanFraction rest = ([],rest) ∧ scanExponent rest = ([],rest) := by
  cases rest with
  | nil => exact ⟨rfl,rfl⟩
  | cons c rest =>
    rcases ends c rfl with rfl | rfl
    · exact ⟨by simp [scanFraction],by simp [scanExponent]⟩
    · exact ⟨by simp [scanFraction],by simp [scanExponent]⟩

theorem scanNumber_intText (limit : Nat) (value : Int) {rest : List Char} (ends : Ends rest) :
    scanNumber limit (intText value ++ rest) = (readBack limit value).map fun number => (number,rest) := by
  obtain ⟨fraction,exponent⟩ := ends_fraction ends
  have number : Nat.ofDigitChars 10 (Nat.toDigits 10 value.natAbs) 0 = value.natAbs := Nat.ofDigitChars_ten_toDigits
  unfold intText readBack
  by_cases negative : value < 0
  · have whole : -((value.natAbs : Nat) : Int) = value := by omega
    simp only [if_pos negative,scanNumber,List.cons_append,List.take_succ_cons,List.take_zero,beq_self_eq_true,List.filter_cons_of_pos,
      List.filter_nil,List.length_cons,List.length_nil,List.drop_succ_cons,List.drop_zero,scanDigits_number ends,Option.bind_some,
      fraction,exponent,and_self,if_true,number,List.cons_ne_nil,if_false,whole]
    split <;> rfl
  · have whole : ((value.natAbs : Nat) : Int) = value := by omega
    obtain ⟨c,more,shape⟩ := List.exists_cons_of_ne_nil (Nat.toDigits_ne_nil (n := value.natAbs) (b := 10))
    have unsigned : (c == '-') = false := by
      have digit := toDigits_isDigit (show c ∈ Nat.toDigits 10 value.natAbs by rw [shape]; exact List.mem_cons_self)
      exact beq_false_of_ne (by rintro rfl; cases digit)
    have first : ((Nat.toDigits 10 value.natAbs ++ rest).take 1).filter (fun c => c == '-') = [] := by
      rw [shape]
      simp [unsigned]
    simp only [if_neg negative,scanNumber,first,List.length_nil,List.drop_zero,scanDigits_number ends,Option.bind_some,
      fraction,exponent,and_self,if_true,number,whole]
    split <;> rfl

end numbers

section layouts
variable {α : Type u} {text rest : List Char}

theorem skipSpace_newline (level : Nat) (text : List Char) : skipSpace (newline level ++ text) = skipSpace text := by
  refine List.dropWhile_append_of_pos fun c member => ?_
  rcases List.mem_cons.mp member with rfl | member
  · rfl
  · rw [List.eq_of_mem_replicate member]
    rfl

theorem skipSpace_starts (starts : Starts text) (rest : List Char) : skipSpace (text ++ rest) = text ++ rest := by
  obtain ⟨c,more,rfl,solid,_⟩ := starts
  simp [skipSpace,solid]

theorem expect_self (c : Char) (rest : List Char) : expect c (c :: rest) = some rest := if_pos rfl

theorem ends_closing (level : Nat) (close : Char) (entries : List (List Char)) (rest : List Char) :
    Ends (closing level close entries ++ rest) := by
  cases entries with
  | nil => exact fun c first => .inr (Option.some.inj first).symm
  | cons entry entries => exact fun c first => .inl (Option.some.inj first).symm

-- Scanning the text gives the outcome and leaves the rest.
def Reads (scan : List Char → Option (α × List Char)) (text : List Char) (outcome : Option α) : Prop :=
  ∀ rest, Ends rest → scan (text ++ rest) = outcome.map fun value => (value,rest)

section entries
variable {β : Type v} {scan : List Char → Option (α × List Char)} {text : β → List Char} {outcome : β → Option α} {entries : List β}
  (reads : ∀ entry ∈ entries, Starts (text entry) ∧ Reads scan (text entry) (outcome entry)) {close : Char}
  (solid : isSpace close = false) (comma : close ≠ ',')
include reads solid comma

theorem scanEntries_reads {front : List Char} {found : Option α} (first : Reads scan front found) {fuel : Nat}
    (enough : entries.length < fuel) (level : Nat) (rest : List Char) :
    scanEntries close scan fuel (front ++ (closing level close (entries.map text) ++ rest)) =
      (collect (found :: entries.map outcome)).map fun items => (items,rest) := by
  induction entries generalizing front found fuel with
  | nil =>
    obtain ⟨fuel,rfl⟩ := Nat.exists_eq_succ_of_ne_zero (Nat.ne_of_gt enough)
    have left : skipSpace (closing level close [] ++ rest) = close :: rest := by
      rw [closing,List.append_assoc,skipSpace_newline]
      simp [skipSpace,solid]
    rw [scanEntries,List.map_nil,first _ (ends_closing level close [] rest)]
    cases found with
    | none => rfl
    | some item => simp only [Option.map_some,Option.bind_some,left,expect_self,Option.some_or,collect,List.map_nil]
  | cons entry entries ih =>
    obtain ⟨fuel,rfl⟩ := Nat.exists_eq_succ_of_ne_zero (Nat.ne_of_gt (Nat.lt_of_le_of_lt (Nat.zero_le _) enough))
    obtain ⟨⟨starts,reads_⟩,later⟩ := List.forall_mem_cons.mp reads
    rw [scanEntries,List.map_cons,first _ (ends_closing level close _ rest)]
    cases found with
    | none => rfl
    | some item =>
      have comma_ : skipSpace (closing level close (text entry :: entries.map text) ++ rest) =
          ',' :: (newline (level + 1) ++ (text entry ++ (closing level close (entries.map text) ++ rest))) := by
        simp [skipSpace,closing,isSpace]
      have follows : expect close (',' :: (newline (level + 1) ++ (text entry ++ (closing level close (entries.map text) ++ rest)))) = none :=
        if_neg (Ne.symm comma)
      have next := ih later reads_ (Nat.lt_of_succ_lt_succ enough)
      simp only [Option.map_some,Option.bind_some,comma_,follows,Option.map_none,Option.none_or,expect_self,skipSpace_newline,
        skipSpace_starts starts,next,collect,List.map_cons,Option.map_map]
      rfl

theorem bracket_reads (closes : close = ']' ∨ close = '}') {fuel : Nat} (enough : entries.length ≤ fuel) (open_ : Char)
    (level : Nat) (rest : List Char) :
    (expect open_ (bracket level open_ close (entries.map text) ++ rest)).bind (scanBody close scan fuel) =
      (collect (entries.map outcome)).map fun items => (items,rest) := by
  cases entries with
  | nil =>
    have left : skipSpace (close :: rest) = close :: rest := by simp [skipSpace,solid]
    simp only [bracket,List.map_nil,List.cons_append,List.nil_append,expect_self,Option.bind_some,scanBody,left,Option.map_some,
      Option.some_or,collect]
  | cons entry entries =>
    obtain ⟨⟨starts,reads_⟩,later⟩ := List.forall_mem_cons.mp reads
    have follows : expect close (text entry ++ (closing level close (entries.map text) ++ rest)) = none := by
      obtain ⟨c,more,shape,_,square,curly⟩ := starts
      rw [shape]
      refine if_neg ?_
      rcases closes with rfl | rfl
      · exact square
      · exact curly
    simp only [bracket,List.map_cons,List.cons_append,List.append_assoc,expect_self,Option.bind_some,scanBody,skipSpace_newline,
      skipSpace_starts starts,follows,Option.map_none,Option.none_or]
    exact scanEntries_reads later solid comma reads_ enough level rest

end entries

theorem bracket_front (level : Nat) (open_ close : Char) (entries : List (List Char)) :
    ∃ tail, bracket level open_ close entries = open_ :: tail := by
  cases entries <;> exact ⟨_,rfl⟩

theorem bracket_length (level : Nat) (open_ close : Char) (entries : List (List Char)) :
    entries.length < (bracket level open_ close entries).length ∧
      ∀ entry ∈ entries, entry.length < (bracket level open_ close entries).length := by
  have tail : ∀ entries : List (List Char), entries.length < (closing level close entries).length ∧
      ∀ entry ∈ entries, entry.length < (closing level close entries).length := by
    intro entries
    induction entries with
    | nil => exact ⟨by simp [closing,newline],fun _ member => absurd member List.not_mem_nil⟩
    | cons first entries ih =>
      simp only [closing,newline,List.length_cons,List.length_append,List.forall_mem_cons]
      refine ⟨by omega,by omega,fun entry member => ?_⟩
      have := ih.2 entry member
      omega
  cases entries with
  | nil => exact ⟨by simp [bracket],fun _ member => absurd member List.not_mem_nil⟩
  | cons first entries =>
    have later := tail entries
    simp only [bracket,newline,List.length_cons,List.length_append,List.forall_mem_cons]
    refine ⟨by omega,by omega,fun entry member => ?_⟩
    have := later.2 entry member
    omega

end layouts

section documents
variable {σ : Type u} {content : σ → List Char} {limit : Nat}

theorem intText_front (value : Int) : ∃ c rest, intText value = c :: rest ∧
    (c.isDigit = true ∨ c = '-' ∧ ∃ d more, rest = d :: more ∧ d.isDigit = true) := by
  obtain ⟨c,more,shape⟩ := List.exists_cons_of_ne_nil (Nat.toDigits_ne_nil (n := value.natAbs) (b := 10))
  have digit : c.isDigit = true := toDigits_isDigit (show c ∈ Nat.toDigits 10 value.natAbs by rw [shape]; exact List.mem_cons_self)
  unfold intText
  split
  · exact ⟨_,_,rfl,.inr ⟨rfl,c,more,shape,digit⟩⟩
  · exact ⟨c,more,shape,.inl digit⟩

theorem starts_render (content : σ → List Char) (level : Nat) (json : Json σ Int) : Starts (render content level json) := by
  cases json with
  | null => exact starts_cons (by decide)
  | bool value => cases value <;> exact starts_cons (by decide)
  | num value =>
    obtain ⟨c,rest,shape,front⟩ := intText_front value
    refine ⟨c,rest,shape,?_⟩
    rcases front with digit | ⟨rfl,_⟩
    · refine ⟨?_,?_,?_⟩
      · simp only [isSpace,Bool.or_eq_false_iff,beq_eq_false_iff_ne]
        refine ⟨⟨⟨?_,?_⟩,?_⟩,?_⟩ <;> rintro rfl <;> cases digit
      · rintro rfl; cases digit
      · rintro rfl; cases digit
    · decide
  | str value => exact starts_cons (by decide)
  | arr items =>
    obtain ⟨tail,shape⟩ := bracket_front level '[' ']' (renderItems content (level + 1) items)
    rw [render,shape]
    exact starts_cons (by decide)
  | obj fields =>
    obtain ⟨tail,shape⟩ := bracket_front level '{' '}' (renderFields content (level + 1) fields)
    rw [render,shape]
    exact starts_cons (by decide)

theorem expect_other {c d : Char} {rest : List Char} (other : d ≠ c) : expect c (d :: rest) = none := if_neg other

theorem scanOnce_number (fuel : Nat) (value : Int) :
    Reads (scanOnce limit (fuel + 1)) (intText value) ((readBack limit value).map Json.num) := by
  intro rest ends
  obtain ⟨c,more,shape,front⟩ := intText_front value
  have apart : c ≠ '"' ∧ c ≠ '{' ∧ c ≠ '[' := by
    rcases front with digit | ⟨rfl,_⟩
    · refine ⟨?_,?_,?_⟩ <;> rintro rfl <;> cases digit
    · decide
  have plain : scanConstant (intText value ++ rest) = none := by
    refine Option.map_eq_none_iff.mpr (List.find?_eq_none.mpr fun row listed begins => ?_)
    rw [shape] at begins
    simp only [constants,List.mem_cons,List.not_mem_nil,or_false] at listed
    rcases front with digit | ⟨rfl,d,more,rfl,digit⟩
    · rcases listed with rfl | rfl | rfl | rfl | rfl | rfl <;>
        (rw [List.cons_append,List.isPrefixOf_cons_cons,Bool.and_eq_true,beq_iff_eq] at begins; rw [← begins.1] at digit; cases digit)
    · have signed : d = 'I' := by
        rcases listed with rfl | rfl | rfl | rfl | rfl | rfl <;> simp [List.isPrefixOf_cons_cons] at begins
        exact begins.1.symm
      rw [signed] at digit
      cases digit
  rw [scanOnce,plain,scanNumber_intText limit value ends]
  simp only [shape,List.cons_append,expect_other apart.1,expect_other apart.2.1,expect_other apart.2.2,Option.bind_none,Option.none_or,
    Option.map_map]
  rfl

theorem fieldText_reads {α : Type v} {scan : List Char → Option (α × List Char)} {key : σ} {value : List Char} {outcome : Option α}
    (whole : closed false (content key) = true) (starts : Starts value) (reads : Reads scan value outcome) :
    Reads (scanField scan) (fieldText content key value)
      ((unescape (content key)).bind fun name => outcome.map fun read => (name,read)) := by
  intro rest ends
  have colon : skipSpace (':' :: ' ' :: (value ++ rest)) = ':' :: ' ' :: (value ++ rest) := rfl
  have blank : skipSpace (' ' :: (value ++ rest)) = value ++ rest :=
    (show skipSpace (' ' :: (value ++ rest)) = skipSpace (value ++ rest) from rfl).trans (skipSpace_starts starts rest)
  simp only [fieldText,quote,List.cons_append,List.append_assoc,List.nil_append,scanField,expect_self,Option.bind_some,
    scanString_closed whole]
  cases unescape (content key) with
  | none => rfl
  | some name =>
    simp only [Option.map_some,Option.bind_some,colon,expect_self,blank,reads rest ends,Option.map_map]
    rfl

section bracketed
variable {α : Type v} {text : α → List Char} {entries : List α} {fuel : Nat} (enough : entries.length ≤ fuel)
include enough

theorem scanOnce_items {outcome : α → Option (Json (List Nat) Number)}
    (reads : ∀ entry ∈ entries, Starts (text entry) ∧ Reads (scanOnce limit fuel) (text entry) (outcome entry)) (level : Nat) :
    Reads (scanOnce limit (fuel + 1)) (bracket level '[' ']' (entries.map text)) ((collect (entries.map outcome)).map Json.arr) := by
  intro rest _
  have body := bracket_reads reads (by decide) (by decide) (.inl rfl) enough '[' level rest
  obtain ⟨tail,shape⟩ := bracket_front level '[' ']' (entries.map text)
  rw [shape,List.cons_append,expect_self,Option.bind_some] at body
  simp only [shape,List.cons_append,scanOnce,expect_other (show '[' ≠ '"' by decide),expect_other (show '[' ≠ '{' by decide),
    Option.bind_none,Option.none_or,expect_self,Option.bind_some,body,Option.map_map]
  cases collect (entries.map outcome) with
  | none => rfl
  | some items => rfl

theorem scanOnce_fields {outcome : α → Option (List Nat × Json (List Nat) Number)}
    (reads : ∀ entry ∈ entries, Starts (text entry) ∧ Reads (scanField (scanOnce limit fuel)) (text entry) (outcome entry))
    (level : Nat) :
    Reads (scanOnce limit (fuel + 1)) (bracket level '{' '}' (entries.map text)) ((collect (entries.map outcome)).map Json.obj) := by
  intro rest _
  have body := bracket_reads reads (by decide) (by decide) (.inr rfl) enough '{' level rest
  obtain ⟨tail,shape⟩ := bracket_front level '{' '}' (entries.map text)
  rw [shape,List.cons_append,expect_self,Option.bind_some] at body
  simp only [shape,List.cons_append,scanOnce,expect_other (show '{' ≠ '"' by decide),expect_self,Option.bind_none,Option.none_or,
    Option.bind_some,body,Option.map_map]
  cases collect (entries.map outcome) with
  | none => rfl
  | some fields => rfl

end bracketed

theorem render_positive {level fuel : Nat} {json : Json σ Int} (enough : (render content level json).length ≤ fuel) :
    ∃ n, fuel = n + 1 := by
  obtain ⟨c,rest,shape,_⟩ := starts_render content level json
  rw [shape,List.length_cons] at enough
  exact ⟨fuel - 1,by omega⟩

variable (closes : ∀ value, closed false (content value) = true)
include closes

-- Every document is read back from its text, string by string.
theorem scan_render (limit : Nat) (json : Json σ Int) (level : Nat) {fuel : Nat} (enough : (render content level json).length ≤ fuel) :
    Reads (scanOnce limit fuel) (render content level json)
      (json.traverse (fun value => unescape (content value)) (readBack limit)) := by
  induction json using Json.induct generalizing level fuel with
  | null =>
    obtain ⟨fuel,rfl⟩ := render_positive enough
    exact fun rest _ => rfl
  | bool value =>
    obtain ⟨fuel,rfl⟩ := render_positive enough
    cases value <;> exact fun rest _ => rfl
  | num value =>
    obtain ⟨fuel,rfl⟩ := render_positive enough
    exact scanOnce_number fuel value
  | str value =>
    obtain ⟨fuel,rfl⟩ := render_positive enough
    intro rest _
    simp only [render,quote,List.cons_append,List.append_assoc,List.nil_append,scanOnce,expect_self,Option.bind_some,
      scanString_closed (closes value),Json.traverse,Option.map_map]
    cases unescape (content value) with
    | none => rfl
    | some name => rfl
  | arr items ih =>
    obtain ⟨fuel,rfl⟩ := render_positive enough
    obtain ⟨fewer,shorter⟩ := bracket_length level '[' ']' (renderItems content (level + 1) items)
    rw [render] at enough ⊢
    rw [renderItems_map] at enough fewer shorter ⊢
    rw [Json.traverse,traverseItems_collect]
    rw [List.length_map] at fewer
    refine scanOnce_items (by omega) (fun item listed => ⟨starts_render _ _ item,ih item listed _ ?_⟩) level
    have := shorter _ (List.mem_map_of_mem listed)
    omega
  | obj fields ih =>
    obtain ⟨fuel,rfl⟩ := render_positive enough
    obtain ⟨fewer,shorter⟩ := bracket_length level '{' '}' (renderFields content (level + 1) fields)
    rw [render] at enough ⊢
    rw [renderFields_map] at enough fewer shorter ⊢
    rw [Json.traverse,traverseFields_collect]
    rw [List.length_map] at fewer
    refine scanOnce_fields (by omega) (fun field listed => ⟨starts_cons (by decide),?_⟩) level
    refine fieldText_reads (closes field.1) (starts_render _ _ field.2) (ih field listed _ ?_)
    have inner : (render content (level + 1) field.2).length ≤ (fieldText content field.1 (render content (level + 1) field.2)).length := by
      simp only [fieldText,List.length_append,List.length_cons]
      omega
    have := shorter _ (List.mem_map_of_mem listed)
    omega

-- The whole text of a document is read.
theorem loads_render (limit : Nat) (json : Json σ Int) :
    loads limit (render content 0 json) = json.traverse (fun value => unescape (content value)) (readBack limit) := by
  have front : skipSpace (render content 0 json) = render content 0 json := by
    simpa using skipSpace_starts (starts_render content 0 json) []
  have whole := scan_render closes limit json 0 (Nat.le_succ _) [] (fun c first => by cases first)
  rw [List.append_nil] at whole
  rw [loads,front,whole]
  cases json.traverse (fun value => unescape (content value)) (readBack limit) with
  | none => rfl
  | some value => rfl

end documents

-- A text that no part of a document but a string can contain.
structure Inward (old : List Char) : Prop where
  some_ : old ≠ []
  quote_ : '"' ∉ old
  blank : '\n' ∉ old ∧ ' ' ∉ old
  comma : ',' ∉ old
  colon : ':' ∉ old
  square : '[' ∉ old ∧ ']' ∉ old
  curly : '{' ∉ old ∧ '}' ∉ old
  words : ∀ word ∈ [['n','u','l','l'],['t','r','u','e'],['f','a','l','s','e']], ¬old <:+: word
  numbers : ∀ value, ¬old <:+: intText value

section replacing
variable {σ : Type u} {old : List Char} (new : List Char) (inward : Inward old) (level : Nat)
include inward

theorem replace_newline (rest : List Char) : replaceAll old new (newline level ++ rest) = newline level ++ replaceAll old new rest := by
  refine replaceAll_foreign inward.some_ (fun c member => ?_) rest
  rcases List.mem_cons.mp member with rfl | member
  · exact inward.blank.1
  · rw [List.eq_of_mem_replicate member]
    exact inward.blank.2

theorem replace_closing {close : Char} (foreign : close ∉ old) (front : List Char) (entries : List (List Char)) :
    replaceAll old new (front ++ closing level close entries) =
      replaceAll old new front ++ closing level close (entries.map (replaceAll old new)) := by
  induction entries generalizing front with
  | nil =>
    have tail : replaceAll old new (newline level ++ [close]) = newline level ++ [close] := by
      rw [replace_newline new inward,replaceAll_cons inward.some_ foreign]
      rfl
    rw [List.map_nil,closing,newline,List.cons_append,replaceAll_separator inward.some_ inward.blank.1]
    rw [newline,List.cons_append,replaceAll_cons inward.some_ inward.blank.1] at tail
    rw [tail]
  | cons entry entries ih =>
    rw [closing,replaceAll_separator inward.some_ inward.comma,replace_newline new inward,ih,List.map_cons,closing]

theorem replace_bracket {open_ close : Char} (foreign : open_ ∉ old) (foreign' : close ∉ old) (entries : List (List Char)) :
    replaceAll old new (bracket level open_ close entries) = bracket level open_ close (entries.map (replaceAll old new)) := by
  cases entries with
  | nil =>
    rw [bracket,replaceAll_cons inward.some_ foreign,replaceAll_cons inward.some_ foreign']
    rfl
  | cons entry entries =>
    rw [bracket,replaceAll_cons inward.some_ foreign,replace_newline new inward,replace_closing new inward level foreign',
      List.map_cons,bracket]

theorem replace_quote (content rest : List Char) :
    replaceAll old new (quote content ++ rest) = quote (replaceAll old new content) ++ replaceAll old new rest := by
  simp only [quote,List.cons_append,List.append_assoc,List.nil_append]
  rw [replaceAll_cons inward.some_ inward.quote_,replaceAll_separator inward.some_ inward.quote_]

-- Replacing in the text of a document is replacing in the text of each string.
theorem replace_render (content : σ → List Char) (json : Json σ Int) :
    replaceAll old new (render content level json) = render (fun value => replaceAll old new (content value)) level json := by
  induction json using Json.induct generalizing level with
  | null => exact replaceAll_absent (inward.words ['n','u','l','l'] (by decide))
  | bool value =>
    cases value with
    | false => exact replaceAll_absent (inward.words ['f','a','l','s','e'] (by decide))
    | true => exact replaceAll_absent (inward.words ['t','r','u','e'] (by decide))
  | num value => exact replaceAll_absent (inward.numbers value)
  | str value => simpa [render] using replace_quote new inward (content value) []
  | arr items ih =>
    rw [render,render,renderItems_map,renderItems_map,
      replace_bracket new inward level inward.square.1 inward.square.2,List.map_map]
    exact congrArg _ (List.map_congr_left fun item listed => ih item listed (level + 1))
  | obj fields ih =>
    rw [render,render,renderFields_map,renderFields_map,
      replace_bracket new inward level inward.curly.1 inward.curly.2,List.map_map]
    refine congrArg _ (List.map_congr_left fun field listed => ?_)
    rw [Function.comp_apply,fieldText,replace_quote new inward,replaceAll_cons inward.some_ inward.colon,
      replaceAll_cons inward.some_ inward.blank.2,ih field listed (level + 1)]
    rfl

end replacing

end JsonText
