import Mathlib.Data.List.DropRight

namespace PythonInt

-- `sys.int_info.default_max_str_digits`.
def maxStrDigits : Nat := 4300

-- "invalid literal for int() with base 10: …", and "Exceeds the limit (4300 digits)
-- for integer string conversion: value has … digits".
inductive ValueError where
  | invalidLiteral (text : List Char)
  | tooManyDigits (digits : Nat)
deriving DecidableEq,Repr

-- What the Unicode tables say of the characters from 127 on.
structure Tables where
  isSpace : Char → Bool
  toDecimal : Char → Option (Fin 10)

def isSpace (c : Char) : Bool := c == ' ' || decide (9 ≤ c.toNat ∧ c.toNat ≤ 13)

def strip (text : List Char) : List Char := (text.dropWhile isSpace).rdropWhile isSpace

-- Digits with single underscores between them; `gap` is set where a digit has
-- to come.
def readDigits (gap : Bool) (read : Nat) : List Char → Option Nat
  | [] => if gap then none else some read
  | c :: rest =>
    if c.isDigit then readDigits false (10 * read + (c.toNat - '0'.toNat)) rest
    else if c = '_' ∧ gap = false then readDigits true read rest
    else none

def readInt : List Char → Option Int
  | '-' :: digits => (readDigits true 0 digits).map fun n : Nat => -(n : Int)
  | '+' :: digits => (readDigits true 0 digits).map fun n : Nat => (n : Int)
  | digits => (readDigits true 0 digits).map fun n : Nat => (n : Int)

section reading
variable (tables : Tables)

-- Foreign digits and spaces are read as the ASCII ones.
def toAscii (c : Char) : Char :=
  if c.toNat < 127 then c
  else if tables.isSpace c then ' '
  else match tables.toDecimal c with
    | some digit => Nat.digitChar digit
    | none => '?'

-- The number that a text writes, however long it is.
def numeral (text : List Char) : Option Int := readInt (strip (text.map (toAscii tables)))

-- Leading zeros count, a sign and underscores do not.
def digitCount (text : List Char) : Nat := (text.map (toAscii tables)).countP Char.isDigit

-- `int(text)`.
def int (text : List Char) : Except ValueError Int :=
  match numeral tables text with
  | none => .error (.invalidLiteral text)
  | some n => if digitCount tables text ≤ maxStrDigits then .ok n else .error (.tooManyDigits (digitCount tables text))

end reading

-- `str(n)` is refused beyond the same number of digits.
def printable (n : Int) : Bool := decide ((Nat.toDigits 10 n.natAbs).length ≤ maxStrDigits)

section digits
variable {c : Char} {text : List Char}

theorem readDigits_digits {gap : Bool} {read : Nat} (digits : ∀ c ∈ text, c.isDigit) (some_ : text ≠ [] ∨ gap = false) :
    readDigits gap read text = some (Nat.ofDigitChars 10 text read) := by
  induction text generalizing gap read with
  | nil =>
    have open_ : gap = false := some_.resolve_left (fun none_ => none_ rfl)
    simp [readDigits,open_]
  | cons c text ih =>
    rw [readDigits,if_pos (digits c List.mem_cons_self),Nat.ofDigitChars_cons]
    exact ih (fun d member => digits d (List.mem_cons_of_mem _ member)) (.inr rfl)

-- What is read as digits has no sign.
theorem readDigits_signless {gap : Bool} {read n : Nat} (reads : readDigits gap read text = some n) : '-' ∉ text := by
  induction text generalizing gap read with
  | nil => exact List.not_mem_nil
  | cons c text ih =>
    rw [readDigits] at reads
    have apart : c ≠ '-' ∧ '-' ∉ text := by
      split at reads
      · rename_i digit
        exact ⟨fun same => by simp [same] at digit,ih reads⟩
      · split at reads
        · rename_i under
          exact ⟨fun same => by simp [same] at under,ih reads⟩
        · cases reads
    simpa [apart.2] using apart.1.symm

theorem digit_plain (digit : c.isDigit) : isSpace c = false ∧ c ≠ '-' ∧ c ≠ '+' ∧ c.toNat < 127 := by
  obtain ⟨low,high⟩ : 48 ≤ c.toNat ∧ c.toNat ≤ 57 := by
    have range : 48 ≤ c.val ∧ c.val ≤ 57 := by simpa [Char.isDigit] using digit
    exact range
  refine ⟨?_,?_,?_,by omega⟩
  · have blank : c ≠ ' ' := fun same => by simp [same] at low
    simp only [isSpace,Bool.or_eq_false_iff,beq_eq_false_iff_ne,decide_eq_false_iff_not]
    exact ⟨blank,by omega⟩
  · exact fun same => by simp [same] at low
  · exact fun same => by simp [same] at low

end digits

section texts
variable {tables : Tables} {text : List Char}

theorem mem_strip {c : Char} (member : c ∈ text) (plain : isSpace c = false) : c ∈ strip text := by
  have kept : ∀ text : List Char, c ∈ text → c ∈ text.dropWhile isSpace := by
    intro text member
    rw [← List.takeWhile_append_dropWhile (p := isSpace) (l := text)] at member
    rcases List.mem_append.mp member with blank | later
    · exact absurd (List.mem_takeWhile_imp blank) (by simp [plain])
    · exact later
  have back := kept _ (List.mem_reverse.mpr (kept text member))
  exact List.mem_reverse.mpr back

theorem strip_plain (plain : ∀ c ∈ text, isSpace c = false) : strip text = text := by
  have whole : ∀ text : List Char, (∀ c ∈ text, isSpace c = false) → text.dropWhile isSpace = text := by
    intro text plain
    cases text with
    | nil => rfl
    | cons c text => simp [plain c List.mem_cons_self]
  rw [strip,whole text plain,List.rdropWhile,whole _ fun c member => plain c (List.mem_reverse.mp member),List.reverse_reverse]

theorem strip_blank (blank : ∀ c ∈ text, isSpace c = true) : strip text = [] := by
  rw [strip,List.dropWhile_eq_nil_iff.mpr blank]
  rfl

theorem readInt_plain {c : Char} (minus : c ≠ '-') (plus : c ≠ '+') :
    readInt (c :: text) = (readDigits true 0 (c :: text)).map fun n : Nat => (n : Int) := by
  unfold readInt
  split <;> simp_all

-- A sign is read in the first place only.
theorem readInt_signed {i : Int} (reads : readInt text = some i) (signed : '-' ∈ text) : ∃ digits, text = '-' :: digits := by
  unfold readInt at reads
  split at reads
  · exact ⟨_,rfl⟩
  · obtain ⟨n,digits,_⟩ := Option.map_eq_some_iff.mp reads
    rcases List.mem_cons.mp signed with first | later
    · cases first
    · exact absurd later (readDigits_signless digits)
  · obtain ⟨n,digits,_⟩ := Option.map_eq_some_iff.mp reads
    exact absurd signed (readDigits_signless digits)

theorem toAscii_plain {c : Char} (plain : c.toNat < 127) : toAscii tables c = c := if_pos plain

theorem toAscii_minus {c : Char} : toAscii tables c = '-' ↔ c = '-' := by
  constructor
  · intro same
    unfold toAscii at same
    split at same
    · exact same
    · split at same
      · cases same
      · split at same
        · rename_i digit _
          have unsigned : ∀ digit : Fin 10, Nat.digitChar digit ≠ '-' := by decide
          exact absurd same (unsigned digit)
        · cases same
  · rintro rfl
    exact toAscii_plain (by decide)

theorem ascii_digits (digits : ∀ c ∈ text, c.isDigit) : text.map (toAscii tables) = text := by
  refine (List.map_congr_left fun c member => ?_).trans text.map_id
  exact toAscii_plain (digit_plain (digits c member)).2.2.2

-- A text of digits stands for the number they write.
theorem numeral_digits (digits : ∀ c ∈ text, c.isDigit) (some_ : text ≠ []) :
    numeral tables text = some ((Nat.ofDigitChars 10 text 0 : Nat) : Int) := by
  rw [numeral,ascii_digits digits,strip_plain fun c member => (digit_plain (digits c member)).1]
  cases text with
  | nil => exact absurd rfl some_
  | cons c text =>
    obtain ⟨_,minus,plus,_⟩ := digit_plain (digits c List.mem_cons_self)
    rw [readInt_plain minus plus,readDigits_digits digits (.inl some_),Option.map_some]

theorem int_ok {n : Int} : int tables text = .ok n ↔ numeral tables text = some n ∧ digitCount tables text ≤ maxStrDigits := by
  unfold int
  cases numeral tables text with
  | none => simp
  | some m =>
    dsimp only
    split
    · rename_i few
      simp [few]
    · rename_i many
      simp [many]

-- What `str` prints is read back.
theorem int_repr {n : Nat} (short : printable n = true) : int tables n.repr.toList = .ok (n : Int) := by
  have digits : ∀ c ∈ Nat.toDigits 10 n, c.isDigit := fun c member => Nat.isDigit_of_mem_toDigits (by decide) (by decide) member
  rw [Nat.toList_repr]
  refine int_ok.mpr ⟨?_,?_⟩
  · rw [numeral_digits digits Nat.toDigits_ne_nil]
    exact congrArg (fun n : Nat => some (n : Int)) Nat.ofDigitChars_ten_toDigits
  · have counted : digitCount tables (Nat.toDigits 10 n) = (Nat.toDigits 10 n).length := by
      rw [digitCount,ascii_digits digits]
      exact List.countP_eq_length.mpr digits
    rw [counted]
    exact of_decide_eq_true short

-- A number is written with its sign in front, so that nothing but spaces is
-- left before a `-`.
theorem numeral_before_minus {i : Int} (reads : numeral tables text = some i) (signed : '-' ∈ text) :
    numeral tables (text.takeWhile fun c => c != '-') = none := by
  have here : '-' ∈ text.map (toAscii tables) := List.mem_map.mpr ⟨'-',signed,toAscii_minus.mpr rfl⟩
  obtain ⟨digits,shape⟩ := readInt_signed reads (mem_strip here rfl)
  obtain ⟨rest,split_⟩ : strip (text.map (toAscii tables)) <+: (text.map (toAscii tables)).dropWhile isSpace :=
    List.rdropWhile_prefix _ _
  have front : (text.map (toAscii tables)).takeWhile (fun c => c != '-') = (text.map (toAscii tables)).takeWhile isSpace := by
    have whole := List.takeWhile_append_dropWhile (p := isSpace) (l := text.map (toAscii tables))
    rw [← split_,shape] at whole
    nth_rewrite 1 [← whole]
    rw [List.takeWhile_append_of_pos fun c blank => ?_]
    · simp
    · have blank := List.mem_takeWhile_imp blank
      refine bne_iff_ne.mpr fun same => ?_
      rw [same] at blank
      cases blank
  have before : (text.takeWhile fun c => c != '-').map (toAscii tables) = (text.map (toAscii tables)).takeWhile isSpace := by
    rw [← front,List.takeWhile_map]
    congr 2
    funext c
    simp only [Function.comp_def,bne,BEq.beq,decide_eq_decide.mpr toAscii_minus]
  rw [numeral,before,strip_blank fun c member => List.mem_takeWhile_imp member]
  rfl

end texts

end PythonInt
