import Mathlib.Logic.Basic

namespace Base64

def digit (n : Nat) : UInt8 :=
  if n < 26 then UInt8.ofNat (n + 65)
  else if n < 52 then UInt8.ofNat (n + 71)
  else if n < 62 then UInt8.ofNat (n - 4)
  else if n = 62 then 43
  else 47

def value? (c : UInt8) : Option Nat :=
  if 65 ≤ c ∧ c ≤ 90 then some (c.toNat - 65)
  else if 97 ≤ c ∧ c ≤ 122 then some (c.toNat - 71)
  else if 48 ≤ c ∧ c ≤ 57 then some (c.toNat + 4)
  else if c = 43 then some 62
  else if c = 47 then some 63
  else none

-- The byte of `=`.
def pad : UInt8 := 61

def b64encode : List UInt8 → List UInt8
  | a :: b :: c :: rest =>
    digit (a.toNat / 4) :: digit (a.toNat % 4 * 16 + b.toNat / 16) ::
      digit (b.toNat % 16 * 4 + c.toNat / 64) :: digit (c.toNat % 64) :: b64encode rest
  | [a,b] => [digit (a.toNat / 4),digit (a.toNat % 4 * 16 + b.toNat / 16),digit (b.toNat % 16 * 4),pad]
  | [a] => [digit (a.toNat / 4),digit (a.toNat % 4 * 16),pad,pad]
  | [] => []

-- The decoder without validation: bytes that are no digits are passed over, and
-- enough padding ends the input. `quad` is the place in the group of four and
-- `left` has the bits of the last digit that are still to be used.
def decodeFrom (quad left pads : Nat) : List UInt8 → Option (List UInt8)
  | [] => if quad = 0 then some [] else none
  | c :: rest =>
    if c = pad then
      if quad < 2 then decodeFrom quad left pads rest
      else if 4 ≤ quad + (pads + 1) then some []
      else decodeFrom quad left (pads + 1) rest
    else match value? c with
      | none => decodeFrom quad left pads rest
      | some v =>
        if quad = 0 then decodeFrom 1 v 0 rest
        else if quad = 1 then (decodeFrom 2 (v % 16) 0 rest).map fun data => UInt8.ofNat (left * 4 + v / 16) :: data
        else if quad = 2 then (decodeFrom 3 (v % 4) 0 rest).map fun data => UInt8.ofNat (left * 16 + v / 4) :: data
        else (decodeFrom 0 0 0 rest).map fun data => UInt8.ofNat (left * 64 + v) :: data

-- `none` is `binascii.Error`.
def b64decode (text : List UInt8) : Option (List UInt8) := decodeFrom 0 0 0 text

theorem digit_value {n : Nat} (small : n < 64) : value? (digit n) = some n ∧ digit n ≠ pad := by
  have table : ∀ n < 64, value? (digit n) = some n ∧ digit n ≠ pad := by decide
  exact table n small

section groups
variable {n left pads : Nat} (small : n < 64) (rest : List UInt8)
include small

theorem decode_first : decodeFrom 0 left pads (digit n :: rest) = decodeFrom 1 n 0 rest := by
  obtain ⟨value,digit_⟩ := digit_value small
  simp [decodeFrom,value,digit_]

theorem decode_second : decodeFrom 1 left pads (digit n :: rest) =
    (decodeFrom 2 (n % 16) 0 rest).map fun data => UInt8.ofNat (left * 4 + n / 16) :: data := by
  obtain ⟨value,digit_⟩ := digit_value small
  simp [decodeFrom,value,digit_]

theorem decode_third : decodeFrom 2 left pads (digit n :: rest) =
    (decodeFrom 3 (n % 4) 0 rest).map fun data => UInt8.ofNat (left * 16 + n / 4) :: data := by
  obtain ⟨value,digit_⟩ := digit_value small
  simp [decodeFrom,value,digit_]

theorem decode_fourth : decodeFrom 3 left pads (digit n :: rest) =
    (decodeFrom 0 0 0 rest).map fun data => UInt8.ofNat (left * 64 + n) :: data := by
  obtain ⟨value,digit_⟩ := digit_value small
  simp [decodeFrom,value,digit_]

end groups

theorem ofNat_eq {n : Nat} {byte : UInt8} (same : n = byte.toNat) : UInt8.ofNat n = byte := by
  rw [same,UInt8.ofNat_toNat]

theorem b64decode_encode (data : List UInt8) : b64decode (b64encode data) = some data := by
  unfold b64decode
  induction data using b64encode.induct with
  | case1 a b c rest ih =>
    have hold := a.toNat_lt; have hold' := b.toNat_lt; have hold'' := c.toNat_lt
    rw [b64encode,decode_first (by omega),decode_second (by omega),decode_third (by omega),decode_fourth (by omega),ih]
    simp only [Option.map_some,Option.some.injEq,List.cons.injEq,and_true]
    exact ⟨ofNat_eq (by omega),ofNat_eq (by omega),ofNat_eq (by omega)⟩
  | case2 a b =>
    have hold := a.toNat_lt; have hold' := b.toNat_lt
    rw [b64encode,decode_first (by omega),decode_second (by omega),decode_third (by omega)]
    simp only [decodeFrom,if_true,Nat.reduceLT,if_false,Nat.reduceLeDiff,Nat.zero_add,Nat.reduceAdd,Option.map_some,
      Option.some.injEq,List.cons.injEq,and_true]
    exact ⟨ofNat_eq (by omega),ofNat_eq (by omega)⟩
  | case3 a =>
    have hold := a.toNat_lt
    rw [b64encode,decode_first (by omega),decode_second (by omega)]
    simp only [decodeFrom,if_true,Nat.reduceLT,if_false,Nat.reduceLeDiff,Nat.zero_add,Nat.reduceAdd,Option.map_some,
      Option.some.injEq,List.cons.injEq,and_true]
    exact ofNat_eq (by omega)
  | case4 => rfl

-- The text is made of digits and padding.
theorem mem_b64encode {c : UInt8} {data : List UInt8} (member : c ∈ b64encode data) : c = pad ∨ ∃ n < 64, c = digit n := by
  induction data using b64encode.induct with
  | case1 a b d rest ih =>
    have hold := a.toNat_lt; have hold' := b.toNat_lt; have hold'' := d.toNat_lt
    simp only [b64encode,List.mem_cons] at member
    rcases member with rfl | rfl | rfl | rfl | member
    · exact .inr ⟨_,by omega,rfl⟩
    · exact .inr ⟨_,by omega,rfl⟩
    · exact .inr ⟨_,by omega,rfl⟩
    · exact .inr ⟨_,by omega,rfl⟩
    · exact ih member
  | case2 a b =>
    have hold := a.toNat_lt; have hold' := b.toNat_lt
    simp only [b64encode,List.mem_cons,List.not_mem_nil,or_false] at member
    rcases member with rfl | rfl | rfl | rfl
    · exact .inr ⟨_,by omega,rfl⟩
    · exact .inr ⟨_,by omega,rfl⟩
    · exact .inr ⟨_,by omega,rfl⟩
    · exact .inl rfl
  | case3 a =>
    have hold := a.toNat_lt
    simp only [b64encode,List.mem_cons,List.not_mem_nil,or_false] at member
    rcases member with rfl | rfl | rfl | rfl
    · exact .inr ⟨_,by omega,rfl⟩
    · exact .inr ⟨_,by omega,rfl⟩
    · exact .inl rfl
    · exact .inl rfl
  | case4 => cases member

end Base64
