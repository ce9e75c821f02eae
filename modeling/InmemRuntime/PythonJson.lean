import Mathlib.Data.Rat.Defs

namespace PythonJson
variable {α : Type}

-- A JSON value as Python holds it. An `int` and a `float` of one value are
-- equal and hash alike, so a number is its value.
inductive Json where
  | null
  | bool (value : Bool)
  | num (value : Rat)
  | str (value : String)
  | arr (items : List Json)
  | obj (fields : List (String × Json))

abbrev Fields := List (String × Json)

def boolValue (value : Bool) : Rat := if value then 1 else 0

-- Python's `==`: a boolean is the number it stands for, lists are compared in
-- order, dictionaries by their keys.
mutual
def pyEq : Json → Json → Bool
  | .null,.null => true
  | .bool a,.bool b => a == b
  | .bool a,.num b => boolValue a == b
  | .num a,.bool b => a == boolValue b
  | .num a,.num b => a == b
  | .str a,.str b => a == b
  | .arr xs,.arr ys => pyEqItems xs ys
  | .obj xs,.obj ys => xs.length == ys.length && pyEqFields xs ys
  | _,_ => false
def pyEqItems : List Json → List Json → Bool
  | [],[] => true
  | x :: xs,y :: ys => pyEq x y && pyEqItems xs ys
  | _,_ => false
def pyEqFields : Fields → Fields → Bool
  | [],_ => true
  | (key,value) :: rest,ys =>
    (match ys.lookup key with
      | some other => pyEq value other
      | none => false) && pyEqFields rest ys
end

-- `value in items`.
def pyIn (value : Json) (items : List Json) : Bool := items.any fun item => pyEq item value

-- jsonb `@>`: the left value contains the right one.
mutual
def jsonbContains : Json → Json → Bool
  | .null,.null => true
  | .bool a,.bool b => a == b
  | .num a,.num b => a == b
  | .str a,.str b => a == b
  | .arr xs,.arr ys => jsonbContainsItems xs ys
  | .obj xs,.obj ys => jsonbContainsFields xs ys
  | _,_ => false
def jsonbContainsItems (xs : List Json) : List Json → Bool
  | [] => true
  | y :: ys => xs.any (fun x => jsonbContains x y) && jsonbContainsItems xs ys
def jsonbContainsFields (xs : Fields) : Fields → Bool
  | [] => true
  | (key,value) :: rest =>
    (match xs.lookup key with
      | some held => jsonbContains held value
      | none => false) && jsonbContainsFields xs rest
end

-- `bool(value)`.
def truthy : Json → Bool
  | .null => false
  | .bool value => value
  | .num value => value != 0
  | .str value => value != ""
  | .arr items => !items.isEmpty
  | .obj fields => !fields.isEmpty

-- `dict.update`: a known key keeps its place, a new one comes last.
def merge (fields later : List (String × α)) : List (String × α) :=
  fields.map (fun row => (row.1,(later.lookup row.1).getD row.2)) ++ later.filter fun row => (fields.lookup row.1).isNone

theorem lookup_map_snd (fields : List (String × α)) (f : String → α → α) (key : String) :
    (fields.map fun row => (row.1,f row.1 row.2)).lookup key = (fields.lookup key).map (f key) := by
  induction fields with
  | nil => rfl
  | cons head rest ih =>
    obtain ⟨name,value⟩ := head
    simp only [List.map_cons,List.lookup_cons]
    cases same : key == name with
    | true => simp [eq_of_beq same]
    | false => exact ih

theorem lookup_filter (fields : List (String × α)) (keep : String → Bool) (key : String) :
    (fields.filter fun row => keep row.1).lookup key = if keep key then fields.lookup key else none := by
  induction fields with
  | nil => simp
  | cons head rest ih =>
    obtain ⟨name,value⟩ := head
    rw [List.filter_cons,List.lookup_cons]
    cases same : key == name with
    | true =>
      have equal := eq_of_beq same
      subst equal
      cases kept : keep key <;> simp [kept,ih]
    | false =>
      cases kept : keep name <;> simp [List.lookup_cons,same,ih]

-- The later dictionary wins.
@[simp] theorem lookup_merge (fields later : List (String × α)) (key : String) :
    (merge fields later).lookup key = (later.lookup key).or (fields.lookup key) := by
  have known := lookup_map_snd fields (fun key value => (later.lookup key).getD value) key
  have added := lookup_filter later (fun key => (fields.lookup key).isNone) key
  rw [merge,List.lookup_append,known,added]
  cases fields.lookup key <;> cases later.lookup key <;> rfl

end PythonJson
