import Colloquy.Json.Basic
import Colloquy.Table

/-!
Taking typed values out of JSON. A record is an object, with its fields in any order, or an array
of its fields in the order of their declaration. Unknown fields are passed over whatever they
hold; a known field that appears twice is an error.
-/

set_option autoImplicit false

namespace Colloquy.Json

def toText? : Json → Option String
  | .string s => s
  | _ => none

def toBool? : Json → Option Bool
  | .bool b => some b
  | _ => none

/-- A whole number from `low` to `high`. -/
def toInt? (low high : Int) : Json → Option Int
  | .number n => n.toInt?.filter fun i => low ≤ i && i ≤ high
  | _ => none

/-- A natural number below `bound`. -/
def toNat? (bound : Nat) (j : Json) : Option Nat :=
  (j.toInt? 0 (bound - 1)).map Int.toNat

def toDouble? : Json → Option Number.Double
  | .number n => n.toDouble?
  | _ => none

def toSingle? : Json → Option Number.Single
  | .number n => n.toSingle?
  | _ => none

/-- Null for no value. -/
def toOption? {α : Type} (decode : Json → Option α) : Json → Option (Option α)
  | .null => some none
  | j => (decode j).map some

def toList? {α : Type} (decode : Json → Option α) : Json → Option (List α)
  | .array items => items.mapM decode
  | _ => none

def toPair? {α β : Type} (first : Json → Option α) (second : Json → Option β) :
    Json → Option (α × β)
  | .array [a, b] => do return (← first a, ← second b)
  | _ => none

-- An object as a table: of two entries with one name the last one counts.
def toTable? {α : Type} (decode : Json → Option α) : Json → Option (Table α)
  | .object fields => do
    let pairs ← fields.mapM fun (name, value) => do return (← name, ← decode value)
    return .ofList pairs
  | _ => none

/-- A variant: its name alone, or an object with the name and what the variant holds. -/
def toVariant? : Json → Option (String × Option Json)
  | .string (some name) => some (name, none)
  | .object [(some name, content)] => some (name, some content)
  | _ => none

def isBare : Option Json → Bool
  | none | some .null => true
  | _ => false

/-- The fields that a record's text gives, by name. -/
structure Fields where
  /-- Whether they were given by name. -/
  named : Bool
  values : List (String × Json)

/-- The known fields of an object. -/
def known? (names : List String) : List (Quoted × Json) → Option (List (String × Json))
  | [] => some []
  | (name, value) :: fields => do
    let name ← name
    let others ← known? names fields
    if name ∈ names then
      if others.any (·.1 == name) then none else return (name, value) :: others
    else return others

/-- The fields of a record with fields of these names. -/
def toFields? (names : List String) : Json → Option Fields
  | .object fields => (known? names fields).map (⟨true, ·⟩)
  | .array items =>
    if items.length ≤ names.length then some ⟨false, names.zip items⟩ else none
  | _ => none

namespace Fields

def get? (fields : Fields) (name : String) : Option Json := Table.find name fields.values

/-- A field that must be given. -/
def required {α : Type} (fields : Fields) (name : String) (decode : Json → Option α) : Option α :=
  (fields.get? name).bind decode

/-- A field that may be null, and may be missing from an object. -/
def optional {α : Type} (fields : Fields) (name : String) (decode : Json → Option α) :
    Option (Option α) :=
  match fields.get? name with
  | some j => toOption? decode j
  | none => if fields.named then some none else none

/-- A field that has a value where it is missing. -/
def default {α : Type} (fields : Fields) (name : String) (value : α) (decode : Json → Option α) :
    Option α :=
  match fields.get? name with
  | some j => decode j
  | none => some value

end Fields

end Colloquy.Json
