import Colloquy.Json.Numeral

/-! JSON documents. -/

set_option autoImplicit false

namespace Colloquy

namespace Json

/-- What stands in quotes; none if an escape names one half of a surrogate pair without the other,
which makes a legal document but no text. -/
abbrev Quoted := Option String

end Json

inductive Json where
  | null
  | bool (b : Bool)
  | number (n : Json.Numeral)
  | string (s : Json.Quoted)
  | array (items : List Json)
  | object (fields : List (Json.Quoted × Json))
  deriving Repr

namespace Json

instance : Inhabited Json := ⟨.null⟩

def text (s : String) : Json := .string (some s)

def int (n : Int) : Json := .number (.ofInt n)

def nat (n : Nat) : Json := .number (.ofInt n)

def double (x : Number.Double) : Json :=
  if x.isFinite then .number (.ofFloat Numeral.doubleSpan x) else .null

def single (x : Number.Single) : Json :=
  if x.isFinite then .number (.ofFloat Numeral.singleSpan x) else .null

def record (fields : List (String × Json)) : Json :=
  .object (fields.map fun field => (some field.1, field.2))

/-- The entries of a table. They may be listed in any order. -/
def entries {α : Type} (encode : α → Json) (listed : List (String × α)) : Json :=
  record (listed.map fun entry => (entry.1, encode entry.2))

def optional {α : Type} (encode : α → Json) : Option α → Json
  | none => .null
  | some a => encode a

def list {α : Type} (encode : α → Json) (items : List α) : Json :=
  .array (items.map encode)

mutual

/-- The document with every number in the digits of the value that it reads as. -/
def evaluate : Json → Json
  | null => null
  | bool b => bool b
  | number n => number n.evaluate
  | string s => string s
  | array items => array (evaluateItems items)
  | object fields => object (evaluateFields fields)

def evaluateItems : List Json → List Json
  | [] => []
  | item :: items => evaluate item :: evaluateItems items

def evaluateFields : List (Quoted × Json) → List (Quoted × Json)
  | [] => []
  | (name, value) :: fields => (name, evaluate value) :: evaluateFields fields

end

end Json

end Colloquy
