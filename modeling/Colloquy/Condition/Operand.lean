import Colloquy.Value.Reading

/-! The operands of a condition: literals, and names of slots. -/

set_option autoImplicit false

namespace Colloquy

inductive Operand where
  | literal (value : Value)
  | slot (name : String)
  deriving DecidableEq, Repr

namespace Operand

/-- What stands between two equal quotes, single or double, that enclose the whole text. -/
def unquote? : List Char → Option (List Char)
  | '\'' :: rest => if rest.getLast? = some '\'' then some rest.dropLast else none
  | '"' :: rest => if rest.getLast? = some '"' then some rest.dropLast else none
  | _ => none

-- Reads a word of a condition. All that is not clearly a literal names a slot, such as `-`, `--5`
-- and `5-3`.
def read (word : String) : Operand :=
  let word := Text.trim word
  match unquote? word.toList with
  | some inner => .literal (.text (String.ofList inner))
  | none =>
    match Value.numeral? word.toList with
    | some number => .literal number
    | none =>
      match Value.truth? word with
      | some b => .literal (.truth b)
      | none =>
        if Text.spells word "none" || Text.spells word "null" then .literal .null
        else .slot word

/-- The value of the operand; a slot that is not filled has none, which is not the same as null. -/
def value? (slots : Slots) : Operand → Option Value
  | .literal value => some value
  | .slot name => slots.get? name

/-- Texts stand in single quotes and a dollar sign marks a slot. -/
def display : Operand → String
  | .literal (.text s) => "'" ++ s ++ "'"
  | .literal value => value.display
  | .slot name => "$" ++ name

def slotNames : Operand → List String
  | .literal _ => []
  | .slot name => [name]

end Operand

end Colloquy
