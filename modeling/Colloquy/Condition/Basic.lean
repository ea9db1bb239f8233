import Colloquy.Condition.Operand
import Colloquy.Condition.Token

/-! Conditions over slots, and when they hold. -/

set_option autoImplicit false

namespace Colloquy

inductive Condition where
  | operand (x : Operand)
  | compare (op : Comparison) (left right : Operand)
  | not (c : Condition)
  | and (left right : Condition)
  | or (left right : Condition)
  deriving DecidableEq, Repr

/-- What a condition's text should have gone on with. -/
inductive Expectation where
  | closing
  | operand
  | operandOrGroup
  | theEnd
  deriving DecidableEq, Repr

def Expectation.text : Expectation → String
  | closing => "')'"
  | operand => "an operand"
  | operandOrGroup => "an operand or '('"
  | theEnd => "end of condition"

inductive ConditionError where
  | empty
  | unterminatedText (position : Nat)
  | unexpectedCharacter (character : Char) (position : Nat)
  | unexpectedToken (found : Token) (expected : Expectation)
  | unexpectedEnd (expected : Expectation)
  | incomparable (op : Comparison) (left right : Value)
  deriving DecidableEq, Repr

def ConditionError.message : ConditionError → String
  | empty => "Condition is empty"
  | unterminatedText position => s!"Unterminated string literal starting at position {position}"
  | unexpectedCharacter character position =>
    s!"Unexpected character '{character}' at position {position}"
  | unexpectedToken found expected =>
    s!"Unexpected token '{found.text}', expected {expected.text}"
  | unexpectedEnd expected => s!"Condition ended early, expected {expected.text}"
  | incomparable op left right =>
    s!"Cannot apply '{op.symbol}' to '{left.display}' and '{right.display}'"

namespace Condition

/-- Whether the condition holds. A comparison with a slot that is not filled is false; the only
error is a comparison of values that have no order. -/
def eval (slots : Slots) : Condition → Except ConditionError Bool
  | operand x => .ok ((x.value? slots).any Value.holds)
  | compare op left right =>
    match left.value? slots, right.value? slots with
    | some l, some r =>
      match Value.compare? op l r with
      | some b => .ok b
      | none => .error (.incomparable op l r)
    | _, _ => .ok false
  | not c => (c.eval slots).map (!·)
  | and left right =>
    match left.eval slots with
    | .ok true => right.eval slots
    | other => other
  | or left right =>
    match left.eval slots with
    | .ok false => right.eval slots
    | other => other

def display : Condition → String
  | operand x => x.display
  | compare op left right => left.display ++ " " ++ op.symbol ++ " " ++ right.display
  | not c => "NOT (" ++ c.display ++ ")"
  | and left right => "(" ++ left.display ++ " AND " ++ right.display ++ ")"
  | or left right => "(" ++ left.display ++ " OR " ++ right.display ++ ")"

/-- The names of the slots that the condition reads, in reading order. -/
def slotNames : Condition → List String
  | operand x => x.slotNames
  | compare _ left right => left.slotNames ++ right.slotNames
  | not c => c.slotNames
  | and left right | or left right => left.slotNames ++ right.slotNames

end Condition

end Colloquy
