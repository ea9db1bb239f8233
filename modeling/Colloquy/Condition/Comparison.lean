import Colloquy.Value.Reading

/-! Comparing values of any two kinds. -/

set_option autoImplicit false

namespace Colloquy

inductive Comparison where
  | equal
  | unequal
  | greater
  | greaterEqual
  | less
  | lessEqual
  deriving DecidableEq, Repr

namespace Comparison

def symbol : Comparison → String
  | equal => "=="
  | unequal => "!="
  | greater => ">"
  | greaterEqual => ">="
  | less => "<"
  | lessEqual => "<="

/-- Whether the comparison asks for sameness only, and not for order. -/
def isEquality : Comparison → Bool
  | equal | unequal => true
  | _ => false

/-- Whether the comparison is true of operands in this order. -/
def holds : Comparison → Ordering → Bool
  | equal, o => o == .eq
  | unequal, o => o != .eq
  | greater, o => o == .gt
  | greaterEqual, o => o != .lt
  | less, o => o == .lt
  | lessEqual, o => o != .gt

end Comparison

namespace Value

/-- The order of two numeric values as real numbers. -/
def realOrder? (left right : Value) : Option Ordering :=
  match left.toReal?, right.toReal? with
  | some l, some r => l.compare? r
  | _, _ => none

/-- The number that a text spells. -/
def spelled? (s : String) : Option Value :=
  numeral? (Text.trim s).toList

-- The order of two values, if they have one. A text counts as the number it spells beside a number,
-- and as the truth value it spells where only sameness is asked; truth values and null are the same
-- or not, but are in no order.
def order? (equality : Bool) (left right : Value) : Option Ordering :=
  match left, right with
  | .integer l, .integer r => some (compare l.toInt r.toInt)
  | .integer _, .real _ | .real _, .integer _ | .real _, .real _ => realOrder? left right
  | .text s, .integer _ | .text s, .real _ => (spelled? s).bind (realOrder? · right)
  | .integer _, .text s | .real _, .text s => (spelled? s).bind (realOrder? left ·)
  | .text l, .text r => some (compare l r)
  | .truth l, .truth r => if equality then some (compare l r) else none
  | .text s, .truth b => if equality then (truth? s).map (compare · b) else none
  | .truth b, .text s => if equality then (truth? s).map (compare b ·) else none
  | .null, .null => if equality then some .eq else none
  | _, _ => none

-- Compares two values. Values without an order differ; asking which is greater has no answer,
-- unless both are numeric and one is no number: then nothing is greater or less.
def compare? (op : Comparison) (left right : Value) : Option Bool :=
  match order? op.isEquality left right with
  | some order => some (op.holds order)
  | none =>
    if op.isEquality then some (op == .unequal)
    else if left.isNumeric && right.isNumeric then some false
    else none

end Value

end Colloquy
