import Colloquy.Number.Shortest
import Colloquy.Table

/-! What a slot can hold, and how it reads in a message. -/

set_option autoImplicit false

namespace Colloquy

open Number (Double)

inductive Value where
  | text (s : String)
  | integer (n : Int64)
  | real (x : Double)
  | truth (b : Bool)
  | null
  deriving DecidableEq, Repr

/-- The filled slots of one flow, by name. -/
abbrev Slots := Table Value

namespace Value

-- A real number in full: whole numbers below 10^15 without a fraction, all others in the fewest
-- digits that read back.
def displayReal (x : Double) : List Char :=
  if x.isWhole && x.units < Nat.pow 10 15 * Number.Format.double.one then Number.decimal x.toInt
  else if x.isNaN then ['N', 'a', 'N']
  else
    let digits :=
      if x.isFinite then (Number.shortest .double .up x.magnitude).positional else ['i', 'n', 'f']
    if x.negative then '-' :: digits else digits

def display : Value → String
  | .text s => s
  | .integer n => String.ofList (Number.decimal n.toInt)
  | .real x => String.ofList (displayReal x)
  | .truth true => "true"
  | .truth false => "false"
  | .null => "null"

/-- Whether a value alone makes a condition true. -/
def holds : Value → Bool
  | .text s => s ≠ ""
  | .integer n => n ≠ 0
  | .real x => !x.isZero
  | .truth b => b
  | .null => false

def isNumeric : Value → Bool
  | .integer _ | .real _ => true
  | _ => false

-- A numeric value as a real number; a large integer goes to the nearest one.
def toReal? : Value → Option Double
  | .integer n => some (.ofInt n.toInt)
  | .real x => some x
  | _ => none

def toText? : Value → Option String
  | .text s => some s
  | _ => none

end Value

end Colloquy
