import Colloquy.Text.Lines
import Colloquy.Value.Basic

/-! Values written as text: numerals, and what a user's words are taken to mean. -/

set_option autoImplicit false

namespace Colloquy.Value

open Number (Double)

/-- Whether a numeral is negative, and what follows its sign, which may be missing. -/
def splitSign : List Char → Bool × List Char
  | '-' :: rest => (true, rest)
  | '+' :: rest => (false, rest)
  | rest => (false, rest)

/-- A whole number in 64 bits. -/
def integer? (n : Int) : Option Value :=
  if Int64.minValue.toInt ≤ n ∧ n ≤ Int64.maxValue.toInt then some (.integer (.ofInt n)) else none

-- Reads a sign, or none, and digits with at most one point among them. A point makes the number
-- real; without one it must fit 64 bits.
def numeral? (cs : List Char) : Option Value :=
  let (negative, body) := splitSign cs
  let whole := body.takeWhile Char.isDigit
  match body.dropWhile Char.isDigit with
  | [] =>
    if whole.isEmpty then none
    else
      let n : Int := Number.ofDigits whole
      integer? (if negative then -n else n)
  | '.' :: fraction =>
    if fraction.all Char.isDigit && !(whole.isEmpty && fraction.isEmpty) then
      some (.real (.ofRatio negative (Number.ofDigits (whole ++ fraction)) (Nat.pow 10 fraction.length)))
    else none
  | _ => none

def truth? (s : String) : Option Bool :=
  if Text.spells s "true" then some true
  else if Text.spells s "false" then some false
  else none

-- What a user means by a text: a number or a truth value if all of it reads as one, else the text
-- without the white space around it.
def infer (text : String) : Value :=
  let trimmed := Text.trim text
  match numeral? trimmed.toList with
  | some number => number
  | none =>
    match truth? trimmed with
    | some b => .truth b
    | none => .text trimmed

end Colloquy.Value
