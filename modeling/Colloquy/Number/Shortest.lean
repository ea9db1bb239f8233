import Colloquy.Number.Decimal
import Colloquy.Number.Float

/-!
The fewest decimal digits that read back as a floating point number, and among those the nearest.
A grid is the multiples of one power of ten; the coarsest grid with a point that reads back holds
the answer.
-/

set_option autoImplicit false

namespace Colloquy.Number

/-- Where a value half way between its two neighbours on a grid goes. -/
inductive Tie where
  | up
  | even
  deriving DecidableEq, Repr

-- The numbers from `low` to `high` read back as `value`; all three count quarters of a unit. The
-- ends belong to them if `closed`.
structure Interval where
  low : Nat
  value : Nat
  high : Nat
  closed : Bool
  deriving Repr

namespace Interval

/-- What rounds to the magnitude, which is finite and not zero. -/
def ofMagnitude (f : Format) (magnitude : Nat) : Interval :=
  let value := 4 * f.units magnitude
  let step := Nat.pow 2 (magnitude / f.normal - 1)
  let below := if magnitude % f.normal = 0 ∧ f.normal < magnitude then step else 2 * step
  ⟨value - below, value, value + 2 * step, magnitude % 2 == 0⟩

def contains (i : Interval) (num den : Nat) : Bool :=
  if i.closed then i.low * den ≤ num && num ≤ i.high * den
  else i.low * den < num && num < i.high * den

-- The nearer of the neighbours of the value on the grid of `10 ^ exponent` that reads back. One is
-- `quarters`.
def onGrid? (i : Interval) (quarters : Nat) (tie : Tie) (exponent : Int) : Option Nat :=
  let grid := quarters * Nat.pow 10 exponent.toNat
  let fine := Nat.pow 10 (-exponent).toNat
  let lower := i.value * fine / grid
  let rest := 2 * (i.value * fine % grid)
  let lowerHolds := 0 < lower && i.contains (lower * grid) fine
  let upperHolds := i.contains ((lower + 1) * grid) fine
  match lowerHolds, upperHolds with
  | false, false => none
  | true, false => some lower
  | false, true => some (lower + 1)
  | true, true =>
    if rest < grid then some lower
    else if grid < rest then some (lower + 1)
    else match tie with
      | .up => some (lower + 1)
      | .even => some (if lower % 2 = 0 then lower else lower + 1)

def search (i : Interval) (quarters : Nat) (tie : Tie) : Nat → Int → Decimal
  | 0, _ => ⟨0, 0⟩
  | tries + 1, exponent =>
    match i.onGrid? quarters tie exponent with
    | some significand => ⟨significand, exponent⟩
    | none => search i quarters tie tries (exponent - 1)

end Interval

-- The shortest decimal of a finite magnitude. The search starts above the leading digit: the binary
-- logarithm times 0.30103 is at most one too low.
def shortest (f : Format) (tie : Tie) (magnitude : Nat) : Decimal :=
  if magnitude = 0 then ⟨0, 0⟩
  else
    let i := Interval.ofMagnitude f magnitude
    let power : Int := (Nat.log2 (f.units magnitude) : Int) - f.unitPower
    i.search (4 * f.one) tie (f.precision + 4) (Int.fdiv (power * 30103) 100000 + 2)

end Colloquy.Number
