import Colloquy.Number.Format

/-!
Floating point numbers, told apart by their bits and compared as numbers: the two zeros are equal
and whatever is no number is comparable to nothing.
-/

set_option autoImplicit false

namespace Colloquy.Number

/-- A number of the format `f`, with its sign in the highest bit. -/
structure Float (f : Format) where
  bits : BitVec f.width
  deriving DecidableEq, Repr

abbrev Single := Float Format.single
abbrev Double := Float Format.double

namespace Float

variable {f : Format}

def negative (x : Float f) : Bool := x.bits.msb

/-- The bits without the sign. -/
def magnitude (x : Float f) : Nat := x.bits.toNat % Nat.pow 2 (f.width - 1)

def ofMagnitude (negative : Bool) (magnitude : Nat) : Float f :=
  ⟨BitVec.ofNat f.width (magnitude + if negative then Nat.pow 2 (f.width - 1) else 0)⟩

/-- The number nearest to `num / den`, or to its opposite. -/
def ofRatio (negative : Bool) (num den : Nat) : Float f :=
  ofMagnitude negative (f.nearest num den)

def ofInt (n : Int) : Float f :=
  ofRatio (n < 0) n.natAbs 1

def isNaN (x : Float f) : Bool := f.infinity < x.magnitude

def isFinite (x : Float f) : Bool := x.magnitude < f.infinity

def isZero (x : Float f) : Bool := x.magnitude == 0

def units (x : Float f) : Nat := f.units x.magnitude

/-- Whether `x` is a finite whole number. -/
def isWhole (x : Float f) : Bool := x.isFinite && x.units % f.one == 0

/-- The whole part, toward zero. -/
def toInt (x : Float f) : Int :=
  let whole : Int := (x.units / f.one : Nat)
  if x.negative then -whole else whole

/-- Places a number on the line of all numbers. -/
def key (x : Float f) : Int :=
  if x.negative then -(x.magnitude : Int) else x.magnitude

def compare? (x y : Float f) : Option Ordering :=
  if x.isNaN || y.isNaN then none else some (compare x.key y.key)

/-- The number of another format nearest to `x`, which is a number. -/
def convert {g : Format} (x : Float f) : Float g :=
  if x.isFinite then ofRatio x.negative x.units f.one
  else ofMagnitude x.negative g.infinity

/-- The number nearest to the product of two finite ones. -/
def mul (x y : Float f) : Float f :=
  ofRatio (x.negative != y.negative) (x.units * y.units) (f.one * f.one)

/-- The number nearest to the quotient of two finite ones, the second of which is not zero. -/
def div (x y : Float f) : Float f :=
  ofRatio (x.negative != y.negative) x.units y.units

def negate (x : Float f) : Float f :=
  ofMagnitude (!x.negative) x.magnitude

/-- The usual bits of a quantity that is no number. -/
def nan : Float f := ofMagnitude false (f.infinity + f.normal / 2)

end Float

end Colloquy.Number
