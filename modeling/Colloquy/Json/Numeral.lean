import Colloquy.Number.Shortest

/-!
Numbers as JSON writes them, and the values they stand for. A number without point and exponent is
whole if it fits 64 bits. Every other number is scaled from the leading digits that fit 64 bits by
one power of ten, which may miss the nearest floating point number by its last bit.
-/

set_option autoImplicit false

namespace Colloquy.Json

open Number (Double Single)

structure Numeral where
  negative : Bool
  whole : List Char
  fraction : Option (List Char)
  /-- Whether the exponent is negative, and its digits. -/
  exponent : Option (Bool × List Char)
  deriving DecidableEq, Repr

namespace Numeral

def fractionText : Option (List Char) → List Char
  | none => []
  | some digits => '.' :: digits

def exponentText : Option (Bool × List Char) → List Char
  | none => []
  | some (negative, digits) => 'e' :: (if negative then '-' :: digits else digits)

def text (n : Numeral) : List Char :=
  (if n.negative then ['-'] else []) ++ n.whole ++ fractionText n.fraction ++
    exponentText n.exponent

def ofInt (n : Int) : Numeral :=
  ⟨n < 0, Number.digits n.natAbs, none, none⟩

/-- Between which scales a decimal is written without an exponent. -/
structure Span where
  least : Int
  greatest : Int

def doubleSpan : Span := ⟨-4, 16⟩
def singleSpan : Span := ⟨-5, 13⟩

/-- A decimal with a fraction, if only zero, or with an exponent. -/
def ofDecimal (span : Span) (negative : Bool) (d : Number.Decimal) : Numeral :=
  let digits := Number.digits d.significand
  if 0 ≤ d.exponent ∧ d.scale ≤ span.greatest then
    ⟨negative, digits ++ List.replicate d.exponent.toNat '0', some ['0'], none⟩
  else if 0 < d.scale ∧ d.scale ≤ span.greatest then
    ⟨negative, digits.take d.scale.toNat, some (digits.drop d.scale.toNat), none⟩
  else if span.least ≤ d.scale ∧ d.scale ≤ 0 then
    ⟨negative, ['0'], some (List.replicate (-d.scale).toNat '0' ++ digits), none⟩
  else
    let power := d.scale - 1
    ⟨negative, digits.take 1, if digits.length ≤ 1 then none else some (digits.drop 1),
      some (power < 0, Number.digits power.natAbs)⟩

-- A finite number in the fewest digits that read back; a tie goes to the even digit.
def ofFloat {f : Number.Format} (span : Span) (x : Number.Float f) : Numeral :=
  ofDecimal span x.negative (Number.shortest f .even x.magnitude)

-- Goes on with the digits of a number while 64 bits hold it, and leaves the rest.
def absorb (significand : Nat) : List Char → Nat × List Char
  | [] => (significand, [])
  | digit :: digits =>
    let next := 10 * significand + (digit.toNat - '0'.toNat)
    if next < UInt64.size then absorb next digits else (significand, digit :: digits)

-- The number if it has neither point nor exponent and fits 64 bits, with a sign or without. A zero
-- with a minus sign is not whole.
def toInt? (n : Numeral) : Option Int :=
  match n.fraction, n.exponent with
  | none, none =>
    let size := Number.ofDigits n.whole
    if n.negative then
      if 0 < size ∧ 2 * size ≤ UInt64.size then some (-size) else none
    else if size < UInt64.size then some size else none
  | _, _ => none

-- Divides by a power of ten, 308 places at a time.
def shrink (x : Double) (places : Nat) : Double :=
  if places ≤ 308 then x.div (.ofRatio false (Nat.pow 10 places) 1)
  else if x.isZero then x
  else shrink (x.div (.ofRatio false (Nat.pow 10 308) 1)) (places - 308)
termination_by places

/-- `significand · 10 ^ exponent`, unless it is past the greatest number. -/
def scaled? (significand : Nat) (exponent : Int) : Option Double :=
  let x : Double := .ofRatio false significand 1
  if exponent < 0 then some (shrink x exponent.natAbs)
  else if x.isZero then some x
  else if 308 < exponent then none
  else
    let product := x.mul (.ofRatio false (Nat.pow 10 exponent.toNat) 1)
    if product.isFinite then some product else none

/-- The value as a real number; none if it is past the greatest one. -/
def toDouble? (n : Numeral) : Option Double :=
  match n.toInt? with
  | some i => some (.ofInt i)
  | none =>
    let (whole, dropped) := absorb 0 n.whole
    let fraction := n.fraction.getD []
    let (significand, ignored) := absorb whole fraction
    let shift : Int := dropped.length - (fraction.length - ignored.length : Nat)
    let exponent : Int :=
      match n.exponent with
      | none => 0
      | some (negative, digits) =>
        let size : Int := Number.ofDigits digits
        if negative then -size else size
    (scaled? significand (shift + exponent)).map fun x => if n.negative then x.negate else x

-- The value in single precision: rounded once if it is whole, else twice.
def toSingle? (n : Numeral) : Option Single :=
  match n.toInt? with
  | some i => some (.ofInt i)
  | none => n.toDouble?.map (·.convert)

-- The number in the digits of the value that it reads as: a whole number keeps its own, and so does
-- a number past the greatest one.
def evaluate (n : Numeral) : Numeral :=
  match n.toInt? with
  | some _ => n
  | none => n.toDouble?.elim n (.ofFloat doubleSpan)

end Numeral

end Colloquy.Json
