/-! Decimal notation of whole numbers, and of digits with a point among them. -/

set_option autoImplicit false

namespace Colloquy.Number

def digits (n : Nat) : List Char := Nat.toDigits 10 n

/-- The number that decimal digits write; none writes zero. -/
def ofDigits (cs : List Char) : Nat := Nat.ofDigitChars 10 cs 0

@[simp] theorem ofDigits_digits (n : Nat) : ofDigits (digits n) = n :=
  Nat.ofDigitChars_toDigits (by decide) (by decide)

theorem isDigit_of_mem_digits {n : Nat} {c : Char} (h : c ∈ digits n) : c.isDigit = true :=
  Nat.isDigit_of_mem_toDigits (by decide) (by decide) h

def decimal (n : Int) : List Char :=
  if n < 0 then '-' :: digits n.natAbs else digits n.natAbs

/-- The number `significand · 10 ^ exponent`. -/
structure Decimal where
  significand : Nat
  exponent : Int
  deriving DecidableEq, Repr

namespace Decimal

/-- How far the point stands right of the first digit. -/
def scale (d : Decimal) : Int := (digits d.significand).length + d.exponent

def positional (d : Decimal) : List Char :=
  let ds := digits d.significand
  if 0 ≤ d.exponent then ds ++ List.replicate d.exponent.toNat '0'
  else
    let places := (-d.exponent).toNat
    if places < ds.length then
      ds.take (ds.length - places) ++ '.' :: ds.drop (ds.length - places)
    else
      '0' :: '.' :: List.replicate (places - ds.length) '0' ++ ds

end Decimal

end Colloquy.Number
