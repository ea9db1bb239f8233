/-!
Binary floating point, exactly. A magnitude is the bit pattern without its sign; every finite one
counts units of the smallest positive number, so values compare and round as natural numbers.
-/

set_option autoImplicit false

namespace Colloquy.Number

/-- An interchange format: bits of significand, the leading one included, and bits of exponent. -/
structure Format where
  precision : Nat
  exponentBits : Nat
  deriving DecidableEq, Repr

namespace Format

def single : Format := ⟨24, 8⟩
def double : Format := ⟨53, 11⟩

/-- Bits of a number with its sign. -/
def width (f : Format) : Nat := f.precision + f.exponentBits

/-- The smallest magnitude whose significand has its leading bit. -/
def normal (f : Format) : Nat := Nat.pow 2 (f.precision - 1)

/-- The magnitude of infinity; greater ones are no numbers. -/
def infinity (f : Format) : Nat := (Nat.pow 2 f.exponentBits - 1) * f.normal

/-- One unit is two to the minus this power. -/
def unitPower (f : Format) : Nat := Nat.pow 2 (f.exponentBits - 1) - 2 + (f.precision - 1)

/-- How many units one is. -/
def one (f : Format) : Nat := Nat.pow 2 f.unitPower

/-- The value of a finite magnitude, in units. -/
def units (f : Format) (magnitude : Nat) : Nat :=
  if magnitude < f.normal then magnitude
  else (f.normal + magnitude % f.normal) * Nat.pow 2 (magnitude / f.normal - 1)

end Format

-- The whole number nearest to `num / den`; a half goes to the even neighbour.
def roundEven (num den : Nat) : Nat :=
  let whole := num / den
  let rest := 2 * (num % den)
  if rest < den then whole
  else if rest = den ∧ whole % 2 = 0 then whole
  else whole + 1

theorem roundEven_one (n : Nat) : roundEven n 1 = n := by
  simp [roundEven, Nat.mod_one]

-- The magnitude nearest to `num / den`, ties to the even one; past the greatest number it is
-- infinity.
def Format.nearest (f : Format) (num den : Nat) : Nat :=
  let units := num * f.one
  let shift := Nat.log2 (units / den) + 1 - f.precision
  min (shift * f.normal + roundEven units (den * Nat.pow 2 shift)) f.infinity

end Colloquy.Number
