import Mathlib.Order.Compare
import Colloquy.Proofs.Number.Rounding

/-!
The order of floating point numbers. They are compared by their bits, and that is the order of the
numbers that they stand for: `Float.compare?_eq`.
-/

set_option autoImplicit false

namespace Colloquy.Number

namespace Format

variable {f : Format} {magnitude rest : Nat}

theorem units_of_lt (small : magnitude < f.normal) : f.units magnitude = magnitude :=
  if_pos small

theorem units_of_exponent (f : Format) (exponent : Nat) (small : rest < f.normal) :
    f.units ((exponent + 1) * f.normal + rest) = (f.normal + rest) * 2 ^ exponent := by
  have large : ¬(exponent + 1) * f.normal + rest < f.normal := by
    rw [Nat.succ_mul]
    omega
  have quotient : ((exponent + 1) * f.normal + rest) / f.normal = exponent + 1 := by
    rw [Nat.mul_comm, Nat.mul_add_div f.normal_pos, Nat.div_eq_of_lt small, Nat.add_zero]
  have remainder : ((exponent + 1) * f.normal + rest) % f.normal = rest := by
    rw [Nat.mul_comm, Nat.mul_add_mod, Nat.mod_eq_of_lt small]
  rw [units, if_neg large, quotient, remainder, Nat.add_sub_cancel]
  rfl

theorem units_lt_succ (f : Format) (magnitude : Nat) :
    f.units magnitude < f.units (magnitude + 1) := by
  have split := Nat.div_add_mod' magnitude f.normal
  have small := Nat.mod_lt magnitude f.normal_pos
  generalize magnitude / f.normal = quotient, magnitude % f.normal = rest at split small
  subst split
  rcases Nat.eq_or_lt_of_le (Nat.succ_le_of_lt small) with full | room
  · have carried : quotient * f.normal + rest + 1 = (quotient + 1) * f.normal + 0 := by
      rw [Nat.succ_mul]
      omega
    rw [carried, units_of_exponent f quotient f.normal_pos]
    cases quotient with
    | zero =>
      rw [Nat.zero_mul, Nat.zero_add, units_of_lt small]
      omega
    | succ exponent =>
      rw [units_of_exponent f exponent small, pow_succ, ← Nat.mul_assoc, Nat.mul_right_comm]
      exact Nat.mul_lt_mul_of_pos_right (by omega) (Nat.two_pow_pos _)
  · rw [Nat.add_assoc]
    cases quotient with
    | zero =>
      rw [Nat.zero_mul, Nat.zero_add, Nat.zero_add, units_of_lt small, units_of_lt room]
      omega
    | succ exponent =>
      rw [units_of_exponent f exponent small, units_of_exponent f exponent room]
      exact Nat.mul_lt_mul_of_pos_right (by omega) (Nat.two_pow_pos _)

theorem units_strictMono (f : Format) : StrictMono f.units :=
  strictMono_nat_of_lt_succ f.units_lt_succ

theorem units_zero (f : Format) : f.units 0 = 0 := units_of_lt f.normal_pos

end Format

namespace Float

variable {f : Format}

/-- How many units a number is, with its sign; infinity comes one step after the greatest finite
number. -/
def count (x : Float f) : Int :=
  if x.negative then -(x.units : Int) else x.units

theorem key_lt_iff (x y : Float f) : x.key < y.key ↔ x.count < y.count := by
  have order : x.magnitude < y.magnitude ↔ x.units < y.units :=
    f.units_strictMono.lt_iff_lt.symm
  have reverse : y.magnitude < x.magnitude ↔ y.units < x.units :=
    f.units_strictMono.lt_iff_lt.symm
  have nothing (z : Float f) : 0 < z.magnitude ↔ 0 < z.units := by
    rw [Float.units, ← f.units_strictMono.lt_iff_lt, f.units_zero]
  have left := nothing x
  have right := nothing y
  unfold key count
  split <;> split <;> omega

/-- The order of the bits is the order of the counts, where there is one at all. -/
theorem compare?_eq (x y : Float f) : x.compare? y =
    if x.isNaN || y.isNaN then none else some (compare x.count y.count) := by
  have less := key_lt_iff x y
  have greater := key_lt_iff y x
  rw [compare?]
  split
  · rfl
  · congr 1
    rcases lt_trichotomy x.key y.key with below | same | above
    · rw [compare_lt_iff_lt.2 below, compare_lt_iff_lt.2 (less.1 below)]
    · have counts : x.count = y.count := by omega
      rw [same, counts, compare_eq_iff_eq.2 rfl, compare_eq_iff_eq.2 rfl]
    · rw [compare_gt_iff_gt.2 above, compare_gt_iff_gt.2 (greater.1 above)]

theorem compare?_swap (x y : Float f) : y.compare? x = (x.compare? y).map Ordering.swap := by
  rw [compare?, compare?, Bool.or_comm]
  split
  · rfl
  · exact congrArg some Std.OrientedOrd.eq_swap

theorem isSome_compare? {x y : Float f} (left : x.isNaN = false) (right : y.isNaN = false) :
    (x.compare? y).isSome := by
  rw [compare?, left, right]
  rfl

end Float

end Colloquy.Number
