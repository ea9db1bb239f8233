import Mathlib.Data.Nat.Log
import Mathlib.Tactic.Ring
import Colloquy.Number.Float

/-!
Whole numbers as floating point numbers. Rounding keeps the order, so that two whole numbers compare
as they do exactly unless one floating point number is nearest to both; and to numbers that need no
more bits than the format has that does not happen.
-/

set_option autoImplicit false

namespace Colloquy.Number

theorem roundEven_eq (num den : Nat) : roundEven num den = num / den +
    if den < 2 * (num % den) ∨ den = 2 * (num % den) ∧ num / den % 2 = 1 then 1 else 0 := by
  unfold roundEven
  dsimp only
  split
  · rw [if_neg (by omega), Nat.add_zero]
  · split
    · rw [if_neg (by omega), Nat.add_zero]
    · next above notEven =>
      rw [if_pos]
      by_cases tie : den = 2 * (num % den)
      · exact .inr ⟨tie, by omega⟩
      · exact .inl (by omega)

theorem div_le_roundEven (num den : Nat) : num / den ≤ roundEven num den := by
  rw [roundEven_eq]
  omega

theorem roundEven_le (num den : Nat) : roundEven num den ≤ num / den + 1 := by
  rw [roundEven_eq]
  split <;> omega

theorem roundEven_of_dvd {num den : Nat} (divides : den ∣ num) (positive : 0 < den) :
    roundEven num den = num / den := by
  rw [roundEven_eq, Nat.mod_eq_zero_of_dvd divides, if_neg (by omega), Nat.add_zero]

theorem roundEven_mono {a b : Nat} (den : Nat) (le : a ≤ b) :
    roundEven a den ≤ roundEven b den := by
  rcases Nat.lt_or_ge (a / den) (b / den) with less | greater
  · calc roundEven a den ≤ a / den + 1 := roundEven_le a den
      _ ≤ b / den := less
      _ ≤ roundEven b den := div_le_roundEven b den
  · have same : a / den = b / den := Nat.le_antisymm (Nat.div_le_div_right le) greater
    have rest : a % den ≤ b % den := by
      have first := Nat.div_add_mod a den
      have second := Nat.div_add_mod b den
      rw [same] at first
      omega
    rw [roundEven_eq, roundEven_eq, same]
    split <;> split <;> omega

namespace Format

variable {f : Format} {a b n : Nat}

structure Proper (f : Format) : Prop where
  precision : 0 < f.precision
  exponentBits : 0 < f.exponentBits

theorem proper_double : double.Proper := ⟨by decide, by decide⟩

/-- How many of the last bits of so many units are rounded off. -/
def surplus (f : Format) (units : Nat) : Nat := Nat.log2 units + 1 - f.precision

/-- The magnitude nearest to so many units, if none were too many. -/
def place (f : Format) (units : Nat) : Nat :=
  f.surplus units * f.normal + roundEven units (2 ^ f.surplus units)

theorem nearest_one (f : Format) (n : Nat) :
    f.nearest n 1 = min (f.place (n * f.one)) f.infinity := by
  simp only [nearest, place, surplus, Nat.div_one, Nat.one_mul]
  rfl

theorem two_normal (proper : f.Proper) : 2 * f.normal = 2 ^ f.precision := by
  have split : f.precision = f.precision - 1 + 1 := by have := proper.precision; omega
  rw [split, pow_succ, Nat.mul_comm]
  rfl

theorem normal_pos (f : Format) : 0 < f.normal := Nat.two_pow_pos _

theorem surplus_mono (f : Format) (le : a ≤ b) : f.surplus a ≤ f.surplus b := by
  have logs : Nat.log2 a ≤ Nat.log2 b := by
    rw [Nat.log2_eq_log_two, Nat.log2_eq_log_two]
    exact Nat.log_mono_right le
  unfold surplus
  omega

theorem div_surplus_lt (proper : f.Proper) (a : Nat) : a / 2 ^ f.surplus a < 2 * f.normal := by
  rw [two_normal proper, Nat.div_lt_iff_lt_mul (Nat.two_pow_pos _), ← pow_add]
  refine lt_of_lt_of_le Nat.lt_log2_self (Nat.pow_le_pow_right (by decide) ?_)
  unfold surplus
  omega

theorem normal_le_div_surplus (proper : f.Proper) (some' : 0 < f.surplus a) :
    f.normal ≤ a / 2 ^ f.surplus a := by
  have bits := proper.precision
  have positive : a ≠ 0 := by
    rintro rfl
    simp [surplus] at some'
    omega
  have log : f.precision - 1 + f.surplus a = Nat.log2 a := by
    unfold surplus at *
    omega
  rw [Nat.le_div_iff_mul_le (Nat.two_pow_pos _)]
  calc f.normal * 2 ^ f.surplus a = 2 ^ (f.precision - 1 + f.surplus a) := (pow_add ..).symm
    _ = 2 ^ Nat.log2 a := by rw [log]
    _ ≤ a := Nat.log2_self_le positive

theorem place_le (proper : f.Proper) (a : Nat) : f.place a ≤ (f.surplus a + 2) * f.normal := by
  have := div_surplus_lt proper a
  have := roundEven_le a (2 ^ f.surplus a)
  rw [place, Nat.add_mul]
  omega

theorem le_place (proper : f.Proper) (some' : 0 < f.surplus a) :
    (f.surplus a + 1) * f.normal ≤ f.place a := by
  have := normal_le_div_surplus proper some'
  have := div_le_roundEven a (2 ^ f.surplus a)
  rw [place, Nat.add_mul]
  omega

theorem place_mono (proper : f.Proper) (le : a ≤ b) : f.place a ≤ f.place b := by
  rcases Nat.eq_or_lt_of_le (f.surplus_mono le) with same | less
  · rw [place, place, same]
    exact Nat.add_le_add_left (roundEven_mono _ le) _
  · calc f.place a ≤ (f.surplus a + 2) * f.normal := place_le proper a
      _ ≤ (f.surplus b + 1) * f.normal := Nat.mul_le_mul_right _ (by omega)
      _ ≤ f.place b := le_place proper (by omega)

theorem place_lt (proper : f.Proper) (less : a < b) (first : 2 ^ f.surplus a ∣ a)
    (second : 2 ^ f.surplus b ∣ b) : f.place a < f.place b := by
  have exact' := roundEven_of_dvd first (Nat.two_pow_pos _)
  rcases Nat.eq_or_lt_of_le (f.surplus_mono (Nat.le_of_lt less)) with same | later
  · rw [place, place, exact', roundEven_of_dvd second (Nat.two_pow_pos _), same]
    rw [same] at first
    exact Nat.add_lt_add_left (Nat.div_lt_div_of_lt_of_dvd second less) _
  · calc f.place a < (f.surplus a + 2) * f.normal := by
          have := div_surplus_lt proper a
          rw [place, exact', Nat.add_mul]
          omega
      _ ≤ (f.surplus b + 1) * f.normal := Nat.mul_le_mul_right _ (by omega)
      _ ≤ f.place b := le_place proper (by omega)

theorem log2_units (f : Format) (positive : n ≠ 0) :
    Nat.log2 (n * f.one) = Nat.log2 n + f.unitPower := by
  have one : f.one = 2 ^ f.unitPower := rfl
  have nonzero : n * f.one ≠ 0 := Nat.mul_ne_zero positive (Nat.two_pow_pos _).ne'
  rw [Nat.log2_eq_iff nonzero, one, pow_add, Nat.add_right_comm, pow_add]
  exact ⟨Nat.mul_le_mul_right _ (Nat.log2_self_le positive),
    Nat.mul_lt_mul_of_pos_right Nat.lt_log2_self (Nat.two_pow_pos _)⟩

theorem surplus_dvd (proper : f.Proper) (small : n ≤ 2 ^ f.precision) :
    2 ^ f.surplus (n * f.one) ∣ n * f.one := by
  rcases Nat.eq_zero_or_pos n with rfl | positive
  · simp
  have log := f.log2_units positive.ne'
  rcases Nat.eq_or_lt_of_le small with rfl | below
  · rw [Nat.log2_two_pow] at log
    have power : 2 ^ f.precision * f.one = 2 ^ (f.precision + f.unitPower) := (pow_add ..).symm
    refine power ▸ Nat.pow_dvd_pow 2 ?_
    have := proper.precision
    rw [← power, surplus, log]
    omega
  · have bits : Nat.log2 n < f.precision := (Nat.log2_lt positive.ne').2 below
    refine Dvd.dvd.mul_left (Nat.pow_dvd_pow 2 ?_) n
    rw [surplus, log]
    omega

theorem place_pos (positive : 0 < a) : 0 < f.place a := by
  rcases Nat.eq_zero_or_pos (f.surplus a) with none | some'
  · rw [place, none, pow_zero, roundEven_one]
    omega
  · exact Nat.add_pos_left (Nat.mul_pos some' f.normal_pos) _

theorem infinity_pos (proper : f.Proper) : 0 < f.infinity := by
  have powers : 2 ^ 1 ≤ 2 ^ f.exponentBits := Nat.pow_le_pow_right (by decide) proper.exponentBits
  have exponents : 0 < Nat.pow 2 f.exponentBits - 1 := Nat.sub_pos_of_lt (by exact powers)
  exact Nat.mul_pos exponents f.normal_pos

theorem infinity_lt (proper : f.Proper) : f.infinity < 2 ^ (f.width - 1) := by
  have split : f.width - 1 = f.exponentBits + (f.precision - 1) := by
    have := proper.precision
    unfold width
    omega
  rw [split, pow_add]
  exact Nat.mul_lt_mul_of_pos_right (Nat.sub_lt (Nat.two_pow_pos _) Nat.one_pos) f.normal_pos

theorem nearest_mono (proper : f.Proper) (le : a ≤ b) : f.nearest a 1 ≤ f.nearest b 1 := by
  rw [nearest_one, nearest_one]
  exact min_le_min_right _ (place_mono proper (Nat.mul_le_mul_right _ le))

theorem nearest_pos (proper : f.Proper) (positive : 0 < n) : 0 < f.nearest n 1 := by
  rw [nearest_one]
  exact lt_min (place_pos (Nat.mul_pos positive (Nat.two_pow_pos _))) (infinity_pos proper)

theorem nearest_le (f : Format) (num den : Nat) : f.nearest num den ≤ f.infinity :=
  min_le_right _ _

theorem place_lt_infinity (proper : f.Proper) (small : f.surplus a + 3 < 2 ^ f.exponentBits) :
    f.place a < f.infinity := by
  have exponents : f.surplus a + 2 < Nat.pow 2 f.exponentBits - 1 := by
    have : Nat.pow 2 f.exponentBits = 2 ^ f.exponentBits := rfl
    omega
  exact lt_of_le_of_lt (place_le proper a) (Nat.mul_lt_mul_of_pos_right exponents f.normal_pos)

theorem nearest_lt (proper : f.Proper) (less : a < b) (small : b ≤ 2 ^ f.precision)
    (room : f.unitPower + 4 < 2 ^ f.exponentBits) : f.nearest a 1 < f.nearest b 1 := by
  have bits : Nat.log2 b ≤ f.precision := by
    rw [← Nat.log2_two_pow (n := f.precision), Nat.log2_eq_log_two, Nat.log2_eq_log_two]
    exact Nat.log_mono_right small
  have log := f.log2_units (n := b) (by omega)
  have finite : f.place (b * f.one) < f.infinity := by
    refine place_lt_infinity proper ?_
    rw [surplus, log]
    omega
  have strict : f.place (a * f.one) < f.place (b * f.one) :=
    place_lt proper (Nat.mul_lt_mul_of_pos_right less (Nat.two_pow_pos _))
      (surplus_dvd proper (by omega)) (surplus_dvd proper small)
  rw [nearest_one, nearest_one]
  omega

end Format

namespace Float

open Format (Proper)

variable {f : Format} {m n : Int}

section

variable (proper : f.Proper)

include proper

theorem toNat_bits_ofMagnitude (negative : Bool) {magnitude : Nat}
    (small : magnitude < 2 ^ (f.width - 1)) :
    (ofMagnitude negative magnitude : Float f).bits.toNat =
      magnitude + if negative then 2 ^ (f.width - 1) else 0 := by
  have split : f.width = f.width - 1 + 1 := by
    have := proper.precision
    unfold Format.width
    omega
  have double : 2 ^ f.width = 2 ^ (f.width - 1) + 2 ^ (f.width - 1) := by
    rw [split, pow_succ, Nat.add_sub_cancel]
    omega
  have sign : Nat.pow 2 (f.width - 1) = 2 ^ (f.width - 1) := rfl
  rw [ofMagnitude, BitVec.toNat_ofNat, sign]
  apply Nat.mod_eq_of_lt
  split <;> omega

theorem negative_ofMagnitude (negative : Bool) {magnitude : Nat}
    (small : magnitude < 2 ^ (f.width - 1)) :
    (ofMagnitude negative magnitude : Float f).negative = negative := by
  rw [Float.negative, BitVec.msb_eq_decide, toNat_bits_ofMagnitude proper negative small]
  cases negative <;> simp [small]

theorem magnitude_ofMagnitude (negative : Bool) {magnitude : Nat}
    (small : magnitude < 2 ^ (f.width - 1)) :
    (ofMagnitude negative magnitude : Float f).magnitude = magnitude := by
  have sign : Nat.pow 2 (f.width - 1) = 2 ^ (f.width - 1) := rfl
  rw [Float.magnitude, toNat_bits_ofMagnitude proper negative small, sign]
  cases negative <;> simp [Nat.mod_eq_of_lt small]

theorem nearest_lt_two_pow (num den : Nat) : f.nearest num den < 2 ^ (f.width - 1) :=
  lt_of_le_of_lt (f.nearest_le num den) (Format.infinity_lt proper)

theorem isNaN_ofRatio (negative : Bool) (num den : Nat) :
    (ofRatio negative num den : Float f).isNaN = false := by
  rw [isNaN, ofRatio, magnitude_ofMagnitude proper _ (nearest_lt_two_pow proper _ _)]
  simpa using f.nearest_le _ _

theorem isNaN_ofInt (n : Int) : (ofInt n : Float f).isNaN = false :=
  isNaN_ofRatio proper _ _ _

theorem key_ofInt (n : Int) : (ofInt n : Float f).key =
    if n < 0 then -(f.nearest n.natAbs 1 : Int) else f.nearest n.natAbs 1 := by
  rw [key, ofInt, ofRatio, magnitude_ofMagnitude proper _ (nearest_lt_two_pow proper _ _),
    negative_ofMagnitude proper _ (nearest_lt_two_pow proper _ _)]
  simp only [decide_eq_true_eq]

theorem key_ofInt_mono (le : m ≤ n) : (ofInt m : Float f).key ≤ (ofInt n : Float f).key := by
  rw [key_ofInt proper, key_ofInt proper]
  split
  · split
    · have := Format.nearest_mono proper (show n.natAbs ≤ m.natAbs by omega)
      omega
    · omega
  · have := Format.nearest_mono proper (show m.natAbs ≤ n.natAbs by omega)
    split <;> omega

theorem key_ofInt_inj : (ofInt m : Float f).key = (ofInt n : Float f).key ↔
    (m < 0 ↔ n < 0) ∧ f.nearest m.natAbs 1 = f.nearest n.natAbs 1 := by
  have positive {k : Int} (negative : k < 0) : 0 < f.nearest k.natAbs 1 :=
    Format.nearest_pos proper (by omega)
  rw [key_ofInt proper, key_ofInt proper]
  by_cases left : m < 0
  · by_cases right : n < 0
    · simp [left, right]
    · have := positive left
      simp only [left, right, if_true, if_false, iff_false, not_true, false_and]
      omega
  · by_cases right : n < 0
    · have := positive right
      simp only [left, right, if_true, if_false, iff_true, false_and, iff_false]
      omega
    · simp [left, right]

theorem ofInt_eq_of_key (same : (ofInt m : Float f).key = (ofInt n : Float f).key) :
    (ofInt m : Float f) = ofInt n := by
  obtain ⟨signs, magnitudes⟩ := (key_ofInt_inj proper).1 same
  simp only [ofInt, ofRatio, magnitudes, signs]

/-- Whole numbers compare as they do exactly, unless one number is nearest to both. -/
theorem compare?_ofInt (m n : Int) : (ofInt m : Float f).compare? (ofInt n) =
    some (if (ofInt m : Float f) = ofInt n then .eq else compare m n) := by
  rw [compare?, isNaN_ofInt proper, isNaN_ofInt proper]
  simp only [Bool.or_self, Bool.false_eq_true, if_false, Option.some.injEq]
  split
  · next same => rw [same, compare_eq_iff_eq]
  · next differ =>
    have apart : (ofInt m : Float f).key ≠ (ofInt n : Float f).key :=
      fun same => differ (ofInt_eq_of_key proper same)
    rcases lt_trichotomy m n with less | rfl | greater
    · have := key_ofInt_mono proper (le_of_lt less)
      rw [compare_lt_iff_lt.2 less, compare_lt_iff_lt]
      omega
    · exact absurd rfl differ
    · have := key_ofInt_mono proper (le_of_lt greater)
      rw [compare_gt_iff_gt.2 greater, compare_gt_iff_gt]
      omega

theorem ofInt_injOn (room : f.unitPower + 4 < 2 ^ f.exponentBits)
    (smallLeft : m.natAbs ≤ 2 ^ f.precision) (smallRight : n.natAbs ≤ 2 ^ f.precision)
    (same : (ofInt m : Float f) = ofInt n) : m = n := by
  obtain ⟨signs, magnitudes⟩ := (key_ofInt_inj proper).1 (congrArg key same)
  have equal : m.natAbs = n.natAbs := by
    rcases lt_trichotomy m.natAbs n.natAbs with less | equal | greater
    · exact absurd magnitudes (Format.nearest_lt proper less smallRight room).ne
    · exact equal
    · exact absurd magnitudes (Format.nearest_lt proper greater smallLeft room).ne'
  omega

end

end Float

end Colloquy.Number
