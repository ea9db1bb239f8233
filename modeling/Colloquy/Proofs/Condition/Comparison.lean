import Colloquy.Condition.Comparison
import Colloquy.Proofs.Number.Rounding

/-!
Comparing a text with a whole number. The text counts as the number it spells, but the two are
compared as floating point numbers, where whole numbers are compared as they are.
-/

set_option autoImplicit false

namespace Colloquy.Value

open Number (Double Float Format)

def near (n : Int64) : Double := .ofInt n.toInt

theorem realOrder?_integer (m n : Int64) : realOrder? (.integer m) (.integer n) =
    some (if near m = near n then .eq else compare m.toInt n.toInt) :=
  Float.compare?_ofInt Format.proper_double m.toInt n.toInt

theorem near_injOn {m n : Int64} (left : m.toInt.natAbs ≤ 2 ^ 53) (right : n.toInt.natAbs ≤ 2 ^ 53)
    (same : near m = near n) : m = n :=
  Int64.toInt_inj.1 (Float.ofInt_injOn Format.proper_double (by decide) left right same)

theorem spelled?_of_infer {s : String} {m : Int64} (spells : infer s = .integer m) :
    spelled? s = some (.integer m) := by
  unfold infer at spells
  dsimp only at spells
  split at spells
  · next number found => exact found.trans (congrArg some spells)
  · split at spells <;> cases spells

variable {s : String} {m n : Int64} {op : Comparison} {left right : Value} {order : Ordering}

theorem order?_text_integer (spells : infer s = .integer m) (n : Int64) (equality : Bool) :
    order? equality (.text s) (.integer n) =
      some (if near m = near n then .eq else compare m.toInt n.toInt) := by
  change (spelled? s).bind (realOrder? · (.integer n)) = _
  rw [spelled?_of_infer spells, Option.bind_some, realOrder?_integer]

theorem order?_integer_text (spells : infer s = .integer m) (n : Int64) (equality : Bool) :
    order? equality (.integer n) (.text s) =
      some (if near n = near m then .eq else compare n.toInt m.toInt) := by
  change (spelled? s).bind (realOrder? (.integer n) ·) = _
  rw [spelled?_of_infer spells, Option.bind_some, realOrder?_integer]

theorem compare?_of_order (known : order? op.isEquality left right = some order) :
    compare? op left right = some (op.holds order) := by
  rw [compare?, known]

theorem compare?_integer (op : Comparison) (m n : Int64) :
    compare? op (.integer m) (.integer n) = some (op.holds (compare m.toInt n.toInt)) :=
  compare?_of_order rfl

theorem holds_ite_iff {p : Prop} [Decidable p] :
    some (op.holds (if p then .eq else order)) = some (op.holds order) ↔
      (p → op.holds .eq = op.holds order) := by
  by_cases h : p <;> simp [h]

/-- A text that spells a whole number compares with another as that number does, which is exact,
unless one floating point number is nearest to both and the comparison can tell them apart. -/
theorem compare?_spelled_iff (spells : infer s = .integer m) (n : Int64) (op : Comparison) :
    compare? op (.integer m) (.integer n) = some (op.holds (compare m.toInt n.toInt)) ∧
    (compare? op (.text s) (.integer n) = compare? op (.integer m) (.integer n) ↔
      (near m = near n → op.holds .eq = op.holds (compare m.toInt n.toInt))) ∧
    (compare? op (.integer n) (.text s) = compare? op (.integer n) (.integer m) ↔
      (near n = near m → op.holds .eq = op.holds (compare n.toInt m.toInt))) ∧
    (m.toInt.natAbs ≤ 2 ^ 53 → n.toInt.natAbs ≤ 2 ^ 53 → near m = near n → m = n) := by
  refine ⟨rfl, ?_, ?_, near_injOn⟩
  · rw [compare?_of_order (order?_text_integer spells n _), compare?_integer]
    exact holds_ite_iff
  · rw [compare?_of_order (order?_integer_text spells n _), compare?_integer]
    exact holds_ite_iff

theorem compare?_spelled_iff_padded :
    infer " +9007199254740993 " = .integer 9007199254740993 ∧
      (compare? .less (.text " +9007199254740993 ") (.integer 9007199254740995) =
        compare? .less (.integer 9007199254740993) (.integer 9007199254740995)) := by
  have spells : infer " +9007199254740993 " = .integer 9007199254740993 := by decide +kernel
  refine ⟨spells, (compare?_spelled_iff spells 9007199254740995 .less).2.1.2 ?_⟩
  intro same
  revert same
  decide +kernel

/-- A text that spells one more than the number it is compared with is taken to be equal to it. -/
theorem spelled_successor_equal :
    infer "9007199254740993" = .integer 9007199254740993 ∧
      compare? .equal (.text "9007199254740993") (.integer 9007199254740992) = some true ∧
      compare? .equal (.integer 9007199254740993) (.integer 9007199254740992) = some false := by
  refine ⟨?_, ?_, ?_⟩ <;> decide +kernel

end Colloquy.Value
