import Colloquy.Condition.Basic
import Colloquy.Proofs.Number.Order

/-!
The laws of comparisons. What two values of any kinds have is an order, or only sameness, or
neither; and it is the same from either side. All comparisons are read off that:
`Value.compare?_lawful`.
-/

set_option autoImplicit false

namespace Colloquy

namespace Comparison

/-- The comparison that says of two operands what this one says of them in the other order. -/
def mirrored : Comparison → Comparison
  | equal => equal
  | unequal => unequal
  | greater => less
  | greaterEqual => lessEqual
  | less => greater
  | lessEqual => greaterEqual

theorem holds_mirrored (op : Comparison) (order : Ordering) :
    op.mirrored.holds order.swap = op.holds order := by
  cases op <;> cases order <;> rfl

theorem isEquality_mirrored (op : Comparison) : op.mirrored.isEquality = op.isEquality := by
  cases op <;> rfl

theorem mirrored_unequal (op : Comparison) : (op.mirrored == unequal) = (op == unequal) := by
  cases op <;> rfl

end Comparison

namespace Value

open Number (Double Float Format)

def isNaN : Value → Bool
  | .real x => x.isNaN
  | _ => false

variable {s : String} {l r v : Value} {order : Ordering}

/-! ## The order of two values -/

theorem realOrder?_swap (l r : Value) :
    realOrder? r l = (realOrder? l r).map Ordering.swap := by
  unfold realOrder?
  cases l.toReal? <;> cases r.toReal?
  case some.some x y => exact Float.compare?_swap x y
  all_goals rfl

theorem compare_swapped {α : Type} [Ord α] [Std.OrientedOrd α] (a b : α) :
    some (compare b a) = (some (compare a b)).map Ordering.swap :=
  congrArg some Std.OrientedOrd.eq_swap

theorem spelledOrder?_swap (s : String) (v : Value) :
    (spelled? s).bind (realOrder? v ·) =
      ((spelled? s).bind (realOrder? · v)).map Ordering.swap := by
  simp only [Option.map_bind, Function.comp_def, ← realOrder?_swap]

theorem orderSpelled?_swap (v : Value) (s : String) :
    (spelled? s).bind (realOrder? · v) =
      ((spelled? s).bind (realOrder? v ·)).map Ordering.swap := by
  simp only [Option.map_bind, Function.comp_def, ← realOrder?_swap]

/-- Two values have an order from both sides, one the reverse of the other, or from none. -/
theorem order?_swap (equality : Bool) (l r : Value) :
    order? equality r l = (order? equality l r).map Ordering.swap := by
  cases l <;> cases r
  case integer.integer m n => exact compare_swapped m.toInt n.toInt
  case text.text s t => exact compare_swapped s t
  case integer.real m x => exact realOrder?_swap (.integer m) (.real x)
  case real.integer x n => exact realOrder?_swap (.real x) (.integer n)
  case real.real x y => exact realOrder?_swap (.real x) (.real y)
  case text.integer s n => exact spelledOrder?_swap s (.integer n)
  case text.real s x => exact spelledOrder?_swap s (.real x)
  case integer.text n s => exact orderSpelled?_swap (.integer n) s
  case real.text x s => exact orderSpelled?_swap (.real x) s
  case truth.truth a b =>
    cases equality with
    | false => rfl
    | true => exact compare_swapped a b
  case text.truth s b =>
    cases equality with
    | false => rfl
    | true =>
      change (truth? s).map (compare b ·) = ((truth? s).map (compare · b)).map Ordering.swap
      cases truth? s with
      | none => rfl
      | some spelled => exact compare_swapped spelled b
  case truth.text b s =>
    cases equality with
    | false => rfl
    | true =>
      change (truth? s).map (compare · b) = ((truth? s).map (compare b ·)).map Ordering.swap
      cases truth? s with
      | none => rfl
      | some spelled => exact compare_swapped b spelled
  case null.null => cases equality <;> rfl
  -- Other kinds have no order, whichever comes first.
  all_goals rfl

theorem order?_of_ordered (ordered : order? false l r = some order) (equality : Bool) :
    order? equality l r = some order := by
  cases equality with
  | false => exact ordered
  | true =>
    cases l <;> cases r
    case truth.truth | text.truth | truth.text | null.null => cases ordered
    all_goals exact ordered

/-! ## Numbers -/

theorem isSome_realOrder? (left : l.isNumeric = true) (right : r.isNumeric = true)
    (leftIs : l.isNaN = false) (rightIs : r.isNaN = false) : (realOrder? l r).isSome := by
  have real (v : Value) (numeric : v.isNumeric = true) (isNumber : v.isNaN = false) :
      ∃ x : Double, v.toReal? = some x ∧ x.isNaN = false := by
    cases v with
    | integer n => exact ⟨_, rfl, Float.isNaN_ofInt Format.proper_double _⟩
    | real x => exact ⟨x, rfl, isNumber⟩
    | text | truth | null => cases numeric
  obtain ⟨x, first, notNaN⟩ := real l left leftIs
  obtain ⟨y, second, notNaN'⟩ := real r right rightIs
  rw [realOrder?, first, second]
  exact Float.isSome_compare? notNaN notNaN'

theorem isSome_order?_of_numeric (left : l.isNumeric = true) (right : r.isNumeric = true)
    (leftIs : l.isNaN = false) (rightIs : r.isNaN = false) (equality : Bool) :
    (order? equality l r).isSome := by
  have known := isSome_realOrder? left right leftIs rightIs
  cases l <;> cases r
  case integer.integer => rfl
  case integer.real | real.integer | real.real => exact known
  all_goals simp [isNumeric] at left right

/-! ## The outcome of a comparison -/

theorem compare?_mirrored (op : Comparison) (l r : Value) :
    compare? op.mirrored r l = compare? op l r := by
  rw [compare?, compare?, op.isEquality_mirrored, op.mirrored_unequal, order?_swap,
    Bool.and_comm r.isNumeric]
  cases order? op.isEquality l r with
  | none => rfl
  | some order => exact congrArg some (op.holds_mirrored order)

theorem compare?_unequal (l r : Value) :
    compare? .unequal l r = (compare? .equal l r).map (!·) := by
  simp only [compare?, Comparison.isEquality]
  cases order? true l r <;> rfl

theorem isSome_compare?_equal (l r : Value) : (compare? .equal l r).isSome := by
  unfold compare?
  split <;> rfl

/-- A comparison that asks for order has an outcome if there is an order, and beside what is no
number. -/
theorem isSome_compare?_iff {op : Comparison} (asks : op.isEquality = false) :
    (compare? op l r).isSome ↔
      (order? false l r).isSome ∨ l.isNumeric = true ∧ r.isNumeric = true := by
  rw [compare?, asks]
  cases order? false l r with
  | some order => simp
  | none => cases l.isNumeric <;> cases r.isNumeric <;> simp

theorem compare?_real (op : Comparison) (x y : Double) : compare? op (.real x) (.real y) =
    some (if x.isNaN || y.isNaN then op == .unequal else op.holds (compare x.count y.count)) := by
  have order : order? op.isEquality (.real x) (.real y) = x.compare? y := rfl
  rw [compare?, order, Float.compare?_eq]
  cases x.isNaN || y.isNaN with
  | true => cases op <;> rfl
  | false => rfl

/-- All comparisons of two values are read off one order. -/
theorem exists_order (ordered : (compare? .less l r).isSome) (left : l.isNaN = false)
    (right : r.isNaN = false) :
    ∃ order : Ordering, ∀ op, compare? op l r = some (op.holds order) := by
  have known : (order? false l r).isSome := by
    rcases (isSome_compare?_iff rfl).1 ordered with known | ⟨numeric, numeric'⟩
    · exact known
    · exact isSome_order?_of_numeric numeric numeric' left right false
  obtain ⟨order, found⟩ := Option.isSome_iff_exists.1 known
  refine ⟨order, fun op => ?_⟩
  rw [compare?, order?_of_ordered found]

/-- Just one of less, equal and greater holds, and the two others are the opposites of greater and
of less. -/
def Trichotomous (l r : Value) : Prop :=
  ∃ less equal greater, compare? .less l r = some less ∧ compare? .equal l r = some equal ∧
    compare? .greater l r = some greater ∧ [less, equal, greater].count true = 1 ∧
    compare? .lessEqual l r = some (!greater) ∧ compare? .greaterEqual l r = some (!less)

theorem Trichotomous.of_order (order : Ordering)
    (outcome : ∀ op, compare? op l r = some (op.holds order)) : Trichotomous l r := by
  refine ⟨_, _, _, outcome .less, outcome .equal, outcome .greater, ?_, ?_, ?_⟩
  · cases order <;> rfl
  · rw [outcome]
    cases order <;> rfl
  · rw [outcome]
    cases order <;> rfl

/-- A comparison of filled operands fails just where their values have no order, and floating point
numbers have that of what they stand for. Sameness always has an answer, and difference is its
opposite; of the four other comparisons all have an answer or none; operands in the other order are
told apart alike by the mirrored comparison; and what is in order, and not no number, is less, equal
or greater. -/
theorem compare?_lawful (l r : Value) :
    (∀ (op : Comparison) (slots : Slots) (x y : Operand),
      x.value? slots = some l → y.value? slots = some r →
        (Condition.compare op x y).eval slots =
          (compare? op l r).elim (.error (.incomparable op l r)) .ok) ∧
    (∀ (op : Comparison) (x y : Double), compare? op (.real x) (.real y) =
      some (if x.isNaN || y.isNaN then op == .unequal
        else op.holds (compare x.count y.count))) ∧
    (∃ same, compare? .equal l r = some same ∧ compare? .unequal l r = some (!same)) ∧
    ((∀ op : Comparison, op.isEquality = false → compare? op l r = none) ∨
      ∀ op : Comparison, op.isEquality = false → (compare? op l r).isSome) ∧
    (∀ op : Comparison, compare? op.mirrored r l = compare? op l r) ∧
    ((compare? .less l r).isSome → l.isNaN = false → r.isNaN = false → Trichotomous l r) := by
  refine ⟨?_, compare?_real, ?_, ?_, (compare?_mirrored · l r), ?_⟩
  · intro op slots x y left right
    simp only [Condition.eval, left, right]
    cases compare? op l r <;> rfl
  · obtain ⟨same, found⟩ := Option.isSome_iff_exists.1 (isSome_compare?_equal l r)
    exact ⟨same, found, by rw [compare?_unequal, found, Option.map_some]⟩
  · by_cases ordered : (order? false l r).isSome ∨ l.isNumeric = true ∧ r.isNumeric = true
    · exact .inr fun op asks => (isSome_compare?_iff asks).2 ordered
    · exact .inl fun op asks => Option.not_isSome_iff_eq_none.1 fun known =>
        ordered ((isSome_compare?_iff asks).1 known)
  · intro ordered left right
    obtain ⟨order, outcome⟩ := exists_order ordered left right
    exact .of_order order outcome

theorem compare?_lawful_padded :
    (Condition.compare .less (.slot "amount") (.literal (.real (.ofRatio false 5 2)))).eval
        (Table.empty.insert "amount" (.text " 10 ")) = .ok false ∧
      Trichotomous (.text " 10 ") (.real (.ofRatio false 5 2)) := by
  have outcome : compare? .less (.text " 10 ") (.real (.ofRatio false 5 2)) = some false := by
    decide +kernel
  have lawful := compare?_lawful (.text " 10 ") (.real (.ofRatio false 5 2))
  refine ⟨?_, lawful.2.2.2.2.2 (by rw [outcome]; rfl) rfl (by decide +kernel)⟩
  rw [lawful.1 .less _ (.slot "amount") (.literal (.real (.ofRatio false 5 2)))
    (Table.get?_insert_self ..) rfl, outcome]
  rfl

end Value

end Colloquy
