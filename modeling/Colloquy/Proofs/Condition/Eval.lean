import Colloquy.Condition.Parser

/-! How the evaluation of a condition may fail, and what it depends on. -/

set_option autoImplicit false

namespace Colloquy

def ConditionError.IsClash (e : ConditionError) : Prop :=
  ∃ op left right, e = .incomparable op left right

def Condition.comparisons : Condition → List (Comparison × Operand × Operand)
  | operand _ => []
  | compare op left right => [(op, left, right)]
  | not c => c.comparisons
  | and left right | or left right => left.comparisons ++ right.comparisons

/-- The error says that a comparison of the condition has two filled operands without an order. -/
def Condition.Clashes (c : Condition) (slots : Slots) (e : ConditionError) : Prop :=
  ∃ op x y l r, (op, x, y) ∈ c.comparisons ∧ x.value? slots = some l ∧ y.value? slots = some r ∧
    Value.compare? op l r = none ∧ e = .incomparable op l r

theorem Condition.Clashes.mono {c d : Condition} {slots : Slots} {e : ConditionError}
    (clashes : c.Clashes slots e) (part : c.comparisons ⊆ d.comparisons) : d.Clashes slots e := by
  obtain ⟨op, x, y, l, r, member, known⟩ := clashes
  exact ⟨op, x, y, l, r, part member, known⟩

theorem Condition.clashes_of_eval {slots : Slots} {c : Condition} {e : ConditionError}
    (fails : c.eval slots = .error e) : c.Clashes slots e := by
  induction c with
  | operand x => cases fails
  | compare op left right =>
    unfold eval at fails
    split at fails
    · next l r first second =>
      split at fails
      · cases fails
      · next clash =>
        cases fails
        exact ⟨op, left, right, l, r, List.mem_singleton_self _, first, second, clash, rfl⟩
    · cases fails
  | not c ih =>
    unfold eval at fails
    cases inner : c.eval slots with
    | ok b => simp [inner, Except.map] at fails
    | error e' =>
      simp only [inner, Except.map, Except.error.injEq] at fails
      exact (ih (inner.trans (congrArg _ fails))).mono (List.Subset.refl _)
  | and left right left_ih right_ih | or left right left_ih right_ih =>
    unfold eval at fails
    split at fails
    · exact (right_ih fails).mono (List.subset_append_right _ _)
    · exact (left_ih fails).mono (List.subset_append_left _ _)

theorem Condition.isClash_of_eval {slots : Slots} {c : Condition} {e : ConditionError}
    (fails : c.eval slots = .error e) : e.IsClash := by
  obtain ⟨op, x, y, l, r, -, -, -, -, same⟩ := clashes_of_eval fails
  exact ⟨op, l, r, same⟩

theorem Operand.value?_congr {x : Operand} {slots slots' : Slots}
    (same : ∀ name ∈ x.slotNames, slots.get? name = slots'.get? name) :
    x.value? slots = x.value? slots' := by
  cases x with
  | literal value => rfl
  | slot name => exact same name (List.mem_singleton_self name)

/-- Only the slots that a condition reads matter to it. -/
theorem Condition.eval_congr {c : Condition} {slots slots' : Slots}
    (same : ∀ name ∈ c.slotNames, slots.get? name = slots'.get? name) :
    c.eval slots = c.eval slots' := by
  induction c with
  | operand x => simp only [eval, Operand.value?_congr same]
  | compare op left right =>
    obtain ⟨onLeft, onRight⟩ := List.forall_mem_append.1 same
    simp only [eval, Operand.value?_congr onLeft, Operand.value?_congr onRight]
  | not c ih => simp only [eval, ih same]
  | and left right left_ih right_ih | or left right left_ih right_ih =>
    obtain ⟨onLeft, onRight⟩ := List.forall_mem_append.1 same
    simp only [eval, left_ih onLeft, right_ih onRight]

/-- A condition has the same outcome wherever the slots that it names are filled alike. Its only
error is that two filled operands of one of its comparisons have no order; so that there is none
where in every comparison a slot is not filled. -/
theorem Condition.eval_determined (c : Condition) (slots : Slots) :
    (∀ slots' : Slots, (∀ name ∈ c.slotNames, slots.get? name = slots'.get? name) →
      c.eval slots = c.eval slots') ∧
    (∀ e, c.eval slots = .error e → c.Clashes slots e) ∧
    ((∀ op x y, (op, x, y) ∈ c.comparisons →
        ∃ name, slots.get? name = none ∧ (x = .slot name ∨ y = .slot name)) →
      ∃ b, c.eval slots = .ok b) := by
  refine ⟨fun slots' => eval_congr, fun e => clashes_of_eval, fun unfilled => ?_⟩
  cases outcome : c.eval slots with
  | ok b => exact ⟨b, rfl⟩
  | error e =>
    obtain ⟨op, x, y, l, r, member, first, second, -⟩ := clashes_of_eval outcome
    obtain ⟨name, absent, rfl | rfl⟩ := unfilled op x y member
    · cases absent.symm.trans first
    · cases absent.symm.trans second

def Condition.affordable : Condition :=
  .or (.not (.compare .greater (.slot "amount") (.literal (.integer 100))))
    (.operand (.slot "paid"))

theorem Condition.eval_determined_affordable :
    affordable.eval (Table.empty.insert "note" .null) = affordable.eval Table.empty ∧
      affordable.Clashes (Table.empty.insert "amount" (.truth true))
        (.incomparable .greater (.truth true) (.integer 100)) ∧
      ∃ b, affordable.eval Table.empty = .ok b := by
  refine ⟨(eval_determined affordable _).1 _ ?_, (eval_determined affordable _).2.1 _ rfl,
    (eval_determined affordable _).2.2 ?_⟩
  · simp [affordable, slotNames, Operand.slotNames, Table.get?_insert]
  · intro op x y member
    cases List.mem_singleton.1 member
    exact ⟨"amount", rfl, .inl rfl⟩

theorem Predicate.isClash_of_eval {slots : Slots} {p : Predicate} {e : ConditionError}
    (fails : p.eval slots = .error e) : e.IsClash :=
  Condition.isClash_of_eval fails

end Colloquy
