import Mathlib.Data.List.Basic
import Colloquy.Json.Reader

/-!
Numbers in text. Every number that is printed obeys the grammar of numbers, and what obeys it is
read back digit by digit.
-/

set_option autoImplicit false

namespace Colloquy

namespace Number

theorem digits_ne_nil (n : Nat) : digits n ≠ [] := Nat.toDigits_ne_nil

theorem digits_zero : digits 0 = ['0'] := Nat.toDigits_zero 10

theorem eq_zero_of_head_digits {n : Nat} (zero : (digits n).head? = some '0') : n = 0 := by
  induction n using Nat.strongRecOn with
  | _ n ih =>
    by_cases small : n < 10
    · rw [digits, Nat.toDigits_of_lt_base small] at zero
      have char : n.digitChar = '0' := Option.some.inj zero
      clear ih zero
      decide +revert
    · have split : digits n = digits (n / 10) ++ [(n % 10).digitChar] :=
        Nat.toDigits_of_base_le (by decide) (by omega)
      rw [split, List.head?_append_of_ne_nil _ (digits_ne_nil _)] at zero
      have := ih (n / 10) (by omega) zero
      omega

def Decimal.Trimmed (d : Decimal) : Prop := d.significand = 0 → d.exponent = 0

namespace Interval

theorem pos_of_onGrid? {i : Interval} {quarters significand : Nat} {tie : Tie} {exponent : Int}
    (found : i.onGrid? quarters tie exponent = some significand) : 0 < significand := by
  unfold onGrid? at found
  grind

theorem trimmed_search (i : Interval) (quarters : Nat) (tie : Tie) (tries : Nat) (exponent : Int) :
    (i.search quarters tie tries exponent).Trimmed := by
  induction tries generalizing exponent with
  | zero => exact fun _ => rfl
  | succ tries ih =>
    unfold search
    split
    · next significand found =>
      have positive := pos_of_onGrid? found
      exact fun (zero : significand = 0) => absurd zero (Nat.ne_of_gt positive)
    · exact ih (exponent - 1)

end Interval

theorem trimmed_shortest (f : Format) (tie : Tie) (magnitude : Nat) :
    (shortest f tie magnitude).Trimmed := by
  unfold shortest
  split
  · exact fun _ => rfl
  · exact Interval.trimmed_search (.ofMagnitude f magnitude) _ tie _ _

end Number

namespace Json

def Digits (cs : List Char) : Prop := cs ≠ [] ∧ ∀ c ∈ cs, c.isDigit = true

theorem digits_digits (n : Nat) : Digits (Number.digits n) :=
  ⟨Number.digits_ne_nil n, fun _ => Number.isDigit_of_mem_digits⟩

namespace Digits

variable {cs : List Char}

theorem append {more : List Char} (digits : Digits cs) (others : ∀ c ∈ more, c.isDigit = true) :
    Digits (cs ++ more) :=
  ⟨by simp [digits.1], List.forall_mem_append.2 ⟨digits.2, others⟩⟩

theorem after {others : List Char} (digits : Digits cs) (before : ∀ c ∈ others, c.isDigit = true) :
    Digits (others ++ cs) :=
  ⟨by simp [digits.1], List.forall_mem_append.2 ⟨before, digits.2⟩⟩

theorem take {n : Nat} (digits : Digits cs) (some : 0 < n) : Digits (cs.take n) :=
  ⟨by simp [digits.1, Nat.ne_of_gt some], fun c member => digits.2 c (List.mem_of_mem_take member)⟩

theorem drop {n : Nat} (digits : Digits cs) (more : n < cs.length) : Digits (cs.drop n) :=
  ⟨by simp [more], fun c member => digits.2 c (List.mem_of_mem_drop member)⟩

end Digits

theorem digits_zeros (n : Nat) : ∀ c ∈ List.replicate n '0', c.isDigit = true :=
  fun _ member => List.eq_of_mem_replicate member ▸ rfl

/-- The grammar of numbers. -/
structure Numeral.WellFormed (n : Numeral) : Prop where
  whole : Digits n.whole
  trimmed : n.whole.head? = some '0' → n.whole = ['0']
  fraction : ∀ digits ∈ n.fraction, Digits digits
  exponent : ∀ power ∈ n.exponent, Digits power.2

namespace Numeral

theorem wellFormed_ofInt (n : Int) : (ofInt n).WellFormed where
  whole := digits_digits _
  trimmed zero := by
    have : n.natAbs = 0 := Number.eq_zero_of_head_digits zero
    simp [ofInt, this, Number.digits_zero]
  fraction := nofun
  exponent := nofun

theorem wellFormed_ofDecimal (span : Span) (negative : Bool) {d : Number.Decimal}
    (trimmed : d.Trimmed) : (ofDecimal span negative d).WellFormed := by
  have digits := digits_digits d.significand
  have long := List.length_pos_iff.2 digits.1
  have scale : d.scale = (Number.digits d.significand).length + d.exponent := rfl
  -- Only zero has a leading zero, and zero is written as it stands.
  have zero (leading : (Number.digits d.significand).head? = some '0') :
      Number.digits d.significand = ['0'] ∧ d.exponent = 0 := by
    have zero := Number.eq_zero_of_head_digits leading
    exact ⟨by rw [zero, Number.digits_zero], trimmed zero⟩
  simp only [ofDecimal]
  split
  · refine ⟨digits.append (digits_zeros _), fun leading => ?_, ?_, nofun⟩
    · rw [List.head?_append_of_ne_nil _ digits.1] at leading
      obtain ⟨whole, exponent⟩ := zero leading
      simp [whole, exponent]
    · rintro _ ⟨⟩
      exact digits_digits 0
  · split
    · refine ⟨digits.take (by omega), fun leading => ?_, ?_, nofun⟩
      · rw [List.head?_take, if_neg (by omega)] at leading
        have := (zero leading).2
        omega
      · rintro _ ⟨⟩
        exact digits.drop (by omega)
    · split
      · refine ⟨digits_digits 0, fun _ => rfl, ?_, nofun⟩
        rintro _ ⟨⟩
        exact digits.after (digits_zeros _)
      · refine ⟨digits.take (by omega), fun leading => ?_, ?_, ?_⟩
        · rw [List.head?_take, if_neg (by omega)] at leading
          simp only [(zero leading).1]
          rfl
        · intro fraction member
          split at member
          · cases member
          · cases member
            exact digits.drop (by omega)
        · rintro _ ⟨⟩
          exact digits_digits _

theorem wellFormed_ofFloat {f : Number.Format} (span : Span) (x : Number.Float f) :
    (ofFloat span x).WellFormed :=
  wellFormed_ofDecimal span x.negative (Number.trimmed_shortest f .even x.magnitude)

end Numeral

/-! Reading -/

def Ends (rest : List Char) : Prop :=
  ∀ c ∈ rest.head?, c.isDigit = false ∧ c ≠ '.' ∧ c ≠ 'e' ∧ c ≠ 'E'

theorem digits?_append {cs rest : List Char} (digits : Digits cs)
    (ends : ∀ c ∈ rest.head?, c.isDigit = false) : digits? (cs ++ rest) = some (cs, rest) := by
  have none : rest.takeWhile Char.isDigit = [] ∧ rest.dropWhile Char.isDigit = rest := by
    cases rest with
    | nil => exact ⟨rfl, rfl⟩
    | cons c rest => simp [ends c rfl]
  simp only [digits?, List.takeWhile_append_of_pos digits.2, List.dropWhile_append_of_pos digits.2,
    none, List.append_nil]
  exact if_neg (by simp [digits.1])

theorem fraction?_text {fraction : Option (List Char)} {rest : List Char}
    (wellFormed : ∀ digits ∈ fraction, Digits digits)
    (ends : ∀ c ∈ rest.head?, c.isDigit = false ∧ c ≠ '.') :
    fraction? (Numeral.fractionText fraction ++ rest) = some (fraction, rest) := by
  cases fraction with
  | none =>
    change fraction? rest = _
    unfold fraction?
    split
    · exact absurd rfl (ends _ rfl).2
    · rfl
  | some digits =>
    change (digits? (digits ++ rest)).map _ = _
    rw [digits?_append (wellFormed digits rfl) fun c first => (ends c first).1]
    rfl

theorem exponent?_text {exponent : Option (Bool × List Char)} {rest : List Char}
    (wellFormed : ∀ power ∈ exponent, Digits power.2) (ends : Ends rest) :
    exponent? (Numeral.exponentText exponent ++ rest) = some (exponent, rest) := by
  rcases exponent with _ | ⟨negative, digits⟩
  · change exponent? rest = _
    cases rest with
    | nil => rfl
    | cons c rest =>
      obtain ⟨-, -, small, capital⟩ := ends c rfl
      exact if_neg (by simp [small, capital])
  · have grammar : Digits digits := wellFormed (negative, digits) rfl
    have read := digits?_append grammar fun c first => (ends c first).1
    cases negative with
    | true =>
      change (digits? (digits ++ rest)).map _ = _
      rw [read]
      rfl
    | false =>
      obtain ⟨c, more, rfl⟩ := List.exists_cons_of_ne_nil grammar.1
      have unsigned : c ≠ '-' ∧ c ≠ '+' := by
        have := grammar.2 c List.mem_cons_self
        constructor <;> rintro rfl <;> cases this
      rw [List.cons_append] at read
      simp [Numeral.exponentText, exponent?, unsigned, read]

theorem numeral?_text {n : Numeral} {rest : List Char} (wellFormed : n.WellFormed)
    (ends : Ends rest) :
    numeral? n.negative (n.whole ++ (Numeral.fractionText n.fraction ++
      (Numeral.exponentText n.exponent ++ rest))) = some (n, rest) := by
  have afterFraction : ∀ c ∈ (Numeral.exponentText n.exponent ++ rest).head?,
      c.isDigit = false ∧ c ≠ '.' := by
    intro c first
    cases power : n.exponent with
    | none =>
      rw [power] at first
      exact ⟨(ends c first).1, (ends c first).2.1⟩
    | some =>
      rw [power] at first
      cases first
      decide
  have afterWhole : ∀ c ∈ (Numeral.fractionText n.fraction ++
      (Numeral.exponentText n.exponent ++ rest)).head?, c.isDigit = false := by
    intro c first
    cases point : n.fraction with
    | none =>
      rw [point] at first
      exact (afterFraction c first).1
    | some =>
      rw [point] at first
      cases first
      rfl
  have trimmed : ¬(n.whole.head? = some '0' ∧ n.whole ≠ ['0']) :=
    fun ⟨zero, more⟩ => more (wellFormed.trimmed zero)
  simp only [numeral?, digits?_append wellFormed.whole afterWhole, Option.bind_eq_bind,
    Option.bind_some, if_neg trimmed, fraction?_text wellFormed.fraction afterFraction,
    exponent?_text wellFormed.exponent ends]
  rfl

end Json

end Colloquy
