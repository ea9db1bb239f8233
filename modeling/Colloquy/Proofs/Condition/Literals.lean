import Mathlib.Algebra.Group.Int.Defs
import Mathlib.Data.List.Basic
import Colloquy.Condition.Operand
import Colloquy.Proofs.Condition.Tokens

/-!
Literals and names of slots. A text is a literal if it stands in quotes, is a numeral or is one of
four words, and names a slot otherwise. What a literal is shown as is read as that literal, and the
numbers and truth values among them are what a user's words are taken to mean:
`Operand.readers_agree`.
-/

set_option autoImplicit false

namespace Colloquy

namespace Value

def signs : List (List Char) := [[], ['+'], ['-']]

def signed (sign digits : List Char) : Int :=
  if sign = ['-'] then -Number.ofDigits digits else Number.ofDigits digits

/-- Digits, at least one, with or without a sign, of a number that has 64 bits. -/
def IsWhole (cs : List Char) : Prop :=
  ∃ sign ∈ signs, ∃ digits, digits ≠ [] ∧ (∀ c ∈ digits, c.isDigit = true) ∧
    cs = sign ++ digits ∧ -2 ^ 63 ≤ signed sign digits ∧ signed sign digits < 2 ^ 63

/-- Digits, at least one, with a point among them or at either end, with or without a sign. -/
def IsPointed (cs : List Char) : Prop :=
  ∃ sign ∈ signs, ∃ whole fraction, whole ++ fraction ≠ [] ∧
    (∀ c ∈ whole ++ fraction, c.isDigit = true) ∧ cs = sign ++ (whole ++ '.' :: fraction)

variable {cs sign digits whole fraction rest : List Char} {n : Int}

/-! ## Numerals -/

theorem splitSign_append (known : sign ∈ signs)
    (unsigned : ∀ c ∈ rest.head?, c.isDigit = true ∨ c = '.') :
    splitSign (sign ++ rest) = (decide (sign = ['-']), rest) := by
  simp only [signs, List.mem_cons, List.not_mem_nil, or_false] at known
  rcases known with rfl | rfl | rfl
  · cases rest with
    | nil => rfl
    | cons c rest =>
      have other : c ≠ '-' ∧ c ≠ '+' := by
        rcases unsigned c rfl with digit | rfl
        · constructor <;> rintro rfl <;> cases digit
        · decide
      unfold splitSign
      split
      · next same => exact absurd (List.cons.inj same).1 other.1
      · next same => exact absurd (List.cons.inj same).1 other.2
      · rfl
  · rfl
  · rfl

theorem exists_sign (cs : List Char) : ∃ sign ∈ signs,
    cs = sign ++ (splitSign cs).2 ∧ (splitSign cs).1 = decide (sign = ['-']) := by
  unfold splitSign
  split
  · exact ⟨['-'], by decide, rfl, rfl⟩
  · exact ⟨['+'], by decide, rfl, rfl⟩
  · exact ⟨[], by decide, rfl, rfl⟩

theorem isSome_integer?_iff : (integer? n).isSome ↔ -2 ^ 63 ≤ n ∧ n < 2 ^ 63 := by
  rw [integer?, Int64.toInt_minValue, Int64.toInt_maxValue]
  split
  · next within => simpa using (by omega : -2 ^ 63 ≤ n ∧ n < 2 ^ 63)
  · next beyond => simpa using (by omega : -2 ^ 63 ≤ n → 2 ^ 63 ≤ n)

theorem numeral?_whole (known : sign ∈ signs) (some' : digits ≠ [])
    (inside : ∀ c ∈ digits, c.isDigit = true) :
    numeral? (sign ++ digits) = integer? (signed sign digits) := by
  have unsigned : ∀ c ∈ digits.head?, c.isDigit = true ∨ c = '.' :=
    fun c first => .inl (inside c (List.mem_of_mem_head? first))
  have stops : ∀ c ∈ ([] : List Char).head?, c.isDigit = false := by simp
  obtain ⟨take, drop⟩ := Text.span_exact inside stops
  rw [List.append_nil] at take drop
  unfold numeral?
  rw [splitSign_append known unsigned]
  simp only [take, drop, List.isEmpty_eq_false_iff.2 some', signed, decide_eq_true_eq]
  rfl

theorem isSome_numeral?_pointed (known : sign ∈ signs) (some' : whole ++ fraction ≠ [])
    (inside : ∀ c ∈ whole ++ fraction, c.isDigit = true) :
    (numeral? (sign ++ (whole ++ '.' :: fraction))).isSome := by
  obtain ⟨before, behind⟩ := List.forall_mem_append.1 inside
  have unsigned : ∀ c ∈ (whole ++ '.' :: fraction).head?, c.isDigit = true ∨ c = '.' := by
    intro c first
    cases whole with
    | nil =>
      cases first
      exact .inr rfl
    | cons d whole =>
      cases first
      exact .inl (before c List.mem_cons_self)
  have stops : ∀ c ∈ ('.' :: fraction).head?, c.isDigit = false := by simp
  obtain ⟨take, drop⟩ := Text.span_exact before stops
  unfold numeral?
  rw [splitSign_append known unsigned]
  simp only [take, drop]
  rw [if_pos]
  · rfl
  · simp only [ne_eq, List.append_eq_nil_iff, not_and_or] at some'
    simpa [some'] using behind

theorem isSome_numeral?_iff : (numeral? cs).isSome ↔ IsWhole cs ∨ IsPointed cs := by
  constructor
  · intro read
    obtain ⟨sign, known, same, negative⟩ := exists_sign cs
    unfold numeral? at read
    generalize splitSign cs = split at read same negative
    obtain ⟨minus, body⟩ := split
    dsimp only at read same negative
    -- What stands behind the first digits decides: nothing, or a point and digits.
    have parts := List.takeWhile_append_dropWhile (p := Char.isDigit) (l := body)
    have inside : ∀ c ∈ body.takeWhile Char.isDigit, c.isDigit = true :=
      fun c => List.mem_takeWhile_imp
    split at read
    · next ends =>
      rw [ends, List.append_nil] at parts
      split at read
      · cases read
      · next some' =>
        refine .inl ⟨sign, known, _, by simpa using some', inside, by rw [parts, same], ?_⟩
        simpa [signed, negative] using isSome_integer?_iff.1 read
    · next fraction point =>
      rw [point] at parts
      split at read
      · next behind =>
        simp only [Bool.and_eq_true, List.all_eq_true] at behind
        refine .inr ⟨sign, known, _, fraction, ?_, ?_, by rw [parts, same]⟩
        · rw [ne_eq, List.append_eq_nil_iff, not_and_or]
          simpa [-List.takeWhile_eq_nil_iff, ← not_and_or] using behind.2
        · exact List.forall_mem_append.2 ⟨inside, behind.1⟩
      · cases read
    · cases read
  · rintro (⟨sign, known, digits, some', inside, rfl, low, high⟩ |
      ⟨sign, known, whole, fraction, some', inside, rfl⟩)
    · rw [numeral?_whole known some' inside, isSome_integer?_iff]
      exact ⟨low, high⟩
    · exact isSome_numeral?_pointed known some' inside

def IsScalar (v : Value) : Prop := v.isNumeric = true ∨ ∃ b, v = .truth b

namespace IsScalar

variable {v : Value}

theorem ne_text (scalar : IsScalar v) (s : String) : v ≠ .text s := by
  rintro rfl
  rcases scalar with ⟨⟨⟩⟩ | ⟨_, ⟨⟩⟩

theorem ne_null (scalar : IsScalar v) : v ≠ .null := by
  rintro rfl
  rcases scalar with ⟨⟨⟩⟩ | ⟨_, ⟨⟩⟩

end IsScalar

def scalar? (word : String) : Option Value :=
  (numeral? word.toList).or ((truth? word).map .truth)

theorem infer_eq (text : String) :
    infer text = (scalar? (Text.trim text)).getD (.text (Text.trim text)) := by
  unfold infer scalar?
  dsimp only
  generalize numeral? (Text.trim text).toList = number, truth? (Text.trim text) = truth
  cases number with
  | some number => rfl
  | none => cases truth <;> rfl

theorem isNumeric_of_numeral? {v : Value} (read : numeral? cs = some v) : v.isNumeric = true := by
  unfold numeral? integer? at read
  grind [isNumeric]

theorem isScalar_of_scalar? {word : String} {v : Value} (read : scalar? word = some v) :
    IsScalar v := by
  rcases Option.or_eq_some_iff.1 read with number | ⟨-, truth⟩
  · exact .inl (isNumeric_of_numeral? number)
  · obtain ⟨b, -, rfl⟩ := Option.map_eq_some_iff.1 truth
    exact .inr ⟨b, rfl⟩

theorem isSome_truth?_iff {word : String} : (truth? word).isSome ↔
    Text.spells word "true" = true ∨ Text.spells word "false" = true := by
  unfold truth?
  split
  · next same => simp [same]
  · next other =>
    split
    · next same => simp [same]
    · next other' => simp [other, other']

end Value

namespace Operand

def Quoted (cs : List Char) : Prop :=
  ∃ quote inner, (quote = '\'' ∨ quote = '"') ∧ cs = quote :: (inner ++ [quote])

def words : List String := ["true", "false", "none", "null"]

variable {cs inner : List Char} {text word keyword name : String} {v : Value}

/-! ## Words in quotes -/

theorem unquote?_quoted {quote : Char} (isQuote : quote = '\'' ∨ quote = '"')
    (inner : List Char) : unquote? (quote :: (inner ++ [quote])) = some inner := by
  rcases isQuote with rfl | rfl <;> simp [unquote?]

theorem isSome_unquote?_iff : (unquote? cs).isSome ↔ Quoted cs := by
  constructor
  · have closed {quote : Char} {rest : List Char} (isQuote : quote = '\'' ∨ quote = '"')
        (read : (if rest.getLast? = some quote then some rest.dropLast else none).isSome) :
        Quoted (quote :: rest) := by
      split at read
      · next last =>
        obtain ⟨inner, rfl⟩ := List.getLast?_eq_some_iff.1 last
        exact ⟨quote, inner, isQuote, rfl⟩
      · cases read
    intro read
    unfold unquote? at read
    split at read
    · exact closed (.inl rfl) read
    · exact closed (.inr rfl) read
    · cases read
  · rintro ⟨quote, inner, isQuote, rfl⟩
    rw [unquote?_quoted isQuote]
    rfl

theorem numeral?_eq_none_of_quoted (quoted : Quoted cs) : Value.numeral? cs = none := by
  obtain ⟨quote, inner, rfl | rfl, rfl⟩ := quoted <;> rfl

theorem not_spells_of_quoted (quoted : Quoted word.toList) (known : keyword ∈ words) :
    ¬Text.spells word keyword = true := by
  intro same
  have plain : ∀ keyword ∈ words, keyword.toList.any (Token.isBoundary ·.toLower) = false := by
    decide
  obtain ⟨quote, inner, isQuote, letters⟩ := quoted
  have bounds := Token.plain_of_spells same (plain keyword known) quote (by simp [letters])
  rcases isQuote with rfl | rfl <;> cases bounds

theorem scalar?_eq_none_of_quoted (quoted : Quoted word.toList) : Value.scalar? word = none := by
  have truth : Value.truth? word = none := by
    refine Option.not_isSome_iff_eq_none.1 fun spelled => ?_
    rcases Value.isSome_truth?_iff.1 spelled with same | same
    · exact not_spells_of_quoted quoted (by decide) same
    · exact not_spells_of_quoted quoted (by decide) same
  rw [Value.scalar?, numeral?_eq_none_of_quoted quoted, truth]
  rfl

/-! ## Reading -/

theorem read_of_quoted (read' : unquote? (Text.trim text).toList = some inner) :
    read text = .literal (.text (String.ofList inner)) := by
  rw [read]
  simp only [read']

theorem read_of_bare (bare : unquote? (Text.trim text).toList = none) :
    read text = match Value.scalar? (Text.trim text) with
      | some v => .literal v
      | none => if Text.spells (Text.trim text) "none" || Text.spells (Text.trim text) "null" then
          .literal .null else .slot (Text.trim text) := by
  unfold read Value.scalar?
  dsimp only
  rw [bare]
  generalize Value.numeral? (Text.trim text).toList = number,
    Value.truth? (Text.trim text) = truth
  cases number with
  | some number => rfl
  | none => cases truth <;> rfl

/-- A number or a truth value is read if the word spells it. -/
theorem read_scalar_iff (scalar : Value.IsScalar v) :
    read text = .literal v ↔ Value.scalar? (Text.trim text) = some v := by
  cases quotes : unquote? (Text.trim text).toList with
  | some inner =>
    have quoted := isSome_unquote?_iff.1 (Option.isSome_of_eq_some quotes)
    rw [read_of_quoted quotes, scalar?_eq_none_of_quoted quoted]
    simp [(scalar.ne_text _).symm]
  | none =>
    rw [read_of_bare quotes]
    cases Value.scalar? (Text.trim text) with
    | some spelled => simp
    | none =>
      dsimp only
      split <;> simp [scalar.ne_null.symm]

/-- A text names a slot if no other reading of it is there. -/
theorem read_slot_iff : read text = .slot name ↔ name = Text.trim text ∧
    ¬(Quoted (Text.trim text).toList ∨ Value.IsWhole (Text.trim text).toList ∨
      Value.IsPointed (Text.trim text).toList ∨
      ∃ word ∈ words, Text.spells (Text.trim text) word = true) := by
  have keyword : (∃ word ∈ words, Text.spells (Text.trim text) word = true) ↔
      (Value.truth? (Text.trim text)).isSome ∨
        (Text.spells (Text.trim text) "none" || Text.spells (Text.trim text) "null") = true := by
    simp [words, Value.isSome_truth?_iff, or_assoc]
  rw [keyword, ← isSome_unquote?_iff, ← or_assoc (a := Value.IsWhole _),
    ← Value.isSome_numeral?_iff]
  cases quotes : unquote? (Text.trim text).toList with
  | some inner => simp [read_of_quoted quotes]
  | none =>
    rw [read_of_bare quotes, Value.scalar?]
    cases Value.numeral? (Text.trim text).toList with
    | some number => simp
    | none =>
      cases Value.truth? (Text.trim text) with
      | some b => simp
      | none =>
        dsimp only [Option.or, Option.map]
        split
        · next null => simp [null]
        · next other => simp [other, eq_comm]

/-! ## What is shown -/

theorem exists_decimal (n : Int) : ∃ sign ∈ Value.signs,
    Number.decimal n = sign ++ Number.digits n.natAbs ∧
      Value.signed sign (Number.digits n.natAbs) = n := by
  unfold Number.decimal
  split
  · refine ⟨['-'], by decide, rfl, ?_⟩
    simp only [Value.signed, Number.ofDigits_digits, if_pos]
    omega
  · refine ⟨[], by decide, rfl, ?_⟩
    rw [Value.signed, if_neg (by decide), Number.ofDigits_digits]
    omega

theorem not_isBlank_of_mem_decimal {c : Char} {n : Int} (member : c ∈ Number.decimal n) :
    Text.isBlank c = false := by
  obtain ⟨sign, known, decimal, -⟩ := exists_decimal n
  rw [decimal] at member
  rcases List.mem_append.1 member with inSign | inDigits
  · have visible : Value.signs.all (·.all (!Text.isBlank ·)) = true := rfl
    simpa using List.all_eq_true.1 (List.all_eq_true.1 visible sign known) c inSign
  · exact Text.not_isBlank_of_isDigit (Number.isDigit_of_mem_digits inDigits)

theorem numeral?_decimal (n : Int64) :
    Value.numeral? (Number.decimal n.toInt) = some (.integer n) := by
  obtain ⟨sign, known, decimal, same⟩ := exists_decimal n.toInt
  have some' : Number.digits n.toInt.natAbs ≠ [] := Nat.toDigits_ne_nil
  rw [decimal, Value.numeral?_whole known some' fun _ => Number.isDigit_of_mem_digits, same,
    Value.integer?, if_pos ⟨Int64.minValue_le_toInt n, Int64.toInt_le n⟩, Int64.ofInt_toInt]

theorem trim_quoted (quoted : Quoted word.toList) : Text.trim word = word := by
  obtain ⟨quote, inner, isQuote, letters⟩ := quoted
  have notBlank : Text.isBlank quote = false := by rcases isQuote with rfl | rfl <;> rfl
  refine Text.trim_eq_self ?_ ?_
  · rw [letters]
    rintro _ ⟨⟩
    exact notBlank
  · rw [letters, ← List.cons_append, List.getLast?_concat]
    rintro _ ⟨⟩
    exact notBlank

theorem read_display (exact : ∀ x, v ≠ .real x) : read (literal v).display = .literal v := by
  cases v with
  | text s =>
    have letters : (literal (.text s)).display.toList = '\'' :: (s.toList ++ ['\'']) := by
      simp [display]
    have inside : unquote? (Text.trim (literal (.text s)).display).toList = some s.toList := by
      rw [trim_quoted ⟨_, _, .inl rfl, letters⟩, letters, unquote?_quoted (.inl rfl)]
    rw [read_of_quoted inside, String.ofList_toList]
  | integer n =>
    have letters : (literal (.integer n)).display.toList = Number.decimal n.toInt :=
      String.toList_ofList
    have trimmed : Text.trim (literal (.integer n)).display = (literal (.integer n)).display := by
      refine Text.trim_eq_self ?_ ?_ <;> rw [letters]
      · exact fun c first => not_isBlank_of_mem_decimal (List.mem_of_mem_head? first)
      · exact fun c last => not_isBlank_of_mem_decimal (List.mem_of_getLast? last)
    refine (read_scalar_iff (.inl rfl)).2 ?_
    rw [trimmed, Value.scalar?, letters, numeral?_decimal]
    rfl
  | real x => exact absurd rfl (exact x)
  | truth b => cases b <;> decide
  | null => decide

/-- What a literal that is no real number is shown as is read as that literal; a user's words mean
the number or the truth value that is read from them, if there is one, and else themselves without
the white space around them; and these words name a slot if and only if they do not stand in
quotes, are no numeral and none of the words that are literals. -/
theorem readers_agree :
    (∀ v : Value, (∀ x, v ≠ .real x) → read (literal v).display = .literal v) ∧
    (∀ text v, read text = .literal v → v.IsScalar → Value.infer text = v) ∧
    (∀ text, (∀ v, read text = .literal v → ¬v.IsScalar) →
      Value.infer text = .text (Text.trim text)) ∧
    ∀ text name, read text = .slot name ↔ name = Text.trim text ∧
      ¬(Quoted (Text.trim text).toList ∨ Value.IsWhole (Text.trim text).toList ∨
        Value.IsPointed (Text.trim text).toList ∨
        ∃ word ∈ words, Text.spells (Text.trim text) word = true) := by
  refine ⟨fun v => read_display, fun text v literal scalar => ?_, fun text other => ?_,
    fun text name => read_slot_iff⟩
  · rw [Value.infer_eq, (read_scalar_iff scalar).1 literal]
    rfl
  · have unspelled : Value.scalar? (Text.trim text) = none := by
      refine Option.eq_none_iff_forall_not_mem.2 fun v spelled => ?_
      have scalar := Value.isScalar_of_scalar? spelled
      exact other v ((read_scalar_iff scalar).2 spelled) scalar
    rw [Value.infer_eq, unspelled]
    rfl

theorem readers_agree_bounds :
    read (literal (.integer Int64.minValue)).display = .literal (.integer Int64.minValue) ∧
      read (literal (.text " it's ")).display = .literal (.text " it's ") ∧
      Value.infer " +7 " = .integer 7 ∧ Value.infer " 'yes' " = .text "'yes'" ∧
      ¬Value.IsWhole "9223372036854775808".toList := by
  obtain ⟨shown, scalar, other, slot⟩ := readers_agree
  refine ⟨shown _ (by rintro _ ⟨⟩), shown _ (by rintro _ ⟨⟩),
    scalar _ _ (by decide) (.inl rfl), ?_, fun whole => ?_⟩
  · have quoted : read " 'yes' " = .literal (.text "yes") := by decide
    refine other _ fun v literal scalar => scalar.ne_text "yes" ?_
    cases literal.symm.trans quoted
    rfl
  · have name := (slot "9223372036854775808" "9223372036854775808").1 (by decide)
    have trimmed : Text.trim "9223372036854775808" = "9223372036854775808" := by decide
    rw [trimmed] at name
    exact name.2 (.inr (.inl whole))

end Operand

end Colloquy
