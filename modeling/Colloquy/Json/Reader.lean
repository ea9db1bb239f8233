import Colloquy.Json.Basic

/-! Reading JSON text. Each reader takes its part from the front and leaves the rest. -/

set_option autoImplicit false

namespace Colloquy.Json

/-- White space between the parts of a document. -/
def isSpace (c : Char) : Bool := c ∈ [' ', '\n', '\t', '\r']

def skipSpace (cs : List Char) : List Char := cs.dropWhile isSpace

theorem length_skipSpace_le (cs : List Char) : (skipSpace cs).length ≤ cs.length :=
  (List.dropWhile_suffix _).length_le

/-- A character in quotes, or one 16-bit unit that an escape names. -/
inductive Part where
  | char (c : Char)
  | unit (n : Nat)
  deriving DecidableEq, Repr

def hexDigit? (c : Char) : Option Nat :=
  if c.isDigit then some (c.toNat - '0'.toNat)
  else if 'a' ≤ c ∧ c ≤ 'f' then some (c.toNat - 'a'.toNat + 10)
  else if 'A' ≤ c ∧ c ≤ 'F' then some (c.toNat - 'A'.toNat + 10)
  else none

def hex4? (a b c d : Char) : Option Nat := do
  return ((← hexDigit? a) * 16 + (← hexDigit? b)) * 256 + (← hexDigit? c) * 16 + (← hexDigit? d)

def escaped? : Char → Option Char
  | '"' => some '"'
  | '\\' => some '\\'
  | '/' => some '/'
  | 'b' => some '\x08'
  | 'f' => some '\x0c'
  | 'n' => some '\n'
  | 'r' => some '\r'
  | 't' => some '\t'
  | _ => none

/-- Reads up to the closing quote. -/
def parts? : List Char → Option (List Part × List Char)
  | [] => none
  | '"' :: rest => some ([], rest)
  | '\\' :: 'u' :: a :: b :: c :: d :: rest =>
    match hex4? a b c d, parts? rest with
    | some n, some (parts, rest) => some (.unit n :: parts, rest)
    | _, _ => none
  | '\\' :: c :: rest =>
    match escaped? c, parts? rest with
    | some c, some (parts, rest) => some (.char c :: parts, rest)
    | _, _ => none
  | c :: rest =>
    if c.toNat < 0x20 ∨ c = '\\' then none
    else
      match parts? rest with
      | some (parts, rest) => some (.char c :: parts, rest)
      | none => none

/-- Joins the two halves of every surrogate pair. -/
def join? : List Part → Option (List Char)
  | [] => some []
  | .char c :: parts => (join? parts).map (c :: ·)
  | .unit high :: .unit low :: parts =>
    if 0xD800 ≤ high ∧ high < 0xDC00 then
      if 0xDC00 ≤ low ∧ low < 0xE000 then
        (join? parts).map (Char.ofNat (0x10000 + (high - 0xD800) * 0x400 + (low - 0xDC00)) :: ·)
      else none
    else if 0xDC00 ≤ high ∧ high < 0xE000 then none
    else (join? (.unit low :: parts)).map (Char.ofNat high :: ·)
  | .unit n :: parts =>
    if 0xD800 ≤ n ∧ n < 0xE000 then none else (join? parts).map (Char.ofNat n :: ·)

def quoted? (cs : List Char) : Option (Quoted × List Char) :=
  (parts? cs).map fun (parts, rest) => ((join? parts).map String.ofList, rest)

theorem length_of_parts {cs : List Char} {read : List Part × List Char}
    (h : parts? cs = some read) : read.2.length < cs.length := by
  fun_induction parts? cs generalizing read <;> grind

theorem length_of_quoted {cs rest : List Char} {s : Quoted}
    (h : quoted? cs = some (s, rest)) : rest.length < cs.length := by
  simp only [quoted?, Option.map_eq_some_iff, Prod.mk.injEq, Prod.exists] at h
  obtain ⟨_, _, eq, -, rfl⟩ := h
  simpa using length_of_parts eq

def digits? (cs : List Char) : Option (List Char × List Char) :=
  let digits := cs.takeWhile Char.isDigit
  if digits.isEmpty then none else some (digits, cs.dropWhile Char.isDigit)

theorem length_of_digits {cs digits rest : List Char} (h : digits? cs = some (digits, rest)) :
    rest.length < cs.length := by
  simp only [digits?] at h
  split at h
  · cases h
  · next some =>
    obtain ⟨-, rfl⟩ := Prod.mk.injEq .. ▸ Option.some.inj h
    have := congrArg List.length (List.takeWhile_append_dropWhile (p := Char.isDigit) (l := cs))
    have : 0 < (cs.takeWhile Char.isDigit).length := List.length_pos_iff.2 (by simpa using some)
    simp only [List.length_append] at *
    omega

def fraction? : List Char → Option (Option (List Char) × List Char)
  | '.' :: cs => (digits? cs).map fun (digits, rest) => (some digits, rest)
  | cs => some (none, cs)

def exponent? : List Char → Option (Option (Bool × List Char) × List Char)
  | [] => some (none, [])
  | c :: cs =>
    if c = 'e' ∨ c = 'E' then
      let (negative, cs) : Bool × List Char :=
        match cs with
        | '-' :: cs => (true, cs)
        | '+' :: cs => (false, cs)
        | cs => (false, cs)
      (digits? cs).map fun (digits, rest) => (some (negative, digits), rest)
    else some (none, c :: cs)

-- Reads a number after its sign. A leading zero stands alone.
def numeral? (negative : Bool) (cs : List Char) : Option (Numeral × List Char) := do
  let (whole, rest) ← digits? cs
  if whole.head? = some '0' ∧ whole ≠ ['0'] then none
  else
    let (fraction, rest) ← fraction? rest
    let (exponent, rest) ← exponent? rest
    return (⟨negative, whole, fraction, exponent⟩, rest)

theorem length_of_fraction {cs rest : List Char} {fraction : Option (List Char)}
    (h : fraction? cs = some (fraction, rest)) : rest.length ≤ cs.length := by
  unfold fraction? at h
  split at h
  · simp only [Option.map_eq_some_iff, Prod.mk.injEq, Prod.exists] at h
    obtain ⟨_, _, eq, -, rfl⟩ := h
    have := length_of_digits eq
    simp only [List.length_cons]
    omega
  · simp_all

theorem length_of_exponent {cs rest : List Char} {exponent : Option (Bool × List Char)}
    (h : exponent? cs = some (exponent, rest)) : rest.length ≤ cs.length := by
  unfold exponent? at h
  split at h
  · simp_all
  · split at h
    · simp only [Option.map_eq_some_iff, Prod.mk.injEq, Prod.exists] at h
      obtain ⟨_, _, eq, -, rfl⟩ := h
      have := length_of_digits eq
      split at this <;> simp only [List.length_cons] at * <;> omega
    · simp_all

theorem length_of_numeral {negative : Bool} {cs rest : List Char} {n : Numeral}
    (h : numeral? negative cs = some (n, rest)) : rest.length < cs.length := by
  simp only [numeral?, Option.bind_eq_bind, Option.bind_eq_some_iff, Prod.exists] at h
  obtain ⟨_, _, whole, h⟩ := h
  split at h
  · cases h
  · simp only [Option.bind_eq_some_iff, Prod.exists, Option.pure_def, Option.some.injEq,
      Prod.mk.injEq] at h
    obtain ⟨_, _, fraction, _, _, exponent, -, rfl⟩ := h
    have := length_of_digits whole
    have := length_of_fraction fraction
    have := length_of_exponent exponent
    omega

def word? (word : List Char) (cs : List Char) : Option (List Char) :=
  if word.isPrefixOf cs then some (cs.drop word.length) else none

theorem length_of_word {word cs rest : List Char} (h : word? word cs = some rest) :
    rest.length ≤ cs.length := by
  unfold word? at h
  split at h
  · cases h; simp
  · cases h

/-- Something read from the front of `cs`, and what follows it. -/
abbrev Front (α : Type) (cs : List Char) := { front : α × List Char // front.2.length < cs.length }

mutual

/-- Reads a value after the white space before it. -/
def value? (cs : List Char) : Option (Front Json cs) :=
  match _h : skipSpace cs with
  | [] => none
  | c :: rest =>
    have shorter : rest.length < cs.length := by
      have := length_skipSpace_le cs
      simp only [_h, List.length_cons] at this
      omega
    if c = '"' then
      match h : quoted? rest with
      | none => none
      | some (s, rest') => some ⟨(.string s, rest'), Nat.lt_trans (length_of_quoted h) shorter⟩
    else if c = '[' then
      match _h : skipSpace rest with
      | ']' :: rest' => some ⟨(.array [], rest'), by
          have := length_skipSpace_le rest
          simp only [_h, List.length_cons] at this
          show rest'.length < cs.length
          omega⟩
      | _ => do
        let ⟨(items, rest'), shorter'⟩ ← items? rest
        return ⟨(.array items, rest'), Nat.lt_trans shorter' shorter⟩
    else if c = '\x7b' then
      match _h : skipSpace rest with
      | '\x7d' :: rest' => some ⟨(.object [], rest'), by
          have := length_skipSpace_le rest
          simp only [_h, List.length_cons] at this
          show rest'.length < cs.length
          omega⟩
      | _ => do
        let ⟨(fields, rest'), shorter'⟩ ← fields? rest
        return ⟨(.object fields, rest'), Nat.lt_trans shorter' shorter⟩
    else if c = '-' then
      match h : numeral? true rest with
      | none => none
      | some (n, rest') => some ⟨(.number n, rest'), Nat.lt_trans (length_of_numeral h) shorter⟩
    else if c.isDigit then
      match h : numeral? false (c :: rest) with
      | none => none
      | some (n, rest') => some ⟨(.number n, rest'), by
          have := length_of_numeral h
          simp only [List.length_cons] at this
          show rest'.length < cs.length
          omega⟩
    else
      let word (word : List Char) (value : Json) : Option (Front Json cs) :=
        match h : word? word rest with
        | none => none
        | some rest' => some ⟨(value, rest'), Nat.lt_of_le_of_lt (length_of_word h) shorter⟩
      if c = 'n' then word ['u', 'l', 'l'] .null
      else if c = 't' then word ['r', 'u', 'e'] (.bool true)
      else if c = 'f' then word ['a', 'l', 's', 'e'] (.bool false)
      else none
termination_by 3 * cs.length + 1
decreasing_by all_goals omega

/-- Reads values between commas, up to the closing bracket. -/
def items? (cs : List Char) : Option (Front (List Json) cs) := do
  let ⟨(item, rest), shorter⟩ ← value? cs
  match _h : skipSpace rest with
  | ',' :: rest' =>
    have : rest'.length < cs.length := by
      have := length_skipSpace_le rest
      simp only [_h, List.length_cons] at *
      omega
    let ⟨(items, rest''), shorter'⟩ ← items? rest'
    return ⟨(item :: items, rest''), Nat.lt_trans shorter' this⟩
  | ']' :: rest' => some ⟨([item], rest'), by
      have := length_skipSpace_le rest
      simp only [_h, List.length_cons] at *
      omega⟩
  | _ => none
termination_by 3 * cs.length + 2
decreasing_by all_goals omega

/-- Reads names and values between commas, up to the closing brace. -/
def fields? (cs : List Char) : Option (Front (List (Quoted × Json)) cs) :=
  match _h : skipSpace cs with
  | '"' :: rest =>
    match h : quoted? rest with
    | none => none
    | some (name, rest') =>
      match _h' : skipSpace rest' with
      | ':' :: rest'' => do
        have shorter : rest''.length < cs.length := by
          have := length_skipSpace_le cs
          have := length_of_quoted h
          have := length_skipSpace_le rest'
          simp only [_h, _h', List.length_cons] at *
          omega
        let ⟨(value, after), shorter'⟩ ← value? rest''
        match _h'' : skipSpace after with
        | ',' :: after' =>
          have : after'.length < cs.length := by
            have := length_skipSpace_le after
            simp only [_h'', List.length_cons] at *
            omega
          let ⟨(fields, after''), shorter''⟩ ← fields? after'
          return ⟨((name, value) :: fields, after''), Nat.lt_trans shorter'' this⟩
        | '\x7d' :: after' => some ⟨([(name, value)], after'), by
            have := length_skipSpace_le after
            simp only [_h'', List.length_cons] at *
            omega⟩
        | _ => none
      | _ => none
  | _ => none
termination_by 3 * cs.length
decreasing_by all_goals omega

end

/-- Reads a document: one value, and white space around it. -/
def parse? (text : String) : Option Json :=
  match value? text.toList with
  | some ⟨(value, rest), _⟩ => if (skipSpace rest).isEmpty then some value else none
  | none => none

end Colloquy.Json
