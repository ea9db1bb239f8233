import Colloquy.Json.Printer
import Colloquy.Proofs.Json.Numeral

/-!
JSON text is read back as the document that it was printed from. Every part is read with any text
behind it; only a number needs that this text does not go on with it.
-/

set_option autoImplicit false

namespace Colloquy.Json

/-! Strings -/

/-- A character is escaped by a letter, by its number, or not at all. -/
inductive Escaped (c : Char) : List Char → Prop
  | letter {letter : Char} (known : escaped? letter = some c) : Escaped c ['\\', letter]
  | number (control : c.toNat < 0x20) :
    Escaped c ['\\', 'u', '0', '0', hexDigit (c.toNat / 16), hexDigit (c.toNat % 16)]
  | plain (legal : ¬(c.toNat < 0x20 ∨ c = '\\')) (inside : c ≠ '"') : Escaped c [c]

theorem escaped_escape (c : Char) : Escaped c (escape c) := by
  have letter {name c' : Char} (known : escaped? name = some c') (same : c = c') :
      Escaped c ['\\', name] := .letter (same ▸ known)
  unfold escape
  refine iteInduction (letter rfl) fun inside => ?_
  refine iteInduction (letter rfl) fun slash => ?_
  refine iteInduction (letter rfl) fun _ => ?_
  refine iteInduction (letter rfl) fun _ => ?_
  refine iteInduction (letter rfl) fun _ => ?_
  refine iteInduction (letter rfl) fun _ => ?_
  refine iteInduction (letter rfl) fun _ => ?_
  exact iteInduction .number fun high => .plain (not_or.2 ⟨high, slash⟩) inside

theorem hex4?_hexDigit : ∀ n < 0x20,
    hex4? '0' '0' (hexDigit (n / 16)) (hexDigit (n % 16)) = some n := by
  decide

/-- A part stands for the character if it is joined to no other part. -/
def Part.Is (part : Part) (c : Char) : Prop :=
  ∀ parts, join? (part :: parts) = (join? parts).map (c :: ·)

theorem Part.is_unit {c : Char} (control : c.toNat < 0x20) : (Part.unit c.toNat).Is c := by
  have same : Char.ofNat c.toNat = c := Char.ofNat_toNat c
  intro parts
  cases parts with
  | nil => simp [join?, same]; omega
  | cons part parts =>
    cases part with
    | char => simp [join?, same]; omega
    | unit => rw [join?, if_neg (by omega), if_neg (by omega), same]

theorem parts?_escape (c : Char) : ∃ part : Part, part.Is c ∧
    ∀ rest parts after, parts? rest = some (parts, after) →
      parts? (escape c ++ rest) = some (part :: parts, after) := by
  have form := escaped_escape c
  generalize escape c = escape at form
  cases form with
  | @letter letter known =>
    refine ⟨.char c, fun _ => rfl, fun rest parts after read => ?_⟩
    have notUnit : letter ≠ 'u' := by
      rintro rfl
      cases known
    simp [parts?, notUnit, known, read]
  | number control =>
    refine ⟨.unit c.toNat, Part.is_unit control, fun rest parts after read => ?_⟩
    simp [parts?, hex4?_hexDigit _ control, read]
  | plain legal inside =>
    refine ⟨.char c, fun _ => rfl, fun rest parts after read => ?_⟩
    have slash : c ≠ '\\' := fun same => legal (.inr same)
    rw [List.singleton_append, parts?]
    · rw [if_neg legal, read]
    · exact fun same => inside same
    · exact fun _ _ _ _ _ same => absurd same slash
    · exact fun _ _ same => absurd same slash

theorem parts?_chars (cs rest : List Char) : ∃ parts, join? parts = some cs ∧
    parts? (cs.flatMap escape ++ '"' :: rest) = some (parts, rest) := by
  induction cs with
  | nil => exact ⟨[], rfl, by simp [parts?]⟩
  | cons c cs ih =>
    obtain ⟨parts, joined, read⟩ := ih
    obtain ⟨part, is, reads⟩ := parts?_escape c
    refine ⟨part :: parts, by rw [is, joined]; rfl, ?_⟩
    rw [List.flatMap_cons, List.append_assoc]
    exact reads _ _ _ read

theorem quoted?_write (s : Quoted) (rest : List Char) :
    ∃ cs, writeQuoted s ++ rest = '"' :: cs ∧ quoted? cs = some (s, rest) := by
  cases s with
  | some s =>
    obtain ⟨parts, joined, read⟩ := parts?_chars s.toList rest
    refine ⟨s.toList.flatMap escape ++ '"' :: rest, by simp [writeQuoted], ?_⟩
    simp [quoted?, read, joined]
  | none =>
    refine ⟨'\\' :: 'u' :: 'd' :: '8' :: '0' :: '0' :: '"' :: rest, rfl, ?_⟩
    have half : hex4? 'd' '8' '0' '0' = some 0xD800 := by decide
    simp [quoted?, parts?, half, join?]

/-! Documents -/

theorem skipSpace_cons {c : Char} {cs : List Char} (ink : isSpace c = false) :
    skipSpace (c :: cs) = c :: cs := by
  simp [skipSpace, ink]

/-- What a reader of a document has taken from the front, and the rest. The proof that the rest is
shorter is left out: it stands in the way of rewriting with what a reader gives. -/
def taken {α : Type} {cs : List Char} (front : Option (Front α cs)) : Option (α × List Char) :=
  front.map Subtype.val

theorem taken_ite {α : Type} {cs : List Char} {p : Prop} [Decidable p] {yes no : Option (Front α cs)}
    {yes' no' : Option (α × List Char)} (pos : taken yes = yes') (neg : taken no = no') :
    taken (if p then yes else no) = if p then yes' else no' := by
  rw [← pos, ← neg, apply_ite taken]

theorem taken_value? {cs rest : List Char} {c : Char} (front : skipSpace cs = c :: rest) :
    taken (value? cs) =
      if c = '"' then (quoted? rest).map fun (s, rest) => (.string s, rest)
      else if c = '[' then
        match skipSpace rest with
        | ']' :: rest => some (.array [], rest)
        | _ => (taken (items? rest)).map fun (items, rest) => (.array items, rest)
      else if c = '\x7b' then
        match skipSpace rest with
        | '\x7d' :: rest => some (.object [], rest)
        | _ => (taken (fields? rest)).map fun (fields, rest) => (.object fields, rest)
      else if c = '-' then (numeral? true rest).map fun (n, rest) => (.number n, rest)
      else if c.isDigit then (numeral? false (c :: rest)).map fun (n, rest) => (.number n, rest)
      else if c = 'n' then (word? ['u', 'l', 'l'] rest).map (.null, ·)
      else if c = 't' then (word? ['r', 'u', 'e'] rest).map (.bool true, ·)
      else if c = 'f' then (word? ['a', 'l', 's', 'e'] rest).map (.bool false, ·)
      else none := by
  rw [value?]
  split
  · next empty => simp [front] at empty
  · next c rest same =>
    rw [front] at same
    cases same
    refine taken_ite ?string (taken_ite ?array (taken_ite ?object (taken_ite ?negative
      (taken_ite ?digits (taken_ite ?null (taken_ite ?true (taken_ite ?false rfl)))))))
    case string => split <;> simp [taken, *]
    case array =>
      split
      · next empty => simp [taken, empty]
      · next more =>
        split
        · next empty => exact absurd empty (more _)
        · cases items? rest <;> rfl
    case object =>
      split
      · next empty => simp [taken, empty]
      · next more =>
        split
        · next empty => exact absurd empty (more _)
        · cases fields? rest <;> rfl
    case negative => split <;> simp [taken, *]
    case digits => split <;> simp [taken, *]
    all_goals
      dsimp only
      split <;> simp [taken, *]

theorem taken_items? (cs : List Char) : taken (items? cs) =
    (taken (value? cs)).bind fun (item, rest) =>
      match skipSpace rest with
      | ',' :: rest => (taken (items? rest)).map fun (items, rest) => (item :: items, rest)
      | ']' :: rest => some ([item], rest)
      | _ => none := by
  rw [items?]
  rcases value? cs with _ | ⟨⟨item, rest⟩, shorter⟩
  · rfl
  · simp only [Option.bind_eq_bind, Option.bind_some]
    split
    · next front =>
      simp only [taken, Option.map_some, Option.bind_some, front]
      cases items? _ <;> rfl
    · next front => simp [taken, front]
    · simp [taken]

theorem taken_fields? {cs rest rest' rest'' : List Char} {name : Quoted}
    (front : skipSpace cs = '"' :: rest) (named : quoted? rest = some (name, rest'))
    (colon : skipSpace rest' = ':' :: rest'') : taken (fields? cs) =
    (taken (value? rest'')).bind fun (value, rest) =>
      match skipSpace rest with
      | ',' :: rest =>
        (taken (fields? rest)).map fun (fields, rest) => ((name, value) :: fields, rest)
      | '\x7d' :: rest => some ([(name, value)], rest)
      | _ => none := by
  rw [fields?]
  split
  · next rest front' =>
    rw [front] at front'
    cases front'
    split
    · next failed => simp [named] at failed
    · next named' =>
      rw [named] at named'
      cases named'
      split
      · next colon' =>
        rw [colon] at colon'
        cases colon'
        rcases value? rest'' with _ | ⟨⟨value, rest⟩, shorter⟩
        · rfl
        · simp only [Option.bind_eq_bind, Option.bind_some]
          split
          · next front =>
            simp only [taken, Option.map_some, Option.bind_some, front]
            cases fields? _ <;> rfl
          · next front => simp [taken, front]
          · simp [taken]
      · next other => exact absurd colon (other _)
  · next other => exact absurd front (other _)

theorem fields?_brace {cs rest : List Char} (front : skipSpace cs = '\x7d' :: rest) :
    fields? cs = none := by
  rw [fields?]
  split
  · next quote => simp [front] at quote
  · rfl

theorem parse?_eq (text : String) : parse? text =
    (taken (value? text.toList)).bind fun (value, rest) =>
      if (skipSpace rest).isEmpty then some value else none := by
  unfold parse?
  rcases value? text.toList with _ | ⟨⟨value, rest⟩, shorter⟩ <;> rfl

inductive Legible : Json → Prop
  | null : Legible .null
  | bool (b : Bool) : Legible (.bool b)
  | number {n : Numeral} (wellFormed : n.WellFormed) : Legible (.number n)
  | string (s : Quoted) : Legible (.string s)
  | array {items : List Json} (each : ∀ item ∈ items, Legible item) : Legible (.array items)
  | object {fields : List (Quoted × Json)} (each : ∀ field ∈ fields, Legible field.2) :
    Legible (.object fields)

/-- The document is read back, whatever ends it. -/
def Reads (j : Json) : Prop :=
  ∀ rest, Ends rest → taken (value? (write j ++ rest)) = some (j, rest)

theorem reads_number {n : Numeral} (wellFormed : n.WellFormed) : Reads (.number n) := by
  intro rest ends
  have read := numeral?_text wellFormed ends
  obtain ⟨negative, whole, fraction, exponent⟩ := n
  cases negative with
  | true =>
    have written : write (.number ⟨true, whole, fraction, exponent⟩) ++ rest = '-' :: (whole ++
        (Numeral.fractionText fraction ++ (Numeral.exponentText exponent ++ rest))) := by
      simp [write, Numeral.text]
    rw [written, taken_value? (skipSpace_cons rfl)]
    simp [read]
  | false =>
    obtain ⟨c, more, rfl⟩ := List.exists_cons_of_ne_nil wellFormed.whole.1
    have digit : c.isDigit = true := wellFormed.whole.2 c List.mem_cons_self
    have written : write (.number ⟨false, c :: more, fraction, exponent⟩) ++ rest = c :: (more ++
        (Numeral.fractionText fraction ++ (Numeral.exponentText exponent ++ rest))) := by
      simp [write, Numeral.text]
    have other (c' : Char) (noDigit : c'.isDigit = false) : c ≠ c' := by
      rintro rfl
      simp [digit] at noDigit
    have ink : isSpace c = false := by
      simp [isSpace, other]
    rw [written, taken_value? (skipSpace_cons ink), if_neg (other _ rfl), if_neg (other _ rfl),
      if_neg (other _ rfl), if_neg (other _ rfl), if_pos digit]
    rw [List.cons_append] at read
    simp [read]

theorem ends_cons {c : Char} (rest : List Char)
    (closing : c.isDigit = false ∧ c ≠ '.' ∧ c ≠ 'e' ∧ c ≠ 'E') : Ends (c :: rest) := by
  rintro _ ⟨⟩
  exact closing

theorem reads_items {items : List Json} (some : items ≠ []) (each : ∀ item ∈ items, Reads item)
    (rest : List Char) :
    taken (items? (writeItems items ++ ']' :: rest)) = .some (items, rest) := by
  induction items with
  | nil => exact absurd rfl some
  | cons item items ih =>
    obtain ⟨first, others⟩ := List.forall_mem_cons.1 each
    cases items with
    | nil =>
      rw [writeItems, taken_items?, first _ (ends_cons _ (by decide))]
      simp [skipSpace_cons (c := ']') rfl]
    | cons other items =>
      rw [writeItems, List.append_assoc, List.cons_append, taken_items?,
        first _ (ends_cons _ (by decide))]
      simp [skipSpace_cons (c := ',') rfl, ih (by simp) others]

theorem reads_fields {fields : List (Quoted × Json)} (some : fields ≠ [])
    (each : ∀ field ∈ fields, Reads field.2) (rest : List Char) :
    taken (fields? (writeFields fields ++ '\x7d' :: rest)) = .some (fields, rest) := by
  induction fields with
  | nil => exact absurd rfl some
  | cons field fields ih =>
    obtain ⟨name, value⟩ := field
    obtain ⟨first, others⟩ := List.forall_mem_cons.1 each
    cases fields with
    | nil =>
      obtain ⟨cs, written, read⟩ := quoted?_write name (':' :: (write value ++ '\x7d' :: rest))
      rw [writeFields, List.append_assoc, List.cons_append, written,
        taken_fields? (skipSpace_cons rfl) read (skipSpace_cons rfl),
        first _ (ends_cons _ (by decide))]
      simp [skipSpace_cons (c := '\x7d') rfl]
    | cons other fields =>
      obtain ⟨cs, written, read⟩ := quoted?_write name
        (':' :: (write value ++ ',' :: (writeFields (other :: fields) ++ '\x7d' :: rest)))
      have text : writeFields ((name, value) :: other :: fields) ++ '\x7d' :: rest = '"' :: cs := by
        simp [writeFields, ← written]
      rw [text, taken_fields? (skipSpace_cons rfl) read (skipSpace_cons rfl),
        first _ (ends_cons _ (by decide))]
      simp [skipSpace_cons (c := ',') rfl, ih (by simp) others]

theorem Legible.reads {j : Json} (legible : j.Legible) : Reads j := by
  induction legible with
  | null =>
    intro rest _
    rw [write, List.cons_append, taken_value? (skipSpace_cons rfl)]
    rfl
  | bool b =>
    intro rest _
    cases b <;> rw [write, List.cons_append, taken_value? (skipSpace_cons rfl)] <;> rfl
  | number wellFormed => exact reads_number wellFormed
  | string s =>
    intro rest _
    obtain ⟨cs, written, read⟩ := quoted?_write s rest
    rw [write, written, taken_value? (skipSpace_cons rfl), if_pos rfl, read]
    rfl
  | @array items each ih =>
    intro rest _
    have written : write (.array items) ++ rest = '[' :: (writeItems items ++ ']' :: rest) := by
      simp [write]
    rw [written, taken_value? (skipSpace_cons rfl)]
    cases items with
    | nil => simp [writeItems, skipSpace_cons (c := ']') rfl]
    | cons item items =>
      have read := reads_items (by simp) ih rest
      -- The reader looks for the bracket before it looks for an item.
      have notEmpty (after : List Char) :
          skipSpace (writeItems (item :: items) ++ ']' :: rest) ≠ ']' :: after := by
        intro front
        rw [taken_items?, taken_value? front] at read
        cases read
      simp [read]
  | @object fields each ih =>
    intro rest _
    have written : write (.object fields) ++ rest =
        '\x7b' :: (writeFields fields ++ '\x7d' :: rest) := by
      simp [write]
    rw [written, taken_value? (skipSpace_cons rfl)]
    cases fields with
    | nil => simp [writeFields, skipSpace_cons (c := '\x7d') rfl]
    | cons field fields =>
      have read := reads_fields (by simp) ih rest
      have notEmpty (after : List Char) :
          skipSpace (writeFields (field :: fields) ++ '\x7d' :: rest) ≠ '\x7d' :: after := by
        intro front
        rw [fields?_brace front] at read
        cases read
      simp [read]

/-- A document is read back from the text that prints it. -/
theorem parse?_print {j : Json} (legible : j.Legible) : parse? j.print = some j := by
  have read := legible.reads [] nofun
  rw [List.append_nil] at read
  rw [parse?_eq, print, String.toList_ofList, read]
  rfl

end Colloquy.Json
