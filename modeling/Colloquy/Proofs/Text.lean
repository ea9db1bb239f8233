import Mathlib.Data.List.DropRight
import Mathlib.Data.List.TakeWhile
import Colloquy.Text.Lines

/-!
Where a stretch of text ends: before the first character of some kind, and all before it. What
trimming takes off a text: white space at both ends, and all that is there.
-/

set_option autoImplicit false

namespace Colloquy.Text

/-! ## Stretches -/

section

variable {c stop : Char} {cs rest : List Char}

theorem span_append {p : Char → Bool} (stops : ∀ c ∈ rest.head?, p c = false)
    (cs : List Char) : (cs ++ rest).takeWhile p = cs.takeWhile p ∧
      (cs ++ rest).dropWhile p = cs.dropWhile p ++ rest := by
  induction cs with
  | nil =>
    cases rest with
    | nil => exact ⟨rfl, rfl⟩
    | cons d rest =>
      have stop : p d = false := stops d rfl
      simp [stop]
  | cons c cs ih => cases passes : p c <;> simp [passes, ih]

theorem span_exact {p : Char → Bool} (inside : ∀ c ∈ cs, p c = true)
    (stops : ∀ c ∈ rest.head?, p c = false) :
    (cs ++ rest).takeWhile p = cs ∧ (cs ++ rest).dropWhile p = rest := by
  obtain ⟨word, following⟩ := span_append stops cs
  rw [List.takeWhile_eq_self_iff.2 inside] at word
  rw [List.dropWhile_eq_nil_iff.2 inside, List.nil_append] at following
  exact ⟨word, following⟩

theorem span_until (absent : stop ∉ cs) (rest : List Char) :
    (cs ++ stop :: rest).takeWhile (· ≠ stop) = cs ∧
      (cs ++ stop :: rest).dropWhile (· ≠ stop) = stop :: rest := by
  refine span_exact (fun c member => decide_eq_true fun same => absent (same ▸ member)) ?_
  intro c first
  cases first
  exact decide_eq_false fun other => other rfl

theorem dropWhile_ne_eq_nil : cs.dropWhile (· ≠ stop) = [] ↔ stop ∉ cs := by
  rw [List.dropWhile_eq_nil_iff]
  constructor
  · exact fun inside member => of_decide_eq_true (inside stop member) rfl
  · exact fun absent c member => decide_eq_true fun same => absent (same ▸ member)

theorem exists_of_dropWhile_ne (found : cs.dropWhile (· ≠ stop) = c :: rest) :
    ∃ before, stop ∉ before ∧ cs = before ++ stop :: rest := by
  induction cs with
  | nil => cases found
  | cons d cs ih =>
    by_cases same : d = stop
    · subst same
      rw [List.dropWhile_cons_of_neg (by simp)] at found
      cases found
      exact ⟨[], by simp, rfl⟩
    · rw [List.dropWhile_cons_of_pos (by simpa using same)] at found
      obtain ⟨before, absent, rfl⟩ := ih found
      exact ⟨d :: before, by simp [absent, Ne.symm same], rfl⟩

end

/-! ## White space -/

def Blank (cs : List Char) : Prop := ∀ c ∈ cs, isBlank c = true

theorem blank_cons {c : Char} {cs : List Char} : Blank (c :: cs) ↔ isBlank c = true ∧ Blank cs :=
  List.forall_mem_cons

theorem not_isBlank_of_isDigit {c : Char} (digit : c.isDigit = true) : isBlank c = false := by
  simp only [Char.isDigit, Bool.and_eq_true, decide_eq_true_eq] at digit
  have low : 48 ≤ c.toNat := UInt32.le_iff_toNat_le.1 digit.1
  have high : c.toNat ≤ 57 := UInt32.le_iff_toNat_le.1 digit.2
  simp only [isBlank, Bool.or_eq_false_iff, Bool.and_eq_false_iff, decide_eq_false_iff_not,
    beq_eq_false_iff_ne]
  omega

theorem trimChars_eq (cs : List Char) :
    trimChars cs = (cs.dropWhile isBlank).rdropWhile isBlank := rfl

theorem trimChars_eq_self {cs : List Char} (first : ∀ c ∈ cs.head?, isBlank c = false)
    (last : ∀ c ∈ cs.getLast?, isBlank c = false) : trimChars cs = cs := by
  have front : cs.dropWhile isBlank = cs := by
    cases cs with
    | nil => rfl
    | cons c cs => exact List.dropWhile_cons_of_neg (by simp [first c rfl])
  rw [trimChars_eq, front, List.rdropWhile_eq_self_iff]
  intro nonempty blank
  exact absurd (last _ (List.getLast?_eq_getLast_of_ne_nil nonempty)) (by simp [blank])

theorem trim_eq_self {s : String} (first : ∀ c ∈ s.toList.head?, isBlank c = false)
    (last : ∀ c ∈ s.toList.getLast?, isBlank c = false) : trim s = s := by
  rw [trim, trimChars_eq_self first last, String.ofList_toList]

theorem exists_trimChars (cs : List Char) :
    ∃ before after, Blank before ∧ Blank after ∧ cs = before ++ (trimChars cs ++ after) := by
  refine ⟨cs.takeWhile isBlank, (cs.dropWhile isBlank).rtakeWhile isBlank,
    fun c => List.mem_takeWhile_imp, fun c => List.mem_rtakeWhile_imp, ?_⟩
  rw [trimChars_eq, List.rdropWhile_append_rtakeWhile, List.takeWhile_append_dropWhile]

theorem trimChars_trimChars (cs : List Char) : trimChars (trimChars cs) = trimChars cs := by
  have front : (trimChars cs).dropWhile isBlank = trimChars cs := by
    have kept : trimChars cs <+: cs.dropWhile isBlank := List.rdropWhile_prefix isBlank _
    refine List.dropWhile_eq_self_iff.2 fun nonempty => ?_
    rw [kept.getElem nonempty]
    exact List.dropWhile_get_zero_not isBlank cs (nonempty.trans_le kept.length_le)
  rw [trimChars_eq (trimChars cs), front, trimChars_eq, List.rdropWhile_idempotent]

theorem trim_trim (s : String) : trim (trim s) = trim s := by
  rw [trim, toList_trim, trimChars_trimChars, trim]

end Colloquy.Text
