import Mathlib.Data.List.DropRight
import Colloquy.Proofs.Table
import Colloquy.Proofs.Text
import Colloquy.Session.Backend

/-!
What becomes of a template. A placeholder is a name without braces, of a filled slot, between
braces, and a template is rendered by putting the values in place of the placeholders. The pieces
of a template, which pair each opening brace with the next closing one, are filled to that effect
unless a brace that opens within a hole makes a difference: `Templates.render_interpolated`.
-/

set_option autoImplicit false

namespace Colloquy

namespace Template

def named? (slots : Slots) (inner : List Char) : Option Value :=
  slots.get? (Text.trim (String.ofList inner))

/-- The text begins with a placeholder for a value, and goes on behind it. -/
def Placeholder (slots : Slots) (cs : List Char) (value : Value) (rest : List Char) : Prop :=
  ∃ inner, '\x7b' ∉ inner ∧ '\x7d' ∉ inner ∧ named? slots inner = some value ∧
    cs = '\x7b' :: (inner ++ '\x7d' :: rest)

/-- The second text is the first with the values of the slots in place of its placeholders. What is
put in is not looked at again. -/
inductive Interpolated (slots : Slots) : List Char → List Char → Prop where
  | done : Interpolated slots [] []
  | filled {cs rest out : List Char} {value : Value} : Placeholder slots cs value rest →
      Interpolated slots rest out → Interpolated slots cs (value.display.toList ++ out)
  | kept {c : Char} {cs out : List Char} :
      (∀ value rest, ¬ Placeholder slots (c :: cs) value rest) → Interpolated slots cs out →
      Interpolated slots (c :: cs) (c :: out)

def innermost (inner : List Char) : List Char := inner.rtakeWhile (· ≠ '\x7b')

/-- A hole has an opening brace inside, and names a slot that is filled, either as a whole or with
what follows the last such brace. -/
def Piece.Crossed (slots : Slots) : Piece → Prop
  | .text _ => False
  | .hole inner => '\x7b' ∈ inner ∧
      ((named? slots inner).isSome ∨ (named? slots (innermost inner)).isSome)

instance (slots : Slots) (piece : Piece) : Decidable (piece.Crossed slots) :=
  match piece with
  | .text _ => inferInstanceAs (Decidable False)
  | .hole _ => inferInstanceAs (Decidable (_ ∧ (_ ∨ _)))

/-- A value reads as a text that is not empty and does not begin with an opening brace. -/
def Shows (value : Value) : Prop := ∃ c cs, value.display.toList = c :: cs ∧ c ≠ '\x7b'

variable {slots : Slots} {c d : Char} {cs inner before rest after out : List Char} {value : Value}

/-! ## Placeholders -/

theorem append_cons_inj (left : c ∉ inner) (right : d ∉ before)
    (same : before ++ c :: after = inner ++ d :: rest) :
    before = inner ∧ c = d ∧ after = rest := by
  rcases List.append_eq_append_iff.1 same with ⟨more, rfl, behind⟩ | ⟨more, rfl, behind⟩
  · cases more with
    | nil => simpa using behind
    | cons e more =>
      cases behind
      simp at left
  · cases more with
    | nil => simpa [eq_comm] using behind
    | cons e more =>
      cases behind
      simp at right

theorem not_placeholder (other : c ≠ '\x7b') : ¬ Placeholder slots (c :: cs) value rest := by
  rintro ⟨inner, -, -, -, same⟩
  exact other (List.cons.inj same).1

theorem placeholder_iff (absent : '\x7d' ∉ inner) :
    Placeholder slots ('\x7b' :: (inner ++ '\x7d' :: after)) value rest ↔
      '\x7b' ∉ inner ∧ named? slots inner = some value ∧ rest = after := by
  constructor
  · rintro ⟨inner', bare, absent', named, same⟩
    obtain ⟨rfl, -, rfl⟩ := append_cons_inj absent' absent (List.cons.inj same).2
    exact ⟨bare, named, rfl⟩
  · rintro ⟨bare, named, rfl⟩
    exact ⟨inner, bare, absent, named, rfl⟩

theorem not_placeholder_open (absent : '\x7d' ∉ before) :
    ¬ Placeholder slots ('\x7b' :: (before ++ '\x7b' :: after)) value rest := by
  rintro ⟨inner, bare, -, -, same⟩
  obtain ⟨-, same, -⟩ := append_cons_inj bare absent (List.cons.inj same).2
  exact absurd same (by decide)

theorem not_placeholder_unclosed (absent : '\x7d' ∉ cs) : ¬ Placeholder slots cs value rest := by
  rintro ⟨inner, -, -, -, rfl⟩
  simp at absent

/-! ## Interpolation from the front -/

theorem interpolated_filled_iff (filled : Placeholder slots cs value rest) :
    Interpolated slots cs out ↔
      ∃ later, out = value.display.toList ++ later ∧ Interpolated slots rest later := by
  constructor
  · intro interpolated
    cases interpolated with
    | done =>
      obtain ⟨_, -, -, -, same⟩ := filled
      cases same
    | @filled _ rest' later value' filled' interpolated =>
      obtain ⟨inner, bare, absent, named, rfl⟩ := filled
      obtain ⟨-, named', rfl⟩ := (placeholder_iff absent).1 filled'
      cases named.symm.trans named'
      exact ⟨later, rfl, interpolated⟩
    | kept none => exact absurd filled (none _ _)
  · rintro ⟨later, rfl, interpolated⟩
    exact .filled filled interpolated

theorem interpolated_kept_iff (none : ∀ value rest, ¬ Placeholder slots (c :: cs) value rest) :
    Interpolated slots (c :: cs) out ↔ ∃ later, out = c :: later ∧ Interpolated slots cs later := by
  constructor
  · intro interpolated
    cases interpolated with
    | filled filled => exact absurd filled (none _ _)
    | kept _ interpolated => exact ⟨_, rfl, interpolated⟩
  · rintro ⟨later, rfl, interpolated⟩
    exact .kept none interpolated

/-- A template says what to render. -/
theorem Interpolated.unique {other : List Char} (first : Interpolated slots cs out)
    (second : Interpolated slots cs other) : other = out := by
  induction first generalizing other with
  | done =>
    cases second with
    | done => rfl
    | filled filled =>
      obtain ⟨_, -, -, -, same⟩ := filled
      cases same
  | filled filled _ ih =>
    obtain ⟨later, rfl, rest⟩ := (interpolated_filled_iff filled).1 second
    rw [ih rest]
  | kept none _ ih =>
    obtain ⟨later, rfl, rest⟩ := (interpolated_kept_iff none).1 second
    rw [ih rest]

def Inert (slots : Slots) (cs rest : List Char) : Prop :=
  ∀ before after, cs = before ++ '\x7b' :: after →
    ∀ value rest', ¬ Placeholder slots ('\x7b' :: (after ++ rest)) value rest'

theorem interpolated_append_iff (inert : Inert slots cs rest) :
    Interpolated slots (cs ++ rest) out ↔
      ∃ later, out = cs ++ later ∧ Interpolated slots rest later := by
  induction cs generalizing out with
  | nil => simp
  | cons c cs ih =>
    have none : ∀ value rest', ¬ Placeholder slots (c :: (cs ++ rest)) value rest' := by
      intro value rest'
      by_cases opens : c = '\x7b'
      · subst opens
        exact inert [] cs rfl value rest'
      · exact not_placeholder opens
    have later : Inert slots cs rest := fun before after same =>
      inert (c :: before) after (by rw [same, List.cons_append])
    rw [List.cons_append, interpolated_kept_iff none]
    constructor
    · rintro ⟨tail, rfl, whole⟩
      obtain ⟨more, rfl, interpolated⟩ := (ih later).1 whole
      exact ⟨more, rfl, interpolated⟩
    · rintro ⟨more, rfl, interpolated⟩
      exact ⟨cs ++ more, rfl, (ih later).2 ⟨more, rfl, interpolated⟩⟩

theorem interpolated_unclosed (absent : '\x7d' ∉ cs) : Interpolated slots cs cs := by
  have inert : Inert slots cs [] := by
    rintro before after rfl value rest'
    refine not_placeholder_unclosed fun closes => absent ?_
    exact List.mem_append_right _ (by simpa using closes)
  have whole := (interpolated_append_iff inert).2 ⟨[], rfl, .done⟩
  rwa [List.append_nil] at whole

/-! ## Pieces -/

theorem pieces_text (other : c ≠ '\x7b') : pieces (c :: cs) = .text [c] :: pieces cs := by
  rw [pieces, if_neg other]

theorem pieces_unclosed (absent : '\x7d' ∉ cs) :
    pieces ('\x7b' :: cs) = [.text ('\x7b' :: cs)] := by
  have none := Text.dropWhile_ne_eq_nil.2 absent
  rw [pieces, if_pos rfl]
  split
  · rfl
  · next closes => cases none.symm.trans closes

theorem pieces_hole (absent : '\x7d' ∉ inner) :
    pieces ('\x7b' :: (inner ++ '\x7d' :: after)) = .hole inner :: pieces after := by
  obtain ⟨take, drop⟩ := Text.span_until absent after
  rw [pieces, if_pos rfl]
  split
  · next opens => cases drop.symm.trans opens
  · next closes =>
    cases drop.symm.trans closes
    rw [take]

theorem induction_pieces {motive : List Char → Prop} (done : motive [])
    (text : ∀ c cs, c ≠ '\x7b' → motive cs → motive (c :: cs))
    (unclosed : ∀ cs, '\x7d' ∉ cs → motive ('\x7b' :: cs))
    (hole : ∀ inner after, '\x7d' ∉ inner → motive after →
      motive ('\x7b' :: (inner ++ '\x7d' :: after))) (cs : List Char) : motive cs := by
  induction cs using pieces.induct with
  | case1 => exact done
  | case2 cs opens => exact unclosed cs (Text.dropWhile_ne_eq_nil.1 opens)
  | case3 cs close after closes ih =>
    obtain ⟨inner, absent, rfl⟩ := Text.exists_of_dropWhile_ne closes
    exact hole inner after absent ih
  | case4 c cs other ih => exact text c cs other ih

theorem source_pieces (cs : List Char) : (pieces cs).flatMap Piece.source = cs := by
  induction cs using induction_pieces with
  | done => rw [pieces, List.flatMap_nil]
  | text c cs other ih => rw [pieces_text other, List.flatMap_cons, ih]; rfl
  | unclosed cs absent => rw [pieces_unclosed absent]; simp [Piece.source]
  | hole inner after absent ih =>
    rw [pieces_hole absent, List.flatMap_cons, ih]
    simp [Piece.source]

theorem not_mem_of_hole (member : .hole inner ∈ pieces cs) : '\x7d' ∉ inner := by
  induction cs using induction_pieces with
  | done => simp [pieces] at member
  | text c cs other ih =>
    rw [pieces_text other] at member
    exact ih (by simpa using member)
  | unclosed cs absent => simp [pieces_unclosed absent] at member
  | hole other after absent ih =>
    rw [pieces_hole absent] at member
    rcases List.mem_cons.1 member with same | member
    · cases same
      exact absent
    · exact ih member

theorem fill_hole (slots : Slots) (inner : List Char) : (Piece.hole inner).fill slots =
    (named? slots inner).elim (Piece.hole inner).source fun value => value.display.toList := by
  unfold Piece.fill named?
  dsimp only
  cases slots.get? (Text.trim (String.ofList inner)) <;> rfl

/-! ## Holes and placeholders -/

theorem innermost_append (bare : '\x7b' ∉ inner) :
    innermost (before ++ '\x7b' :: inner) = inner := by
  have bare : '\x7b' ∉ inner.reverse := by simpa using bare
  rw [innermost, List.rtakeWhile, List.reverse_append, List.reverse_cons, List.append_assoc,
    List.singleton_append, (Text.span_until bare _).1, List.reverse_reverse]

theorem exists_innermost (opens : '\x7b' ∈ inner) : ∃ before,
    inner = before ++ '\x7b' :: innermost inner ∧ '\x7b' ∉ innermost inner := by
  obtain ⟨after, before, same, bare⟩ := List.eq_append_cons_of_mem (List.mem_reverse.2 opens)
  have split : inner = before.reverse ++ '\x7b' :: after.reverse := by
    rw [← inner.reverse_reverse, same]
    simp
  have bare : '\x7b' ∉ after.reverse := by simpa using bare
  rw [split, innermost_append bare]
  exact ⟨_, rfl, bare⟩

/-- If a hole is not crossed, its piece is what it should be. -/
theorem interpolated_hole_iff (absent : '\x7d' ∉ inner)
    (uncrossed : ¬ (Piece.hole inner).Crossed slots) :
    Interpolated slots ('\x7b' :: (inner ++ '\x7d' :: after))
      ((Piece.hole inner).fill slots ++ out) ↔ Interpolated slots after out := by
  have crossed (opens : '\x7b' ∈ inner) :
      named? slots inner = none ∧ named? slots (innermost inner) = none := by
    simpa [Piece.Crossed, opens] using uncrossed
  rw [fill_hole]
  cases named : named? slots inner with
  | some value =>
    have bare : '\x7b' ∉ inner := fun opens => by cases named.symm.trans (crossed opens).1
    rw [interpolated_filled_iff ((placeholder_iff absent).2 ⟨bare, named, rfl⟩)]
    simp
  | none =>
    have inert : Inert slots ('\x7b' :: inner) ('\x7d' :: after) := by
      rintro before tail same value rest filled
      have closed : '\x7d' ∉ tail := fun member => by
        have : '\x7d' ∈ '\x7b' :: inner := same ▸ (by simp [member])
        simp [absent] at this
      obtain ⟨bare, named', -⟩ := (placeholder_iff closed).1 filled
      rcases List.cons_eq_append_iff.1 same with ⟨rfl, same⟩ | ⟨before', rfl, rfl⟩
      · cases same
        cases named.symm.trans named'
      · have nothing := (crossed (by simp)).2
        rw [innermost_append bare] at nothing
        cases nothing.symm.trans named'
    have closing : ∀ value rest, ¬ Placeholder slots ('\x7d' :: after) value rest :=
      fun value rest => not_placeholder (by decide)
    calc Interpolated slots ('\x7b' :: inner ++ '\x7d' :: after)
          ((Piece.hole inner).source ++ out)
        ↔ Interpolated slots ('\x7b' :: inner ++ '\x7d' :: after)
            ('\x7b' :: inner ++ '\x7d' :: out) := by simp [Piece.source]
      _ ↔ Interpolated slots ('\x7d' :: after) ('\x7d' :: out) := by
        rw [interpolated_append_iff inert]
        simp
      _ ↔ Interpolated slots after out := by simp [interpolated_kept_iff closing]

/-- If a hole is crossed, its piece is not: a value stands where a brace should be, or a brace where
a value should be. -/
theorem not_interpolated_hole (absent : '\x7d' ∉ inner)
    (crossed : (Piece.hole inner).Crossed slots)
    (shows : ∀ name value, slots.get? name = some value → Shows value) :
    ¬ Interpolated slots ('\x7b' :: (inner ++ '\x7d' :: after))
      ((Piece.hole inner).fill slots ++ out) := by
  obtain ⟨opens, named⟩ := crossed
  obtain ⟨before, split, bare⟩ := exists_innermost opens
  generalize innermost inner = tail at split bare named
  subst split
  have closed : '\x7d' ∉ before ∧ '\x7d' ∉ tail := by simpa using absent
  have inert : Inert slots ('\x7b' :: before) ('\x7b' :: (tail ++ '\x7d' :: after)) := by
    intro before' between same value rest
    refine not_placeholder_open fun member => ?_
    have : '\x7d' ∈ '\x7b' :: before := same ▸ (by simp [member])
    simp [closed.1] at this
  intro interpolated
  rw [fill_hole] at interpolated
  have parts : '\x7b' :: (before ++ '\x7b' :: tail ++ '\x7d' :: after) =
      ('\x7b' :: before) ++ '\x7b' :: (tail ++ '\x7d' :: after) := by simp
  obtain ⟨later, same, interpolated⟩ := (interpolated_append_iff inert).1 (parts ▸ interpolated)
  cases whole : named? slots (before ++ '\x7b' :: tail) with
  | some value =>
    obtain ⟨c, cs, display, other⟩ := shows _ value whole
    simp only [whole, Option.elim_some, display, List.cons_append, List.cons.injEq] at same
    exact other same.1
  | none =>
    obtain ⟨value, inside⟩ : ∃ value, named? slots tail = some value := by
      simpa [whole, Option.isSome_iff_exists] using named
    obtain ⟨c, cs, display, other⟩ := shows _ value inside
    have filled : Placeholder slots ('\x7b' :: (tail ++ '\x7d' :: after)) value after :=
      (placeholder_iff closed.2).2 ⟨bare, inside, rfl⟩
    obtain ⟨more, rfl, -⟩ := (interpolated_filled_iff filled).1 interpolated
    simp only [whole, Option.elim_none, Piece.source, display, List.cons_append, List.append_assoc,
      List.cons.injEq, true_and, List.append_cancel_left_eq] at same
    exact other same.1.symm

/-! ## Templates -/

theorem interpolated_fill (uncrossed : ∀ piece ∈ pieces cs, ¬ piece.Crossed slots) :
    Interpolated slots cs ((pieces cs).flatMap (Piece.fill slots)) := by
  induction cs using induction_pieces with
  | done => rw [pieces]; exact .done
  | text c cs other ih =>
    rw [pieces_text other] at uncrossed ⊢
    exact .kept (fun value rest => not_placeholder other)
      (ih (List.forall_mem_cons.1 uncrossed).2)
  | unclosed cs absent =>
    rw [pieces_unclosed absent, List.flatMap_singleton]
    exact interpolated_unclosed (by simp [absent])
  | hole inner after absent ih =>
    rw [pieces_hole absent] at uncrossed ⊢
    obtain ⟨first, others⟩ := List.forall_mem_cons.1 uncrossed
    exact (interpolated_hole_iff absent first).2 (ih others)

theorem uncrossed_of_interpolated
    (shows : ∀ name value, slots.get? name = some value → Shows value)
    (interpolated : Interpolated slots cs ((pieces cs).flatMap (Piece.fill slots))) :
    ∀ piece ∈ pieces cs, ¬ piece.Crossed slots := by
  induction cs using induction_pieces with
  | done => simp [pieces]
  | text c cs other ih =>
    rw [pieces_text other] at interpolated ⊢
    obtain ⟨later, same, interpolated⟩ :=
      (interpolated_kept_iff fun value rest => not_placeholder other).1 interpolated
    cases same
    exact List.forall_mem_cons.2 ⟨id, ih interpolated⟩
  | unclosed cs absent =>
    rw [pieces_unclosed absent]
    simp [Piece.Crossed]
  | hole inner after absent ih =>
    rw [pieces_hole absent] at interpolated ⊢
    have first : ¬ (Piece.hole inner).Crossed slots := fun crossed =>
      not_interpolated_hole absent crossed shows interpolated
    exact List.forall_mem_cons.2 ⟨first, ih ((interpolated_hole_iff absent first).1 interpolated)⟩

end Template

open Template (Interpolated Piece Shows pieces)

/-- Rendering takes a template apart without loss, each hole up to its first closing brace, and
fills the pieces. If no hole is crossed, the outcome is the one text that has the values in place of
the placeholders. Where all values show, a template with a crossed hole is never rendered so. -/
theorem Templates.render_interpolated (t : Templates) (m : Message) {template : String}
    (found : t.texts.get? m.template = some template) :
    let parts := pieces template.toList
    let rendered := (t.render m).toList
    (parts.flatMap Piece.source = template.toList ∧
      rendered = parts.flatMap (Piece.fill m.slots) ∧
      ∀ inner, Piece.hole inner ∈ parts → '\x7d' ∉ inner) ∧
    ((∀ piece ∈ parts, ¬ piece.Crossed m.slots) →
      ∀ out, Interpolated m.slots template.toList out ↔ out = rendered) ∧
    ((∀ name value, m.slots.get? name = some value → Shows value) →
      Interpolated m.slots template.toList rendered →
        ∀ piece ∈ parts, ¬ piece.Crossed m.slots) := by
  intro parts rendered
  have filled : rendered = parts.flatMap (Piece.fill m.slots) := by
    simp only [rendered, render, found, Template.fill, String.toList_ofList]
    rfl
  refine ⟨⟨Template.source_pieces _, filled, fun _ => Template.not_mem_of_hole⟩,
    fun uncrossed out => ?_, fun shows interpolated => ?_⟩
  · have interpolated := Template.interpolated_fill uncrossed
    rw [filled]
    exact ⟨interpolated.unique, fun same => same ▸ interpolated⟩
  · rw [filled] at interpolated
    exact Template.uncrossed_of_interpolated shows interpolated

namespace Template

def remittance : Slots := .ofList [("amount", .integer 50), ("name", .text "Ana \x7bamount\x7d")]

def receipt : Templates :=
  ⟨.ofList [("sent", "Sent \x7bamount\x7d to \x7b name\x7d, \x7bwho\x7d \x7b")], "?"⟩

theorem render_interpolated_receipt :
    let m : Message := ⟨"sent", none, none, remittance⟩
    let template := "Sent \x7bamount\x7d to \x7b name\x7d, \x7bwho\x7d \x7b"
    receipt.texts.get? "sent" = some template ∧
      (∀ piece ∈ pieces template.toList, ¬ piece.Crossed remittance) ∧
      (∀ name value, remittance.get? name = some value → Shows value) ∧
      receipt.render m = "Sent 50 to Ana \x7bamount\x7d, \x7bwho\x7d \x7b" ∧
      Interpolated remittance template.toList (receipt.render m).toList := by
  intro m template
  have found : receipt.texts.get? "sent" = some template := by decide +kernel
  have uncrossed : ∀ piece ∈ pieces template.toList, ¬ piece.Crossed remittance := by
    decide +kernel
  have shows : ∀ name value, remittance.get? name = some value → Shows value := by
    intro name value given
    have listed := Table.mem_of_get?_ofList given
    simp only [List.mem_cons, List.not_mem_nil, or_false, Prod.mk.injEq] at listed
    obtain ⟨-, rfl⟩ | ⟨-, rfl⟩ := listed
    · exact ⟨'5', ['0'], by decide +kernel, by decide⟩
    · exact ⟨'A', "na \x7bamount\x7d".toList, by decide +kernel, by decide⟩
  obtain ⟨-, interpolates, crosses⟩ := Templates.render_interpolated receipt m found
  have interpolated := (interpolates uncrossed _).2 rfl
  exact ⟨found, crosses shows interpolated, shows, by decide +kernel, interpolated⟩

/-- A brace that opens before a placeholder takes it in, so that it is not filled. -/
theorem placeholder_taken_in :
    let slots : Slots := .ofList [("name", .text "Ana")]
    let template := "\x7ba \x7bname\x7d"
    fill slots template = template ∧ Interpolated slots template.toList "\x7ba Ana".toList ∧
      ¬ Interpolated slots template.toList (fill slots template).toList := by
  intro slots template
  have named : named? slots ['n', 'a', 'm', 'e'] = some (.text "Ana") := by decide +kernel
  have filled : Interpolated slots ['\x7b', 'n', 'a', 'm', 'e', '\x7d'] ['A', 'n', 'a'] :=
    .filled ⟨['n', 'a', 'm', 'e'], by decide, by decide, named, rfl⟩ .done
  have interpolated : Interpolated slots template.toList "\x7ba Ana".toList := by
    have text : template.toList =
        '\x7b' :: 'a' :: ' ' :: ['\x7b', 'n', 'a', 'm', 'e', '\x7d'] := by decide
    have shown : "\x7ba Ana".toList = '\x7b' :: 'a' :: ' ' :: ['A', 'n', 'a'] := by decide
    have opens (value : Value) (rest : List Char) : ¬ Placeholder slots
        ('\x7b' :: (['a', ' '] ++ '\x7b' :: ['n', 'a', 'm', 'e', '\x7d'])) value rest :=
      not_placeholder_open (by decide)
    rw [text, shown]
    exact .kept opens (.kept (fun _ _ => not_placeholder (by decide))
      (.kept (fun _ _ => not_placeholder (by decide)) filled))
  have rendered : fill slots template = template := by decide +kernel
  refine ⟨rendered, interpolated, fun same => ?_⟩
  have : template.toList = "\x7ba Ana".toList := rendered ▸ interpolated.unique same
  exact absurd this (by decide)

end Template

end Colloquy
