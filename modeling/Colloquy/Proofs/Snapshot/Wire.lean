import Mathlib.Algebra.Group.Nat.Defs
import Mathlib.Data.List.Forall2
import Colloquy.Snapshot.Wire

/-!
The binary notation reads back what was written. Every reader is followed through what its writer
has written and leaves whatever comes after it, so that readings of records can be put together
from readings of their fields.
-/

set_option autoImplicit false

namespace Colloquy.Wire

variable {α β : Type} {a : α} {b : β} {bytes more : Bytes}

/-- Takes `a` from the front of `bytes`, whatever follows them, and nothing more than that. -/
def Reads (read : Reader α) (a : α) (bytes : Bytes) : Prop :=
  ∀ rest, read (bytes ++ rest) = some (a, rest)

namespace Reads

variable {read : Reader α}

protected theorem pure (a : α) : Reads (pure a) a [] := fun _ => rfl

protected theorem bind {next : α → Reader β} (first : Reads read a bytes)
    (goesOn : Reads (next a) b more) : Reads (read >>= next) b (bytes ++ more) := by
  intro rest
  change (read (bytes ++ more ++ rest)).bind (fun p => next p.1 p.2) = _
  rw [List.append_assoc, first (more ++ rest), Option.bind_some, goesOn rest]

theorem decides {next : α → Reader β} (reads : Reads read a bytes) (result : Reads (next a) b []) :
    Reads (read >>= next) b bytes := by
  have read := reads.bind result
  rwa [List.append_nil] at read

theorem last {make : α → β} (reads : Reads read a bytes) :
    Reads (read >>= fun a => pure (make a)) (make a) bytes :=
  reads.decides (.pure (make a))

end Reads

/-! Bytes and numbers -/

theorem length_littleEndian (width n : Nat) : (littleEndian width n).length = width := by
  induction width generalizing n with
  | zero => rfl
  | succ width ih => rw [littleEndian, List.length_cons, ih]

theorem ofLittleEndian_littleEndian {width n : Nat} (fits : n < 256 ^ width) :
    ofLittleEndian (littleEndian width n) = n := by
  induction width generalizing n with
  | zero =>
    rw [Nat.pow_zero] at fits
    rw [littleEndian, ofLittleEndian]
    omega
  | succ width ih =>
    have rest : n / 256 < 256 ^ width := by
      rw [Nat.pow_succ] at fits
      omega
    rw [littleEndian, ofLittleEndian, ih rest, UInt8.toNat_ofNat']
    omega

theorem reads_take (bytes : Bytes) : Reads (take bytes.length) bytes bytes := by
  intro rest
  simp [take]

theorem reads_fixed {width n : Nat} (fits : n < 256 ^ width) :
    Reads (fixed width) n (littleEndian width n) := by
  have taken := reads_take (littleEndian width n)
  rw [length_littleEndian] at taken
  have made : Reads (fixed width) (ofLittleEndian (littleEndian width n)) (littleEndian width n) :=
    taken.last
  rwa [ofLittleEndian_littleEndian fits] at made

theorem reads_byte (b : UInt8) : Reads byte b.toNat [b] := by
  have read : Reads (fixed 1) b.toNat (littleEndian 1 b.toNat) := reads_fixed b.toNat_lt
  rwa [littleEndian, littleEndian, UInt8.ofNat_toNat] at read

-- A number of four bytes never needs the mark of eight, which its reader does not know.
theorem reads_nat {width n : Nat} (known : width = 4 ∨ width = 8) (fits : n < 256 ^ width) :
    Reads (readNat width) n (nat n) := by
  unfold readNat nat
  split
  · next low =>
    have read : Reads byte n (littleEndian 1 n) :=
      reads_fixed (Nat.lt_of_le_of_lt low (by decide))
    refine read.decides ?_
    rw [if_pos low]
    exact .pure n
  · split
    · next short => exact (reads_byte 251).bind (reads_fixed short)
    · split
      · next short => exact (reads_byte 252).bind (reads_fixed short)
      · next long =>
        rcases known with rfl | rfl
        · exact absurd fits long
        · exact (reads_byte 253).bind (reads_fixed fits)

example : nat 300 = [251, 44, 1] ∧ readNat 8 ([251, 44, 1] ++ [7]) = some (300, [7]) := by decide

theorem reads_int (n : Int64) : Reads readInt n (int n) := by
  have low := n.le_toInt
  have high := n.toInt_lt
  let code := if n.toInt < 0 then 2 * n.toInt.natAbs - 1 else 2 * n.toInt.natAbs
  have fits : code < 256 ^ 8 := by
    simp only [code]
    split <;> omega
  have back : (if code % 2 = 0 then ((code / 2 : Nat) : Int) else -((code / 2 + 1 : Nat) : Int)) =
      n.toInt := by
    by_cases negative : n.toInt < 0
    · have odd : code = 2 * n.toInt.natAbs - 1 := if_pos negative
      rw [if_neg (by omega)]
      omega
    · have even : code = 2 * n.toInt.natAbs := if_neg negative
      rw [if_pos (by omega)]
      omega
  have read : Reads readInt (.ofInt (if code % 2 = 0 then ((code / 2 : Nat) : Int)
      else -((code / 2 + 1 : Nat) : Int))) (nat code) :=
    (reads_nat (.inr rfl) fits).last
  rwa [back, Int64.ofInt_toInt] at read

theorem reads_bool (b : Bool) : Reads readBool b (bool b) := by
  cases b with
  | false => exact (reads_byte 0).bind (.pure false)
  | true => exact (reads_byte 1).bind (.pure true)

theorem reads_option {read : Reader α} {write : α → Bytes} {value : Option α}
    (each : ∀ a ∈ value, Reads read a (write a)) :
    Reads (readOption read) value (option write value) := by
  cases value with
  | none => exact (reads_bool false).bind (.pure none)
  | some a => exact (reads_bool true).bind (each a rfl).last

def Short (s : String) : Prop := s.utf8ByteSize < UInt64.size

instance (s : String) : Decidable (Short s) := inferInstanceAs (Decidable (_ < _))

theorem reads_text {s : String} (short : Short s) : Reads readText s (text s) := by
  let bytes : Bytes := s.toUTF8.data.toList
  have valid : String.fromUTF8? ⟨⟨bytes⟩⟩ = some s := by
    change String.fromUTF8? s.toUTF8 = some s
    rw [String.toUTF8_eq_toByteArray, String.fromUTF8?, dif_pos s.isValidUTF8]
    rfl
  have counted : Reads (readNat 8) bytes.length (nat bytes.length) := reads_nat (.inr rfl) short
  refine counted.bind ((reads_take bytes).decides ?_)
  rw [valid]
  exact .pure s

theorem reads_many {read : Reader α} {write : β → Bytes} {items : List α} {sources : List β}
    (each : List.Forall₂ (fun a b => Reads read a (write b)) items sources) :
    Reads (readMany read sources.length) items (sources.flatMap write) := by
  induction each with
  | nil => exact .pure []
  | cons first _ ih => exact first.bind ih.last

theorem reads_list {read : Reader α} {write : β → Bytes} {items : List α} {sources : List β}
    (each : List.Forall₂ (fun a b => Reads read a (write b)) items sources)
    (countable : sources.length < UInt64.size) :
    Reads (readList read) items (list write sources) :=
  (reads_nat (.inr rfl) countable).bind (reads_many each)

theorem reads_pair {first : Reader α} {second : Reader β} {write : α → Bytes} {write' : β → Bytes}
    (reads : Reads first a (write a)) (reads' : Reads second b (write' b)) :
    Reads (readPair first second) (a, b) (pair write write' (a, b)) :=
  reads.bind reads'.last

theorem reads_choice [DecidableEq α] {all : List α} (member : a ∈ all)
    (few : all.length ≤ UInt32.size) : Reads (readChoice all) a (choice all a) := by
  have within := List.idxOf_lt_length_of_mem member
  refine (reads_nat (.inl rfl) (Nat.lt_of_lt_of_le within few)).decides ?_
  simp only [List.getElem?_eq_getElem within, List.getElem_idxOf]
  exact .pure a

end Colloquy.Wire
