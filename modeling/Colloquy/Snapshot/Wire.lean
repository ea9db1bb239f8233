import Colloquy.Table

/-!
A compact binary notation. Natural numbers take one byte if they are small, and else a mark and two,
four or eight bytes; texts, lists and tables begin with their length; records are their fields one
after the other. Whatever follows a value is left for others.
-/

set_option autoImplicit false

namespace Colloquy.Wire

abbrev Bytes := List UInt8

/-- Takes something from the front of some bytes. -/
abbrev Reader (α : Type) := StateT Bytes Option α

/-- The low bytes of a number, the lowest first. -/
def littleEndian : Nat → Nat → Bytes
  | 0, _ => []
  | width + 1, n => .ofNat n :: littleEndian width (n / 256)

def ofLittleEndian : Bytes → Nat
  | [] => 0
  | byte :: bytes => byte.toNat + 256 * ofLittleEndian bytes

def take (count : Nat) : Reader Bytes := fun bytes =>
  if count ≤ bytes.length then some (bytes.take count, bytes.drop count) else none

def fixed (width : Nat) : Reader Nat := do
  return ofLittleEndian (← take width)

def byte : Reader Nat := fixed 1

/-- The greatest number that is a byte of its own. -/
def small : Nat := 250

def nat (n : Nat) : Bytes :=
  if n ≤ small then littleEndian 1 n
  else if n < UInt16.size then 251 :: littleEndian 2 n
  else if n < UInt32.size then 252 :: littleEndian 4 n
  else 253 :: littleEndian 8 n

-- A number of at most four or eight bytes; the shorter notations need not be used.
def readNat (width : Nat) : Reader Nat := do
  let mark ← byte
  if mark ≤ small then return mark
  else if mark = 251 then fixed 2
  else if mark = 252 then fixed 4
  else if mark = 253 ∧ width = 8 then fixed 8
  else failure

-- Numbers near zero come first, the negative ones between the others.
def int (n : Int64) : Bytes :=
  let n := n.toInt
  nat (if n < 0 then 2 * n.natAbs - 1 else 2 * n.natAbs)

def readInt : Reader Int64 := do
  let n ← readNat 8
  return .ofInt (if n % 2 = 0 then (n / 2 : Nat) else -(n / 2 + 1 : Nat))

def bool (b : Bool) : Bytes := if b then [1] else [0]

def readBool : Reader Bool := do
  match ← byte with
  | 0 => return false
  | 1 => return true
  | _ => failure

def option {α : Type} (write : α → Bytes) : Option α → Bytes
  | none => [0]
  | some a => 1 :: write a

def readOption {α : Type} (read : Reader α) : Reader (Option α) := do
  if ← readBool then return some (← read) else return none

def text (s : String) : Bytes :=
  let bytes := s.toUTF8.data.toList
  nat bytes.length ++ bytes

def readText : Reader String := do
  let bytes ← take (← readNat 8)
  match String.fromUTF8? ⟨⟨bytes⟩⟩ with
  | some s => return s
  | none => failure

def list {α : Type} (write : α → Bytes) (items : List α) : Bytes :=
  nat items.length ++ items.flatMap write

def readMany {α : Type} (read : Reader α) : Nat → Reader (List α)
  | 0 => return []
  | count + 1 => do return (← read) :: (← readMany read count)

def readList {α : Type} (read : Reader α) : Reader (List α) := do
  readMany read (← readNat 8)

def pair {α β : Type} (first : α → Bytes) (second : β → Bytes) (p : α × β) : Bytes :=
  first p.1 ++ second p.2

def readPair {α β : Type} (first : Reader α) (second : Reader β) : Reader (α × β) := do
  return (← first, ← second)

/-- The entries of a table. They may be listed in any order. -/
def entries {α : Type} (write : α → Bytes) (listed : List (String × α)) : Bytes :=
  list (pair text write) listed

-- Of two entries with one name the last one counts.
def readTable {α : Type} (read : Reader α) : Reader (Table α) := do
  return .ofList (← readList (readPair readText read))

/-- The position of a choice among some. -/
def choice {α : Type} [DecidableEq α] (all : List α) (a : α) : Bytes :=
  nat (all.idxOf a)

def readChoice {α : Type} (all : List α) : Reader α := do
  match all[← readNat 4]? with
  | some a => return a
  | none => failure

end Colloquy.Wire
