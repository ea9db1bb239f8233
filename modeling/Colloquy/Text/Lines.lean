/-!
Lines of text, the white space around them, and keywords in them. A line feed ends a line, alone or
after a carriage return; the last line need not end. Words that differ only in capital and small
letters of ASCII count as the same keyword.
-/

set_option autoImplicit false

namespace Colloquy.Text

/-! ## Lines -/

/-- Cuts behind every line feed. -/
def cutLines : List Char → List (List Char)
  | [] => []
  | '\n' :: rest => ['\n'] :: cutLines rest
  | c :: rest =>
    match cutLines rest with
    | [] => [[c]]
    | line :: lines => (c :: line) :: lines

/-- A line without its end. -/
def chompChars (line : List Char) : List Char :=
  match line.reverse with
  | '\n' :: '\r' :: rest => rest.reverse
  | '\n' :: rest => rest.reverse
  | _ => line

def chomp (line : String) : String :=
  String.ofList (chompChars line.toList)

def lines (s : String) : List String :=
  (cutLines s.toList).map fun line => String.ofList (chompChars line)

/-! ## White space -/

-- The 25 characters with the Unicode property White_Space.
def isBlank (c : Char) : Bool :=
  let n := c.toNat
  (0x9 ≤ n && n ≤ 0xD) || n == 0x20 || n == 0x85 || n == 0xA0 || n == 0x1680 ||
    (0x2000 ≤ n && n ≤ 0x200A) || n == 0x2028 || n == 0x2029 || n == 0x202F || n == 0x205F ||
    n == 0x3000

/-- The characters from the first to the last that is not blank. -/
def trimChars (cs : List Char) : List Char :=
  ((cs.dropWhile isBlank).reverse.dropWhile isBlank).reverse

def trim (s : String) : String :=
  String.ofList (trimChars s.toList)

@[simp] theorem toList_trim (s : String) : (trim s).toList = trimChars s.toList := by
  simp [trim]

/-! ## Keywords -/

-- The text with the letters A to Z made small; every other character stays.
def lower (s : String) : String :=
  String.ofList (s.toList.map Char.toLower)

/-- Whether `s` spells `word`, whatever the case of its ASCII letters. -/
def spells (s word : String) : Bool :=
  lower s == lower word

end Colloquy.Text
