import Colloquy.Json.Basic

/-! Writing JSON text, with no white space. -/

set_option autoImplicit false

namespace Colloquy.Json

def hexDigit (n : Nat) : Char := Nat.digitChar n

-- What a character becomes between quotes: quotes, backslashes and control characters are escaped,
-- and nothing else.
def escape (c : Char) : List Char :=
  if c = '"' then ['\\', '"']
  else if c = '\\' then ['\\', '\\']
  else if c = '\x08' then ['\\', 'b']
  else if c = '\x0c' then ['\\', 'f']
  else if c = '\n' then ['\\', 'n']
  else if c = '\r' then ['\\', 'r']
  else if c = '\t' then ['\\', 't']
  else if c.toNat < 0x20 then
    ['\\', 'u', '0', '0', hexDigit (c.toNat / 16), hexDigit (c.toNat % 16)]
  else [c]

-- Half a surrogate pair stands for a string that is no text.
def writeQuoted : Quoted → List Char
  | some s => '"' :: s.toList.flatMap escape ++ ['"']
  | none => ['"', '\\', 'u', 'd', '8', '0', '0', '"']

mutual

def write : Json → List Char
  | null => ['n', 'u', 'l', 'l']
  | bool true => ['t', 'r', 'u', 'e']
  | bool false => ['f', 'a', 'l', 's', 'e']
  | number n => n.text
  | string s => writeQuoted s
  | array items => '[' :: writeItems items ++ [']']
  | object fields => '\x7b' :: writeFields fields ++ ['\x7d']

def writeItems : List Json → List Char
  | [] => []
  | [item] => write item
  | item :: other :: items => write item ++ ',' :: writeItems (other :: items)

def writeFields : List (Quoted × Json) → List Char
  | [] => []
  | [(name, value)] => writeQuoted name ++ ':' :: write value
  | (name, value) :: other :: fields =>
    writeQuoted name ++ ':' :: write value ++ ',' :: writeFields (other :: fields)

end

def print (j : Json) : String := String.ofList j.write

end Colloquy.Json
