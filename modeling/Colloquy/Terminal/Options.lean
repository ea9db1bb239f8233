/-! The words of a command line. -/

set_option autoImplicit false

namespace Colloquy.Terminal

structure Options where
  config : Option String := none
  graph : Bool := false
  start : Option String := none
  session : String := "cli"
  snapshot : Option String := none
  deriving DecidableEq, Repr

def usage : String :=
  "Usage: colloquy [--config <FILE>] [--graph] [--start <FLOW>] [--session <ID>] " ++
    "[--snapshot <FILE>] <BOT_PATH>"

namespace Options

def set? (o : Options) (name value : String) : Option Options :=
  match name with
  | "--config" | "-c" => some { o with config := some value }
  | "--start" | "-s" => some { o with start := some value }
  | "--session" => some { o with session := value }
  | "--snapshot" => some { o with snapshot := some value }
  | _ => none

/-- A word as an option with the value joined to it by an equals sign. -/
def joined? (word : String) : Option (String × String) :=
  match word.toList.dropWhile (· ≠ '=') with
  | [] => none
  | _ :: value => some (String.ofList (word.toList.takeWhile (· ≠ '=')), String.ofList value)

/-- Reads options and the one path among them. -/
def read? (o : Options) (path : Option String) : List String → Option (Options × String)
  | [] => path.map (o, ·)
  | word :: words =>
    if word = "--graph" ∨ word = "-g" then read? { o with graph := true } path words
    else if word.startsWith "-" then
      match joined? word with
      | some (name, value) => do read? (← o.set? name value) path words
      | none =>
        match words with
        | value :: words => do read? (← o.set? word value) path words
        | [] => none
    else if path.isSome then none
    else read? o (some word) words

end Options

end Colloquy.Terminal
