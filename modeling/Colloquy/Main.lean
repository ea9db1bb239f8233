import Colloquy.Terminal.Console
import Colloquy.Text.Lines

/-! The program: reads the files and the lines, and writes what the conversation gives. -/

set_option autoImplicit false

namespace Colloquy.Terminal

/-- Steps of the program, any of which may stop it. -/
abbrev Program := ExceptT Stop IO

/-- An action whose failure stops the program. -/
def attempt {α : Type} (complaint : String) (action : IO α) : Program α := do
  match ← action.toBaseIO with
  | .ok a => return a
  | .error e => throw ⟨complaint ++ toString e⟩

def emit (snapshot : Option String) : Output → Program Unit
  | .print text => do
    let out ← IO.getStdout
    out.putStr text
    out.flush
  | .warn text => IO.eprint text
  | .save text => do
    if let some path := snapshot then
      attempt s!"Failed to write '{path}': " (IO.FS.writeFile path text)

def emitAll (snapshot : Option String) (outputs : List Output) : Program Unit :=
  outputs.forM (emit snapshot)

def fileAt (path : String) : IO File := do
  match ← (IO.FS.readFile path).toBaseIO with
  | .ok text => return ⟨path, .ok text⟩
  | .error (.noFileOrDirectory ..) => return ⟨path, .error File.absent⟩
  | .error e => return ⟨path, .error (toString e)⟩

/-- Talks with the user until there is nothing more to read. -/
partial def interact (engine : Engine (List String)) (session : Session) : Program Session := do
  let text ← attempt "Failed to read input: " (do (← IO.getStdin).getLine)
  if text.isEmpty then return session
  let (outputs, session) := line engine session (Text.chomp text)
  emitAll none outputs
  interact engine session

def perform (options : Options) (path : String) : Program Unit := do
  let engine ← load (← options.config.mapM fun path => fileAt path) (← fileAt path)
  if options.graph then emitAll none (graphs engine)
  else
    let (outputs, session) := opening options engine
    emitAll none outputs
    emitAll options.snapshot (closing options (← interact engine (← session)))

end Colloquy.Terminal

open Colloquy.Terminal

def main (words : List String) : IO UInt32 := do
  match Options.read? {} none words with
  | none =>
    IO.eprintln usage
    return 2
  | some (options, path) =>
    match ← perform options path with
    | .ok () => return 0
    | .error stop =>
      for output in stop.outputs do
        if let .warn text := output then IO.eprint text
      return 1
