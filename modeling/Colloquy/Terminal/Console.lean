import Colloquy.Graph.Printer
import Colloquy.Snapshot.Document
import Colloquy.Terminal.Bot
import Colloquy.Terminal.Options

/-!
Conversations in a terminal. Messages are understood by keywords and every action succeeds. The
conversation is a sequence of outputs; reading files and lines and writing the outputs is left to
the program.
-/

set_option autoImplicit false

namespace Colloquy.Terminal

inductive Output where
  | print (text : String)
  | warn (text : String)
  | save (text : String)
  deriving DecidableEq, Repr

structure Stop where
  message : String
  deriving DecidableEq, Repr

def Stop.outputs (s : Stop) : List Output := [.warn ("\nError: " ++ s.message ++ "\n")]

/-- A file that the program was told to read: its text, or the reason why there is none. -/
structure File where
  path : String
  text : Except String String

/-- Why a file that does not exist cannot be read. -/
def File.absent : String := "No such file or directory (os error 2)"

/-- The text of a file that holds something of a certain kind. -/
def File.read (f : File) (kind : String) : Except Stop String :=
  f.text.mapError fun reason => ⟨s!"Failed to read {kind} file '{f.path}': {reason}"⟩

def after? : List Char → List Char → Option (List Char)
  | [], cs => some cs
  | _ :: _, [] => none
  | a :: as, c :: cs => if a = c then after? as cs else none

-- Understands a message by its words.
def understand (text : String) (waiting : Option String) : Reading :=
  let text := Text.trim text
  let small := Text.lower text
  match text.toList with
  | '/' :: flow => .certain .intentChange (some (Text.trim (String.ofList flow))) []
  | cs =>
    if small ∈ ["cancel", "stop", "quit"] then .certain .cancellation none []
    else if small ∈ ["yes", "y", "ok"] then .certain .confirmation (some "yes") []
    else if small ∈ ["no", "n"] then .certain .confirmation (some "no") []
    else if cs.getLast? = some '?' then .certain .question none []
    else
      match after? "actually ".toList small.toList, waiting with
      | some value, some slot =>
        .certain .correction none
          [(slot, .infer (String.ofList (cs.drop (cs.length - value.length))))]
      | _, _ => .certain .continuation none []

/-- The backend keeps the lines that its actions print. -/
def backend (templates : Templates) : Backend (List String) where
  classify request lines := (.ok (understand request.text request.waiting), lines)
  act name slots lines :=
    (.ok [(name ++ "_done", .truth true)],
      lines ++ [s!"  [action] {name} with {slots.size} slot(s)\n"])
  render := templates.render

/-- Reads settings, the usual ones if no text is given. -/
def settings (text : Option String) : Except Stop Settings :=
  match text with
  | none => .ok {}
  | some text => (Settings.parse text).mapError fun e => ⟨"Invalid config: " ++ e.message⟩

def bot (text : String) : Except Stop Bot :=
  match Bot.parse? text with
  | none => .error ⟨"Failed to parse bot JSON:"⟩
  | some bot =>
    if bot.isNamed then .ok bot
    else .error
      ⟨"Failed to convert flows: Invalid custom data: every flow needs a non-empty `id`"⟩

def engine (settings : Settings) (bot : Bot) : Except Stop (Engine (List String)) := do
  let registry ←
    (Registry.ofSettings settings bot.flows).mapError fun e =>
      ⟨"Flow compilation failed: " ++ e.message⟩
  return ⟨registry, backend ⟨bot.templates, Templates.apology⟩, settings⟩

-- The engine for two files; what is wrong with the first is told first.
def load (config : Option File) (botFile : File) : Except Stop (Engine (List String)) := do
  let settings ← settings (← config.mapM (·.read "config"))
  engine settings (← bot (← botFile.read "bot"))

/-- The graphs of all flows, in the order of their ids, with a line between them. -/
def graphs (engine : Engine (List String)) : List Output :=
  engine.registry.current.graphs.toList.map fun (_, graph) => .print (graph.display ++ "\n")

def prompt : Output := .print "you> "

def outcome (o : Outcome) : List Output :=
  o.responses.map (fun response => .print ("bot: " ++ response ++ "\n")) ++
    (o.failure.map fun failure => Output.warn ("  (" ++ failure.message ++ ")\n")).toList

/-- A flow that is begun before anything is read. -/
def start (engine : Engine (List String)) (session : Session) (flow : String) :
    List Output × Except Stop Session :=
  let reply := session.startFlow engine [] flow .empty
  let actions := reply.world.map Output.print
  match reply.result with
  | .ok o => (actions ++ outcome o, .ok reply.session)
  | .error e => (actions, .error ⟨s!"Could not start flow '{flow}': {e.message}"⟩)

/-- All that is done before anything is read. -/
def opening (options : Options) (engine : Engine (List String)) :
    List Output × Except Stop Session :=
  let session := Session.new options.session engine
  match options.start with
  | none => ([prompt], .ok session)
  | some flow =>
    match start engine session flow with
    | (outputs, .ok session) => (outputs ++ [prompt], .ok session)
    | (outputs, .error stop) => (outputs, .error stop)

def line (engine : Engine (List String)) (session : Session) (text : String) :
    List Output × Session :=
  if Text.trim text = "" then ([prompt], session)
  else
    let reply := session.handleTurn engine [] text
    let actions := reply.world.map Output.print
    let written :=
      match reply.result with
      | .ok o => outcome o
      | .error e => [.warn ("Turn failed: " ++ e.message ++ "\n")]
    (actions ++ written ++ [prompt], reply.session)

def padded (width : Nat) (s : String) : String :=
  s ++ String.ofList (List.replicate (width - s.length) ' ')

def summary (session : Session) : List Output :=
  let s := session.state
  let counters := s.counters.toList.map fun (name, count) =>
    Output.print ("  " ++ padded 14 name ++ toString count ++ "\n")
  [.print "\n--- Session Summary ---\n",
    .print s!"Turns:        {s.turns}\n",
    .print s!"Final State:  {s.phase.name}\n"] ++ counters

def save (session : Session) (path : String) : List Output :=
  [.save session.snapshot.print, .print s!"Snapshot written to {path}\n"]

/-- All that is done once nothing is left to read. -/
def closing (options : Options) (session : Session) : List Output :=
  summary session ++ options.snapshot.elim [] (save session)

/-- The lines of a conversation, one after the other. -/
def talk (engine : Engine (List String)) (session : Session) :
    List String → List Output × Session
  | [] => ([], session)
  | text :: texts =>
    let (first, session) := line engine session text
    let (rest, session) := talk engine session texts
    (first ++ rest, session)

/-- A whole conversation in which the user types some lines. -/
def converse (options : Options) (engine : Engine (List String)) (input : List String) :
    List Output × Except Stop Unit :=
  match opening options engine with
  | (outputs, .error stop) => (outputs, .error stop)
  | (outputs, .ok session) =>
    let (answers, session) := talk engine session input
    (outputs ++ answers ++ closing options session, .ok ())

/-- All that the program does with some files and lines, and whether it succeeds. -/
def run (options : Options) (config : Option File) (botFile : File) (input : List String) :
    List Output × Bool :=
  match load config botFile with
  | .error stop => (stop.outputs, false)
  | .ok engine =>
    if options.graph then (graphs engine, true)
    else
      match converse options engine input with
      | (outputs, .ok ()) => (outputs, true)
      | (outputs, .error stop) => (outputs ++ stop.outputs, false)

end Colloquy.Terminal
