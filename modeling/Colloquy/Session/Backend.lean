import Colloquy.State.Basic

/-!
What a session relies on: something that understands messages, something that runs actions, and
something that words messages. The first two may keep a state of their own, which is handed on
from call to call.

Messages can be worded by templates. A template is text with holes between braces; a hole that names
a filled slot takes the value of the slot, and every other hole stays as it is.
-/

set_option autoImplicit false

namespace Colloquy

/-- What a session wants shown, where it stands, and the slots that a template may use. -/
structure Message where
  template : String
  flow : Option String
  step : Option String
  slots : Slots
  deriving DecidableEq, Repr

/-- What is known of a turn when its message is to be understood. -/
structure Request where
  text : String
  flow : Option String
  step : Option String
  waiting : Option String
  /-- The slots of the running flow, if one runs. -/
  slots : Option Slots
  history : List Line
  deriving DecidableEq, Repr

/-- A failure that is not the session's own. -/
inductive BackendError where
  | classification (message : String)
  | action (name message : String)
  deriving DecidableEq, Repr

def BackendError.message : BackendError → String
  | classification message => s!"Classification failed: {message}"
  | action name message => s!"Action '{name}' failed: {message}"

structure Backend (σ : Type) where
  classify : Request → σ → Except BackendError Reading × σ
  /-- Runs the action with a name on some slots, and gives new values for slots. -/
  act : String → Slots → σ → Except BackendError (List (String × Value)) × σ
  render : Message → String

namespace Template

/-- A stretch of a template: text, or what stands between an opening brace and the next closing
one. -/
inductive Piece where
  | text (cs : List Char)
  | hole (inner : List Char)
  deriving DecidableEq, Repr

def Piece.source : Piece → List Char
  | text cs => cs
  | hole inner => '\x7b' :: inner ++ ['\x7d']

-- Splits a template into pieces. An opening brace that nothing closes is text.
def pieces : List Char → List Piece
  | [] => []
  | c :: rest =>
    if c = '\x7b' then
      match _h : rest.dropWhile (· ≠ '\x7d') with
      | [] => [.text (c :: rest)]
      | _ :: after => .hole (rest.takeWhile (· ≠ '\x7d')) :: pieces after
    else .text [c] :: pieces rest
termination_by cs => cs.length
decreasing_by
  · have := (List.dropWhile_suffix (fun x => decide (x ≠ '\x7d')) (l := rest)).length_le
    rw [_h] at this
    simp only [List.length_cons] at *
    omega
  · simp

def Piece.fill (slots : Slots) (piece : Piece) : List Char :=
  match piece with
  | text cs => cs
  | hole inner =>
    match slots.get? (Text.trim (String.ofList inner)) with
    | some value => value.display.toList
    | none => piece.source

def fill (slots : Slots) (template : String) : String :=
  String.ofList ((pieces template.toList).flatMap (Piece.fill slots))

end Template

/-- Templates by key, and what is said where a template is missing. -/
structure Templates where
  texts : Table String
  fallback : String
  deriving DecidableEq, Repr

namespace Templates

/-- What is said for a missing template if nothing else is asked for. -/
def apology : String := "Sorry, I didn't get that."

def render (t : Templates) (m : Message) : String :=
  match t.texts.get? m.template with
  | some template => Template.fill m.slots template
  | none => t.fallback

end Templates

end Colloquy
