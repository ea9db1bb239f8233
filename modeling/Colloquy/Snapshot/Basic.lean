import Colloquy.Session.Basic

/-! Sessions put away and taken up again. -/

set_option autoImplicit false

namespace Colloquy

structure Snapshot where
  id : String
  state : State
  deriving DecidableEq, Repr

namespace Session

variable {σ : Type}

def snapshot (s : Session) : Snapshot := ⟨s.id, s.state⟩

-- Takes up a session; its state must be consistent, but its flows need not exist.
def restore (engine : Engine σ) (snapshot : Snapshot) : Except Inconsistency Session := do
  return ⟨snapshot.id, ← Machine.restore snapshot.state engine.settings.window⟩

end Session

/-- What is said of a snapshot whose state is inconsistent. -/
def Snapshot.refusal (fault : Inconsistency) : String :=
  "Snapshot does not describe a valid session: " ++ (StateError.inconsistent fault).message

-- Whether two values are the same where numbers count by their size: the zeros are the same, and
-- what is no number is not even the same as itself.
def Value.agrees : Value → Value → Bool
  | .real x, .real y => x.compare? y == some .eq
  | a, b => a == b

/-- Whether two lists of named values are the same in this way. -/
def agreeing (a b : List (String × Value)) : Bool :=
  a.isEqv b fun a b => a.1 == b.1 && a.2.agrees b.2

def Frame.agrees (a b : Frame) : Bool :=
  { a with slots := .empty } == { b with slots := .empty } &&
    agreeing a.slots.toList b.slots.toList

def Reading.agrees (a b : Reading) : Bool :=
  a.kind == b.kind && a.command == b.command && agreeing a.slots b.slots &&
    a.confidence.compare? b.confidence == some .eq

def Snapshot.agrees (a b : Snapshot) : Bool :=
  let bare (s : State) : State := { s with stack := { s.stack with frames := [] }, reading := none }
  a.id == b.id && bare a.state == bare b.state &&
    a.state.stack.frames.isEqv b.state.stack.frames Frame.agrees &&
    (match a.state.reading, b.state.reading with
      | some a, some b => a.agrees b
      | a, b => a.isNone && b.isNone)

end Colloquy
