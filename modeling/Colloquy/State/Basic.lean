import Colloquy.Stack.Basic
import Colloquy.State.Reading

/-! Everything that is known of one conversation. -/

set_option autoImplicit false

namespace Colloquy

/-- What a session is doing. Between turns it is idle, waits for a slot or an answer, or has met an
error. -/
inductive Phase where
  | idle
  | understanding
  | waitingForSlot
  | confirming
  | executingAction
  | generatingResponse
  | error
  deriving DecidableEq, Repr

namespace Phase

def all : List Phase :=
  [idle, understanding, waitingForSlot, confirming, executingAction, generatingResponse, error]

def name : Phase → String
  | idle => "idle"
  | understanding => "understanding"
  | waitingForSlot => "waiting_for_slot"
  | confirming => "confirming"
  | executingAction => "executing_action"
  | generatingResponse => "generating_response"
  | error => "error"

def ofName? (name : String) : Option Phase := all.find? (·.name == name)

theorem ofName?_name (p : Phase) : ofName? p.name = some p := by
  cases p <;> decide

/-- The phases that may follow each phase. -/
def transitions : List (Phase × List Phase) :=
  [(idle, [understanding, error]),
    (understanding,
      [waitingForSlot, confirming, executingAction, generatingResponse, idle, error]),
    (waitingForSlot, [understanding, error]),
    (confirming, [understanding, error]),
    (executingAction, [generatingResponse, error]),
    (generatingResponse, [idle, waitingForSlot, confirming, error]),
    (error, [understanding, idle])]

def leadsTo (source target : Phase) : Bool :=
  transitions.any fun (phase, targets) => phase == source && target ∈ targets

/-- The phases in which a session waits for the user. -/
def isResting : Phase → Bool
  | idle | waitingForSlot | confirming | error => true
  | _ => false

end Phase

inductive Speaker where
  | user
  | assistant
  deriving DecidableEq, Repr

def Speaker.name : Speaker → String
  | user => "user"
  | assistant => "assistant"

structure Line where
  speaker : Speaker
  text : String
  deriving DecidableEq, Repr

/-- What is known about a conversation. Turns, digressions and counters are counted without bound,
where a program may have words of 64 or 32 bits for them: a state in which such words, and those for
ids, have room is in the range `State.InRange`, and a call may lead out of it. -/
structure State where
  phase : Phase
  stack : Stack
  waiting : Option String
  turns : Nat
  /-- How many digressions there have been since the flow last went on. -/
  digressions : Nat
  /-- The flow that the user wants to change to, until they confirm it. -/
  pending : Option String
  counters : Table Nat
  reading : Option Reading
  response : Option String
  /-- What was said last, the oldest first. -/
  history : List Line
  deriving DecidableEq, Repr

namespace State

def initial : State := ⟨.idle, .empty, none, 0, 0, none, .empty, none, none, []⟩

instance : Inhabited State := ⟨initial⟩

def activeFlow? (s : State) : Option String := s.stack.top?.map (·.flow)

end State

end Colloquy
