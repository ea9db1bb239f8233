import Colloquy.Graph.Basic
import Colloquy.State.Basic

/-!
What a message leads to. The decision depends on how the message was understood, on the step that
the flow stands at, and on the state; it changes nothing.
-/

set_option autoImplicit false

namespace Colloquy

inductive Decision where
  /-- The message is for the current step. -/
  | proceed
  /-- Fills slots again and stays at the current step. -/
  | revise (slots : List (String × Value))
  | answer (affirmed : Bool)
  /-- Answers whether to change to another flow. -/
  | answerChange (accepted : Bool)
  | reprompt
  /-- Leaves the topic, for the time `depth` in a row. -/
  | digress (depth : Nat)
  /-- Would leave the topic once too often. -/
  | digressionLimit (depth : Nat)
  /-- Asks whether to leave the running flow for another one. -/
  | proposeChange (flow : String)
  | startFlow (flow : String)
  | cancel
  deriving DecidableEq, Repr

namespace Decision

def forFlow (s : State) (flow : String) : Decision :=
  match s.activeFlow? with
  | none => .startFlow flow
  | some active => if active = flow then .proceed else .proposeChange flow

-- What becomes of a message with no effect of its own: while a change of flow is open it has to be
-- answered first, and a message that names a flow starts it if none runs.
def ordinary (r : Reading) (s : State) : Decision :=
  if s.pending.isSome then .reprompt
  else
    match r.command, r.kind with
    | some flow, .continuation => if s.stack.isEmpty then .startFlow flow else .proceed
    | _, _ => .proceed

def isQuestion : Option Graph.Node → Bool
  | some ⟨_, .confirm .., _⟩ => true
  | _ => false

/-- Routes a message, with at most `limit` digressions in a row. -/
def route (limit : Nat) (current : Option Graph.Node) (r : Reading) (s : State) : Decision :=
  match r.kind with
  | .cancellation => .cancel
  | .correction | .modification =>
    if s.stack.isEmpty then ordinary r s
    else if r.slots.isEmpty then .reprompt
    else .revise r.slots
  | .confirmation =>
    if s.pending.isSome then (r.polarity?).elim .reprompt .answerChange
    else if isQuestion current then (r.polarity?).elim .reprompt .answer
    else ordinary r s
  | .digression | .clarification | .question =>
    if s.digressions < limit then .digress (s.digressions + 1) else .digressionLimit s.digressions
  | .intentChange => (r.command).elim (ordinary r s) (forFlow s)
  | .unrecognized => .proceed
  | .continuation => ordinary r s

def counter? : Decision → Option String
  | revise _ => some "corrections"
  | digress _ => some "digressions"
  | digressionLimit _ => some "digression_limits"
  | reprompt => some "reprompts"
  | cancel => some "cancellations"
  | _ => none

end Decision

end Colloquy
