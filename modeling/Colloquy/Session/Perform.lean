import Colloquy.Session.Decision
import Colloquy.Session.Walk

/-! Carrying out what was decided about a message. -/

set_option autoImplicit false

namespace Colloquy

open Colloquy.Graph (Target Node Activity)

structure Stage (σ : Type) where
  library : Library
  backend : Backend σ
  maxSteps : Nat

/-- The graph of the running flow, and the position of its current step. -/
structure Position where
  graph : Graph
  step : Option Nat
  deriving DecidableEq, Repr

namespace Library

/-- Where the top of a stack stands; nowhere if the stack is empty. -/
def position (l : Library) (stack : Stack) : Except TurnError (Option Position) :=
  match stack.top? with
  | none => .ok none
  | some top => do
    let graph ← l.graph top.flow
    match top.step with
    | none => return some ⟨graph, none⟩
    | some step =>
      match graph.index? step with
      | some index => return some ⟨graph, some index⟩
      | none => throw (.missingStep top.flow step)

end Library

namespace Graph

def nodeAt (g : Graph) (index : Nat) : Except TurnError Node :=
  match g.nodes[index]? with
  | some node => .ok node
  | none => .error (.missingStep g.flow (toString index))

-- The template for refusing a value, and the rule that the value must satisfy, at the first step
-- that collects a slot.
def owner? (g : Graph) (slot : String) : Option (String × Option Predicate) :=
  g.nodes.findSome? fun node =>
    match node.activity with
    | .collect slot' _ rejection validation _ =>
      if slot' = slot then some (rejection, validation) else none
    | _ => none

end Graph

-- Whether a value may go into a slot beside the other slots. A rule that cannot be applied to the
-- value is not satisfied.
def passes (rule : Option Predicate) (slots : Slots) (slot : String) (value : Value) :
    Except TurnError Bool :=
  match rule with
  | none => .ok true
  | some rule =>
    match rule.eval (slots.insert slot value) with
    | .ok b => .ok b
    | .error (.incomparable ..) => .ok false
    | .error e => .error (.condition e)

namespace TurnM

variable {σ : Type}

def position (l : Library) : TurnM σ (Option Position) := do
  ofExcept id (l.position (← get).stack)

-- The values that the steps which collect their slots accept; the others are answered.
def accepted (graph : Graph) : List (String × Value) → TurnM σ (List (String × Value))
  | [] => return []
  | (slot, value) :: values => do
    match graph.owner? slot with
    | none => return (slot, value) :: (← accepted graph values)
    | some (rejection, rule) =>
      if ← ofExcept id (passes rule (← get).stack.slots slot value) then
        return (slot, value) :: (← accepted graph values)
      else
        say rejection
        accepted graph values

/-- Asks again for what the current step asks for; tells whether it asks for anything. -/
def ask (l : Library) : TurnM σ Bool := do
  match ← position l with
  | some ⟨graph, some index⟩ =>
    match (graph.nodes[index]?).bind (·.activity.prompt?) with
    | some prompt =>
      say prompt
      return true
    | none => return false
  | _ => return false

/-- Repeats the open question: whether to change the flow, or what the current step asks. -/
def reprompt (l : Library) : TurnM σ Unit := do
  match (← get).pending with
  | some flow => propose flow
  | none => if ← ask l then return else say "fallback"

def walkFrom (s : Stage σ) (target : Target) : TurnM σ Unit :=
  walk s.library s.backend s.maxSteps s.maxSteps target

def goOn (s : Stage σ) (step : String) : TurnM σ Unit := do
  match ← goFrom s.library step with
  | some target => walkFrom s target
  | none => return

/-- Fills the slot of a collect step and goes on, or asks again if the value is refused. -/
def offer (s : Stage σ) (node : Node) (value : Value) : TurnM σ Unit := do
  match node.activity with
  | .collect slot prompt rejection rule _ =>
    if ← ofExcept id (passes rule (← get).stack.slots slot value) then
      onTop fun f => { f with slots := f.slots.insert slot value }
      advanced
      goOn s node.name
    else
      say rejection
      say prompt
  | _ => return

def proceed (s : Stage σ) (r : Reading) (text : String) : TurnM σ Unit := do
  match ← position s.library with
  | none => say "fallback"
  | some ⟨graph, none⟩ => walkFrom s graph.entry
  | some ⟨graph, some index⟩ =>
    let node ← ofExcept id (graph.nodeAt index)
    match node.activity with
    | .collect slot .. =>
      match r.slot? slot with
      | some value =>
        fill (← accepted graph (r.slots.filter (·.1 ≠ slot)))
        offer s node value
      | none =>
        if r.slots.isEmpty then offer s node (.infer text)
        else
          fill (← accepted graph r.slots)
          let _ ← ask s.library
    | .confirm _ prompt =>
      fill (← accepted graph r.slots)
      say prompt
    | .action _ => walkFrom s (.step index)
    | _ => goOn s node.name

-- Fills slots again. A value for the slot that is being asked for answers the question.
def revise (s : Stage σ) (slots : List (String × Value)) : TurnM σ Unit := do
  match ← position s.library with
  | none =>
    fill slots
    reprompt s.library
  | some ⟨graph, none⟩ =>
    fill (← accepted graph slots)
    reprompt s.library
  | some ⟨graph, some index⟩ =>
    let node ← ofExcept id (graph.nodeAt index)
    let solicited :=
      match node.activity with
      | .collect slot .. => slots.find? (·.1 = slot)
      | _ => none
    match solicited with
    | some (slot, value) =>
      fill (← accepted graph (slots.filter (·.1 ≠ slot)))
      offer s node value
    | none =>
      fill (← accepted graph slots)
      let _ ← ask s.library

/-- Leaves a step that asks for a confirmation, and goes on. -/
def leaveAnswered (s : Stage σ) (graph : Graph) (step : String) (affirmed : Bool) :
    TurnM σ Unit := do
  match graph.answered step affirmed with
  | some target =>
    note (.left · step)
    walkFrom s target
  | none => throw (.noEdge graph.flow step)

def answer (s : Stage σ) (affirmed : Bool) : TurnM σ Unit := do
  match ← position s.library with
  | some ⟨graph, some index⟩ =>
    let node ← ofExcept id (graph.nodeAt index)
    match node.activity with
    | .confirm slot _ =>
      if let some slot := slot then
        onTop fun f => { f with slots := f.slots.insert slot (.truth affirmed) }
      leaveAnswered s graph node.name affirmed
    | _ => reprompt s.library
  | _ => reprompt s.library

def begin (s : Stage σ) (flow : String) (slots : Slots) : TurnM σ Unit := do
  match s.library.get? flow with
  | none => say "fallback"
  | some graph =>
    setStack (← ofExcept .stack ((← get).stack.start flow slots))
    note .began
    walkFrom s graph.entry

/-- Answers whether to leave the running flow for the one proposed. -/
def answerChange (s : Stage σ) (accepted : Bool) : TurnM σ Unit := do
  match (← get).pending with
  | none => reprompt s.library
  | some flow =>
    modify fun t => { t with pending := none }
    if !accepted then
      let _ ← ask s.library
    else if (← get).stack.isEmpty then begin s flow .empty
    else walkFrom s (← handOver s.library flow Stack.link .changed)

/-- Proposes to leave the running flow for another one. -/
def proposeChange (s : Stage σ) (flow : String) : TurnM σ Unit := do
  if s.library.contains flow then
    modify fun t => { t with pending := some flow }
    propose flow
  else say "fallback"

def cancel : TurnM σ Unit := do
  note .cancelled
  modify fun t => { t with stack := t.stack.cancel.2, pending := none }
  say "cancelled"

def perform (s : Stage σ) (r : Reading) (text : String) : Decision → TurnM σ Unit
  | .proceed => proceed s r text
  | .revise slots => revise s slots
  | .answer affirmed => answer s affirmed
  | .answerChange accepted => answerChange s accepted
  | .reprompt => reprompt s.library
  | .digress _ => do
    say "digression"
    let _ ← ask s.library
  | .digressionLimit _ => do
    say "digression_limit"
    let _ ← ask s.library
  | .proposeChange flow => proposeChange s flow
  | .startFlow flow => begin s flow (.ofList r.slots)
  | .cancel => cancel

end TurnM

end Colloquy
