import Colloquy.Compile.Error
import Colloquy.Graph.Basic

/-!
From the fields of the steps to what the steps do, and where their loops close: at the step that the
body names last, control goes back to the head. Two loops cannot close at the same step.
-/

set_option autoImplicit false

namespace Colloquy.Compile

open Colloquy.Flow (Step)
open Colloquy.Graph (Activity)

def require (field : String) : Option String → Except Fault String
  | some value => .ok value
  | none => .error (.missingField field)

def predicate (source : String) : Except Fault Predicate :=
  (Predicate.parse source).mapError .condition

-- Checks the fields that the type asks for. Templates that are not given are named after the slot
-- or the step.
def activity (type : StepType) (step : Step) : Except Fault Activity :=
  match type with
  | .collect => do
    let slot ← require "slot" step.slot
    let validation ← step.validation.mapM predicate
    return .collect slot (step.message.getD ("ask_" ++ slot))
      (step.rejection.getD ("invalid_" ++ slot)) validation step.askAlways
  | .action => return .action (← require "call" step.call)
  | .branch => if step.cases.isEmpty then throw (.missingField "cases") else return .branch
  | .confirm => return .confirm step.slot (step.message.getD ("confirm_" ++ step.name))
  | .say => return .say (← require "message" step.message)
  | .loop => do
    let condition ← predicate (← require "condition" step.condition)
    if step.body.isEmpty then throw (.loopBody .empty) else return .loop condition step.body
  | .call => return .call (← require "call" step.call)
  | .link => return .link (← require "call" step.call)

/-- The head that control goes back to from the last step of a body; both by position. -/
structure BackEdge where
  tail : Nat
  head : Nat
  deriving DecidableEq, Repr

/-- The positions of the steps in the body of the loop at `head`. -/
def bodySteps (flow : Flow) (head : Nat) (body : List String) : Except LoopFault (List Nat) :=
  body.mapM fun name =>
    match flow.index? name with
    | none => .error (.unknownStep name)
    | some index => if index = head then .error .itself else .ok index

/-- The back edge of the step at `head`, if it is a loop. -/
def backEdge? (flow : Flow) (head : Nat) : Activity → Except LoopFault (Option BackEdge)
  | .loop _ body => do
    match (← bodySteps flow head body).getLast? with
    | some tail => return some ⟨tail, head⟩
    | none => throw .empty
  | _ => return none

def stepName (flow : Flow) (index : Nat) : String :=
  (flow.steps[index]?).elim Flow.endName (·.name)

-- The back edges of all loops from the step at `head` on, after those already known. An error tells
-- the position of the step that it is about.
def backEdges (flow : Flow) (known : List BackEdge) (head : Nat) :
    List Activity → Except (Nat × Fault) (List BackEdge)
  | [] => .ok known
  | activity :: activities =>
    match backEdge? flow head activity with
    | .error fault => .error (head, .loopBody fault)
    | .ok none => backEdges flow known (head + 1) activities
    | .ok (some edge) =>
      if known.any (·.tail == edge.tail) then .error (edge.tail, .sharedTail)
      else backEdges flow (known ++ [edge]) (head + 1) activities

end Colloquy.Compile
