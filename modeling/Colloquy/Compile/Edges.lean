import Colloquy.Compile.Steps
import Colloquy.Text.Lines

/-! The edges that leave each step. -/

set_option autoImplicit false

namespace Colloquy

/-- What becomes of a jump to a step that does not exist. -/
inductive JumpPolicy where
  /-- The flow ends there. -/
  | lenient
  /-- The flow is refused. -/
  | strict
  deriving DecidableEq, Repr

namespace Compile

open Colloquy.Flow (Step Case)
open Colloquy.Graph (Activity Edge Guard Target)

structure Plan where
  flow : Flow
  policy : JumpPolicy
  backEdges : List BackEdge

namespace Plan

/-- The step that follows in the order of the flow. -/
def successor (plan : Plan) (index : Nat) : Target :=
  if index + 1 < plan.flow.steps.length then .step (index + 1) else .finish

/-- The target with a name, if the name is known. -/
def named? (plan : Plan) (name : String) : Option Target :=
  if name = Flow.endName then some .finish else (plan.flow.index? name).map .step

def jumpTarget (plan : Plan) (name : String) : Except Fault Target :=
  match plan.named? name, plan.policy with
  | some target, _ => .ok target
  | none, .lenient => .ok .finish
  | none, .strict => .error (.unknownJump name)

def caseTarget (plan : Plan) (name : String) : Except Fault Target :=
  match plan.named? name with
  | some target => .ok target
  | none => .error (.unknownTarget name)

/-- The head of the loop that closes at a step. -/
def loopHead? (plan : Plan) (index : Nat) : Option Nat :=
  (plan.backEdges.find? (·.tail == index)).map (·.head)

-- Where a step leads by itself: its jump, else back to the loop that it closes, else to what stands
-- after the step at `last`.
def onward (plan : Plan) (index last : Nat) (step : Step) : Except Fault Target :=
  match step.jump with
  | some name => plan.jumpTarget name
  | none =>
    match plan.loopHead? index with
    | some head => .ok (.step head)
    | none => .ok (plan.successor last)

/-- The position of the last step of a loop, head and body, in the order of the flow. -/
def lastOf (plan : Plan) (head : Nat) (body : List String) : Nat :=
  (body.filterMap plan.flow.index?).foldl max head

-- The edges of a branch's cases in order, and the target of the case for everything else. The
-- labels are conditions, or truth values if the branch has a condition of its own.
def caseEdges (plan : Plan) (condition : Option Predicate) (fallback : Option Target) :
    List Case → Except Fault (List Edge × Option Target)
  | [] => .ok ([], fallback)
  | case :: cases => do
    let target ← plan.caseTarget case.target
    let label := Text.trim case.label
    if Text.spells label "else" || Text.spells label "default" then
      if fallback.isSome then throw (.caseLabel label)
      else plan.caseEdges condition (some target) cases
    else
      let guard ←
        match condition with
        | none => (predicate label).map Guard.when
        | some p =>
          if Text.spells label "true" then .ok (.when p)
          else if Text.spells label "false" then .ok (.unless p)
          else .error (.caseLabel label)
      let (edges, fallback) ← plan.caseEdges condition fallback cases
      return (⟨guard, target⟩ :: edges, fallback)

def branchEdges (plan : Plan) (index : Nat) (step : Step) : Except Fault (List Edge) := do
  let condition ← step.condition.mapM predicate
  let (edges, fallback) ← plan.caseEdges condition none step.cases
  let target ←
    match fallback with
    | some target => .ok target
    | none => plan.onward index index step
  return edges ++ [⟨.otherwise, target⟩]

def answer? (label : String) : Option Bool :=
  if Text.spells label "yes" || Text.spells label "affirm" || Text.spells label "true" then
    some true
  else if Text.spells label "no" || Text.spells label "deny" || Text.spells label "false" then
    some false
  else none

/-- The targets of a question's two answers, as far as its cases give them. -/
def answers (plan : Plan) (yes no : Option Target) :
    List Case → Except Fault (Option Target × Option Target)
  | [] => .ok (yes, no)
  | case :: cases => do
    let target ← plan.caseTarget case.target
    let label := Text.trim case.label
    match answer? label with
    | none => throw (.caseLabel label)
    | some true =>
      if yes.isSome then throw (.caseLabel label) else plan.answers (some target) no cases
    | some false =>
      if no.isSome then throw (.caseLabel label) else plan.answers yes (some target) cases

/-- A yes leads on unless a case says otherwise; a no ends the flow. -/
def confirmEdges (plan : Plan) (index : Nat) (step : Step) : Except Fault (List Edge) := do
  let (yes, no) ← plan.answers none none step.cases
  let yes ←
    match yes with
    | some target => .ok target
    | none => plan.onward index index step
  return [⟨.affirmed, yes⟩, ⟨.denied, no.getD .finish⟩]

def loopEdges (plan : Plan) (index : Nat) (step : Step) (condition : Predicate)
    (body : List String) : Except Fault (List Edge) := do
  let some first := (body.head?).bind plan.flow.index? | throw (.loopBody .empty)
  let exit ← plan.onward index (plan.lastOf index body) step
  return [⟨.when condition, .step first⟩, ⟨.otherwise, exit⟩]

def edges (plan : Plan) (index : Nat) (step : Step) : Activity → Except Fault (List Edge)
  | .branch => plan.branchEdges index step
  | .confirm .. => plan.confirmEdges index step
  | .loop condition body => plan.loopEdges index step condition body
  | _ => do return [⟨.always, ← plan.onward index index step⟩]

end Plan

end Compile

end Colloquy
