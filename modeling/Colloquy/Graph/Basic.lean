import Colloquy.Condition.Parser
import Colloquy.Flow.Basic

/-!
Compiled flows: a node for every step, with the guarded edges that leave it in the order in which
they are tried.
-/

set_option autoImplicit false

namespace Colloquy

inductive StepType where
  | collect
  | action
  | branch
  | confirm
  | say
  | loop
  | call
  | link
  deriving DecidableEq, Repr

namespace StepType

def all : List StepType := [collect, action, branch, confirm, say, loop, call, link]

def tag : StepType → String
  | collect => "collect"
  | action => "action"
  | branch => "branch"
  | confirm => "confirm"
  | say => "say"
  | loop => "while"
  | call => "call"
  | link => "link"

def ofTag? (tag : String) : Option StepType := all.find? (·.tag == tag)

end StepType

namespace Graph

/-- Where an edge leads: to a step by its position, or out of the flow. -/
inductive Target where
  | step (index : Nat)
  | finish
  deriving DecidableEq, Repr

/-- When an edge is taken. The two answers to a question are guards of their own. -/
inductive Guard where
  | always
  | when (p : Predicate)
  | unless (p : Predicate)
  | affirmed
  | denied
  | otherwise
  deriving DecidableEq, Repr

structure Edge where
  guard : Guard
  target : Target
  deriving DecidableEq, Repr

inductive Activity where
  | collect (slot prompt rejection : String) (validation : Option Predicate) (askAlways : Bool)
  | action (name : String)
  | branch
  | confirm (slot : Option String) (prompt : String)
  | say (template : String)
  | loop (condition : Predicate) (body : List String)
  | call (flow : String)
  | link (flow : String)
  deriving DecidableEq, Repr

namespace Activity

def type : Activity → StepType
  | collect .. => .collect
  | action _ => .action
  | branch => .branch
  | confirm .. => .confirm
  | say _ => .say
  | loop .. => .loop
  | call _ => .call
  | link _ => .link

/-- The template that asks the user for something. -/
def prompt? : Activity → Option String
  | collect _ prompt .. => some prompt
  | confirm _ prompt => some prompt
  | _ => none

/-- Whether a turn stops at the step until the user answers. -/
def awaitsInput (a : Activity) : Bool := a.prompt?.isSome

/-- The flow that the step hands over to. -/
def flow? : Activity → Option String
  | call flow | link flow => some flow
  | _ => none

end Activity

structure Node where
  name : String
  activity : Activity
  edges : List Edge
  deriving DecidableEq, Repr

end Graph

structure Graph where
  flow : String
  description : String
  nodes : List Graph.Node
  deriving DecidableEq, Repr

namespace Graph

def index? (g : Graph) (name : String) : Option Nat :=
  g.nodes.findIdx? (·.name == name)

def node? (g : Graph) (name : String) : Option Node :=
  (g.index? name).bind (g.nodes[·]?)

def entry (g : Graph) : Target :=
  if g.nodes.isEmpty then .finish else .step 0

def targetName (g : Graph) : Target → String
  | .step index => (g.nodes[index]?).elim Flow.endName Node.name
  | .finish => Flow.endName

-- Whether a guard lets the flow pass. Answers to questions are no matter of slots.
def Guard.passes (slots : Slots) : Guard → Except ConditionError Bool
  | .always | .otherwise => .ok true
  | .when p => p.eval slots
  | .unless p => (p.eval slots).map (!·)
  | .affirmed | .denied => .ok false

-- The target of the first edge whose guard passes.
def firstTarget (slots : Slots) : List Edge → Except ConditionError (Option Target)
  | [] => .ok none
  | edge :: edges => do
    if ← edge.guard.passes slots then return some edge.target
    else firstTarget slots edges

/-- Where the flow goes from a step; nowhere if there is no such step or no edge applies. -/
def next (g : Graph) (step : String) (slots : Slots) : Except ConditionError (Option Target) :=
  match g.node? step with
  | some node => firstTarget slots node.edges
  | none => .ok none

/-- Where the answer to the question of a step leads. -/
def answered (g : Graph) (step : String) (affirmed : Bool) : Option Target := do
  let node ← g.node? step
  let guard := if affirmed then Guard.affirmed else Guard.denied
  let edge ← node.edges.find? (·.guard = guard)
  return edge.target

-- The steps from a target on, as long as only one edge leaves each, and always. A path with more
-- steps than `bound` is given up.
def straight (g : Graph) : Nat → Target → Option (List String)
  | _, .finish => some []
  | 0, .step _ => none
  | bound + 1, .step index => do
    let node ← g.nodes[index]?
    match node.edges with
    | [⟨.always, target⟩] => return node.name :: (← straight g bound target)
    | _ => none

-- The steps of a flow that has no choices. A path with more steps than the flow has passes one of
-- them twice, and so never ends.
def linearPath? (g : Graph) : Option (List String) :=
  g.straight g.nodes.length g.entry

end Graph

end Colloquy
