import Colloquy.Compile.Edges
import Colloquy.Table

/-!
Compiling flows. Names are checked first, then the fields of every step, then the loops, and last
the edges; within each of these the steps go in order, and the first fault ends the compilation.
-/

set_option autoImplicit false

namespace Colloquy

open Compile (Fault)
open Colloquy.Flow (Step)
open Colloquy.Graph (Activity Edge Node)

/-- How flows are written: the words for the types of steps, and what becomes of a bad jump. -/
structure Dialect where
  types : Table StepType
  policy : JumpPolicy
  deriving DecidableEq

namespace Dialect

def standard (policy : JumpPolicy) : Dialect :=
  ⟨.ofList (StepType.all.map fun type => (type.tag, type)), policy⟩

/-- Lets `word` stand for the type with the usual word `tag`; nothing if there is none. -/
def synonym (d : Dialect) (word tag : String) : Dialect :=
  match StepType.ofTag? tag with
  | some type => { d with types := d.types.insert word type }
  | none => d

/-- The type that a step's word stands for, as it is or in small letters. -/
def type? (d : Dialect) (word : String) : Option StepType :=
  d.types.get? word <|> d.types.get? (Text.lower word)

def activity (d : Dialect) (step : Step) : Except Fault Activity :=
  match d.type? step.tag with
  | some type => Compile.activity type step
  | none => .error (.unknownType step.tag)

end Dialect

namespace Compile

/-- Names the flow and the step that a fault is in. -/
def inStep {α : Type} (flow step : String) : Except Fault α → Except Error α
  | .ok a => .ok a
  | .error fault => .error (.step flow step fault)

/-- Step names are not the end marker, and each differs from those before it. -/
def checkNames (flow : String) (seen : List String) : List Step → Except Error Unit
  | [] => .ok ()
  | step :: steps =>
    if step.name = Flow.endName then .error (.step flow step.name .reservedName)
    else if step.name ∈ seen then .error (.step flow step.name .duplicateName)
    else checkNames flow (step.name :: seen) steps

/-- The nodes of the steps from position `index` on, with what they do. -/
def nodes (plan : Plan) (index : Nat) : List (Step × Activity) → Except Error (List Node)
  | [] => .ok []
  | (step, activity) :: steps => do
    let edges ← inStep plan.flow.id step.name (plan.edges index step activity)
    return ⟨step.name, activity, edges⟩ :: (← nodes plan (index + 1) steps)

end Compile

open Compile in
/-- The graph of one flow. Whether the flows that it calls exist is not asked here. -/
def Dialect.compile (d : Dialect) (flow : Flow) : Except Compile.Error Graph := do
  checkNames flow.id [] flow.steps
  let activities ← flow.steps.mapM fun step => inStep flow.id step.name (d.activity step)
  let backEdges ←
    match Compile.backEdges flow [] 0 activities with
    | .ok edges => .ok edges
    | .error (index, fault) => .error (.step flow.id (stepName flow index) fault)
  let nodes ← Compile.nodes ⟨flow, d.policy, backEdges⟩ 0 (flow.steps.zip activities)
  return ⟨flow.id, flow.description, nodes⟩

namespace Compile

def duplicate? (seen : List String) : List String → Option String
  | [] => none
  | id :: ids => if id ∈ seen then some id else duplicate? (id :: seen) ids

/-- Every call and link of the nodes goes to one of the flows. -/
def checkFlows (flow : String) (ids : List String) : List Node → Except Error Unit
  | [] => .ok ()
  | node :: nodes =>
    match node.activity.flow? with
    | some target =>
      if target ∈ ids then checkFlows flow ids nodes
      else .error (.step flow node.name (.unknownFlow target))
    | none => checkFlows flow ids nodes

end Compile

/-- The graphs of a set of flows, by id. The ids differ, and calls stay within the set. -/
def Dialect.compileAll (d : Dialect) (flows : List Flow) : Except Compile.Error (Table Graph) := do
  let ids := flows.map (·.id)
  if let some id := Compile.duplicate? [] ids then throw (.duplicateFlow id)
  let graphs ← flows.mapM fun flow => do
    let graph ← d.compile flow
    Compile.checkFlows flow.id ids graph.nodes
    return (flow.id, graph)
  return .ofList graphs

end Colloquy
