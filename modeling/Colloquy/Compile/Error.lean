import Colloquy.Condition.Basic

/-! Why a flow cannot be compiled. -/

set_option autoImplicit false

namespace Colloquy.Compile

inductive LoopFault where
  | empty
  | itself
  | unknownStep (name : String)
  deriving DecidableEq, Repr

def LoopFault.message : LoopFault → String
  | empty => "the `do` list is empty"
  | itself => "a loop cannot contain itself"
  | unknownStep name => s!"unknown body step '{name}'"

inductive Fault where
  | reservedName
  | duplicateName
  | unknownType (tag : String)
  | missingField (field : String)
  | unknownTarget (target : String)
  | unknownJump (target : String)
  | caseLabel (label : String)
  | loopBody (fault : LoopFault)
  | sharedTail
  | condition (cause : ConditionError)
  | unknownFlow (target : String)
  deriving DecidableEq, Repr

inductive Error where
  | duplicateFlow (flow : String)
  | step (flow step : String) (fault : Fault)
  deriving DecidableEq, Repr

def Error.message : Error → String
  | duplicateFlow flow => s!"Flow '{flow}' is defined more than once"
  | step flow name fault =>
    match fault with
    | .reservedName =>
      s!"Step name '{name}' in flow '{flow}' is reserved for the terminal marker"
    | .duplicateName => s!"Step '{name}' is defined more than once in flow '{flow}'"
    | .unknownType tag =>
      s!"Step '{name}' in flow '{flow}' has an unregistered step type: '{tag}'"
    | .missingField field =>
      s!"Step '{name}' in flow '{flow}' is missing required field '{field}'"
    | .unknownTarget target => s!"Step '{name}' in flow '{flow}' targets unknown step '{target}'"
    | .unknownJump target => s!"Step '{name}' in flow '{flow}' jumps to unknown step '{target}'"
    | .caseLabel label => s!"Step '{name}' in flow '{flow}' has an invalid case label '{label}'"
    | .loopBody fault => s!"Loop '{name}' in flow '{flow}' has an invalid body: {fault.message}"
    | .sharedTail => s!"Step '{name}' in flow '{flow}' closes more than one loop"
    | .condition cause =>
      s!"Step '{name}' in flow '{flow}' has a malformed condition: {cause.message}"
    | .unknownFlow target => s!"Step '{name}' in flow '{flow}' refers to unknown flow '{target}'"

end Colloquy.Compile
