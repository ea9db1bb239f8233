/-! Flows as their authors write them: named steps in order, each with the fields its type asks for. -/

set_option autoImplicit false

namespace Colloquy

namespace Flow

/-- The name that ends a flow wherever a step could be named. -/
def endName : String := "END"

structure Case where
  label : String
  target : String
  deriving DecidableEq, Repr

structure Step where
  name : String := ""
  /-- The step's type, or another word for it. -/
  tag : String := ""
  /-- What a collect step fills; where a confirm step keeps the answer. -/
  slot : Option String := none
  /-- The action of an action step; the flow that a call or link step goes to. -/
  call : Option String := none
  /-- The template shown on entering the step. -/
  message : Option String := none
  /-- The template shown when a value is rejected. -/
  rejection : Option String := none
  cases : List Case := []
  condition : Option String := none
  body : List String := []
  /-- The step that comes next, in place of the one that follows. -/
  jump : Option String := none
  /-- What a collected value must satisfy. -/
  validation : Option String := none
  /-- Whether to ask although the slot is filled. -/
  askAlways : Bool := false
  deriving DecidableEq, Repr

namespace Step

def collect (name slot : String) : Step := { name, tag := "collect", slot := some slot }

def action (name call : String) : Step := { name, tag := "action", call := some call }

def say (name message : String) : Step := { name, tag := "say", message := some message }

def branch (name : String) : Step := { name, tag := "branch" }

def confirm (name : String) : Step := { name, tag := "confirm" }

def loop (name condition : String) (body : List String) : Step :=
  { name, tag := "while", condition := some condition, body }

def callFlow (name flow : String) : Step := { name, tag := "call", call := some flow }

def linkFlow (name flow : String) : Step := { name, tag := "link", call := some flow }

def withCase (step : Step) (label target : String) : Step :=
  { step with cases := step.cases ++ [⟨label, target⟩] }

end Step

end Flow

structure Flow where
  id : String := ""
  description : String := ""
  steps : List Flow.Step := []
  deriving DecidableEq, Repr

namespace Flow

def index? (flow : Flow) (name : String) : Option Nat :=
  flow.steps.findIdx? (·.name == name)

end Flow

end Colloquy
