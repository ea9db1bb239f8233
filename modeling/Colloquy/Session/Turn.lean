import Colloquy.Session.Backend
import Colloquy.Session.Library
import Colloquy.State.Machine

/-!
The work of one turn, before it is committed, and a log of what happens to the flows in it. The work
goes on a copy of the stack; of a turn that fails only the state machine and the backend's state are
left.
-/

set_option autoImplicit false

namespace Colloquy

/-- One run of a flow, told apart from all others on the stack by its id. -/
structure Invocation where
  flow : String
  id : Nat
  deriving DecidableEq, Repr

def Frame.invocation (f : Frame) : Invocation := ⟨f.flow, f.id⟩

inductive Event where
  /-- A flow begins on an empty stack. -/
  | began (flow : Invocation)
  | entered (flow : Invocation) (step : String)
  /-- Control goes on from a step. -/
  | left (flow : Invocation) (step : String)
  /-- An action is run on some slots, and gives values for slots unless it fails. -/
  | acted (flow : Invocation) (action : String) (slots : Slots)
      (given : Option (List (String × Value)))
  | called (caller callee : Invocation)
  /-- A link step puts another flow in the place of the running one. -/
  | linked (old new : Invocation)
  /-- The user has agreed to have another flow in the place of the running one. -/
  | changed (old new : Invocation)
  /-- A flow has come to its end, and its caller is woken. -/
  | returned (callee caller : Invocation)
  /-- The last flow has come to its end. -/
  | ended (flow : Invocation)
  | cancelled (flow : Invocation)
  deriving DecidableEq, Repr

inductive TurnError where
  | condition (cause : ConditionError)
  | state (cause : StateError)
  | stack (cause : StackError)
  | unknownFlow (flow : String)
  | missingStep (flow step : String)
  | noEdge (flow step : String)
  | stepLimit (flow : String) (limit : Nat)
  deriving DecidableEq, Repr

def TurnError.message : TurnError → String
  | condition cause => cause.message
  | state cause => cause.message
  | stack cause => cause.message
  | unknownFlow flow => s!"Flow '{flow}' is not registered"
  | missingStep flow step => s!"Step '{step}' does not exist in flow '{flow}'"
  | noEdge flow step => s!"Step '{step}' in flow '{flow}' has no edge that applies"
  | stepLimit flow limit => s!"Flow '{flow}' executed more than {limit} steps in a single turn"

structure Turn (σ : Type) where
  machine : Machine
  world : σ
  stack : Stack
  pending : Option String
  messages : List Message
  /-- The action that failed and so ended the turn. -/
  failure : Option BackendError
  /-- Whether a slot was filled, an action ran, or an edge was followed. -/
  advanced : Bool
  trail : List Event

namespace Turn

variable {σ : Type}

/-- A turn that begins in the state of the machine. -/
def start (machine : Machine) (world : σ) : Turn σ :=
  ⟨machine, world, machine.state.stack, machine.state.pending, [], none, false, []⟩

def message (t : Turn σ) (template : String) : Message :=
  ⟨template, t.stack.top?.map (·.flow), t.stack.top?.bind (·.step), t.stack.slots⟩

end Turn

/-- Steps of a turn, each of which may fail. -/
abbrev TurnM (σ : Type) := ExceptT TurnError (StateM (Turn σ))

/-- Takes the steps from a turn as it stands; a failure does not undo them. -/
def Turn.run {σ α : Type} (t : Turn σ) (steps : TurnM σ α) : Except TurnError α × Turn σ :=
  (ExceptT.run steps).run t

namespace TurnM

variable {σ : Type}

def ofExcept {ε α : Type} (wrap : ε → TurnError) : Except ε α → TurnM σ α
  | .ok a => pure a
  | .error e => throw (wrap e)

def say (template : String) : TurnM σ Unit :=
  modify fun t => { t with messages := t.messages ++ [t.message template] }

/-- Shows the question whether to change to a flow. -/
def propose (flow : String) : TurnM σ Unit :=
  modify fun t =>
    let m := t.message "confirm_intent_change"
    { t with messages := t.messages ++ [{ m with slots := m.slots.insert "target_flow" (.text flow) }] }

def setStack (stack : Stack) : TurnM σ Unit :=
  modify fun t => { t with stack }

def setFrames (frames : List Frame) : TurnM σ Unit :=
  modify fun t => { t with stack := { t.stack with frames } }

def onTop (change : Frame → Frame) : TurnM σ Unit :=
  modify fun t => { t with stack := t.stack.onTop change }

def fill (values : List (String × Value)) : TurnM σ Unit :=
  onTop fun f => { f with slots := f.slots.merge values }

/-- Notes what happens to the running flow. -/
def note (event : Invocation → Event) : TurnM σ Unit :=
  modify fun t => { t with
    trail := t.trail ++ (t.stack.top?.map fun f => event f.invocation).toList }

/-- Notes that the turn has got somewhere. -/
def advanced : TurnM σ Unit :=
  modify fun t => { t with advanced := true }

def update (u : Update) : TurnM σ Unit := do
  let t ← get
  match t.machine.update u with
  | .ok machine => set { t with machine }
  | .error e => throw (.state e)

end TurnM

end Colloquy
