import Colloquy.Value.Basic

/-!
The flows that a session is in the middle of. The frame on top is the one that runs; a call leaves
its caller suspended below, a link leaves nothing. Every frame ever pushed has an id of its own.
-/

set_option autoImplicit false

namespace Colloquy

/-- The life of one invocation of a flow. -/
inductive Status where
  | active
  | suspended
  | completed
  | cancelled
  deriving DecidableEq, Repr

def Status.title : Status → String
  | active => "Active"
  | suspended => "Suspended"
  | completed => "Completed"
  | cancelled => "Cancelled"

/-- One invocation of a flow, with slots of its own. -/
structure Frame where
  flow : String
  id : Nat
  status : Status
  /-- The step that the flow stands at; none before it is entered. -/
  step : Option String
  /-- Where a suspended caller goes on. -/
  resume : Option String
  slots : Slots
  deriving DecidableEq, Repr

namespace Frame

def new (flow : String) (id : Nat) (slots : Slots) : Frame :=
  ⟨flow, id, .active, none, none, slots⟩

def isActive (f : Frame) : Bool := f.status == .active

/-- Puts a caller to sleep at its current step. -/
def suspend (f : Frame) : Frame := { f with status := .suspended, resume := f.step }

/-- Wakes a caller where it was put to sleep. -/
def wake (f : Frame) : Frame := { f with status := .active, step := f.resume, resume := none }

end Frame

inductive StackFault where
  | below (flow : String) (status : Status)
  | cancelledTop (flow : String)
  deriving DecidableEq, Repr

inductive StackError where
  | empty
  | notEmpty (active : String)
  | notActive (flow : String)
  | notCompleted (flow : String)
  | noCaller (flow : String)
  | callerPending (flow : String)
  | inconsistent (fault : StackFault)
  deriving DecidableEq, Repr

def StackFault.message : StackFault → String
  | below flow status =>
    s!"frame '{flow}' below the top is {status.title}, expected suspended"
  | cancelledTop flow => s!"top frame '{flow}' is cancelled"

def StackError.message : StackError → String
  | empty => "The flow stack is empty"
  | notEmpty active => s!"Cannot start a root flow while '{active}' is on the stack"
  | notActive flow => s!"Flow '{flow}' at the top of the stack is not active"
  | notCompleted flow => s!"Flow '{flow}' has not completed and cannot be returned from"
  | noCaller flow => s!"Flow '{flow}' has no caller frame to return to"
  | callerPending flow =>
    s!"Flow '{flow}' was called and must return to its caller instead of finishing"
  | inconsistent fault => s!"Inconsistent flow stack: {fault.message}"

/-- Frames from the top down, and the id of the next one. Ids are numbered without bound, where a
program may have words of 64 bits for them. -/
structure Stack where
  frames : List Frame
  nextId : Nat
  deriving DecidableEq, Repr

namespace Stack

def empty : Stack := ⟨[], 0⟩

instance : Inhabited Stack := ⟨empty⟩

def top? (s : Stack) : Option Frame := s.frames.head?

def depth (s : Stack) : Nat := s.frames.length

def isEmpty (s : Stack) : Bool := s.frames.isEmpty

/-- The slots of the top, none filled if there is no top. -/
def slots (s : Stack) : Slots := s.top?.elim .empty (·.slots)

def onTop (s : Stack) (change : Frame → Frame) : Stack :=
  match s.frames with
  | [] => s
  | top :: below => { s with frames := change top :: below }

/-- A new frame above the given ones. -/
def push (s : Stack) (flow : String) (slots : Slots) (below : List Frame) : Stack :=
  ⟨.new flow s.nextId slots :: below, s.nextId + 1⟩

/-- The top and the frames below it, if the top is active. -/
def activeTop (s : Stack) : Except StackError (Frame × List Frame) :=
  match s.frames with
  | [] => .error .empty
  | top :: below => if top.isActive then .ok (top, below) else .error (.notActive top.flow)

/-- The top and the frames below it, if the top has completed. -/
def completedTop (s : Stack) : Except StackError (Frame × List Frame) :=
  match s.frames with
  | [] => .error .empty
  | top :: below =>
    if top.status = .completed then .ok (top, below) else .error (.notCompleted top.flow)

def start (s : Stack) (flow : String) (slots : Slots) : Except StackError Stack :=
  match s.frames with
  | [] => .ok (s.push flow slots [])
  | top :: _ => .error (.notEmpty top.flow)

/-- Puts the running flow to sleep and begins another above it. -/
def call (s : Stack) (flow : String) : Except StackError Stack := do
  let (top, below) ← s.activeTop
  return s.push flow .empty (top.suspend :: below)

/-- Begins another flow in place of the running one. -/
def link (s : Stack) (flow : String) : Except StackError Stack := do
  let (_, below) ← s.activeTop
  return s.push flow .empty below

-- Marks the running flow as completed; it stays until it is returned from or finished.
def complete (s : Stack) : Except StackError Stack := do
  let (top, below) ← s.activeTop
  return { s with frames := { top with status := .completed } :: below }

/-- Removes a completed flow and wakes its caller. -/
def returnToCaller (s : Stack) : Except StackError (Frame × Stack) := do
  let (top, below) ← s.completedTop
  match below with
  | [] => throw (.noCaller top.flow)
  | caller :: below => return (top, { s with frames := caller.wake :: below })

/-- Removes a completed flow that nothing called. -/
def finish (s : Stack) : Except StackError (Frame × Stack) := do
  let (top, below) ← s.completedTop
  match below with
  | [] => return (top, { s with frames := [] })
  | _ :: _ => throw (.callerPending top.flow)

/-- Removes all frames, the top first. -/
def cancel (s : Stack) : List Frame × Stack :=
  (s.frames.map ({ · with status := .cancelled }), { s with frames := [] })

-- Below the top every frame is suspended, and the top is not cancelled. Of several frames that are
-- wrong the lowest is reported.
def fault? (s : Stack) : Option StackFault :=
  match s.frames with
  | [] => none
  | top :: below =>
    match below.reverse.find? (·.status ≠ .suspended) with
    | some frame => some (.below frame.flow frame.status)
    | none => if top.status = .cancelled then some (.cancelledTop top.flow) else none

end Stack

end Colloquy
