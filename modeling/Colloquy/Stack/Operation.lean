import Colloquy.Stack.Basic

/-!
The operations on a stack, one after the other. They are also written out as changes in place,
where what is done before a failure stays done.
-/

set_option autoImplicit false

namespace Colloquy

namespace Stack

inductive Operation where
  | start (flow : String) (slots : Slots)
  | call (flow : String)
  | link (flow : String)
  | complete
  | returnToCaller
  | finish
  | cancel
  /-- Has the flow on top stand at a step. -/
  | place (step : Option String)
  | fill (slot : String) (value : Value)
  | merge (values : List (String × Value))
  deriving DecidableEq

/-- Whether an operation begins a flow. -/
def Operation.begins : Operation → Bool
  | .start .. | .call _ | .link _ => true
  | _ => false

/-- The frame that an operation has begun, and the stack with it on top. -/
def begun (s : Stack) : List Frame × Stack := (s.top?.toList, s)

/-- The frame that an operation begins or those that it removes, and the stack after it. -/
def apply (s : Stack) : Operation → Except StackError (List Frame × Stack)
  | .start flow slots => (s.start flow slots).map begun
  | .call flow => (s.call flow).map begun
  | .link flow => (s.link flow).map begun
  | .complete => s.complete.map ([], ·)
  | .returnToCaller => s.returnToCaller.map fun (top, s') => ([top], s')
  | .finish => s.finish.map fun (top, s') => ([top], s')
  | .cancel => .ok s.cancel
  | .place step => .ok ([], s.onTop fun f => { f with step })
  | .fill slot value => .ok ([], s.onTop fun f => { f with slots := f.slots.insert slot value })
  | .merge values => .ok ([], s.onTop fun f => { f with slots := f.slots.merge values })

end Stack

/-- Changes of a stack in place, each of which may fail. -/
abbrev StackM := ExceptT StackError (StateM Stack)

namespace StackM

def changeTop (change : Frame → Frame) : StackM Unit := modify (·.onTop change)

/-- Removes the frame on top. -/
def pop : StackM Unit := modify fun s => { s with frames := s.frames.tail }

/-- Puts a new frame on top. -/
def push (flow : String) (slots : Slots) : StackM (List Frame) := do
  modify fun s => s.push flow slots s.frames
  return (← get).top?.toList

/-- The frame on top, if there is nothing wrong with it. -/
def topUnless (wrong? : Frame → Option StackError) : StackM Frame := do
  match (← get).top? with
  | none => throw .empty
  | some top =>
    match wrong? top with
    | some e => throw e
    | none => return top

def activeTop : StackM Frame :=
  topUnless fun top => if top.isActive then none else some (.notActive top.flow)

def completedTop : StackM Frame :=
  topUnless fun top => if top.status = .completed then none else some (.notCompleted top.flow)

def perform : Stack.Operation → StackM (List Frame)
  | .start flow slots => do
    if let some top := (← get).top? then throw (.notEmpty top.flow)
    push flow slots
  | .call flow => do
    let _ ← activeTop
    changeTop Frame.suspend
    push flow .empty
  | .link flow => do
    let _ ← activeTop
    pop
    push flow .empty
  | .complete => do
    let _ ← activeTop
    changeTop ({ · with status := .completed })
    return []
  | .returnToCaller => do
    let top ← completedTop
    if (← get).depth < 2 then throw (.noCaller top.flow)
    pop
    changeTop Frame.wake
    return [top]
  | .finish => do
    let top ← completedTop
    if (← get).depth > 1 then throw (.callerPending top.flow)
    pop
    return [top]
  | .cancel => do
    let frames := (← get).frames
    modify fun s => { s with frames := [] }
    return frames.map ({ · with status := .cancelled })
  | .place step => do
    changeTop ({ · with step })
    return []
  | .fill slot value => do
    changeTop fun f => { f with slots := f.slots.insert slot value }
    return []
  | .merge values => do
    changeTop fun f => { f with slots := f.slots.merge values }
    return []

end StackM

namespace Stack

/-- What an operation gives, and the stack that it leaves, whether it fails or not. -/
def perform (s : Stack) (op : Operation) : Except StackError (List Frame) × Stack :=
  (ExceptT.run (StackM.perform op)).run s

def after (s : Stack) (op : Operation) : Stack := (s.perform op).2

def afterAll (s : Stack) (ops : List Operation) : Stack := ops.foldl after s

/-- The id that an operation hands out. -/
def handed (s : Stack) (op : Operation) : List Nat :=
  match (s.perform op).1 with
  | .ok given => if op.begins then given.map (·.id) else []
  | .error _ => []

/-- The ids that operations hand out, the first one first. -/
def handedAll (s : Stack) : List Operation → List Nat
  | [] => []
  | op :: ops => s.handed op ++ (s.after op).handedAll ops

end Stack

end Colloquy
