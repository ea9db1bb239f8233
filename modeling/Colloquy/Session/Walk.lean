import Colloquy.Session.Turn

/-!
Going through flows: steps that need nothing of the user are run one after the other, until one
asks for something or no flow is left. Each step entered counts against a budget; between two
steps only frames are left, so that the walk comes to an end.
-/

set_option autoImplicit false

namespace Colloquy

open Colloquy.Graph (Target Node Activity)

namespace Library

def graph (l : Library) (flow : String) : Except TurnError Graph :=
  match l.get? flow with
  | some graph => .ok graph
  | none => .error (.unknownFlow flow)

/-- Where the flow of a frame goes from a step. -/
def leave (l : Library) (frame : Frame) (step : String) : Except TurnError Target := do
  let graph ← l.graph frame.flow
  match graph.next step frame.slots with
  | .error e => throw (.condition e)
  | .ok none => throw (.noEdge frame.flow step)
  | .ok (some target) => return target

end Library

namespace TurnM

variable {σ : Type}

def leave (l : Library) (top : Frame) (step : String) : TurnM σ Target := do
  let target ← ofExcept id (l.leave top step)
  advanced
  note (.left · step)
  return target

def goFrom (l : Library) (step : String) : TurnM σ (Option Target) := do
  match (← get).stack.top? with
  | none => return none
  | some top => return some (← leave l top step)

/-- Only a flow that is registered and active can come to its end. -/
def checkEnd (l : Library) (top : Frame) : TurnM σ Unit := do
  let _ ← ofExcept id (l.graph top.flow)
  if top.isActive then return else throw (.stack (.notActive top.flow))

-- Follows a target of the flow on top, up to the next step to enter; none if no flow is left. At
-- the end of a flow its caller is woken and goes on from its own step.
def land (l : Library) (top : Frame) : List Frame → Target → TurnM σ (Option Nat)
  | _, .step index => return some index
  | [], .finish => do
    checkEnd l top
    note .ended
    setFrames []
    return none
  | caller :: below, .finish => do
    checkEnd l top
    note (.returned · caller.invocation)
    let caller := caller.wake
    setFrames (caller :: below)
    match caller.step with
    | some step => land l caller below (← leave l caller step)
    | none => land l caller below (← ofExcept id (l.graph caller.flow)).entry

/-- Runs an action on the slots of the running flow; tells whether it succeeded. -/
def act (backend : Backend σ) (action : String) : TurnM σ Bool := do
  update { phase := some .executingAction, waiting := some none }
  let t ← get
  let (result, world) := backend.act action t.stack.slots t.world
  set { t with world }
  note (.acted · action t.stack.slots result.toOption)
  match result with
  | .ok values =>
    fill values
    advanced
    return true
  | .error failure =>
    update { phase := some .error }
    say "action_failed"
    modify fun t => { t with failure := some failure }
    return false

/-- Begins another flow by `push`; the target is its entry. -/
def handOver (l : Library) (flow : String) (push : Stack → String → Except StackError Stack)
    (event : Invocation → Invocation → Event) : TurnM σ Target := do
  let graph ← ofExcept id (l.graph flow)
  let before := (← get).stack
  let stack ← ofExcept .stack (push before flow)
  note (event · ⟨flow, before.nextId⟩)
  setStack stack
  return graph.entry

/-- Carries out the step at which the flow on top stands. The target is what comes next, none if
the turn stops here. -/
def execute (l : Library) (backend : Backend σ) (node : Node) : TurnM σ (Option Target) := do
  match node.activity with
  | .collect slot prompt _ _ askAlways =>
    if ((← get).stack.slots.contains slot) && !askAlways then goFrom l node.name
    else
      say prompt
      return none
  | .confirm _ prompt =>
    say prompt
    return none
  | .say template =>
    say template
    goFrom l node.name
  | .action name => if ← act backend name then goFrom l node.name else return none
  | .branch | .loop .. => goFrom l node.name
  | .call flow => return some (← handOver l flow Stack.call .called)
  | .link flow => return some (← handOver l flow Stack.link .linked)

def enter (l : Library) (backend : Backend σ) (node : Node) : TurnM σ (Option Target) := do
  onTop fun f => { f with step := some node.name }
  note (.entered · node.name)
  execute l backend node

-- Goes on from a target up to the next step to enter; gives its flow, the flow's graph and its
-- position there.
def arrive (l : Library) (target : Target) : TurnM σ (Option (String × Graph × Nat)) := do
  match (← get).stack.frames with
  | [] => return none
  | top :: below =>
    match ← land l top below target with
    | none => return none
    | some index =>
      let flow := ((← get).stack.top?).elim "" (·.flow)
      return some (flow, ← ofExcept id (l.graph flow), index)

/-- Goes on from a target, with `budget` steps left of `limit`. -/
def walk (l : Library) (backend : Backend σ) (limit : Nat) : Nat → Target → TurnM σ Unit
  | 0, target => do
    match ← arrive l target with
    | none => return
    | some (flow, _, _) => throw (.stepLimit flow limit)
  | budget + 1, target => do
    match ← arrive l target with
    | none => return
    | some (flow, graph, index) =>
      match graph.nodes[index]? with
      | none => throw (.missingStep flow (toString index))
      | some node =>
        match ← enter l backend node with
        | none => return
        | some target => walk l backend limit budget target

end TurnM

end Colloquy
