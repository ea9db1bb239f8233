import Colloquy.Session.Perform

/-!
Sessions. A turn understands a message, decides what becomes of it, carries that out on a copy of
the stack, and commits the result through the state machine. A turn that fails leaves the stack as
it was and the session in the error phase.
-/

set_option autoImplicit false

namespace Colloquy

structure Engine (σ : Type) where
  registry : Registry
  backend : Backend σ
  settings : Settings

structure Outcome where
  responses : List String
  messages : List Message
  /-- None if the message was not understood. -/
  decision : Option Decision
  phase : Phase
  waiting : Option String
  /-- A failure of the backend that the turn survived. -/
  failure : Option BackendError
  deriving DecidableEq, Repr

/-- The place of the running flow: its frame, its step, and how deep it is. -/
structure Place where
  frame : Option Nat
  step : Option String
  depth : Nat
  deriving DecidableEq, Repr

def Stack.place (s : Stack) : Place :=
  ⟨s.top?.map (·.id), s.top?.bind (·.step), s.depth⟩

namespace Library

def currentNode (l : Library) (stack : Stack) : Except TurnError (Option Graph.Node) :=
  match stack.top? with
  | none => .ok none
  | some top => do
    let graph ← l.graph top.flow
    return top.step.bind graph.node?

/-- The phase in which a turn leaves a session, and the slot that it then waits for. -/
def resting (l : Library) (stack : Stack) (pending : Option String) :
    Except TurnError (Phase × Option String) := do
  let node ← l.currentNode stack
  let activity : Option Graph.Activity := node.map (·.activity)
  let waiting :=
    match activity with
    | some (.collect slot ..) => some slot
    | _ => none
  if pending.isSome then return (.confirming, waiting)
  else
    match activity with
    | some (.collect ..) => return (.waitingForSlot, waiting)
    | some (.confirm ..) => return (.confirming, waiting)
    | some _ => return (.error, waiting)
    | none => return (if stack.isEmpty then .idle else .error, waiting)

end Library

namespace Turn

variable {σ : Type}

/-- The number of digressions in a row after a turn from `before`. -/
def digressions (t : Turn σ) (before : State) : Decision → Nat
  | .digress depth | .digressionLimit depth => depth
  | _ =>
    if t.advanced || t.stack.place ≠ before.stack.place then 0
    else t.machine.state.digressions

-- The phase and the slot waited for after a turn from `before`. What only repeats a question
-- changes neither.
def resting (t : Turn σ) (l : Library) (before : State) (d : Decision) :
    Except TurnError (Phase × Option String) :=
  if t.failure.isSome then .ok (.error, none)
  else
    match d with
    | .digress _ | .digressionLimit _ | .reprompt =>
      if before.phase.isResting then .ok (before.phase, before.waiting)
      else l.resting t.stack t.pending
    | _ => l.resting t.stack t.pending

def effects (t : Turn σ) (before : State) (r : Reading) (d : Decision) (waiting : Option String) :
    Update where
  phase := if t.failure.isSome then none else some .generatingResponse
  stack := some t.stack
  waiting := some waiting
  digressions := some (t.digressions before d)
  pending := some t.pending
  counters := d.counter?.toList ++ if t.failure.isSome then ["action_failures"] else []
  reading := some (some r)

/-- The update that records what was answered and lets the session rest. -/
def settlement (responses : List String) (phase : Phase) : Update where
  phase := some phase
  response := some responses.getLast?
  lines := responses.map (Line.mk .assistant)

-- Commits a turn that began in the state `before`. Of a failed commit the machine that is left is
-- given.
def commit (t : Turn σ) (l : Library) (render : Message → String) (before : State) (r : Reading)
    (d : Decision) : Except TurnError Outcome × Machine :=
  match t.resting l before d with
  | .error e => (.error e, t.machine)
  | .ok (phase, waiting) =>
    match t.machine.update (t.effects before r d waiting) with
    | .error e => (.error (.state e), t.machine)
    | .ok machine =>
      let responses := t.messages.map render
      match machine.update (settlement responses phase) with
      | .error e => (.error (.state e), machine)
      | .ok machine => (.ok ⟨responses, t.messages, some d, phase, waiting, t.failure⟩, machine)

end Turn

structure Session where
  id : String
  machine : Machine
  deriving DecidableEq, Repr

/-- How the work of a call ends, before a failed turn is taken back. -/
structure Ending (σ : Type) where
  result : Except TurnError Outcome
  machine : Machine
  world : σ
  trail : List Event := []

/-- What a call of a session gives: its result, the session after it, the backend's state, and what
happened to the flows. -/
structure Reply (σ : Type) where
  result : Except TurnError Outcome
  session : Session
  world : σ
  trail : List Event := []

namespace Session

variable {σ : Type}

def new (id : String) (engine : Engine σ) : Session :=
  ⟨id, .new engine.settings.window⟩

def state (s : Session) : State := s.machine.state

def request (s : State) (text : String) : Request :=
  ⟨text, s.stack.top?.map (·.flow), s.stack.top?.bind (·.step), s.waiting,
    s.stack.top?.map (·.slots), s.history⟩

/-- A message comes in. -/
def hearing (text : String) : Update where
  phase := some .understanding
  countsTurn := true
  lines := [⟨.user, text⟩]

/-- A message could not be understood, and this was answered. -/
def apologizing (response : String) : Update where
  phase := some .error
  response := some (some response)
  lines := [⟨.assistant, response⟩]

-- A turn has failed: the stack and the slot waited for are again as before.
def takingBack (before : State) : Update where
  phase := some .error
  stack := some before.stack
  waiting := some before.waiting

def misunderstood (engine : Engine σ) (machine : Machine) (failure : BackendError) :
    Except TurnError Outcome × Machine :=
  let s := machine.state
  let message : Message :=
    ⟨"error", s.stack.top?.map (·.flow), s.stack.top?.bind (·.step), s.stack.slots⟩
  let response := engine.backend.render message
  match machine.update (apologizing response) with
  | .error e => (.error (.state e), machine)
  | .ok machine =>
    (.ok ⟨[response], [message], none, .error, s.waiting, some failure⟩, machine)

/-- Carries out a decision and commits it; `before` is the state before the turn. -/
def dispatch (engine : Engine σ) (before : State) (machine : Machine) (world : σ) (d : Decision)
    (r : Reading) (text : String) : Ending σ :=
  let library := engine.registry.current
  let stage : Stage σ := ⟨library, engine.backend, engine.settings.maxSteps⟩
  let (result, turn) := (Turn.start machine world).run (TurnM.perform stage r text d)
  match result with
  | .error e => ⟨.error e, turn.machine, turn.world, turn.trail⟩
  | .ok () =>
    let (result, machine) := turn.commit library engine.backend.render before r d
    ⟨result, machine, turn.world, turn.trail⟩

def hear (engine : Engine σ) (machine : Machine) (world : σ) (text : String) : Ending σ :=
  let before := machine.state
  match machine.update (hearing text) with
  | .error e => { result := .error (.state e), machine, world }
  | .ok machine =>
    match engine.backend.classify (request machine.state text) world with
    | (.error failure, world) =>
      let (result, machine) := misunderstood engine machine failure
      { result, machine, world }
    | (.ok reading, world) =>
      match engine.registry.current.currentNode machine.state.stack with
      | .error e => { result := .error e, machine, world }
      | .ok current =>
        let decision :=
          Decision.route engine.settings.maxDigressions current reading machine.state
        dispatch engine before machine world decision reading text

/-- The machine after a failed turn, if the turn can be taken back. -/
def recover (before : State) (machine : Machine) : Machine :=
  match machine.update (takingBack before) with
  | .ok machine => machine
  | .error _ => machine

/-- The session after a turn, with a failed turn taken back. -/
def conclude (s : Session) (ending : Ending σ) : Reply σ :=
  let machine :=
    match ending.result with
    | .ok _ => ending.machine
    | .error _ => recover s.state ending.machine
  ⟨ending.result, { s with machine }, ending.world, ending.trail⟩

def handleTurn (s : Session) (engine : Engine σ) (world : σ) (text : String) : Reply σ :=
  s.conclude (hear engine s.machine world text)

/-- Begins a flow without a message, as if a message had named it. -/
def launch (engine : Engine σ) (machine : Machine) (world : σ) (flow : String) (slots : Slots) :
    Ending σ :=
  let before := machine.state
  match machine.update { phase := some .understanding } with
  | .error e => { result := .error (.state e), machine, world }
  | .ok machine =>
    dispatch engine before machine world (.startFlow flow)
      (.certain .intentChange (some flow) slots.toList) ""

/-- Begins a flow without a message. No flow may be running. -/
def startFlow (s : Session) (engine : Engine σ) (world : σ) (flow : String) (slots : Slots) :
    Reply σ :=
  if engine.registry.current.contains flow then
    match s.state.activeFlow? with
    | some active => { result := .error (.stack (.notEmpty active)), session := s, world }
    | none => s.conclude (launch engine s.machine world flow slots)
  else { result := .error (.unknownFlow flow), session := s, world }

end Session

end Colloquy
