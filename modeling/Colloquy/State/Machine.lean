import Colloquy.State.Basic

/-!
Guarded changes of a state. An update is made as a whole or not at all: the phase may change only
as `Phase.transitions` allows, and the state that results must be consistent.
-/

set_option autoImplicit false

namespace Colloquy

inductive Inconsistency where
  | idleWaiting
  | idlePending
  | waitingForNothing
  | noFlow (phase : Phase)
  | waitingWithoutFlow
  | stack (fault : StackFault)
  deriving DecidableEq, Repr

inductive StateError where
  | transition (source target : Phase)
  | inconsistent (fault : Inconsistency)
  deriving DecidableEq, Repr

def Inconsistency.message : Inconsistency → String
  | idleWaiting => "idle while still waiting for a slot"
  | idlePending => "idle with an unresolved intent change"
  | waitingForNothing => "waiting for a slot without naming one"
  | noFlow phase => s!"{phase.name} with no active flow"
  | waitingWithoutFlow => "waiting for a slot with no active flow"
  | stack fault => (StackError.inconsistent fault).message

def StateError.message : StateError → String
  | transition source target =>
    s!"Illegal conversation state transition from '{source.name}' to '{target.name}'"
  | inconsistent fault => s!"Inconsistent session state: {fault.message}"

namespace State

def phaseFault? (s : State) : Option Inconsistency :=
  match s.phase with
  | .idle =>
    if s.waiting.isSome then some .idleWaiting
    else if s.pending.isSome then some .idlePending
    else none
  | .waitingForSlot =>
    if s.waiting.isNone then some .waitingForNothing
    else if s.stack.isEmpty then some (.noFlow s.phase)
    else none
  | .confirming => if s.stack.isEmpty then some (.noFlow s.phase) else none
  | _ => none

def fault? (s : State) : Option Inconsistency :=
  match s.phaseFault? with
  | some fault => some fault
  | none =>
    if s.waiting.isSome && s.stack.isEmpty then some .waitingWithoutFlow
    else s.stack.fault?.map .stack

/-- The state with no more than the last `window` lines of history. -/
def trim (window : Nat) (s : State) : State :=
  { s with history := s.history.drop (s.history.length - window) }

end State

/-- Changes to a state; what is not given stays as it is. -/
structure Update where
  phase : Option Phase := none
  stack : Option Stack := none
  waiting : Option (Option String) := none
  turns : Option Nat := none
  /-- Whether there is one turn more. -/
  countsTurn : Bool := false
  digressions : Option Nat := none
  pending : Option (Option String) := none
  counts : Option (Table Nat) := none
  /-- Which counters go up. -/
  counters : List String := []
  reading : Option (Option Reading) := none
  response : Option (Option String) := none
  history : Option (List Line) := none
  /-- What is added to the history. -/
  lines : List Line := []
  deriving DecidableEq, Repr

/-- Puts everything of a state in the place of what there was. -/
def Update.replacing (s : State) : Update where
  phase := some s.phase
  stack := some s.stack
  waiting := some s.waiting
  turns := some s.turns
  digressions := some s.digressions
  pending := some s.pending
  counts := some s.counters
  reading := some s.reading
  response := some s.response
  history := some s.history

-- Raises a counter by one, however high it is; one that is not there counts zero.
def Table.count (t : Table Nat) (name : String) : Table Nat :=
  t.insert name ((t.get? name).getD 0 + 1)

-- The state with the changes made, whether it is consistent or not, and whether what is counted
-- fits a word or not.
def Update.apply (u : Update) (window : Nat) (s : State) : State :=
  State.trim window {
    phase := u.phase.getD s.phase
    stack := u.stack.getD s.stack
    waiting := u.waiting.getD s.waiting
    turns := if u.countsTurn then u.turns.getD s.turns + 1 else u.turns.getD s.turns
    digressions := u.digressions.getD s.digressions
    pending := u.pending.getD s.pending
    counters := u.counters.foldl Table.count (u.counts.getD s.counters)
    reading := u.reading.getD s.reading
    response := u.response.getD s.response
    history := u.history.getD s.history ++ u.lines }

/-- A state and how many lines of history it keeps. -/
structure Machine where
  state : State
  window : Nat
  deriving DecidableEq, Repr

namespace Machine

def new (window : Nat) : Machine := ⟨.initial, window⟩

-- A machine in a given state, which need not come about by updates but must be consistent. The
-- state replaces the one of a new machine; whether the phase may change so is not asked.
def restore (state : State) (window : Nat) : Except Inconsistency Machine :=
  let restored := (Update.replacing state).apply window (new window).state
  match restored.fault? with
  | some fault => .error fault
  | none => .ok ⟨restored, window⟩

/-- Whether the update keeps the phase or changes it as the table allows. -/
def permits (m : Machine) (u : Update) : Bool :=
  match u.phase with
  | none => true
  | some phase => phase == m.state.phase || m.state.phase.leadsTo phase

def update (m : Machine) (u : Update) : Except StateError Machine :=
  if m.permits u then
    let state := u.apply m.window m.state
    match state.fault? with
    | some fault => .error (.inconsistent fault)
    | none => .ok ⟨state, m.window⟩
  else .error (.transition m.state.phase (u.phase.getD m.state.phase))

end Machine

end Colloquy
