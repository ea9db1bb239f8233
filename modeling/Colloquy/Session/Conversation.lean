import Colloquy.Session.Basic

/-! The calls of a session, one after the other. -/

set_option autoImplicit false

namespace Colloquy

variable {σ : Type}

inductive Call where
  | turn (text : String)
  | start (flow : String) (slots : Slots)
  deriving DecidableEq, Repr

def Session.call (s : Session) (engine : Engine σ) (world : σ) : Call → Reply σ
  | .turn text => s.handleTurn engine world text
  | .start flow slots => s.startFlow engine world flow slots

/-- A session and what it runs on. -/
structure Conversation (σ : Type) where
  engine : Engine σ
  session : Session
  world : σ
  /-- What happened to the flows in all calls so far, but for those that failed and were taken
  back. -/
  trail : List Event

namespace Conversation

def opened (id : String) (engine : Engine σ) (world : σ) : Conversation σ :=
  ⟨engine, .new id engine, world, []⟩

def state (c : Conversation σ) : State := c.session.state

def reply (c : Conversation σ) (call : Call) : Reply σ := c.session.call c.engine c.world call

def next (c : Conversation σ) (call : Call) : Conversation σ :=
  let reply := c.reply call
  { c with
    session := reply.session
    world := reply.world
    trail := if reply.result.isOk then c.trail ++ reply.trail else c.trail }

def after (c : Conversation σ) (calls : List Call) : Conversation σ := calls.foldl next c

/-- What the calls of a conversation give, one after the other. -/
def results (c : Conversation σ) : List Call → List (Except TurnError Outcome)
  | [] => []
  | call :: calls => (c.reply call).result :: (c.next call).results calls

/-- What a conversation can come to by calls and by new sets of flows. -/
inductive Reached : Conversation σ → Prop where
  | opened (id : String) (engine : Engine σ) (world : σ) : Reached (opened id engine world)
  | called {c : Conversation σ} (call : Call) : Reached c → Reached (c.next call)
  | reloaded {c : Conversation σ} {flows : List Flow} {registry : Registry} :
      c.engine.registry.reload flows = .ok registry → Reached c →
      Reached { c with engine := { c.engine with registry } }

end Conversation

end Colloquy
