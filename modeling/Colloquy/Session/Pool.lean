import Colloquy.Snapshot.Basic

/-! Many sessions side by side, each opened when it is first needed. -/

set_option autoImplicit false

namespace Colloquy

structure Pool where
  sessions : Table Session
  deriving DecidableEq

namespace Pool

variable {σ : Type}

def empty : Pool := ⟨.empty⟩

def ids (p : Pool) : List String := p.sessions.names

def size (p : Pool) : Nat := p.sessions.size

def isEmpty (p : Pool) : Bool := p.sessions.isEmpty

def session (p : Pool) (engine : Engine σ) (id : String) : Session :=
  (p.sessions.get? id).getD (.new id engine)

def put (p : Pool) (id : String) (s : Session) : Pool := ⟨p.sessions.insert id s⟩

def enroll (p : Pool) (engine : Engine σ) (id : String) : Pool := p.put id (p.session engine id)

/-- What a call of a pool gives: its result, the pool after it, and the backend's state. -/
structure Reply (σ α : Type) where
  result : α
  pool : Pool
  world : σ

def handleTurn (p : Pool) (engine : Engine σ) (world : σ) (id text : String) :
    Reply σ (Except TurnError Outcome) :=
  let reply := (p.session engine id).handleTurn engine world text
  ⟨reply.result, p.put id reply.session, reply.world⟩

def handleTurns (p : Pool) (engine : Engine σ) (world : σ) (id : String) :
    List String → Reply σ (List (String × Except TurnError Outcome))
  | [] => ⟨[], p.enroll engine id, world⟩
  | text :: texts =>
    let first := p.handleTurn engine world id text
    let rest := first.pool.handleTurns engine first.world id texts
    { rest with result := (id, first.result) :: rest.result }

/-- Adds a text to those of its id. -/
def addTo (groups : List (String × List String)) (id text : String) : List (String × List String) :=
  match groups with
  | [] => [(id, [text])]
  | group :: groups =>
    if group.1 = id then (id, group.2 ++ [text]) :: groups else group :: addTo groups id text

/-- The texts of each id in their order, with the ids in the order of their first text. -/
def group (turns : List (String × String)) : List (String × List String) :=
  turns.foldl (fun groups turn => addTo groups turn.1 turn.2) []

def handleGroups (p : Pool) (engine : Engine σ) (world : σ) :
    List (String × List String) → Reply σ (List (String × Except TurnError Outcome))
  | [] => ⟨[], p, world⟩
  | (id, texts) :: groups =>
    let first := p.handleTurns engine world id texts
    let rest := first.pool.handleGroups engine first.world groups
    { rest with result := first.result ++ rest.result }

-- Turns of several users. Those of one user keep their order; users come in the order of their
-- first turns.
def handleBatch (p : Pool) (engine : Engine σ) (world : σ) (turns : List (String × String)) :
    Reply σ (List (String × Except TurnError Outcome)) :=
  p.handleGroups engine world (group turns)

def snapshot? (p : Pool) (id : String) : Option Snapshot :=
  (p.sessions.get? id).map (·.snapshot)

/-- Takes up a session in place of the one with its id. -/
def restore (p : Pool) (engine : Engine σ) (snapshot : Snapshot) : Except Inconsistency Pool := do
  let session ← Session.restore engine snapshot
  return p.put session.id session

def remove (p : Pool) (id : String) : Pool := ⟨p.sessions.erase id⟩

end Pool

end Colloquy
