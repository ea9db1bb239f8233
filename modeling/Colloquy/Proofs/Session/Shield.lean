import Colloquy.Proofs.Session.Question

/-!
Whether an open change of flow keeps a message from the running flow. It keeps most from it that are
no answer; what passes is handled as if nothing had been asked.
-/

set_option autoImplicit false

namespace Colloquy

variable {σ : Type}

namespace Reading

def isInert (r : Reading) : Bool :=
  match r.kind with
  | .cancellation | .correction | .modification => false
  | .confirmation => r.polarity?.isNone
  | _ => true

/-- Messages that go to the running flow whether or not a change of flow is open: those that are not
recognized, and those that want the flow that runs. -/
def Passes (r : Reading) (s : State) : Prop :=
  r.kind = .unrecognized ∨
    r.kind = .intentChange ∧ ∃ flow, r.command = some flow ∧ s.activeFlow? = some flow

end Reading

namespace Decision

variable {limit : Nat} {current : Option Graph.Node} {r : Reading} {s : State}

theorem route_of_passes (passes : r.Passes s) : route limit current r s = .proceed := by
  unfold route
  rcases passes with kind | ⟨kind, flow, command, running⟩
  · rw [kind]
  · simp [kind, command, forFlow, running]

theorem isStill_of_isInert {active : String} (open' : s.pending.isSome)
    (running : s.activeFlow? = some active) (inert : r.isInert = true) (stays : ¬ r.Passes s) :
    (route limit current r s).isStill = true := by
  rw [route_of_pending open' running]
  unfold Reading.isInert at inert
  unfold Reading.Passes at stays
  cases kind : r.kind with
  | cancellation | correction | modification => simp [kind] at inert
  | confirmation =>
    have mute : r.polarity? = none := by simpa [kind] using inert
    simp [mute, isStill]
  | digression | clarification | question =>
    dsimp only
    split <;> rfl
  | intentChange =>
    cases command : r.command with
    | none => rfl
    | some flow =>
      have other : active ≠ flow := by
        rintro rfl
        exact stays (.inr ⟨kind, _, command, running⟩)
      simp [other, isStill]
  | unrecognized => simp [kind] at stays
  | continuation => rfl

end Decision

def State.unasked (s : State) (l : Library) : State :=
  { s with
    phase := (l.resting s.stack none).toOption.elim s.phase (·.1)
    pending := none }

theorem Library.Rests.unasked {l : Library} {s : State} (rests : l.Rests s)
    (remain : s.stack.frames ≠ []) : l.Rests (s.unasked l) := by
  obtain ⟨node, stands, waits⟩ := rests.waits.resolve_left remain
  have current : l.currentNode s.stack = .ok (some node) := by
    rw [currentNode_eq fun f found => (rests.upright.top f found).known, stands]
  obtain ⟨phase, chosen, resting, idle, waitingForSlot, confirming⟩ := resting_of_node none current
  have is : (s.unasked l).phase = phase := by simp [State.unasked, chosen, Except.toOption]
  refine rests_of_topNode? (s := s.unasked l) rests.upright stands waits ?_ (is ▸ resting)
    (is ▸ idle) (is ▸ waitingForSlot) (is ▸ confirming)
  rw [show (s.unasked l).waiting = s.waiting from rfl, rests.waiting, stands]
  rfl

/-- How the running flow takes a message does not depend on what is asked about it. -/
theorem Turn.run_proceed_alike {s : Stage σ} {m k : Machine} {world : σ} {r : Reading}
    {text : String} {ran : Except TurnError Unit} {t : Turn σ}
    (runs : (start m world).run (TurnM.proceed s r text) = (ran, t))
    (trimmed : k.state.history.length ≤ k.window) (phase : m.state.phase = k.state.phase)
    (stack : m.state.stack = k.state.stack) (waiting : m.state.waiting = k.state.waiting) :
    ∃ t', (start k world).run (TurnM.proceed s r text) = (ran, t') ∧
      t'.pending = k.state.pending ∧ t'.stack = t.stack ∧ t'.trail = t.trail := by
  have inherited : TurnM.Inherited s.library s.backend fun _ =>
      TurnM.Unseen (·.amid k) id fun _ => k.state.pending :=
    .of_unseen (fun waiting m free => Machine.update_amid trimmed free waiting m)
      (Backend.blind_id _)
  have same : start k world =
      (start m world).veiled (·.amid k) id fun _ => k.state.pending := by
    simp only [start, veiled, Machine.amid_eq phase stack waiting, stack, id]
  rw [same, (inherited.guided s.maxSteps).proceed r text, runs]
  exact ⟨_, rfl, rfl, rfl, rfl⟩

namespace Session

variable {s : Session} {engine : Engine σ} {world : σ} {text : String} {r : Reading}

def unasked (s : Session) (l : Library) : Session :=
  { s with machine := { s.machine with state := s.state.unasked l } }

theorem unasked_alike (named : engine.registry.current.Named)
    (rests : engine.registry.current.Rests s.state) (remain : s.state.stack.frames ≠ [])
    (reads : s.Reads engine world text r) (passes : r.Passes s.state) :
    let free := s.unasked engine.registry.current
    (s.call engine world (.turn text)).trail = (free.call engine world (.turn text)).trail ∧
      ∀ outcome, (s.call engine world (.turn text)).result = .ok outcome →
        (∃ outcome', (free.call engine world (.turn text)).result = .ok outcome') ∧
          (s.call engine world (.turn text)).session.state.stack =
            (free.call engine world (.turn text)).session.state.stack := by
  intro free
  have rests' : engine.registry.current.Rests free.state := rests.unasked remain
  have reads' : free.Reads engine world text r := reads
  have passes' : r.Passes free.state := passes
  obtain ⟨heard, same⟩ := call_of_rests rests reads
  obtain ⟨heard', same'⟩ := call_of_rests rests' reads'
  rw [decision, Decision.route_of_passes passes] at same
  rw [decision, Decision.route_of_passes passes'] at same'
  obtain ⟨ran, t, runs, -, trail, result⟩ := dispatch_cases (d := .proceed)
    (s.heeded engine world text) r text named rests heard rfl rfl (by simp)
  obtain ⟨ran', t', runs', -, trail', result'⟩ := dispatch_cases (d := .proceed)
    (free.heeded engine world text) r text named rests' heard' rfl rfl (by simp)
  obtain ⟨t'', alike, closed, stack, events⟩ := Turn.run_proceed_alike
    (k := free.machine.after (hearing text)) runs (Update.length_apply_history ..) rfl rfl rfl
  cases runs'.symm.trans alike
  rw [same, same']
  refine ⟨trail.trans (events.symm.trans trail'.symm), fun outcome done => ?_⟩
  change (dispatch ..).result = .ok outcome at done
  rw [done] at result
  cases result with
  | done completed _ stack' =>
    obtain ⟨⟨outcome', done'⟩, stack''⟩ := result'.settled completed closed
    refine ⟨⟨outcome', done'⟩, ?_⟩
    simp only [conclude, done, done']
    exact stack'.trans (stack.symm.trans stack''.symm)

theorem still_of_isInert (named : engine.registry.current.Named)
    (rests : engine.registry.current.Rests s.state) (open' : s.state.pending.isSome)
    (reads : s.Reads engine world text r) (inert : r.isInert = true) (stays : ¬ r.Passes s.state) :
    (s.call engine world (.turn text)).session.state.stack = s.state.stack ∧
      (s.call engine world (.turn text)).trail = [] := by
  obtain ⟨active, running⟩ := rests.running open'
  obtain ⟨t₀, t, goes⟩ := goes_of_reads named rests reads
  obtain ⟨stack, trail⟩ := Turn.still_of_moves goes.moves goes.begun
    (Decision.isStill_of_isInert open' running inert stays)
  refine ⟨?_, goes.trail.trans trail⟩
  have closes := goes.closes
  generalize (s.call engine world (.turn text)).result = result at closes
  cases closes with
  | failed _ _ same => exact same
  | refused _ same => exact same
  | done same => exact same.trans (stack.trans goes.stack)

end Session

namespace Conversation

open Script

def unasked (c : Conversation σ) : Conversation σ :=
  { c with session := c.session.unasked c.engine.registry.current }

/-- While a change of flow is open, a message that is no answer leaves the flows alone, unless it is
one that passes to the running flow. That one does to the flows what it would do if no change were
open. -/
theorem shields {dialect : Dialect} {flows : List Flow} {engine : Engine σ}
    (compiled : dialect.compileAll flows = .ok engine.registry.current.graphs) (id : String)
    (world : σ) (calls : List Call) (text : String) (r : Reading) :
    let c := (opened id engine world).after calls
    c.state.pending.isSome → c.session.Reads engine c.world text r → r.isInert = true →
      (¬ r.Passes c.state → (c.next (.turn text)).state.stack = c.state.stack ∧
        (c.reply (.turn text)).trail = []) ∧
      (r.Passes c.state →
        (c.reply (.turn text)).trail = (c.unasked.reply (.turn text)).trail ∧
        ∀ outcome, (c.reply (.turn text)).result = .ok outcome →
          (∃ outcome', (c.unasked.reply (.turn text)).result = .ok outcome') ∧
          (c.next (.turn text)).state.stack = (c.unasked.next (.turn text)).state.stack) := by
  intro c open' reads inert
  obtain ⟨named, rests⟩ := sound_of_calls compiled id world calls
  have same : c.engine = engine := after_engine calls
  rw [← same] at reads
  exact ⟨Session.still_of_isInert named rests open' reads inert,
    Session.unasked_alike named rests (rests.pending open') reads⟩

theorem shields_continued :
    (Dialect.standard .lenient).compileAll [asking, greeting] =
        .ok (offered continues).engine.registry.current.graphs ∧
      (offered continues).state.pending.isSome ∧
      (offered continues).session.Reads (offered continues).engine (offered continues).world "well"
        continues ∧
      continues.isInert = true ∧ ¬ continues.Passes (offered continues).state ∧
      ((offered continues).next (.turn "well")).state.stack = (offered continues).state.stack ∧
      ((offered continues).reply (.turn "well")).trail = [] := by
  have compiled : (Dialect.standard .lenient).compileAll [asking, greeting] =
      .ok (Engine.scripted [asking, greeting]).registry.current.graphs := rfl
  have stays : ¬ continues.Passes (offered continues).state := by
    simp [Reading.Passes, continues, Reading.certain]
  exact ⟨compiled, rfl, rfl, rfl, stays, (shields compiled "script"
    [wants "greet", continues] [.start "ask" .empty, .turn "hello"] "well" continues rfl rfl rfl).1
    stays⟩

def sized : Conversation (List Reading) :=
  (scripted [sizing, greeting] [wants "greet", wants "size"]).after
    [.start "size" .empty, .turn "hello"]

/-- Whoever wants the running flow again while a change is open has answered that flow's question,
with the very words that ask for it. -/
theorem restating_passes :
    (Dialect.standard .lenient).compileAll [sizing, greeting] =
        .ok sized.engine.registry.current.graphs ∧
      sized.state.pending = some "greet" ∧
      sized.session.Reads sized.engine sized.world "size" (wants "size") ∧
      (wants "size").isInert = true ∧
      (∃ outcome, (sized.reply (.turn "size")).result = .ok outcome) ∧
      (sized.next (.turn "size")).state.pending = some "greet" ∧
      sized.state.stack.top?.bind (·.step) = some "width" ∧
      (sized.next (.turn "size")).state.stack.top?.bind (·.step) = some "height" ∧
      (sized.next (.turn "size")).state.stack.top?.bind (·.slots.get? "w") = some (.text "size") :=
  ⟨rfl, rfl, rfl, rfl, ⟨_, rfl⟩, rfl, rfl, rfl, rfl⟩

end Conversation

end Colloquy
