import Colloquy.Proofs.Session.Carrying
import Colloquy.Proofs.Turn.Attempts
import Colloquy.Proofs.Session.Invariant

/-!
Actions that fail. The turn ends at the step whose action has failed, and nothing of what it did
before is lost; asides leave that alone, and the next message for the flow has the action run again,
before anything else.
-/

set_option autoImplicit false

namespace Colloquy

variable {σ : Type}

namespace Turn

variable {l : Library} {s : Stage σ} {t : Turn σ} {top : Frame} {below : List Frame} {graph : Graph}
  {index budget : Nat} {node : Graph.Node} {action : String}

theorem stack_entering (place : t.Stands l top below graph index node) :
    (t.entering top below node).stack = t.stack := by
  have here : { top with step := some node.name } = top := by
    rw [← Library.step_of_node? place.node]
  simp only [entering, onto, here, ← place.frames]

theorem run_proceed_action (place : t.Stands s.library top below graph index node)
    (found : s.library.position t.stack = .ok (some ⟨graph, some index⟩))
    (activity : node.activity = .action action) (left : s.maxSteps = budget + 1) (r : Reading)
    (text : String) :
    t.run (TurnM.perform s r text .proceed) =
      (t.entering top below node).run
        (TurnM.carryOn s.library s.backend s.maxSteps budget node) := by
  have lead : t.run (TurnM.perform s r text .proceed) = _ :=
    (run_position found _).trans (run_nodeAt place.member _)
  simp only [activity] at lead
  have walks := run_walk_step s.backend place.frames place.known place.member s.maxSteps budget
  rw [← left] at walks
  exact lead.trans walks

end Turn

def Outcome.isAside (outcome : Outcome) : Bool := outcome.decision.all Decision.isQuiet

namespace Session

variable {engine : Engine σ} {s : Session} {world : σ} {call : Call} {text action : String}
  {r : Reading} {outcome : Outcome} {top : Frame} {node : Graph.Node}

/-- A call comes to a step that runs an action: it enters the step in a turn as `t` stands, and
what it does is to carry that step out, and to go on from there. -/
structure Attempts (s : Session) (engine : Engine σ) (world : σ) (call : Call) (top : Frame)
    (node : Graph.Node) (action : String) (earlier : List Event) (t : Turn σ) : Prop where
  enters : t.AtAction engine.registry.current top node action earlier
  comes : ∃ d r text m world' budget, s.Carries engine world call d r text m world' ∧
    (Turn.start m world').run (TurnM.perform engine.stage r text d) =
      t.run (TurnM.carryOn engine.registry.current engine.backend engine.settings.maxSteps budget
        node)

/-- A call whose action fails leaves the session as it stands at that action. -/
theorem exists_attempts (named : engine.registry.current.Named)
    (rests : engine.registry.current.Rests s.state)
    (done : (s.call engine world call).result = .ok outcome) (decided : outcome.decision.isSome)
    (failed : outcome.failure.isSome) :
    0 < engine.settings.maxSteps ∧ ∃ top node action earlier t,
      s.Attempts engine world call top node action earlier t ∧
      (s.call engine world call).session.state.stack = t.stack ∧
      (s.call engine world call).trail =
        t.trail ++ [.acted top.invocation action top.slots none] := by
  obtain ⟨d, decided⟩ := Option.isSome_iff_exists.1 decided
  obtain ⟨r, text, m, world', carries⟩ := exists_carries rests done decided
  obtain ⟨t', upshot, comes⟩ := carries.comes done
  have failed : t'.failure.isSome := comes.failure ▸ failed
  cases upshot with
  | stayed shown here =>
    rw [here.failure] at failed
    cases failed
  | cancelled _ _ _ same =>
    rw [same] at failed
    cases failed
  | went outset lead walked =>
    obtain ⟨room, t, top, node, action, earlier, budget, here, same, stack, trail⟩ :=
      Turn.exists_failing named outset.failure_eq failed walked
    exact ⟨room, top, node, action, earlier, t,
      ⟨here, _, _, _, _, _, budget, carries, lead.trans same⟩, comes.stack.trans stack,
      comes.trail.trans trail⟩

theorem dispatch_trail {before : State} {m : Machine} {d : Decision} :
    (dispatch engine before m world d r text).trail =
      ((Turn.start m world).run (TurnM.perform engine.stage r text d)).2.trail := by
  simp only [dispatch]
  cases (Turn.start m world).run (TurnM.perform engine.stage r text d) with
  | mk result t => cases result <;> rfl

/-- A session that rests at an action runs it again when a message goes to the flow. -/
theorem attempts_of_rests (rests : engine.registry.current.Rests s.state)
    (running : s.state.stack.top? = some top)
    (stands : engine.registry.current.node? top = some node)
    (activity : node.activity = .action action) (room : 0 < engine.settings.maxSteps)
    (reads : s.Reads engine world text r) (proceeds : s.decision engine r = .proceed) :
    ∃ t rest, s.Attempts engine world (.turn text) top node action [] t ∧
      t.stack = s.state.stack ∧ t.messages = [] ∧
      (s.call engine world (.turn text)).trail = t.trail ++
        .acted top.invocation action top.slots
          (engine.backend.act action top.slots t.world).1.toOption :: rest := by
  have carries := carries_of_reads rests reads
  rw [proceeds] at carries
  generalize s.machine.after (hearing text) = m at carries
  generalize s.heeded engine world text = world' at carries
  let t₀ : Turn σ := .start m world'
  have stack : t₀.stack = s.state.stack := carries.stack
  have here : engine.registry.current.topNode? t₀.stack = some node := by
    rw [stack, Library.topNode?, running]
    exact stands
  obtain ⟨top', below, graph, index, place, found⟩ := Turn.exists_stands here
  obtain rfl : top = top' := by
    have running' := Turn.top?_eq place.frames
    rw [stack, running] at running'
    exact Option.some.inj running'
  obtain ⟨budget, left⟩ := Nat.exists_eq_add_one.2 room
  let t := t₀.entering top below node
  have ran : t₀.run (TurnM.perform engine.stage r text .proceed) = t.run _ :=
    Turn.run_proceed_action place found activity left r text
  have still : t.stack = t₀.stack := Turn.stack_entering place
  have enters : t.AtAction engine.registry.current top node action [] :=
    ⟨by rw [still, stack, running], stands, activity, rfl⟩
  obtain ⟨rest, trail⟩ := enters.trail_of_carryOn engine.backend carries.heard (.begun rfl rfl)
    rfl engine.settings.maxSteps budget
  refine ⟨t, rest, ⟨enters, _, _, _, _, _, budget, carries, ran⟩, still.trans stack, rfl, ?_⟩
  rw [← trail, carries.same]
  exact dispatch_trail.trans (congrArg (·.2.trail) ran)

/-- What only repeats something, or is not understood, leaves the stack alone. -/
theorem stack_of_aside (named : engine.registry.current.Named)
    (rests : engine.registry.current.Rests s.state)
    (done : (s.call engine world (.turn text)).result = .ok outcome)
    (aside : outcome.isAside = true) :
    (s.call engine world (.turn text)).session.state.stack = s.state.stack := by
  cases reads : (engine.backend.classify
    (request (s.machine.after (hearing text)).state text) world).1 with
  | error failure =>
    obtain ⟨-, heard⟩ := Machine.update_understanding (u := hearing text) rests.settled rfl rfl rfl
    obtain ⟨world', same⟩ := call_of_misread rests.settled reads
    obtain ⟨outcome', response, answered⟩ := misunderstood_eq engine heard failure
    rw [same, answered]
    rfl
  | ok r =>
    obtain ⟨t, -, comes⟩ := (carries_of_reads rests reads).comes done
    have quiet := (Option.all_eq_true ..).1 aside _ comes.decision
    obtain ⟨t₀, t, goes⟩ := goes_of_reads named rests reads
    have still : t.stack = t₀.stack := by
      rw [Turn.eq_of_quiet_moves goes.moves goes.begun quiet]
    have closes := goes.closes
    rw [done] at closes
    cases closes with
    | done stack => exact stack.trans (still.trans goes.stack)

end Session

namespace Conversation

open Script

theorem stack_of_asides {c : Conversation σ} {texts : List String}
    (named : c.engine.registry.current.Named) (rests : c.engine.registry.current.Rests c.state)
    (asides : ∀ result ∈ c.results (texts.map .turn), result.toOption.any Outcome.isAside = true) :
    (c.after (texts.map .turn)).state.stack = c.state.stack := by
  induction texts generalizing c with
  | nil => rfl
  | cons text texts ih =>
    obtain ⟨first, asides⟩ := List.forall_mem_cons.1 asides
    have rests' := next_rests named rests (.turn text)
    have rest := ih (c := c.next (.turn text)) named rests' asides
    cases done : (c.reply (.turn text)).result with
    | error e =>
      rw [done] at first
      cases first
    | ok aside =>
      rw [done] at first
      exact rest.trans (Session.stack_of_aside named rests done first)

/-- An action that has failed is retried in place. The turn that fails ends at the step that runs
the action, with all that it did before; and after any number of asides the next message for the
flow enters that step first, on the same stack and with nothing shown, and runs the action on the
same slots. -/
theorem retries_in_place {dialect : Dialect} {flows : List Flow} {engine : Engine σ}
    (compiled : dialect.compileAll flows = .ok engine.registry.current.graphs) (id : String)
    (world : σ) (calls : List Call) (call : Call) (texts : List String) (text : String)
    {outcome : Outcome} {r : Reading} :
    let c := (opened id engine world).after calls
    let failed := c.next call
    let later := failed.after (texts.map .turn)
    (c.reply call).result = .ok outcome → outcome.decision.isSome → outcome.failure.isSome →
    (∀ result ∈ failed.results (texts.map .turn), result.toOption.any Outcome.isAside = true) →
    later.session.Reads engine later.world text r → later.session.decision engine r = .proceed →
      ∃ top node action earlier t₁ t₂ rest,
        c.session.Attempts engine c.world call top node action earlier t₁ ∧
        (c.reply call).trail = t₁.trail ++ [.acted top.invocation action top.slots none] ∧
        failed.state.stack = t₁.stack ∧
        later.session.Attempts engine later.world (.turn text) top node action [] t₂ ∧
        t₂.stack = t₁.stack ∧ t₂.messages = [] ∧
        (later.reply (.turn text)).trail = t₂.trail ++
          .acted top.invocation action top.slots
            (engine.backend.act action top.slots t₂.world).1.toOption :: rest := by
  intro c failed later done decided fails asides reads proceeds
  obtain ⟨named, rests⟩ := sound_of_calls compiled id world calls
  have same : c.engine = engine := after_engine calls
  have same' : later.engine = engine := (after_engine (c := failed) _).trans same
  obtain ⟨room, top, node, action, earlier, t₁, attempts, left, trail⟩ :=
    Session.exists_attempts named rests done decided fails
  have rests' := next_rests named rests call
  have kept : later.state.stack = t₁.stack :=
    (stack_of_asides (c := failed) named rests' asides).trans left
  have rests := after_rests (c := failed) named rests' (texts.map .turn)
  have running : later.state.stack.top? = some top := by rw [kept, attempts.enters.running]
  rw [← same] at reads proceeds ⊢
  obtain ⟨t₂, rest, again, stack, messages, trail'⟩ := Session.attempts_of_rests rests running
    attempts.enters.stands attempts.enters.activity room reads proceeds
  refine ⟨top, node, action, earlier, t₁, t₂, rest, attempts, trail, left, again, stack.trans kept,
    messages, ?_⟩
  rw [reply, same', ← same]
  exact trail'

theorem retries_in_place_digressed :
    let c := (faltering [ordering] [continues, digresses, continues]).after [.start "order" .empty]
    let failed := c.next (.turn "milk")
    let later := failed.after [.turn "why?"]
    (Dialect.standard .lenient).compileAll [ordering] = .ok c.engine.registry.current.graphs ∧
      (∃ outcome, (c.reply (.turn "milk")).result = .ok outcome ∧ outcome.decision.isSome ∧
        outcome.failure.isSome) ∧
      (∀ result ∈ failed.results [.turn "why?"], result.toOption.any Outcome.isAside = true) ∧
      later.session.Reads c.engine later.world "again" continues ∧
      later.session.decision c.engine continues = .proceed ∧
      ∃ top node action t, later.session.Attempts c.engine later.world (.turn "again") top node
        action [] t ∧ t.stack = failed.state.stack := by
  intro c failed later
  have compiled : (Dialect.standard .lenient).compileAll [ordering] =
      .ok c.engine.registry.current.graphs := rfl
  have fails : ∃ outcome, (c.reply (.turn "milk")).result = .ok outcome ∧
      outcome.decision.isSome ∧ outcome.failure.isSome := by
    have done : (c.reply (.turn "milk")).result = .ok _ := rfl
    exact ⟨_, done, rfl, rfl⟩
  have asides : ∀ result ∈ failed.results [.turn "why?"],
      result.toOption.any Outcome.isAside = true := by decide +kernel
  have script : later.world = [continues] := by decide +kernel
  have reads : later.session.Reads c.engine later.world "again" continues := by
    rw [script]
    rfl
  have proceeds : later.session.decision c.engine continues = .proceed := by decide +kernel
  refine ⟨compiled, fails, asides, reads, proceeds, ?_⟩
  obtain ⟨outcome, done, decided, fails⟩ := fails
  obtain ⟨top, node, action, -, t₁, t₂, -, -, -, left, again, stack, -⟩ :=
    retries_in_place compiled "script" [continues, digresses, continues] [.start "order" .empty]
      (.turn "milk") ["why?"] "again" done decided fails asides reads proceeds
  exact ⟨top, node, action, t₂, again, stack.trans left.symm⟩

end Conversation

end Colloquy
