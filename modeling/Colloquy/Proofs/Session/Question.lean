import Colloquy.Proofs.Session.Digression
import Colloquy.Proofs.Session.Refusal
import Colloquy.Proofs.Turn.Question

/-!
The question whether to change the flow. While it is open it is what the user is asked last, unless
the message went to the running flow or left the topic: then the flow's own prompt is.
-/

set_option autoImplicit false

namespace Colloquy

variable {σ : Type}

/-- Messages that are not met with the question whether to change the flow, although it is open:
those that leave the topic, that fill slots again, that are not recognized, and that want the
running flow or an unknown one. -/
def Reading.Evades (r : Reading) (l : Library) (s : State) : Prop :=
  s.pending.isSome ∧
    match r.kind with
    | .digression | .clarification | .question | .unrecognized => True
    | .correction | .modification => r.slots.isEmpty = false
    | .intentChange =>
      ∃ flow, r.command = some flow ∧ (s.activeFlow? = some flow ∨ l.contains flow = false)
    | .cancellation | .confirmation | .continuation => False

def Decision.evades (l : Library) : Decision → Bool
  | .proceed | .revise _ | .digress _ | .digressionLimit _ => true
  | .proposeChange flow => !l.contains flow
  | _ => false

def Decision.heeds (l : Library) : Decision → Bool
  | .cancel | .answerChange _ | .reprompt => true
  | .proposeChange flow => l.contains flow
  | _ => false

theorem Decision.evades_cases {l : Library} {limit : Nat} {current : Option Graph.Node}
    {r : Reading} {s : State} {active : String} (open' : s.pending.isSome)
    (running : s.activeFlow? = some active) :
    (r.Evades l s ∧ (route limit current r s).evades l = true) ∨
      (¬ r.Evades l s ∧ (route limit current r s).heeds l = true) := by
  rw [route_of_pending open' running]
  unfold Reading.Evades
  cases r.kind with
  | cancellation | continuation => simp [heeds]
  | unrecognized => simp [open', evades]
  | digression | clarification | question =>
    dsimp only
    split <;> simp [open', evades]
  | correction | modification => cases empty : r.slots.isEmpty <;> simp [open', evades, heeds]
  | confirmation => cases r.polarity? <;> simp [heeds]
  | intentChange =>
    cases r.command with
    | none => simp [heeds]
    | some flow =>
      by_cases same : active = flow
      · simp [open', running, same, evades]
      · cases known : l.contains flow <;> simp [open', running, same, known, evades, heeds]

theorem Library.Rests.running {l : Library} {s : State} (rests : l.Rests s)
    (open' : s.pending.isSome) : ∃ active, s.activeFlow? = some active :=
  Option.ne_none_iff_exists'.1 (mt Decision.frames_of_activeFlow?.1 (rests.pending open'))

def Outcome.Asks (outcome : Outcome) (flow : String) : Prop :=
  ∃ m, outcome.messages.getLast? = some m ∧ m.Asks flow

namespace Turn

variable {t t' : Turn σ} {s : Stage σ} {r : Reading} {text flow flow' : String}

def Asks (t : Turn σ) (flow : String) : Prop :=
  ∃ m, t.messages.getLast? = some m ∧ m.Asks flow

theorem asks_of_reprompt (asked : t.pending = some flow)
    (ran : t.run (TurnM.reprompt s.library) = (.ok (), t')) (open' : t'.pending = some flow') :
    t'.Asks flow' := by
  rw [run_reprompt asked] at ran
  cases ran
  cases asked.symm.trans open'
  exact ⟨t.question flow, by simp, t.asks_question flow⟩

theorem asks_of_proposeChange (ran : t.run (TurnM.proposeChange s flow) = (.ok (), t'))
    (known : s.library.contains flow = true) (open' : t'.pending = some flow') :
    t'.Asks flow' := by
  rw [run_proposeChange known] at ran
  cases ran
  cases open'
  exact ⟨t.question flow, by simp, t.asks_question flow⟩

/-- A decision that heeds the open question withdraws it or shows it. -/
theorem asks_of_heeds {d : Decision} (asked : t.pending.isSome)
    (ran : t.run (TurnM.perform s r text d) = (.ok (), t')) (open' : t'.pending = some flow)
    (heeds : d.heeds s.library = true) : t'.Asks flow := by
  obtain ⟨offered, asked⟩ := Option.isSome_iff_exists.1 asked
  cases d with
  | cancel =>
    cases ran
    cases open'
  | answerChange accepted =>
    have withdrawn := pending_of_answerChange (s := s) asked accepted
    rw [show t.run (TurnM.answerChange s accepted) = (.ok (), t') from ran] at withdrawn
    cases withdrawn.symm.trans open'
  | reprompt => exact asks_of_reprompt asked ran open'
  | proposeChange flow => exact asks_of_proposeChange ran heeds open'
  | _ => cases heeds

theorem shows_of_evades {d : Decision} {node : Graph.Node} {result : Except TurnError Unit}
    (ran : t.run (TurnM.perform s r text d) = (result, t')) (begun : t.messages = [])
    (stands : s.library.topNode? t.stack = some node) (evades : d.evades s.library = true) :
    ∀ m ∈ t'.messages, s.library.Shows m.template := by
  have inherited : TurnM.Inherited s.library s.backend fun _ => TurnM.Worded s.library :=
    .of_worded
  obtain ⟨shown, appended, worded⟩ :
      ∃ shown, (t.run (TurnM.perform s r text d)).2.messages = t.messages ++ shown ∧
        ∀ m ∈ shown, s.library.Shows m.template := by
    cases d with
    | proceed => exact (inherited.guided _).proceed r text t
    | revise slots =>
      obtain ⟨graph, index, placed⟩ := Library.position_of_topNode? stands
      rw [TurnM.perform, TurnM.run_revise slots placed]
      exact (inherited.guided _).reviseAt (Library.holds_of_position placed) slots t
    | digress | digressionLimit => exact inherited.aside (.inl (by simp)) t
    | proposeChange flow =>
      rw [TurnM.perform, run_proposeChange_unknown (by simpa [Decision.evades] using evades)]
      exact ⟨[t.message "fallback"], rfl, by simp [message, Library.Shows]⟩
    | _ => cases evades
  rw [ran, begun, List.nil_append] at appended
  rw [show t'.messages = shown from appended]
  exact worded

end Turn

namespace Session

variable {s : Session} {engine : Engine σ} {world : σ} {text flow : String} {r : Reading}
  {outcome : Outcome}

structure Answers (s : Session) (engine : Engine σ) (world : σ) (text : String) (r : Reading)
    (outcome : Outcome) (t₀ t : Turn σ) : Prop where
  stack : t₀.stack = s.state.stack
  pending : t₀.pending = s.state.pending
  begun : t₀.messages = []
  ran : t₀.run (TurnM.perform engine.stage r text (s.decision engine r)) = (.ok (), t)
  traced : t₀.Traced (s.decision engine r) t
  messages : outcome.messages = t.messages
  left : (s.call engine world (.turn text)).session.state.pending = t.pending

theorem decision_cases (rests : engine.registry.current.Rests s.state)
    (open' : s.state.pending.isSome) :
    (r.Evades engine.registry.current s.state ∧
        (s.decision engine r).evades engine.registry.current = true) ∨
      (¬ r.Evades engine.registry.current s.state ∧
        (s.decision engine r).heeds engine.registry.current = true) := by
  obtain ⟨active, running⟩ := rests.running open'
  exact Decision.evades_cases open' running

theorem exists_answers (named : engine.registry.current.Named)
    (rests : engine.registry.current.Rests s.state) (reads : s.Reads engine world text r)
    (done : (s.call engine world (.turn text)).result = .ok outcome) :
    ∃ t₀ t, s.Answers engine world text r outcome t₀ t := by
  obtain ⟨heard, same⟩ := call_of_rests rests reads
  have answered := done
  rw [same] at answered
  change (dispatch ..).result = .ok outcome at answered
  obtain ⟨t, ran, committed⟩ := dispatch_eq_ok answered
  obtain ⟨phase, waiting, -, stance, -, -, messages, -⟩ := Turn.commit_eq_ok committed
  have fresh : (Turn.start (s.machine.after (hearing text)) (s.heeded engine world text)).Fresh _ :=
    ⟨.begun rfl rfl, rfl, rfl⟩
  have suits : Decision.Suits r s.state (s.decision engine r) := Decision.route_suits ..
  have along : (Turn.start _ _).Along _ (TurnM.perform engine.stage r text _) _ _ :=
    Turn.along_perform named heard fresh rests.pending suits.begins
  have moves := along.1
  rw [ran] at moves
  refine ⟨_, t, rfl, rfl, rfl, ran, Turn.traced_of_moves rfl moves, messages, ?_⟩
  rw [same]
  simp only [conclude, answered]
  exact congrArg Stance.pending stance

namespace Answers

variable {t₀ t : Turn σ} (answers : s.Answers engine world text r outcome t₀ t)

include answers

theorem shows_of_evades (rests : engine.registry.current.Rests s.state)
    (evades : r.Evades engine.registry.current s.state) :
    ∀ m ∈ outcome.messages, engine.registry.current.Shows m.template := by
  obtain ⟨node, stands, -⟩ := rests.waits.resolve_left (rests.pending evades.1)
  have past := (decision_cases rests evades.1).resolve_right fun heeds => heeds.1 evades
  rw [answers.messages]
  exact Turn.shows_of_evades answers.ran answers.begun (answers.stack ▸ stands) past.2

theorem asks_again (rests : engine.registry.current.Rests s.state)
    (asked : s.state.pending.isSome) (heeds : ¬ r.Evades engine.registry.current s.state)
    (open' : t.pending = some flow) : outcome.Asks flow := by
  have heeded := (decision_cases rests asked).resolve_left fun evades => heeds evades.1
  rw [Outcome.Asks, answers.messages]
  exact Turn.asks_of_heeds (answers.pending ▸ asked) answers.ran open' heeded.2

-- Without an open question before, the turn itself has proposed the change.
theorem asks_first (unasked : s.state.pending = none) (open' : t.pending = some flow) :
    outcome.Asks flow := by
  have ran := answers.ran
  have began : t₀.pending = none := answers.pending.trans unasked
  rw [Outcome.Asks, answers.messages]
  rcases answers.traced.pending with kept | ⟨withdrawn, -⟩ | ⟨flow', proposed⟩
  · cases (kept.symm.trans open').symm.trans began
  · cases withdrawn.symm.trans open'
  · rw [proposed] at ran
    cases known : engine.registry.current.contains flow' with
    | true => exact Turn.asks_of_proposeChange ran known open'
    | false =>
      rw [TurnM.perform, Turn.run_proposeChange_unknown known] at ran
      cases ran
      cases began.symm.trans open'

end Answers

theorem exists_reads (rests : engine.registry.current.Rests s.state)
    (confirming : (s.call engine world (.turn text)).session.state.phase = .confirming) :
    ∃ r, s.Reads engine world text r := by
  obtain ⟨-, heard⟩ := Machine.update_understanding (u := hearing text) rests.settled rfl rfl rfl
  cases understood : (engine.backend.classify
    (request (s.machine.after (hearing text)).state text) world).1 with
  | ok r => exact ⟨r, understood⟩
  | error failure =>
    obtain ⟨world', same⟩ := call_of_misread rests.settled understood
    obtain ⟨outcome, response, answered⟩ := misunderstood_eq engine heard failure
    rw [same, answered] at confirming
    cases confirming

end Session

namespace Conversation

open Script

/-- With a change of flow open, the last thing shown asks about it just when the message is not one
that evades the question, provided that no flow has the words of the question for its own. -/
theorem question_last {dialect : Dialect} {flows : List Flow} {engine : Engine σ}
    (compiled : dialect.compileAll flows = .ok engine.registry.current.graphs) (id : String)
    (world : σ) (calls : List Call) (text : String) {outcome : Outcome} {flow : String} :
    let c := (opened id engine world).after calls
    (c.reply (.turn text)).result = .ok outcome →
    (c.next (.turn text)).state.phase = .confirming →
    (c.next (.turn text)).state.pending = some flow →
      ∃ r, c.session.Reads engine c.world text r ∧
        (¬ r.Evades engine.registry.current c.state → outcome.Asks flow) ∧
        (r.Evades engine.registry.current c.state →
          ¬ engine.registry.current.Words "confirm_intent_change" →
          ∀ m ∈ outcome.messages, m.template ≠ "confirm_intent_change") := by
  intro c done confirming open'
  obtain ⟨named, rests⟩ := sound_of_calls compiled id world calls
  have same : c.engine = engine := after_engine calls
  obtain ⟨r, reads⟩ := Session.exists_reads rests confirming
  obtain ⟨t₀, t, answers⟩ := Session.exists_answers named rests reads done
  have offers : t.pending = some flow := answers.left.symm.trans open'
  refine ⟨r, same ▸ reads, ?_⟩
  rw [← same]
  constructor
  · intro heeds
    by_cases asked : c.state.pending.isSome
    · exact answers.asks_again rests asked heeds offers
    · exact answers.asks_first (Option.not_isSome_iff_eq_none.1 asked) offers
  · intro evades unworded m member shown
    have shows' := answers.shows_of_evades rests evades m member
    rw [shown] at shows'
    exact unworded (shows'.resolve_left (by simp))

def offered (r : Reading) : Conversation (List Reading) :=
  (scripted [asking, greeting] [wants "greet", r]).after [.start "ask" .empty, .turn "hello"]

theorem question_last_continued :
    (Dialect.standard .lenient).compileAll [asking, greeting] =
        .ok (offered continues).engine.registry.current.graphs ∧
      ∃ outcome, ((offered continues).reply (.turn "well")).result = .ok outcome ∧
        ((offered continues).next (.turn "well")).state.phase = .confirming ∧
        ((offered continues).next (.turn "well")).state.pending = some "greet" ∧
        outcome.Asks "greet" := by
  have compiled : (Dialect.standard .lenient).compileAll [asking, greeting] =
      .ok (Engine.scripted [asking, greeting]).registry.current.graphs := rfl
  refine ⟨compiled, _, rfl, rfl, rfl, ?_⟩
  obtain ⟨r, reads, asks, -⟩ := question_last compiled "script" [wants "greet", continues]
    [.start "ask" .empty, .turn "hello"] "well" rfl rfl rfl
  cases reads
  exact asks (by simp [Reading.Evades, continues, Reading.certain])

/-- After a digression the user is asked for the value that the running flow wants, although it is
the change of flow that a yes would answer. -/
theorem question_evaded :
    (Dialect.standard .lenient).compileAll [asking, greeting] =
        .ok (offered digresses).engine.registry.current.graphs ∧
      ∃ outcome, ((offered digresses).reply (.turn "why?")).result = .ok outcome ∧
        ((offered digresses).next (.turn "why?")).state.phase = .confirming ∧
        ((offered digresses).next (.turn "why?")).state.pending = some "greet" ∧
        outcome.messages.map (·.template) = ["digression", "ask_x"] ∧ ¬ outcome.Asks "greet" := by
  refine ⟨rfl, _, rfl, rfl, rfl, rfl, ?_⟩
  rintro ⟨m, last, template, -⟩
  cases last
  exact absurd template (by decide)

end Conversation

end Colloquy
