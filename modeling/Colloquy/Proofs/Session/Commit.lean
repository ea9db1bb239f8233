import Colloquy.Proofs.Session.Resting
import Colloquy.Proofs.State.Stance

/-!
The commit of a turn. It succeeds and leaves the session at rest, unless no flow is left while the
question whether to change the flow is still open.
-/

set_option autoImplicit false

namespace Colloquy

variable {σ : Type} {l : Library} {t : Turn σ} {before : State} {m : Machine} {d : Decision}

namespace Turn

theorem commit_eq_ok {render : Message → String} {r : Reading} {outcome : Outcome}
    (committed : t.commit l render before r d = (.ok outcome, m)) :
    ∃ phase waiting, t.resting l before d = .ok (phase, waiting) ∧
      m.state.stance = ⟨phase, t.stack, waiting, t.pending⟩ ∧ m.Sound ∧
      outcome.decision = some d ∧ outcome.messages = t.messages ∧ outcome.failure = t.failure ∧
      m.state.digressions = t.digressions before d := by
  unfold commit at committed
  split at committed
  · cases committed
  · next phase waiting chosen =>
    split at committed
    · cases committed
    · next accepted =>
      obtain ⟨rfl, -⟩ := Machine.update_cases accepted
      dsimp only at committed
      split at committed
      · cases committed
      · next accepted =>
        cases committed
        have sound := Machine.sound_of_update accepted
        obtain ⟨rfl, -⟩ := Machine.update_cases accepted
        exact ⟨phase, waiting, chosen, rfl, sound, rfl, rfl, rfl, rfl⟩

/-- How a turn ends that has not failed, as far as the commit is concerned. -/
inductive Ends (l : Library) (t : Turn σ) : Prop where
  | rests : t.failure = none →
      t.stack.frames = [] ∨ (∃ node, l.topNode? t.stack = some node ∧ Library.Waits node) → Ends l t
  | fails {node : Graph.Node} {action : String} : t.failure.isSome →
      l.topNode? t.stack = some node → node.activity = .action action → Ends l t

/-- No flow is left, but a change of flow is still open. -/
def Bereft (t : Turn σ) : Prop :=
  t.pending.isSome ∧ t.stack.frames = [] ∧ t.failure = none

theorem resting_of_isQuiet (ready : t.failure = none) (rests : before.phase.isResting = true)
    (quiet : d.isQuiet = true) : t.resting l before d = .ok (before.phase, before.waiting) := by
  cases d with
  | reprompt | digress | digressionLimit => simp [resting, ready, rests]
  | _ => cases quiet

theorem resting_of_not_isQuiet (ready : t.failure = none) (loud : ¬ d.isQuiet = true) :
    t.resting l before d = l.resting t.stack t.pending := by
  cases d with
  | reprompt | digress | digressionLimit => exact absurd rfl loud
  | _ => simp [resting, ready]

theorem resting_cases (rests : l.Rests before) (upright : l.Upright t.stack.frames)
    (ends : t.Ends l)
    (quiet : d.isQuiet = true → t.stack = before.stack ∧ t.pending = before.pending) :
    ∃ phase waiting, t.resting l before d = .ok (phase, waiting) ∧
      (t.Bereft ∧ phase = .confirming ∧ waiting = none ∨
        (t.failure.isSome → phase = .error) ∧
        ∀ s : State, s.phase = phase → s.stack = t.stack → s.waiting = waiting →
          s.pending = t.pending → l.Rests s) := by
  cases ends with
  | fails failed stands activity =>
    refine ⟨.error, none, if_pos failed, .inr ⟨fun _ => rfl, ?_⟩⟩
    intro s phase stack waiting pending
    rw [← stack] at stands upright
    refine Library.rests_of_topNode? upright stands (.inr ⟨_, activity⟩) ?_ ?_ ?_ ?_ ?_
    · rw [waiting, activity]; rfl
    all_goals simp [phase, Phase.isResting]
  | rests ready waits =>
    have failed : ¬ t.failure.isSome := by simp [ready]
    by_cases still : d.isQuiet = true
    · obtain ⟨stack, pending⟩ := quiet still
      refine ⟨_, _, resting_of_isQuiet ready rests.phase still, .inr ⟨fun h => absurd h failed, ?_⟩⟩
      intro s phase' stack' waiting' pending'
      exact rests.of_eq phase' (stack'.trans stack) waiting' (pending'.trans pending)
    · rw [resting_of_not_isQuiet ready still]
      obtain ⟨phase, waiting, same, ⟨pending, vacant, is⟩ | right⟩ :=
        Library.resting_spec t.pending upright waits
      · exact ⟨phase, waiting, same, .inl ⟨⟨pending, vacant, ready⟩, is⟩⟩
      · exact ⟨phase, waiting, same, .inr ⟨fun h => absurd h failed, right⟩⟩

-- The first of the two updates of a commit is never refused: it makes no claim yet about where the
-- session comes to rest.
theorem update_effects (before : State) (r : Reading) (d : Decision) (waiting : Option String)
    (heard : m.Heard) (kept : t.Kept m) (upright : l.Upright t.stack.frames)
    (asked : waiting.isSome → t.stack.isEmpty = false) :
    t.machine.update (t.effects before r d waiting) =
        .ok (t.machine.after (t.effects before r d waiting)) ∧
      ((t.machine.after (t.effects before r d waiting)).state.phase = .generatingResponse ∨
        t.failure.isSome ∧
          (t.machine.after (t.effects before r d waiting)).state.phase = .error) := by
  let effects := t.effects before r d waiting
  have accepted (permitted : t.machine.permits effects = true)
      (phase : (t.machine.after effects).state.phase = .generatingResponse ∨
        t.failure.isSome ∧ (t.machine.after effects).state.phase = .error) :
      t.machine.update effects = .ok (t.machine.after effects) ∧
        ((t.machine.after effects).state.phase = .generatingResponse ∨
          t.failure.isSome ∧ (t.machine.after effects).state.phase = .error) := by
    have free : (t.machine.after effects).state.phase.isFree = true := by
      rcases phase with phase | ⟨-, phase⟩ <;> rw [phase] <;> rfl
    have consistent : (t.machine.after effects).state.Consistent :=
      State.consistent_iff.2 ⟨State.phaseFault?_eq_none free, asked, upright.fault?⟩
    exact ⟨Machine.update_eq_ok permitted consistent, phase⟩
  rcases kept with ⟨ready, machine⟩ | ⟨ready, machine⟩ | ⟨failed, machine⟩
  · have phase : effects.phase = some .generatingResponse := if_neg (by simp [ready])
    refine accepted (Machine.permits_of_leadsTo phase ?_) (.inl ?_)
    · rw [machine, heard.phase]
      rfl
    · simp [Machine.after, phase]
  · have phase : effects.phase = some .generatingResponse := if_neg (by simp [ready])
    refine accepted (Machine.permits_of_leadsTo phase ?_) (.inl ?_)
    · rw [machine]
      rfl
    · simp [Machine.after, phase]
  · have phase : effects.phase = none := if_pos failed
    refine accepted (by simp [Machine.permits, phase]) (.inr ⟨failed, ?_⟩)
    simp [Machine.after, phase, machine, Machine.broken]

theorem update_settlement {machine : Machine} {responses : List String} {phase : Phase}
    (rests : l.Rests (machine.after (settlement responses phase)).state)
    (phases : machine.state.phase = .generatingResponse ∨
      machine.state.phase = .error ∧ phase = .error) :
    machine.update (settlement responses phase) =
      .ok (machine.after (settlement responses phase)) := by
  refine Machine.update_eq_ok (Machine.permits_of_leadsTo rfl ?_) rests.consistent
  rcases phases with is | ⟨is, rfl⟩
  · have resting : phase.isResting = true := rests.phase
    rw [is, Phase.generatingResponse_leadsTo resting, Bool.or_true]
  · rw [is]
    rfl

theorem update_settlement_error {machine : Machine} {responses : List String}
    (phase : machine.state.phase = .generatingResponse) (vacant : machine.state.stack.frames = []) :
    machine.update (settlement responses .confirming) =
      .error (.inconsistent (.noFlow .confirming)) := by
  refine Machine.update_eq_error (Machine.permits_of_leadsTo rfl ?_) ?_
  · rw [phase]
    rfl
  · simp [State.fault?, State.phaseFault?, Machine.after, settlement, Stack.isEmpty, vacant]

-- The stack that the turn leaves behind decides: only without a flow can the second update be
-- refused.
theorem commit_cases (render : Message → String) (r : Reading) (rests : l.Rests before)
    (heard : m.Heard) (kept : t.Kept m) (upright : l.Upright t.stack.frames) (ends : t.Ends l)
    (quiet : d.isQuiet = true → t.stack = before.stack ∧ t.pending = before.pending) :
    ∃ result machine, t.commit l render before r d = (result, machine) ∧
      (t.Bereft ∧ result = .error (.state (.inconsistent (.noFlow .confirming))) ∧
          machine.state.pending = t.pending ∨
        (∃ outcome, result = .ok outcome) ∧ l.Rests machine.state ∧
          machine.state.stack = t.stack ∧ machine.state.pending = t.pending) := by
  obtain ⟨phase, waiting, chosen, final⟩ := resting_cases rests upright ends quiet
  have asked (waits : waiting.isSome) : t.stack.isEmpty = false := by
    rcases final with ⟨-, -, rfl⟩ | ⟨-, final⟩
    · cases waits
    · exact (final { before with phase, waiting, stack := t.stack, pending := t.pending }
        rfl rfl rfl rfl).isEmpty_of_waiting waits
  obtain ⟨brought, phases⟩ := update_effects before r d waiting heard kept upright asked
  simp only [commit, chosen, brought]
  rcases final with ⟨⟨open', vacant, ready⟩, rfl, rfl⟩ | ⟨failed, final⟩
  · rw [update_settlement_error (phases.resolve_right (by simp [ready])) vacant]
    exact ⟨_, _, rfl, .inl ⟨⟨open', vacant, ready⟩, rfl, rfl⟩⟩
  · have rests' := final ((t.machine.after (t.effects before r d waiting)).after
      (settlement (t.messages.map render) phase)).state rfl rfl rfl rfl
    rw [update_settlement rests' (phases.imp_right fun h => ⟨h.2, failed h.1⟩)]
    exact ⟨_, _, rfl, .inr ⟨⟨_, rfl⟩, rests', rfl, rfl⟩⟩

end Turn

end Colloquy
