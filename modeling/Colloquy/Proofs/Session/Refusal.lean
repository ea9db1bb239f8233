import Colloquy.Proofs.Session.Invariant
import Colloquy.Proofs.Session.Script

/-!
When the state machine refuses what a session has done. It happens only to a turn that runs the last
flow to its end while the question whether to change the flow is still open.
-/

set_option autoImplicit false

namespace Colloquy

variable {σ : Type}

namespace Session

variable {s : Session} {engine : Engine σ} {world : σ} {call : Call} {d : Decision} {t₀ t : Turn σ}

theorem Goes.traced (goes : s.Goes engine world call d t₀ t) : t₀.Traced d t :=
  Turn.traced_of_moves goes.begun goes.moves

theorem Goes.of_refused (goes : s.Goes engine world call d t₀ t)
    (rests : engine.registry.current.Rests s.state) {cause : StateError}
    (refused : (s.call engine world call).result = .error (.state cause)) :
    cause = .inconsistent (.noFlow .confirming) ∧ s.state.pending.isSome ∧
      (∃ flow, .ended flow ∈ t.trail) ∧ ∀ old new, .changed old new ∉ t.trail := by
  have traced := goes.traced
  have closes := goes.closes
  rw [refused] at closes
  cases closes with
  | failed notState => exact absurd rfl (notState cause)
  | refused bereft stack =>
    obtain ⟨open', vacant, -⟩ := bereft
    -- a change that this turn has itself proposed would leave the flow where it was
    have began : s.state.pending.isSome := by
      rcases traced.pending with kept | ⟨none, -⟩ | ⟨flow, rfl⟩
      · rw [← goes.pending, ← kept]
        exact open'
      · simp [none] at open'
      · have empty := traced.frames (traced.proposed flow rfl) vacant
        rw [goes.stack] at empty
        exact absurd empty (goes.proposes flow rfl)
    refine ⟨rfl, began, ?_, ?_⟩
    · rcases traced.emptied vacant with empty | ⟨flow, ended | cancelled⟩
      · rw [goes.stack] at empty
        exact absurd empty (rests.pending began)
      · exact ⟨flow, ended⟩
      · simp [traced.cancelled flow cancelled] at open'
    · intro old new changed
      simp [(traced.changed old new changed).1] at open'

theorem Goes.refused (goes : s.Goes engine world call d t₀ t) (open' : s.state.pending.isSome)
    {flow : Invocation} (ended : .ended flow ∈ t.trail)
    (unchanged : ∀ old new, .changed old new ∉ t.trail) :
    (s.call engine world call).result =
      .error (.state (.inconsistent (.noFlow .confirming))) := by
  have traced := goes.traced
  have closes := goes.closes
  have rests' := goes.rests
  obtain ⟨vacant, running⟩ := traced.ended flow ended
  generalize (s.call engine world call).result = result at closes
  cases closes with
  | failed notState quiet stack =>
    rw [quiet vacant] at ended
    cases ended
  | refused => rfl
  | done stack pending =>
    -- a session at rest without a flow has no question open, so the turn must have closed it
    have begun : t.trail ≠ [] := List.ne_nil_of_mem ended
    have closed : t.pending = none := by
      rw [← pending, ← Option.not_isSome_iff_eq_none]
      intro still
      exact rests'.pending still (by rw [stack, vacant])
    rcases traced.pending with kept | ⟨-, rfl | ⟨accepted, rfl⟩⟩ | ⟨other, rfl⟩
    · rw [← goes.pending, ← kept, closed] at open'
      cases open'
    · exact absurd rfl running
    · obtain ⟨old, new, changed⟩ := traced.answered accepted rfl begun
      exact absurd changed (unchanged old new)
    · exact absurd (traced.proposed other rfl) begun

end Session

namespace Conversation

open Script

/-- The exact condition under which a call is refused. -/
theorem refused_iff {dialect : Dialect} {flows : List Flow} {engine : Engine σ}
    (compiled : dialect.compileAll flows = .ok engine.registry.current.graphs) (id : String)
    (world : σ) (calls : List Call) (call : Call) (cause : StateError) :
    let c := (opened id engine world).after calls
    (c.reply call).result = .error (.state cause) ↔
      cause = .inconsistent (.noFlow .confirming) ∧ c.state.pending.isSome ∧
        (∃ flow, .ended flow ∈ (c.reply call).trail) ∧
        ∀ old new, .changed old new ∉ (c.reply call).trail := by
  intro c
  obtain ⟨named, rests⟩ := sound_of_calls compiled id world calls
  obtain ⟨d, t₀, t, goes⟩ := Session.exists_goes named rests c.world call
  rw [show (c.reply call).trail = t.trail from goes.trail]
  constructor
  · intro refused
    exact goes.of_refused rests refused
  · rintro ⟨rfl, open', ⟨flow, ended⟩, unchanged⟩
    exact goes.refused open' ended unchanged

/-- While the user is asked whether to change the flow, a correction answers the running flow's last
question. -/
def corrected : Conversation (List Reading) :=
  (scripted [asking, greeting] [wants "greet", corrects "x" "5"]).after
    [.start "ask" .empty, .turn "hello"]

theorem refused_iff_corrected :
    (Dialect.standard .lenient).compileAll [asking, greeting] =
        .ok corrected.engine.registry.current.graphs ∧
      ((corrected.reply (.turn "5")).result =
          .error (.state (.inconsistent (.noFlow .confirming))) ↔
        StateError.inconsistent (.noFlow .confirming) = .inconsistent (.noFlow .confirming) ∧
          corrected.state.pending.isSome ∧
          (∃ flow, .ended flow ∈ (corrected.reply (.turn "5")).trail) ∧
          ∀ old new, .changed old new ∉ (corrected.reply (.turn "5")).trail) := by
  have compiled : (Dialect.standard .lenient).compileAll [asking, greeting] =
      .ok (Engine.scripted [asking, greeting]).registry.current.graphs := rfl
  exact ⟨compiled, refused_iff compiled "script" _ _ (.turn "5") _⟩

theorem correction_refused :
    (Dialect.standard .lenient).compileAll [asking, greeting] =
        .ok corrected.engine.registry.current.graphs ∧
      corrected.state.pending = some "greet" ∧
      (corrected.reply (.turn "5")).result =
        .error (.state (.inconsistent (.noFlow .confirming))) ∧
      (corrected.reply (.turn "5")).trail =
        [.left ⟨"ask", 0⟩ "value", .ended ⟨"ask", 0⟩] :=
  ⟨rfl, rfl, rfl, rfl⟩

end Conversation

end Colloquy
