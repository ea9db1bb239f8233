import Colloquy.Proofs.Session.Invariant
import Colloquy.Proofs.Turn.Failures

/-!
How a call may fail in a conversation over compiled flows: its own checks turn it away, the state
machine refuses it, two values have no order, or it takes too many steps.
-/

set_option autoImplicit false

namespace Colloquy

variable {σ : Type}

namespace Session

variable {s : Session} {engine : Engine σ} {world : σ} {call : Call} {d : Decision} {t₀ t : Turn σ}

theorem Goes.offered (goes : s.Goes engine world call d t₀ t)
    (offered : ∀ flow ∈ s.state.pending, (engine.registry.current.get? flow).isSome) :
    ∀ flow ∈ (s.call engine world call).session.state.pending,
      (engine.registry.current.get? flow).isSome := by
  have moved : ∀ flow ∈ t.pending, (engine.registry.current.get? flow).isSome :=
    Turn.offered_of_moves goes.moves (by rw [goes.pending]; exact offered)
  have closes := goes.closes
  generalize (s.call engine world call).result = result at closes
  cases closes with
  | failed _ _ _ pending => rw [pending]; exact offered
  | refused _ _ pending | done _ pending => rw [pending]; exact moved

theorem Goes.foreseen (goes : s.Goes engine world call d t₀ t)
    (closed : engine.registry.current.Closed) (rests : engine.registry.current.Rests s.state)
    (offered : ∀ flow ∈ s.state.pending, (engine.registry.current.get? flow).isSome) {e : TurnError}
    (fails : (s.call engine world call).result = .error e) :
    s.denial? engine call = some e ∨ (∃ cause, e = .state cause) ∨ e.Foreseen := by
  by_cases refused : ∃ cause, e = .state cause
  · exact .inr (.inl refused)
  · rw [not_exists] at refused
    refine (goes.stuck e fails refused).imp_right fun stuck => .inr ?_
    have upright : engine.registry.current.Upright t₀.stack.frames := by
      rw [goes.stack]
      exact rests.upright
    refine stuck.foreseen closed (Turn.upright_of_moves goes.moves upright)
      (Turn.woken_of_moves goes.moves upright goes.begun) ?_ (by rw [goes.pending]; exact offered)
    intro quiet
    obtain ⟨same, empty⟩ := Turn.topNode?_of_moves goes.moves quiet
    rw [same, goes.stack]
    rcases rests.waits with vacant | ⟨node, stands, -⟩
    · exact .inl (by simpa [Stack.isEmpty, goes.stack, vacant] using empty)
    · exact .inr (by simp [stands])

end Session

namespace Conversation

open Script

variable {c : Conversation σ}

theorem after_offered (named : c.engine.registry.current.Named)
    (rests : c.engine.registry.current.Rests c.state)
    (offered : ∀ flow ∈ c.state.pending, (c.engine.registry.current.get? flow).isSome)
    (calls : List Call) :
    ∀ flow ∈ (c.after calls).state.pending, (c.engine.registry.current.get? flow).isSome := by
  induction calls generalizing c with
  | nil => exact offered
  | cons call calls ih =>
    obtain ⟨d, t₀, t, goes⟩ := Session.exists_goes named rests c.world call
    exact ih (c := c.next call) named goes.rests (goes.offered offered)

/-- Over compiled flows no call fails for a reason that the compiler, the routing or the stack rule
out. Apart from refused updates, and from its own checks before it begins a flow, it fails only if
values without an order are compared or if there are too many steps. -/
theorem failures_foreseen {dialect : Dialect} {flows : List Flow} {engine : Engine σ}
    (compiled : dialect.compileAll flows = .ok engine.registry.current.graphs) (id : String)
    (world : σ) (calls : List Call) (call : Call) {e : TurnError} :
    let c := (opened id engine world).after calls
    (c.reply call).result = .error e →
      c.session.denial? engine call = some e ∨ (∃ cause, e = .state cause) ∨ e.Foreseen := by
  intro c fails
  obtain ⟨named, rests⟩ := sound_of_calls compiled id world calls
  have same : c.engine = engine := after_engine calls
  have closed : c.engine.registry.current.Closed := by
    rw [same]
    exact Library.closed_of_compileAll compiled
  have offered : ∀ flow ∈ c.state.pending, (c.engine.registry.current.get? flow).isSome := by
    rw [same]
    exact after_offered (c := opened id engine world) (Library.named_of_compileAll compiled)
      (opened_rests id engine world) (by rintro _ ⟨⟩) calls
  obtain ⟨d, t₀, t, goes⟩ := Session.exists_goes named rests c.world call
  rw [← same]
  exact goes.foreseen closed rests offered fails

def endless : Conversation (List Reading) :=
  opened "script" { Engine.scripted [droning] with settings := { maxSteps := 3 } } []

theorem failures_foreseen_endless :
    (Dialect.standard .lenient).compileAll [droning] =
        .ok endless.engine.registry.current.graphs ∧
      (endless.reply (.start "drone" .empty)).result = .error (.stepLimit "drone" 3) ∧
      (endless.session.denial? endless.engine (.start "drone" .empty) =
          some (.stepLimit "drone" 3) ∨
        (∃ cause, TurnError.stepLimit "drone" 3 = .state cause) ∨
        (TurnError.stepLimit "drone" 3).Foreseen) := by
  have compiled : (Dialect.standard .lenient).compileAll [droning] =
      .ok endless.engine.registry.current.graphs := rfl
  have fails : (endless.reply (.start "drone" .empty)).result =
      .error (.stepLimit "drone" 3) := rfl
  exact ⟨compiled, fails, failures_foreseen compiled "script" [] [] (.start "drone" .empty) fails⟩

end Conversation

end Colloquy
