import Colloquy.Proofs.State.Update

/-!
The part of a state that its consistency depends on. Updates that say the same about it are accepted
alike, and leave it alike, whatever else there is in the states.
-/

set_option autoImplicit false

namespace Colloquy

/-- How a session stands towards the user and its flows. -/
structure Stance where
  phase : Phase
  stack : Stack
  waiting : Option String
  pending : Option String
  deriving DecidableEq, Repr

namespace State

variable {s s' : State}

def stance (s : State) : Stance := ⟨s.phase, s.stack, s.waiting, s.pending⟩

theorem stance_eq_iff : s.stance = s'.stance ↔
    s.phase = s'.phase ∧ s.stack = s'.stack ∧ s.waiting = s'.waiting ∧ s.pending = s'.pending := by
  simp [stance]

theorem fault?_eq_of_stance (same : s.stance = s'.stance) : s.fault? = s'.fault? := by
  obtain ⟨phase, stack, waiting, pending⟩ := stance_eq_iff.1 same
  simp only [fault?, phaseFault?, phase, stack, waiting, pending]

end State

def Update.stance (u : Update) (s : Stance) : Stance where
  phase := u.phase.getD s.phase
  stack := u.stack.getD s.stack
  waiting := u.waiting.getD s.waiting
  pending := u.pending.getD s.pending

@[simp] theorem Update.stance_apply (u : Update) (window : Nat) (s : State) :
    (u.apply window s).stance = u.stance s.stance := rfl

/-- Two machines that stand alike answer two updates in the same way that say the same about the
stance. -/
theorem Machine.update_alike {m m' : Machine} (u u' : Update)
    (same : m.state.stance = m'.state.stance) (phase : u.phase = u'.phase)
    (alike : u.stance m.state.stance = u'.stance m.state.stance) :
    (∃ e, m.update u = .error e ∧ m'.update u' = .error e) ∨
      ∃ n n', m.update u = .ok n ∧ m'.update u' = .ok n' ∧ n.state.stance = n'.state.stance := by
  have stances : (u.apply m.window m.state).stance = (u'.apply m'.window m'.state).stance := by
    rw [Update.stance_apply, Update.stance_apply, ← same, alike]
  have permits : m.permits u = m'.permits u' := by
    simp only [Machine.permits, phase, (State.stance_eq_iff.1 same).1]
  simp only [update, permits, phase, (State.stance_eq_iff.1 same).1,
    State.fault?_eq_of_stance stances]
  split
  · split
    · exact .inl ⟨_, rfl, rfl⟩
    · exact .inr ⟨_, _, rfl, rfl, stances⟩
  · exact .inl ⟨_, rfl, rfl⟩

end Colloquy
