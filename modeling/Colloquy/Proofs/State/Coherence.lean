import Colloquy.Proofs.State.Update

/-!
The rules of a consistent state, one by one. The check of a state finds no fault just when all of
them hold, whatever the phase is.
-/

set_option autoImplicit false

namespace Colloquy

theorem Stack.fault?_eq_none_iff {s : Stack} :
    s.fault? = none ↔ (∀ frame ∈ s.frames.tail, frame.status = .suspended) ∧
      ∀ frame, s.top? = some frame → frame.status ≠ .cancelled := by
  refine ⟨fun sound => ?_, fun ⟨below, top⟩ => fault?_eq_none below top⟩
  unfold fault? at sound
  cases frames : s.frames with
  | nil => simp [top?, frames]
  | cons first rest =>
    simp only [frames] at sound
    split at sound
    · cases sound
    · next noneBelow =>
      have below : ∀ frame ∈ rest, frame.status = .suspended := by simpa using noneBelow
      refine ⟨below, ?_⟩
      rintro frame found cancelled
      cases (show some first = some frame by simpa [top?, frames] using found)
      rw [if_pos cancelled] at sound
      cases sound

/-- What a state must not say at once. -/
structure State.Coherent (s : State) : Prop where
  idle : s.phase = .idle → s.waiting = none ∧ s.pending = none
  waitingForSlot : s.phase = .waitingForSlot → s.waiting ≠ none ∧ s.stack.frames ≠ []
  confirming : s.phase = .confirming → s.stack.frames ≠ []
  waiting : s.waiting ≠ none → s.stack.frames ≠ []
  below : ∀ frame ∈ s.stack.frames.tail, frame.status = .suspended
  top : ∀ frame, s.stack.top? = some frame → frame.status ≠ .cancelled

namespace State

theorem phaseFault?_eq_none_iff {s : State} :
    s.phaseFault? = none ↔
      (s.phase = .idle → s.waiting = none ∧ s.pending = none) ∧
      (s.phase = .waitingForSlot → s.waiting ≠ none ∧ s.stack.frames ≠ []) ∧
      (s.phase = .confirming → s.stack.frames ≠ []) := by
  unfold phaseFault? Stack.isEmpty
  cases phase : s.phase with
  | idle => cases s.waiting <;> cases s.pending <;> simp
  | waitingForSlot => cases s.waiting <;> cases s.stack.frames <;> simp
  | confirming => cases s.stack.frames <;> simp
  | understanding | executingAction | generatingResponse | error => simp

theorem consistent_iff_coherent {s : State} : s.Consistent ↔ s.Coherent := by
  have asked : (s.waiting.isSome → s.stack.isEmpty = false) ↔
      (s.waiting ≠ none → s.stack.frames ≠ []) := by
    simp [Stack.isEmpty, Option.isSome_iff_ne_none]
  rw [consistent_iff, phaseFault?_eq_none_iff, Stack.fault?_eq_none_iff, asked]
  constructor
  · rintro ⟨⟨idle, waitingForSlot, confirming⟩, waiting, below, top⟩
    exact ⟨idle, waitingForSlot, confirming, waiting, below, top⟩
  · intro coherent
    exact ⟨⟨coherent.idle, coherent.waitingForSlot, coherent.confirming⟩, coherent.waiting,
      coherent.below, coherent.top⟩

end State

end Colloquy
