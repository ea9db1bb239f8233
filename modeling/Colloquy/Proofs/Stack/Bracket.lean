import Colloquy.Proofs.Stack.Order
import Mathlib.Data.List.Infix

/-!
A call and the return from it are a bracket. Whatever is done in between goes on above the caller,
so that the caller is found again as it was left, and everything below it too.
-/

set_option autoImplicit false

namespace Colloquy

namespace Stack

variable {s s' : Stack} {above kept given : List Frame} {op : Operation} {ops : List Operation}
  {flow : String}

/-- An operation that leaves the stack deeper than some of its lowest frames leaves those alone. -/
theorem Step.keeps (step : Step s op given s') (frames : s.frames = above ++ kept)
    (remains : above ≠ []) (deep : kept.length < s'.depth) :
    ∃ above', above' ≠ [] ∧ s'.frames = above' ++ kept := by
  obtain ⟨top, above, rfl⟩ := List.exists_cons_of_ne_nil remains
  have edited (change : Frame → Frame) :
      ∃ above', above' ≠ [] ∧ (s.onTop change).frames = above' ++ kept :=
    ⟨change top :: above, by simp, by simp [onTop, frames]⟩
  cases step with
  | started flow slots => cases frames
  | called flow active =>
    cases frames
    exact ⟨_ :: top.suspend :: above, by simp, rfl⟩
  | linked flow active =>
    cases frames
    exact ⟨_ :: above, by simp, rfl⟩
  | completed active =>
    cases frames
    exact ⟨_ :: above, by simp, rfl⟩
  | returned completed =>
    cases above with
    | nil =>
      -- the frame woken would be one of those to be left alone, and the stack no deeper than they
      cases frames
      simp [depth] at deep
    | cons caller above =>
      cases frames
      exact ⟨_ :: above, by simp, rfl⟩
  | finished | cancelled => simp [depth] at deep
  | placed | filled | merged => exact edited _

/-- The same holds of many operations, if the stack is deeper after each of them. -/
theorem afterAll_keeps (frames : s.frames = above ++ kept)
    (deep : ∀ done, done <+: ops → kept.length < (s.afterAll done).depth) :
    ∃ above', above' ≠ [] ∧ (s.afterAll ops).frames = above' ++ kept := by
  induction ops generalizing s above with
  | nil =>
    refine ⟨above, ?_, frames⟩
    rintro rfl
    simpa [afterAll, depth, frames] using deep [] List.nil_prefix
  | cons op ops ih =>
    have remains : above ≠ [] := by
      rintro rfl
      simpa [afterAll, depth, frames] using deep [] List.nil_prefix
    have deep' (done : List Operation) (begins : done <+: ops) :
        kept.length < ((s.after op).afterAll done).depth :=
      deep (op :: done) (List.cons_prefix_cons.2 ⟨rfl, begins⟩)
    rcases s.after_cases op with ⟨same, -⟩ | ⟨given, step, -⟩
    · exact ih (same.symm ▸ frames) deep'
    · obtain ⟨above', -, frames'⟩ := step.keeps frames remains (deep' [] List.nil_prefix)
      exact ih frames' deep'

/-- A return that comes down to some of the lowest frames wakes the first of them. -/
theorem returned_to {caller : Frame} {below : List Frame}
    (frames : s.frames = above ++ caller :: below) (remains : above ≠ [])
    (back : (s.after .returnToCaller).depth = below.length + 1) :
    (s.after .returnToCaller).frames = caller.wake :: below := by
  have deeper : below.length + 1 < s.depth := by
    have := List.length_pos_iff.2 remains
    simp only [depth, frames, List.length_append, List.length_cons]
    omega
  rcases s.after_cases .returnToCaller with ⟨same, -⟩ | ⟨given, step, -⟩
  · rw [same] at back
    omega
  · generalize s.after .returnToCaller = s' at step back
    cases step with
    | @returned top woken rest nextId completed =>
      obtain ⟨first, above, rfl⟩ := List.exists_cons_of_ne_nil remains
      obtain ⟨rfl, rest'⟩ := List.cons.inj frames
      have lengths : rest.length = below.length := by simpa [depth] using back
      have none : above = [] := by
        have counts := congrArg List.length rest'
        simp only [List.append_eq, List.length_append, List.length_cons] at counts
        exact List.length_eq_zero_iff.1 (by omega)
      subst none
      cases rest'
      rfl

/-- A flow is called, and begins with empty slots. Whatever is done while the stack stays deeper
than it was before the call, the return that makes it as deep as that again finds the caller as it
was, running and with nowhere to go back to, and the frames below it untouched. -/
theorem bracketed {caller : Frame} {below : List Frame} (frames : s.frames = caller :: below)
    (active : caller.status = .active)
    (deep : ∀ done, done <+: ops → s.depth < ((s.after (.call flow)).afterAll done).depth)
    (back : (((s.after (.call flow)).afterAll ops).after .returnToCaller).depth = s.depth) :
    (s.perform (.call flow)).1 = .ok [.new flow s.nextId .empty] ∧
    (s.after (.call flow)).frames = .new flow s.nextId .empty :: caller.suspend :: below ∧
    (((s.after (.call flow)).afterAll ops).after .returnToCaller).frames =
      ⟨caller.flow, caller.id, .active, caller.step, none, caller.slots⟩ :: below := by
  have called : s.perform (.call flow) = (.ok [.new flow s.nextId .empty],
      ⟨.new flow s.nextId .empty :: caller.suspend :: below, s.nextId + 1⟩) := by
    obtain ⟨_, nextId⟩ := s
    cases frames
    simp [perform_eq, apply, call, activeTop, Frame.isActive, active]
    rfl
  have begun : (s.after (.call flow)).frames = [.new flow s.nextId .empty] ++
      caller.suspend :: below := by
    rw [after, called]
    rfl
  have depth' : s.depth = below.length + 1 := by simp [depth, frames]
  rw [depth'] at back
  have deep' (done : List Operation) (begins : done <+: ops) :
      (caller.suspend :: below).length < ((s.after (.call flow)).afterAll done).depth := by
    simpa [depth'] using deep done begins
  obtain ⟨above, remains, frames'⟩ := afterAll_keeps begun deep'
  exact ⟨by rw [called], begun, returned_to frames' remains back⟩

theorem bracketed_nested :
    let s := empty.afterAll [.start "a" .empty, .fill "x" .null, .call "b", .place (some "step")]
    let ops : List Operation := [.fill "y" .null, .place (some "inner"), .call "d", .link "e",
      .complete, .returnToCaller, .link "f", .complete]
    s.frames.map (·.status) = [.active, .suspended] ∧
      (∀ done, done <+: ops → s.depth < ((s.after (.call "c")).afterAll done).depth) ∧
      (((s.after (.call "c")).afterAll ops).after .returnToCaller).frames = s.frames := by
  intro s ops
  have deep : ∀ done, done <+: ops → s.depth < ((s.after (.call "c")).afterAll done).depth := by
    intro done begins
    revert done
    simp only [← List.mem_inits]
    decide
  have back : (((s.after (.call "c")).afterAll ops).after .returnToCaller).depth = s.depth := by
    decide
  have frames : s.frames = _ := rfl
  exact ⟨by decide, deep, (bracketed frames rfl deep back).2.2⟩

end Stack

end Colloquy
