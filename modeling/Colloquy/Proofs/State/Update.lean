import Colloquy.State.Machine

/-!
When a state is consistent, and which updates of it are accepted. Of the phases only those are
needed here that a session goes through in a turn.
-/

set_option autoImplicit false

namespace Colloquy

namespace Phase

theorem leadsTo_error (p : Phase) : (Phase.error == p || p.leadsTo .error) = true := by
  cases p <;> decide

theorem IsResting.leadsTo_understanding {p : Phase} (rests : p.isResting = true) :
    p.leadsTo .understanding = true := by
  cases p <;> first | decide | exact absurd rests (by decide)

theorem generatingResponse_leadsTo {p : Phase} (rests : p.isResting = true) :
    generatingResponse.leadsTo p = true := by
  cases p <;> first | decide | exact absurd rests (by decide)

def isFree : Phase → Bool
  | idle | waitingForSlot | confirming => false
  | understanding | executingAction | generatingResponse | error => true

end Phase

theorem Stack.fault?_eq_none {s : Stack}
    (below : ∀ frame ∈ s.frames.tail, frame.status = .suspended)
    (top : ∀ frame, s.top? = some frame → frame.status ≠ .cancelled) : s.fault? = none := by
  unfold fault?
  cases frames : s.frames with
  | nil => rfl
  | cons first rest =>
    simp only [frames, List.tail_cons] at below
    have noneBelow : rest.reverse.find? (·.status ≠ .suspended) = none := by
      simpa using below
    simp only [noneBelow]
    exact if_neg (top first (by simp [top?, frames]))

namespace State

def Consistent (s : State) : Prop := s.fault? = none

theorem consistent_iff {s : State} :
    s.Consistent ↔ s.phaseFault? = none ∧ (s.waiting.isSome → s.stack.isEmpty = false) ∧
      s.stack.fault? = none := by
  unfold Consistent fault?
  cases s.phaseFault? with
  | some fault => simp
  | none => cases s.waiting.isSome <;> cases s.stack.isEmpty <;> simp

theorem phaseFault?_eq_none {s : State} (free : s.phase.isFree = true) : s.phaseFault? = none := by
  unfold phaseFault?
  cases phase : s.phase <;> simp [phase, Phase.isFree] at free ⊢

theorem Consistent.of_isFree {s s' : State} (consistent : s.Consistent)
    (free : s'.phase.isFree = true) (stack : s'.stack = s.stack)
    (waiting : s'.waiting = none ∨ s'.waiting = s.waiting) : s'.Consistent := by
  obtain ⟨-, asked, sound⟩ := consistent_iff.1 consistent
  refine consistent_iff.2 ⟨phaseFault?_eq_none free, ?_, stack ▸ sound⟩
  rcases waiting with same | same
  · simp [same]
  · rw [same, stack]
    exact asked

structure Settled (s : State) : Prop where
  phase : s.phase.isResting = true
  consistent : s.Consistent

theorem initial_settled : initial.Settled := ⟨rfl, rfl⟩

end State

namespace Update

variable (u : Update) (window : Nat) (s : State)

@[simp] theorem apply_phase : (u.apply window s).phase = u.phase.getD s.phase := rfl

@[simp] theorem apply_stack : (u.apply window s).stack = u.stack.getD s.stack := rfl

@[simp] theorem apply_waiting : (u.apply window s).waiting = u.waiting.getD s.waiting := rfl

@[simp] theorem apply_pending : (u.apply window s).pending = u.pending.getD s.pending := rfl

theorem length_apply_history : (u.apply window s).history.length ≤ window := by
  simp only [apply, State.trim, List.length_drop]
  omega

/-- Nothing is left of what there was, and nothing is missing but what the window cuts off. -/
theorem apply_replacing (s s' : State) : (replacing s).apply window s' = s.trim window := by
  simp [apply, replacing]

end Update

namespace Machine

variable {m m' : Machine} {u : Update}

theorem permits_of_leadsTo {p : Phase} (phase : u.phase = some p)
    (allowed : (p == m.state.phase || m.state.phase.leadsTo p) = true) : m.permits u = true := by
  simpa only [permits, phase] using allowed

def after (m : Machine) (u : Update) : Machine := { m with state := u.apply m.window m.state }

theorem update_eq_ok (permitted : m.permits u = true) (consistent : (m.after u).state.Consistent) :
    m.update u = .ok (m.after u) := by
  unfold after State.Consistent at consistent
  simp [update, permitted, consistent, after]

theorem update_eq_error (permitted : m.permits u = true) {fault : Inconsistency}
    (wrong : (m.after u).state.fault? = some fault) :
    m.update u = .error (.inconsistent fault) := by
  unfold after at wrong
  simp [update, permitted, wrong]

theorem update_cases (accepted : m.update u = .ok m') :
    m' = m.after u ∧ m'.state.Consistent := by
  unfold update at accepted
  split at accepted
  · dsimp only at accepted
    split at accepted
    · cases accepted
    · next sound => cases accepted; exact ⟨rfl, sound⟩
  · cases accepted

structure Sound (m : Machine) : Prop where
  consistent : m.state.Consistent
  trimmed : m.state.history.length ≤ m.window

theorem new_sound (window : Nat) : (new window).Sound := ⟨rfl, Nat.zero_le window⟩

theorem sound_of_update (accepted : m.update u = .ok m') : m'.Sound := by
  obtain ⟨rfl, consistent⟩ := update_cases accepted
  exact ⟨consistent, Update.length_apply_history ..⟩

theorem restore_eq_ok {state : State} {window : Nat} :
    restore state window = .ok m ↔ state.Consistent ∧ m = ⟨state.trim window, window⟩ := by
  have same : (state.trim window).fault? = state.fault? := rfl
  unfold restore State.Consistent
  simp only [Update.apply_replacing, same]
  cases state.fault? with
  | some fault => simp
  | none => simp [eq_comm]

theorem sound_of_restore {state : State} {window : Nat} (restored : restore state window = .ok m) :
    m.Sound := by
  obtain ⟨consistent, rfl⟩ := restore_eq_ok.1 restored
  refine ⟨consistent, ?_⟩
  simp only [State.trim, List.length_drop]
  omega

structure Settled (m : Machine) : Prop where
  phase : m.state.phase.isResting = true
  sound : m.Sound

structure Heard (m : Machine) : Prop where
  phase : m.state.phase = .understanding
  consistent : m.state.Consistent
  trimmed : m.state.history.length ≤ m.window

theorem update_understanding (settled : m.state.Settled) (phase : u.phase = some .understanding)
    (stack : u.stack = none) (waiting : u.waiting = none) :
    m.update u = .ok (m.after u) ∧ (m.after u).Heard := by
  have heard : (m.after u).state.phase = .understanding := by simp [after, phase]
  have consistent : (m.after u).state.Consistent :=
    settled.consistent.of_isFree (by rw [heard]; rfl) (by simp [after, stack])
      (.inr (by simp [after, waiting]))
  refine ⟨update_eq_ok (permits_of_leadsTo phase ?_) consistent, heard, consistent,
    Update.length_apply_history ..⟩
  rw [Phase.IsResting.leadsTo_understanding settled.phase, Bool.or_true]

def acting (m : Machine) : Machine :=
  { m with state := { m.state with phase := .executingAction, waiting := none } }

def broken (m : Machine) : Machine :=
  { m with state := { m.state with phase := .error, waiting := none } }

@[simp] theorem acting_acting : m.acting.acting = m.acting := rfl

@[simp] theorem broken_acting : m.acting.broken = m.broken := rfl

theorem update_acting (consistent : m.state.Consistent)
    (phase : m.state.phase = .understanding ∨ m.state.phase = .executingAction)
    (trimmed : m.state.history.length ≤ m.window) :
    m.update { phase := some .executingAction, waiting := some none } = .ok m.acting := by
  have same : m.after { phase := some .executingAction, waiting := some none } = m.acting := by
    simp [after, Update.apply, State.trim, acting, Nat.sub_eq_zero_of_le trimmed]
  rw [update_eq_ok, same]
  · apply permits_of_leadsTo rfl
    rcases phase with phase | phase <;> rw [phase] <;> decide
  · rw [same]
    exact consistent.of_isFree rfl rfl (.inl rfl)

theorem update_broken (consistent : m.state.Consistent)
    (trimmed : m.state.history.length ≤ m.window) :
    m.acting.update { phase := some .error } = .ok m.broken := by
  have same : m.acting.after { phase := some .error } = m.broken := by
    simp [after, Update.apply, State.trim, acting, broken, Nat.sub_eq_zero_of_le trimmed]
  rw [update_eq_ok, same]
  · exact permits_of_leadsTo rfl rfl
  · rw [same]
    exact consistent.of_isFree rfl rfl (.inl rfl)

theorem Heard.update_acting (heard : m.Heard) :
    m.update { phase := some .executingAction, waiting := some none } = .ok m.acting :=
  Machine.update_acting heard.consistent (.inl heard.phase) heard.trimmed

theorem Heard.update_acting_again (heard : m.Heard) :
    m.acting.update { phase := some .executingAction, waiting := some none } = .ok m.acting :=
  Machine.update_acting (m := m.acting) (heard.consistent.of_isFree rfl rfl (.inl rfl)) (.inr rfl)
    heard.trimmed

end Machine

end Colloquy
