import Colloquy.Proofs.Turn.Standing
import Colloquy.Proofs.Turn.Traces
import Colloquy.Session.Conversation

/-!
How a session is left by a turn, and that the state machine accepts it. It refuses one thing only:
that no flow is left while the question whether to change the flow is still open.
-/

set_option autoImplicit false

namespace Colloquy

open Colloquy.Graph (Activity Node)

structure State.Cleared (s : State) : Prop where
  phase : s.phase = .idle
  frames : s.stack.frames = []
  waiting : s.waiting = none
  pending : s.pending = none

namespace Library

variable {l : Library}

/-- Where a flow waits for the user: at a step that asks, or at an action that has failed. -/
def Waits (node : Node) : Prop :=
  node.activity.awaitsInput = true ∨ ∃ action, node.activity = .action action

/-- A state in which a session waits for the user. -/
structure Rests (l : Library) (s : State) : Prop where
  phase : s.phase.isResting = true
  registered : ∀ f ∈ s.stack.frames, l.contains f.flow = true
  below : ∀ f ∈ s.stack.frames.tail, l.Asleep f
  top : ∀ f ∈ s.stack.top?, l.Awake f ∧ ∃ node, l.node? f = some node ∧ Waits node
  waiting : s.waiting = (l.topNode? s.stack).bind (·.activity.asked?)
  idle : s.phase = .idle → s.stack.frames = [] ∧ s.pending = none
  waitingForSlot : s.phase = .waitingForSlot →
    (∃ node slot, l.topNode? s.stack = some node ∧ node.activity.asked? = some slot) ∧
      s.pending = none
  confirming : s.phase = .confirming → s.pending.isSome ∨
    ∃ node slot prompt, l.topNode? s.stack = some node ∧ node.activity = .confirm slot prompt
  pending : s.pending.isSome → s.stack.frames ≠ []

theorem currentNode_eq {stack : Stack} (known : ∀ f ∈ stack.top?, (l.get? f.flow).isSome) :
    l.currentNode stack = .ok (l.topNode? stack) := by
  unfold currentNode topNode?
  cases top : stack.top? with
  | none => rfl
  | some f =>
    obtain ⟨graph, found⟩ := Option.isSome_iff_exists.1 (known f top)
    simp only [graph_eq_ok.2 found, Option.bind_some]
    simp [bind, Except.bind, pure, Except.pure, node?, found]

theorem frames_of_topNode? {stack : Stack} {node : Node} (stands : l.topNode? stack = some node) :
    ∃ top below, stack.frames = top :: below ∧ l.node? top = some node := by
  obtain ⟨top, found, node⟩ := Option.bind_eq_some_iff.1 stands
  obtain ⟨below, frames⟩ := List.head?_eq_some_iff.1 found
  exact ⟨top, below, frames, node⟩

theorem position_of_topNode? {stack : Stack} {node : Node}
    (stands : l.topNode? stack = some node) :
    ∃ graph index, l.position stack = .ok (some ⟨graph, some index⟩) := by
  obtain ⟨top, below, frames, stands⟩ := frames_of_topNode? stands
  obtain ⟨graph, step, known, at', found⟩ := Library.node?_eq_some.1 stands
  obtain ⟨index, found, -⟩ := Option.bind_eq_some_iff.1 found
  refine ⟨graph, index, ?_⟩
  simp only [position, Stack.top?, frames, List.head?_cons, graph_eq_ok.2 known, at']
  simp [bind, Except.bind, found]
  rfl

theorem rests_of_topNode? {s : State} {node : Node} (upright : l.Upright s.stack.frames)
    (stands : l.topNode? s.stack = some node) (waits : Waits node)
    (waiting : s.waiting = node.activity.asked?) (phase : s.phase.isResting = true)
    (idle : s.phase ≠ .idle)
    (waitingForSlot : s.phase = .waitingForSlot → node.activity.asked?.isSome ∧ s.pending = none)
    (confirming : s.phase = .confirming →
      s.pending.isSome ∨ ∃ slot prompt, node.activity = .confirm slot prompt) : l.Rests s := by
  obtain ⟨top, below, frames, stands'⟩ := frames_of_topNode? stands
  rw [frames] at upright
  obtain ⟨awake, asleep⟩ := upright_cons.1 upright
  constructor
  case phase => exact phase
  case registered =>
    rw [frames]
    rintro f (_ | ⟨_, member⟩)
    · exact awake.known
    · obtain ⟨node, callee, stands, -⟩ := (asleep f member).calls
      exact known_of_node? stands
  case below => rw [frames]; exact asleep
  case top =>
    intro f found
    simp only [Stack.top?, frames, List.head?_cons, Option.mem_def, Option.some.injEq] at found
    subst found
    exact ⟨awake, node, stands', waits⟩
  case waiting => rw [waiting, stands]; rfl
  case idle => exact fun same => absurd same idle
  case waitingForSlot =>
    intro same
    obtain ⟨asks, open'⟩ := waitingForSlot same
    obtain ⟨slot, asks⟩ := Option.isSome_iff_exists.1 asks
    exact ⟨⟨node, slot, stands, asks⟩, open'⟩
  case confirming =>
    intro same
    apply (confirming same).imp_right
    rintro ⟨slot, prompt, activity⟩
    exact ⟨node, slot, prompt, stands, activity⟩
  case pending => simp [frames]

theorem rests_of_cleared {s : State} (cleared : s.Cleared) : l.Rests s := by
  obtain ⟨phase, frames, waiting, pending⟩ := cleared
  exact {
    phase := by rw [phase]; rfl
    registered := by simp [frames]
    below := by simp [frames]
    top := by simp [Stack.top?, frames]
    waiting := by simp [waiting, topNode?, Stack.top?, frames]
    idle := fun _ => ⟨frames, pending⟩
    waitingForSlot := by simp [phase]
    confirming := by simp [phase]
    pending := by simp [pending] }

theorem resting_of_node {stack : Stack} {node : Node} (pending : Option String)
    (current : l.currentNode stack = .ok (some node)) :
    ∃ phase, l.resting stack pending = .ok (phase, node.activity.asked?) ∧
      phase.isResting = true ∧ phase ≠ .idle ∧
      (phase = .waitingForSlot → node.activity.asked?.isSome ∧ pending = none) ∧
      (phase = .confirming →
        pending.isSome ∨ ∃ slot prompt, node.activity = .confirm slot prompt) := by
  unfold resting
  rw [current]
  cases pending with
  | some flow =>
    refine ⟨.confirming, ?_, rfl, by simp, by simp, by simp⟩
    cases activity : node.activity <;> simp [bind, Except.bind, activity] <;> rfl
  | none =>
    cases activity : node.activity with
    | collect slot prompt rejection rule askAlways =>
      exact ⟨.waitingForSlot, by simp [bind, Except.bind, activity]; rfl, rfl, by simp,
        fun _ => ⟨rfl, rfl⟩, by simp⟩
    | confirm slot prompt =>
      refine ⟨.confirming, by simp [bind, Except.bind, activity]; rfl, rfl, by simp, by simp, ?_⟩
      exact fun _ => .inr ⟨slot, prompt, rfl⟩
    | _ =>
      exact ⟨.error, by simp [bind, Except.bind, activity]; rfl, rfl, by simp, by simp, by simp⟩

/-- The phase and the slot that a turn ends with are right for its stack, unless no flow is left
while a change of flow is open. -/
theorem resting_spec {stack : Stack} (pending : Option String) (upright : l.Upright stack.frames)
    (waits : stack.frames = [] ∨ ∃ node, l.topNode? stack = some node ∧ Waits node) :
    ∃ phase waiting, l.resting stack pending = .ok (phase, waiting) ∧
      (pending.isSome ∧ stack.frames = [] ∧ phase = .confirming ∧ waiting = none ∨
        ∀ s : State, s.phase = phase → s.stack = stack → s.waiting = waiting → s.pending = pending →
          l.Rests s) := by
  have known : ∀ f ∈ stack.top?, (l.get? f.flow).isSome := by
    intro f found
    exact (upright.top f found).known
  have current := currentNode_eq known
  rcases waits with vacant | ⟨node, stands, waits⟩
  · have nothing : l.topNode? stack = none := by simp [topNode?, Stack.top?, vacant]
    unfold resting
    rw [current, nothing]
    cases pending with
    | some flow => exact ⟨.confirming, none, rfl, .inl ⟨rfl, vacant, rfl, rfl⟩⟩
    | none =>
      refine ⟨.idle, none, by simp [bind, Except.bind, Stack.isEmpty, vacant]; rfl, .inr ?_⟩
      intro s phase stack waiting pending
      exact rests_of_cleared ⟨phase, stack ▸ vacant, waiting, pending⟩
  · rw [stands] at current
    obtain ⟨phase, chosen, resting, idle, waitingForSlot, confirming⟩ :=
      resting_of_node pending current
    refine ⟨phase, _, chosen, .inr ?_⟩
    rintro s rfl rfl waiting rfl
    exact rests_of_topNode? upright stands waits waiting resting idle waitingForSlot confirming

namespace Rests

variable {s s' : State}

theorem of_eq (rests : l.Rests s) (phase : s'.phase = s.phase) (stack : s'.stack = s.stack)
    (waiting : s'.waiting = s.waiting) (pending : s'.pending = s.pending) : l.Rests s' where
  phase := by rw [phase]; exact rests.phase
  registered := by rw [stack]; exact rests.registered
  below := by rw [stack]; exact rests.below
  top := by rw [stack]; exact rests.top
  waiting := by rw [waiting, stack]; exact rests.waiting
  idle := by rw [phase, stack, pending]; exact rests.idle
  waitingForSlot := by rw [phase, stack, pending]; exact rests.waitingForSlot
  confirming := by rw [phase, stack, pending]; exact rests.confirming
  pending := by rw [stack, pending]; exact rests.pending

theorem of_error (rests : l.Rests s) (phase : s'.phase = .error) (stack : s'.stack = s.stack)
    (waiting : s'.waiting = s.waiting) (pending : s'.pending.isSome → s.stack.frames ≠ []) :
    l.Rests s' where
  phase := by rw [phase]; rfl
  registered := by rw [stack]; exact rests.registered
  below := by rw [stack]; exact rests.below
  top := by rw [stack]; exact rests.top
  waiting := by rw [waiting, stack]; exact rests.waiting
  idle := by simp [phase]
  waitingForSlot := by simp [phase]
  confirming := by simp [phase]
  pending := by rw [stack]; exact pending

theorem upright (rests : l.Rests s) : l.Upright s.stack.frames :=
  ⟨fun f found => (rests.top f found).1, rests.below⟩

theorem waits (rests : l.Rests s) :
    s.stack.frames = [] ∨ ∃ node, l.topNode? s.stack = some node ∧ Waits node := by
  cases frames : s.stack.frames with
  | nil => exact .inl rfl
  | cons top below =>
    have found : s.stack.top? = some top := by simp [Stack.top?, frames]
    obtain ⟨-, node, stands, waits⟩ := rests.top top found
    exact .inr ⟨node, by rw [topNode?, found]; exact stands, waits⟩

theorem isEmpty_of_waiting (rests : l.Rests s) (waiting : s.waiting.isSome) :
    s.stack.isEmpty = false := by
  rw [rests.waiting] at waiting
  cases frames : s.stack.frames with
  | nil => simp [topNode?, Stack.top?, frames] at waiting
  | cons top below => simp [Stack.isEmpty, frames]

end Rests

theorem Upright.fault? {stack : Stack} (upright : l.Upright stack.frames) :
    stack.fault? = none := by
  apply Stack.fault?_eq_none
  · intro f member
    exact (upright.below f member).status
  · intro f found
    rw [(upright.top f found).status]
    simp

theorem Rests.consistent {s : State} (rests : l.Rests s) : s.Consistent := by
  refine State.consistent_iff.2 ⟨?_, rests.isEmpty_of_waiting, rests.upright.fault?⟩
  unfold State.phaseFault?
  cases phase : s.phase with
  | idle =>
    obtain ⟨empty, pending⟩ := rests.idle phase
    have waiting : s.waiting = none := by
      rw [rests.waiting]
      simp [topNode?, Stack.top?, empty]
    simp [waiting, pending]
  | waitingForSlot =>
    obtain ⟨⟨node, slot, stands, asks⟩, -⟩ := rests.waitingForSlot phase
    have waiting : s.waiting.isSome := by simp [rests.waiting, stands, asks]
    simp [Option.isSome_iff_ne_none.1 waiting, rests.isEmpty_of_waiting waiting]
  | confirming =>
    have remain : s.stack.frames ≠ [] := by
      rcases rests.confirming phase with pending | ⟨node, slot, prompt, stands, -⟩
      · exact rests.pending pending
      · obtain ⟨top, below, frames, -⟩ := frames_of_topNode? stands
        simp [frames]
    simp [Stack.isEmpty, remain]
  | _ => rfl

theorem Rests.settled {s : State} (rests : l.Rests s) : s.Settled := ⟨rests.phase, rests.consistent⟩

end Library

end Colloquy
