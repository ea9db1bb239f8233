import Colloquy.Proofs.Turn.Performing

/-!
What the events of a turn tell about where it has got to: whether a flow is left, and whether the
question is still open that was open when it began.
-/

set_option autoImplicit false

namespace Colloquy

def Decision.isQuiet : Decision → Bool
  | reprompt | digress _ | digressionLimit _ => true
  | _ => false

def Decision.isStill : Decision → Bool
  | reprompt | digress _ | digressionLimit _ | proposeChange _ => true
  | _ => false

variable {σ : Type} {l : Library} {backend : Backend σ} {t₀ t t' : Turn σ} {asked : Option String}
  {given : Slots} {d : Decision}

namespace Turn

/-- What the events of one stride have in common. -/
structure Brings (t t' : Turn σ) (events : List Event) : Prop where
  trail : t'.trail = t.trail ++ events
  pending : t'.pending = t.pending
  grows : t.stack.nextId ≤ t'.stack.nextId
  unbegun : ∀ flow, .began flow ∉ events
  unchanged : ∀ old new, .changed old new ∉ events
  uncancelled : ∀ flow, .cancelled flow ∉ events
  ended : ∀ flow, .ended flow ∈ events → t'.stack.frames = []
  emptied : t'.stack.frames = [] → t.stack.frames = [] ∨ ∃ flow, .ended flow ∈ events
  vacant : t.stack.frames = [] → t'.stack.frames = [] ∧ events = []

theorem brings_of_stride (stride : Stride l backend t t') : ∃ events, t.Brings t' events := by
  cases stride with
  | shown | advanced =>
    exact ⟨[], by simp, rfl, le_rfl, by simp, by simp, by simp, by simp, .inl,
      fun vacant => ⟨vacant, rfl⟩⟩
  | filled _ frames =>
    exact ⟨[], by simp, rfl, le_rfl, by simp, by simp, by simp, by simp, by simp, by simp [frames]⟩
  | ended frames =>
    exact ⟨[_], rfl, rfl, le_rfl, by simp, by simp, by simp, fun _ _ => rfl,
      fun _ => .inr ⟨_, List.mem_singleton_self _⟩, by simp [frames]⟩
  | entered frames | acted frames | called frames | linked frames | returned frames =>
    exact ⟨[_], rfl, rfl, by simp [onto, Stack.push], by simp, by simp, by simp, by simp,
      by simp [onto, Stack.push], by simp [frames]⟩
  | resumed frames =>
    exact ⟨[_, _], rfl, rfl, le_rfl, by simp, by simp, by simp, by simp, by simp [onto],
      by simp [frames]⟩
  | failed frames | left frames | answered frames =>
    exact ⟨[_], rfl, rfl, le_rfl, by simp, by simp, by simp, by simp, fun empty => .inl empty,
      by simp [frames]⟩

/-- What the events so far tell of a turn that began at `t₀` with a decision. -/
structure Traced (t₀ : Turn σ) (d : Decision) (t : Turn σ) : Prop where
  pending : t.pending = t₀.pending ∨
    t.pending = none ∧ (d = .cancel ∨ ∃ accepted, d = .answerChange accepted) ∨
    ∃ flow, d = .proposeChange flow
  ended : ∀ flow, .ended flow ∈ t.trail → t.stack.frames = [] ∧ d ≠ .cancel
  changed : ∀ old new, .changed old new ∈ t.trail →
    t.pending = none ∧ d = .answerChange true ∧ t₀.pending = some new.flow
  answered : ∀ accepted, d = .answerChange accepted → t.trail ≠ [] →
    ∃ old new, .changed old new ∈ t.trail
  proposed : ∀ flow, d = .proposeChange flow → t.trail = []
  cancelled : ∀ flow, .cancelled flow ∈ t.trail → t.pending = none
  cancels : d = .cancel → t.trail ≠ [] → t.stack.frames = []
  emptied : t.stack.frames = [] →
    t₀.stack.frames = [] ∨ ∃ flow, .ended flow ∈ t.trail ∨ .cancelled flow ∈ t.trail

theorem Traced.of_trail (begun : t.trail = [])
    (pending : t.pending = t₀.pending ∨
      t.pending = none ∧ (d = .cancel ∨ ∃ accepted, d = .answerChange accepted) ∨
      ∃ flow, d = .proposeChange flow)
    (emptied : t.stack.frames = [] → t₀.stack.frames = []) : t₀.Traced d t where
  pending := pending
  ended := by simp [begun]
  changed := by simp [begun]
  answered _ _ other := absurd begun other
  proposed _ _ := begun
  cancelled := by simp [begun]
  cancels _ other := absurd begun other
  emptied empty := .inl (emptied empty)

theorem Traced.frames (traced : t₀.Traced d t) (begun : t.trail = [])
    (empty : t.stack.frames = []) : t₀.stack.frames = [] := by
  simpa [begun] using traced.emptied empty

-- A decision of its own has done what it does before the first stride, so that its event is there.
theorem Traced.stride (traced : t₀.Traced d t) (begun : d.goesOn = true ∨ t.trail ≠ [])
    (stride : Stride l backend t t') : t₀.Traced d t' := by
  obtain ⟨events, brings⟩ := brings_of_stride stride
  have earlier {event : Event} (member : event ∈ t'.trail) (other : event ∉ events) :
      event ∈ t.trail := by
    rw [brings.trail, List.mem_append] at member
    exact member.resolve_right other
  have later {event : Event} (member : event ∈ t.trail) : event ∈ t'.trail := by
    rw [brings.trail]
    exact List.mem_append_left _ member
  have begun' (own : d.goesOn = false) : t.trail ≠ [] := begun.resolve_left (by simp [own])
  constructor
  case pending => exact brings.pending ▸ traced.pending
  case ended =>
    intro flow member
    by_cases new : Event.ended flow ∈ events
    · refine ⟨brings.ended flow new, ?_⟩
      rintro rfl
      have vacant := traced.cancels rfl (begun' rfl)
      simp [(brings.vacant vacant).2] at new
    · obtain ⟨vacant, own⟩ := traced.ended flow (earlier member new)
      exact ⟨(brings.vacant vacant).1, own⟩
  case changed =>
    intro old new member
    rw [brings.pending]
    exact traced.changed old new (earlier member (brings.unchanged old new))
  case answered =>
    rintro accepted rfl -
    obtain ⟨old, new, member⟩ := traced.answered accepted rfl (begun' rfl)
    exact ⟨old, new, later member⟩
  case proposed =>
    rintro flow rfl
    exact absurd (traced.proposed flow rfl) (begun' rfl)
  case cancelled =>
    intro flow member
    rw [brings.pending]
    exact traced.cancelled flow (earlier member (brings.uncancelled flow))
  case cancels =>
    rintro rfl -
    exact (brings.vacant (traced.cancels rfl (begun' rfl))).1
  case emptied =>
    intro empty
    rcases brings.emptied empty with vacant | ⟨flow, member⟩
    · apply (traced.emptied vacant).imp_right
      rintro ⟨flow, member⟩
      exact ⟨flow, member.imp later later⟩
    · exact .inr ⟨flow, .inl (brings.trail ▸ List.mem_append_right _ member)⟩

theorem Traced.move (traced : t₀.Traced d t) (move : Move l backend t₀.pending given d t t') :
    t₀.Traced d t' := by
  cases move with
  | shown shows' =>
    cases shows'
    exact ⟨traced.pending, traced.ended, traced.changed, traced.answered, traced.proposed,
      traced.cancelled, traced.cancels, traced.emptied⟩
  | stride begun stride => exact traced.stride begun stride
  | recorded frames begun =>
    exact .of_trail begun traced.pending (by simp)
  | began empty begun known =>
    exact {
      pending := traced.pending
      ended := by simp [onto, begun]
      changed := by simp [onto, begun]
      answered := by simp
      proposed := by simp
      cancelled := by simp [onto, begun]
      cancels := by simp
      emptied := by simp [onto, Stack.push] }
  | proposed begun known => exact .of_trail begun (.inr (.inr ⟨_, rfl⟩)) (traced.frames begun)
  | withdrawn begun =>
    exact .of_trail begun (.inr (.inl ⟨rfl, .inr ⟨_, rfl⟩⟩)) (traced.frames begun)
  | changed frames active withdrawn begun asked known =>
    exact {
      pending := .inr (.inl ⟨withdrawn, .inr ⟨_, rfl⟩⟩)
      ended := by simp [onto, begun]
      changed := by
        intro old new member
        simp only [onto, begun, List.nil_append, List.mem_singleton, Event.changed.injEq] at member
        obtain ⟨-, rfl⟩ := member
        exact ⟨withdrawn, rfl, asked⟩
      answered := fun _ _ _ => ⟨_, _, List.mem_append_right _ (List.mem_singleton_self _)⟩
      proposed := by simp
      cancelled := by simp [onto, begun]
      cancels := by simp
      emptied := by simp [onto, Stack.push] }
  | cancelled begun =>
    exact {
      pending := .inr (.inl ⟨rfl, .inl rfl⟩)
      ended := by simp [onto, begun]
      changed := by simp [onto, begun]
      answered := by simp
      proposed := by simp
      cancelled := fun _ _ => rfl
      cancels := fun _ _ => rfl
      emptied := by
        intro _
        cases frames : t.stack.frames with
        | nil => exact .inl (traced.frames begun frames)
        | cons top below => exact .inr ⟨top.invocation, .inr (by simp [onto, Stack.top?, frames])⟩ }

theorem traced_of_moves (begun : t₀.trail = []) (moves : Moves l backend t₀.pending given d t₀ t) :
    t₀.Traced d t := by
  induction moves with
  | refl => exact .of_trail begun (.inl rfl) id
  | tail _ move ih => exact ih.move move

theorem eq_of_quiet_moves (moves : Moves l backend asked given d t₀ t) (begun : t₀.trail = [])
    (quiet : d.isQuiet = true) : t = { t₀ with messages := t.messages } := by
  induction moves with
  | refl => rfl
  | tail _ move ih =>
    cases move with
    | shown shows' =>
      cases shows'
      rw [ih]
    | stride stands _ =>
      have still : d.goesOn = false := by cases d <;> first | rfl | cases quiet
      rw [ih] at stands
      exact absurd begun (stands.resolve_left (by simp [still]))
    | _ => cases quiet

theorem still_of_moves (moves : Moves l backend asked given d t₀ t) (begun : t₀.trail = [])
    (still : d.isStill = true) : t.stack = t₀.stack ∧ t.trail = [] := by
  induction moves with
  | refl => exact ⟨rfl, begun⟩
  | tail _ move ih =>
    cases move with
    | shown shows' =>
      cases shows'
      exact ih
    | stride stands _ =>
      have stays : d.goesOn = false := by cases d <;> first | rfl | cases still
      exact absurd ih.2 (stands.resolve_left (by simp [stays]))
    | proposed => exact ih
    | _ => cases still

end Turn

end Colloquy
