import Colloquy.Proofs.Turn.Performing

/-!
How the frames of a stack stand: callers sleep at the steps that call, the flow on top is awake, and
each has an id that has been handed out. No move of a turn changes that.
-/

set_option autoImplicit false

namespace Colloquy

open Colloquy.Graph (Node)

def Frame.bare (f : Frame) : Frame := { f with slots := .empty }

namespace Library

variable {l : Library}

/-- A caller sleeps at the step that calls, and will go on from there. -/
structure Asleep (l : Library) (f : Frame) : Prop where
  status : f.status = .suspended
  resume : f.resume = f.step
  calls : ∃ node callee, l.node? f = some node ∧ node.activity = .call callee

structure Awake (l : Library) (f : Frame) : Prop where
  status : f.status = .active
  resume : f.resume = none
  known : (l.get? f.flow).isSome

structure Upright (l : Library) (frames : List Frame) : Prop where
  top : ∀ f ∈ frames.head?, l.Awake f
  below : ∀ f ∈ frames.tail, l.Asleep f

def topNode? (l : Library) (stack : Stack) : Option Node := stack.top?.bind l.node?

theorem known_of_node? {f : Frame} {node : Node} (stands : l.node? f = some node) :
    (l.get? f.flow).isSome := by
  obtain ⟨graph, -, found, -⟩ := node?_eq_some.1 stands
  simp [found]

theorem upright_nil : l.Upright [] := ⟨by simp, by simp⟩

theorem upright_cons {top : Frame} {below : List Frame} :
    l.Upright (top :: below) ↔ l.Awake top ∧ ∀ f ∈ below, l.Asleep f :=
  ⟨fun h => ⟨h.top top rfl, h.below⟩, fun h => ⟨fun f same => by cases same; exact h.1, h.2⟩⟩

theorem Awake.new {flow : String} {id : Nat} {slots : Slots} (known : (l.get? flow).isSome) :
    l.Awake (.new flow id slots) := ⟨rfl, rfl, known⟩

theorem Asleep.suspend {f : Frame} {node : Node} {callee : String} (stands : l.node? f = some node)
    (calls : node.activity = .call callee) : l.Asleep f.suspend :=
  ⟨rfl, rfl, node, callee, stands, calls⟩

theorem Asleep.wake {f : Frame} (asleep : l.Asleep f) : l.Awake f.wake := by
  obtain ⟨node, callee, stands, -⟩ := asleep.calls
  exact ⟨rfl, rfl, known_of_node? (f := f) stands⟩

end Library

def Stack.Numbered (s : Stack) : Prop := ∀ f ∈ s.frames, f.id < s.nextId

namespace Stack.Numbered

variable {top : Frame} {below : List Frame} {n : Nat}

theorem cons (here : top.id < n) (lower : ∀ f ∈ below, f.id < n) :
    (⟨top :: below, n⟩ : Stack).Numbered :=
  List.forall_mem_cons.2 ⟨here, lower⟩

theorem push {s : Stack} {flow : String} {slots : Slots} (lower : ∀ f ∈ below, f.id < s.nextId) :
    (s.push flow slots below).Numbered :=
  .cons (Nat.lt_succ_self s.nextId) fun f member => (lower f member).trans (Nat.lt_succ_self _)

theorem uncons {s : Stack} (numbered : s.Numbered) (frames : s.frames = top :: below) :
    top.id < s.nextId ∧ ∀ f ∈ below, f.id < s.nextId := by
  simpa [Numbered, frames] using numbered

end Stack.Numbered

variable {σ : Type} {l : Library} {backend : Backend σ} {t t' : Turn σ} {asked : Option String}
  {given : Slots} {d : Decision}

namespace Turn

theorem upright_of_stride (stride : Stride l backend t t') (upright : l.Upright t.stack.frames) :
    l.Upright t'.stack.frames := by
  cases stride with
  | shown | advanced | left | answered | failed => exact upright
  | filled _ frames | entered frames | acted frames =>
    rw [frames] at upright
    obtain ⟨⟨status, resume, known⟩, below⟩ := Library.upright_cons.1 upright
    exact Library.upright_cons.2 ⟨⟨status, resume, known⟩, below⟩
  | called frames active stands calls known =>
    rw [frames] at upright
    obtain ⟨-, below⟩ := Library.upright_cons.1 upright
    refine Library.upright_cons.2 ⟨.new known, ?_⟩
    rintro f (_ | ⟨_, member⟩)
    · exact .suspend stands calls
    · exact below f member
  | linked frames active stands links known =>
    rw [frames] at upright
    exact Library.upright_cons.2 ⟨.new known, (Library.upright_cons.1 upright).2⟩
  | returned frames | resumed frames =>
    rw [frames] at upright
    obtain ⟨-, below⟩ := Library.upright_cons.1 upright
    exact Library.upright_cons.2
      ⟨(below _ List.mem_cons_self).wake, fun f member => below f (List.mem_cons_of_mem _ member)⟩
  | ended => exact Library.upright_nil

theorem upright_of_moves (moves : Moves l backend asked given d t t')
    (upright : l.Upright t.stack.frames) : l.Upright t'.stack.frames := by
  induction moves with
  | refl => exact upright
  | tail _ move ih =>
    cases move with
    | shown shows' => cases shows'; exact ih
    | stride _ stride => exact upright_of_stride stride ih
    | recorded frames =>
      rw [frames] at ih
      obtain ⟨⟨status, resume, known⟩, below⟩ := Library.upright_cons.1 ih
      exact Library.upright_cons.2 ⟨⟨status, resume, known⟩, below⟩
    | began empty begun known => exact Library.upright_cons.2 ⟨.new known, by simp⟩
    | proposed | withdrawn => exact ih
    | changed frames active withdrawn begun asked known =>
      rw [frames] at ih
      exact Library.upright_cons.2 ⟨.new known, (Library.upright_cons.1 ih).2⟩
    | cancelled => exact Library.upright_nil

-- As long as there are no events only what the slots hold can have changed.
theorem bare_of_moves (moves : Moves l backend asked given d t t') (quiet : t'.trail = []) :
    t'.stack.frames.map Frame.bare = t.stack.frames.map Frame.bare := by
  induction moves with
  | refl => rfl
  | @tail t₁ _ _ move ih =>
    cases move with
    | shown shows' => cases shows'; exact ih quiet
    | stride _ stride =>
      cases stride with
      | shown | advanced => exact ih quiet
      | filled _ frames =>
        rw [← ih quiet, frames]
        rfl
      | _ => simp [onto] at quiet
    | recorded frames begun =>
      rw [← ih begun, frames]
      rfl
    | proposed | withdrawn => exact ih quiet
    | began | changed => simp [onto] at quiet
    | cancelled begun =>
      rw [← ih begun]
      cases frames : t₁.stack.frames with
      | nil => rfl
      | cons top below => simp [onto, begun, Stack.top?, frames] at quiet

theorem topNode?_of_moves (moves : Moves l backend asked given d t t') (quiet : t'.trail = []) :
    l.topNode? t'.stack = l.topNode? t.stack ∧ t'.stack.isEmpty = t.stack.isEmpty := by
  have node (stack : Stack) :
      l.topNode? stack = (stack.frames.map Frame.bare).head?.bind l.node? := by
    unfold Library.topNode? Stack.top?
    cases stack.frames <;> rfl
  have empty (stack : Stack) : stack.isEmpty = (stack.frames.map Frame.bare).isEmpty := by
    simp [Stack.isEmpty]
  simp only [node, empty, bare_of_moves moves quiet, and_self]

theorem numbered_of_stride (stride : Stride l backend t t') (numbered : t.stack.Numbered) :
    t'.stack.Numbered := by
  cases stride with
  | shown | advanced | left | answered | failed => exact numbered
  | filled _ frames | entered frames | acted frames =>
    obtain ⟨here, lower⟩ := numbered.uncons frames
    exact .cons here lower
  | called frames =>
    obtain ⟨here, lower⟩ := numbered.uncons frames
    exact .push (List.forall_mem_cons.2 ⟨here, lower⟩)
  | linked frames => exact .push (numbered.uncons frames).2
  | returned frames | resumed frames =>
    obtain ⟨caller, lower⟩ := List.forall_mem_cons.1 (numbered.uncons frames).2
    exact .cons caller lower
  | ended => exact fun _ member => nomatch member

theorem numbered_of_moves
    (moves : Moves l backend asked given d t t') (numbered : t.stack.Numbered) :
    t'.stack.Numbered := by
  induction moves with
  | refl => exact numbered
  | tail _ move ih =>
    cases move with
    | shown shows' => cases shows'; exact ih
    | stride _ stride => exact numbered_of_stride stride ih
    | recorded frames =>
      obtain ⟨here, lower⟩ := ih.uncons frames
      exact .cons here lower
    | began => exact .push (by simp)
    | proposed | withdrawn => exact ih
    | changed frames => exact .push (ih.uncons frames).2
    | cancelled => exact fun _ member => nomatch member

end Turn

end Colloquy
