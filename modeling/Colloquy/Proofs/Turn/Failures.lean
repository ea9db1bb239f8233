import Colloquy.Proofs.Turn.Traces
import Colloquy.Proofs.Turn.Standing

/-!
How a turn over compiled flows may fail. The ways in which a turn gets stuck are gone through one by
one: most of them cannot come about in flows that are closed, on a stack that stands upright.
-/

set_option autoImplicit false

namespace Colloquy

open Colloquy.Graph (Leaving Node Target)

/-- The failures of a turn that compiled flows do not rule out: two values have no order, or the
turn takes too many steps. -/
inductive TurnError.Foreseen : TurnError → Prop where
  | incomparable (op : Comparison) (left right : Value) :
      Foreseen (.condition (.incomparable op left right))
  | stepLimit (flow : String) (limit : Nat) : Foreseen (.stepLimit flow limit)

namespace Library.Closed

variable {l : Library} {graph : Graph} {node : Node} {f : Frame}

theorem within_of_has (closed : l.Closed) (found : l.get? f.flow = some graph) {target : Target}
    (has : graph.Has target) : target.Within graph.nodes.length := by
  cases has with
  | entry => exact graph.within_entry
  | edge member leaves => exact (closed.leaving _ _ found _ member).within _ leaves
  | position member => exact Target.within_step.2 (List.getElem?_eq_some_iff.1 member).1

theorem foreseen_of_leave (closed : l.Closed) (found : l.get? f.flow = some graph) {step : String}
    (here : graph.node? step = some node) (statement : node.activity.isQuestion = false)
    {e : TurnError} (fails : l.leave f step = .error e) : e.Foreseen := by
  obtain ⟨index, -, member⟩ := Option.bind_eq_some_iff.1 here
  have leaving := closed.leaving _ _ found node (List.mem_of_getElem? member)
  have next : graph.next step f.slots = Graph.firstTarget f.slots node.edges := by
    simp only [Graph.next, here]
  rcases bind_eq_error.1 fails with unknown | ⟨graph', known, rest⟩
  · obtain ⟨missing, -⟩ := graph_eq_error.1 unknown
    cases missing.symm.trans found
  · cases (graph_eq_ok.1 known).symm.trans found
    rw [next] at rest
    split at rest
    · next clashes =>
      cases rest
      obtain ⟨op, left, right, rfl⟩ := Graph.isClash_of_firstTarget clashes
      exact .incomparable op left right
    · next nowhere => exact absurd nowhere (Graph.firstTarget_ne_none (leaving.total statement))
    · cases rest

end Library.Closed

namespace Turn

variable {σ : Type} {l : Library} {backend : Backend σ} {t₀ t t' : Turn σ} {asked : Option String}
  {given : Slots} {d : Decision}

/-- A caller that has just been woken stands at a step that calls. -/
def Woken (l : Library) (t : Turn σ) : Prop :=
  ∀ earlier callee caller top, t.trail = earlier ++ [.returned callee caller] →
    t.stack.top? = some top → ∃ node flow, l.node? top = some node ∧ node.activity = .call flow

theorem woken_of_last {earlier : List Event} {event : Event} (last : t.trail = earlier ++ [event])
    (other : ∀ callee caller, event ≠ .returned callee caller) : t.Woken l := by
  intro earlier' callee caller top woken
  obtain ⟨-, same⟩ := List.append_inj' (last.symm.trans woken) rfl
  exact absurd (List.singleton_inj.1 same) (other callee caller)

theorem woken_of_begun (begun : t.trail = []) : t.Woken l := by
  intro earlier callee caller top woken
  simp [begun] at woken

theorem Woken.stride (woken : t.Woken l) (upright : l.Upright t.stack.frames)
    (stride : Stride l backend t t') : t'.Woken l := by
  cases stride with
  | shown | advanced => exact woken
  | filled _ _ begun => exact woken_of_begun begun
  | returned frames =>
    rintro - - - top - top?
    cases top?
    rw [frames] at upright
    obtain ⟨-, resume, node, flow, stands, calls⟩ :=
      (Library.upright_cons.1 upright).2 _ List.mem_cons_self
    refine ⟨node, flow, ?_, calls⟩
    rw [← stands]
    simp only [Library.node?, Frame.wake, resume]
  | resumed => exact woken_of_last (List.append_cons ..) (by simp)
  | entered | acted | failed | left | answered | called | linked | ended =>
    exact woken_of_last rfl (by simp)

theorem woken_of_moves (moves : Moves l backend asked given d t₀ t)
    (upright : l.Upright t₀.stack.frames) (begun : t₀.trail = []) : t.Woken l := by
  induction moves with
  | refl => exact woken_of_begun begun
  | @tail t₁ _ earlier move ih =>
    cases move with
    | shown shows' => cases shows'; exact ih
    | stride _ stride => exact ih.stride (upright_of_moves earlier upright) stride
    | recorded _ begun | proposed begun | withdrawn begun => exact woken_of_begun begun
    | began | changed => exact woken_of_last rfl (by simp)
    | cancelled begun =>
      cases frames : t₁.stack.frames with
      | nil => exact woken_of_begun (by simp [onto, Stack.top?, frames, begun])
      | cons top below =>
        have events : (t₁.stack.top?.map fun f => Event.cancelled f.invocation).toList =
            [.cancelled top.invocation] := by simp [Stack.top?, frames]
        exact woken_of_last (congrArg (t₁.trail ++ ·) events) (by simp)

theorem offered_of_moves (moves : Moves l backend asked given d t₀ t)
    (offered : ∀ flow ∈ t₀.pending, (l.get? flow).isSome) :
    ∀ flow ∈ t.pending, (l.get? flow).isSome := by
  induction moves with
  | refl => exact offered
  | tail _ move ih =>
    cases move with
    | shown shows' => cases shows'; exact ih
    | stride _ stride =>
      obtain ⟨events, brings⟩ := brings_of_stride stride
      rw [brings.pending]
      exact ih
    | recorded | began | changed => exact ih
    | proposed _ known =>
      rintro _ ⟨⟩
      exact known
    | withdrawn | cancelled => rintro _ ⟨⟩

/-- A turn over compiled flows fails only as it may. -/
theorem Stuck.foreseen {e : TurnError} (stuck : t.Stuck l asked e) (closed : l.Closed)
    (upright : l.Upright t.stack.frames) (woken : t.Woken l)
    (placed : t.trail = [] → t.stack.frames = [] ∨ (l.topNode? t.stack).isSome)
    (offered : ∀ flow ∈ asked, (l.get? flow).isSome) : e.Foreseen := by
  have awake {top : Frame} {below : List Frame} (frames : t.stack.frames = top :: below) :
      l.Awake top := upright.top top (by simp [frames])
  cases stuck with
  | unregistered frames unknown => simpa [unknown] using (awake frames).known
  | inactive frames inactive => exact absurd (awake frames).status inactive
  | unplaced frames begun nowhere =>
    have stands := (placed begun).resolve_left (by simp [frames])
    simp [Library.topNode?, top?_eq frames, nowhere] at stands
  | stalled frames stands statement fails =>
    obtain ⟨graph, found, member⟩ := Library.mem_of_node? stands
    have here := Graph.node?_name (closed.named _ _ found) member
    exact closed.foreseen_of_leave found here statement fails
  | lost frames last step fails =>
    obtain ⟨node, flow, stands, calls⟩ := woken _ _ _ _ last (top?_eq frames)
    obtain ⟨graph, step', found, step'', here⟩ := Library.node?_eq_some.1 stands
    cases step.symm.trans step''
    exact closed.foreseen_of_leave found here (by rw [calls]; rfl) fails
  | unanswered frames stands activity found nowhere =>
    obtain ⟨graph', found', member⟩ := Library.mem_of_node? stands
    cases found.symm.trans found'
    have leads := Graph.isSome_answered (closed.named _ _ found) member
      (closed.leaving _ _ found _ member) (by rw [activity]; rfl)
    exact absurd nowhere (Option.isSome_iff_ne_none.1 (leads _))
  | uncalled frames stands hands unknown =>
    obtain ⟨graph, found, member⟩ := Library.mem_of_node? stands
    simpa [unknown] using closed.calls _ _ found _ member _ hands
  | unoffered frames open' unknown => simpa [unknown] using offered _ open'
  | missing frames found has absent =>
    have below := closed.within_of_has found has _ rfl
    simp only [List.getElem?_eq_none_iff] at absent
    omega
  | limited => exact .stepLimit _ _

end Turn

end Colloquy
