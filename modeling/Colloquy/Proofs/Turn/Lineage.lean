import Colloquy.Proofs.Turn.Standing

/-!
Where a flow that stands above a caller comes from: it is the one that was called, or has come in
its place. A caller goes past the step that calls only when such a flow has just come to its end.
-/

set_option autoImplicit false

namespace Colloquy

open Colloquy.Graph (Node)

namespace Library

variable {l : Library} {log log' : List Event}

def Calls (l : Library) (flow step callee : String) : Prop :=
  ∃ graph node, l.get? flow = some graph ∧ graph.node? step = some node ∧
    node.activity = .call callee

def Links (l : Library) (flow target : String) : Prop :=
  ∃ graph node, l.get? flow = some graph ∧ node ∈ graph.nodes ∧ node.activity = .link target

/-- A flow has executed a link step that leads to the other one. -/
def LinkedTo (l : Library) (log : List Event) (old new : Invocation) : Prop :=
  .linked old new ∈ log ∧ l.Links old.flow new.flow

/-- Another flow has come in the place of one, by a link or because the user has agreed to it. -/
def HandsOver (l : Library) (log : List Event) (old new : Invocation) : Prop :=
  l.LinkedTo log old new ∨ .changed old new ∈ log

/-- The flow is the one that `caller` has called as `callee`, or has come in its place. -/
def Descends (l : Library) (log : List Event) (caller : Invocation) (callee : String)
    (flow : Invocation) : Prop :=
  ∃ first, .called caller first ∈ log ∧ first.flow = callee ∧
    Relation.ReflTransGen (l.HandsOver log) first flow

/-- The upper frame stands in the place of what the caller below it has called. -/
def Above (l : Library) (log : List Event) (upper caller : Frame) : Prop :=
  ∃ step callee, caller.step = some step ∧ l.Calls caller.flow step callee ∧
    l.Descends log caller.invocation callee upper.invocation

theorem Calls.unique {flow step callee callee' : String} (calls : l.Calls flow step callee)
    (calls' : l.Calls flow step callee') : callee = callee' := by
  obtain ⟨graph, node, found, stands, activity⟩ := calls
  obtain ⟨graph', node', found', stands', activity'⟩ := calls'
  rw [found, Option.some.injEq] at found'
  subst found'
  rw [stands, Option.some.injEq] at stands'
  subst stands'
  rw [activity] at activity'
  cases activity'
  rfl

theorem HandsOver.mono (more : log ⊆ log') {old new : Invocation}
    (handed : l.HandsOver log old new) : l.HandsOver log' old new := by
  rcases handed with ⟨linked, links⟩ | changed
  · exact .inl ⟨more linked, links⟩
  · exact .inr (more changed)

theorem Descends.mono (more : log ⊆ log') {caller flow : Invocation} {callee : String}
    (descends : l.Descends log caller callee flow) : l.Descends log' caller callee flow := by
  obtain ⟨first, called, named, steps⟩ := descends
  exact ⟨first, more called, named,
    Relation.ReflTransGen.mono (fun _ _ => HandsOver.mono more) _ _ steps⟩

theorem Above.mono (more : log ⊆ log') {upper caller : Frame} (above : l.Above log upper caller) :
    l.Above log' upper caller := by
  obtain ⟨step, callee, stands, calls, descends⟩ := above
  exact ⟨step, callee, stands, calls, descends.mono more⟩

theorem Above.of_eq {upper upper' caller : Frame} (above : l.Above log upper caller)
    (same : upper'.invocation = upper.invocation) : l.Above log upper' caller := by
  obtain ⟨step, callee, stands, calls, descends⟩ := above
  exact ⟨step, callee, stands, calls, same ▸ descends⟩

theorem Above.handsOver {upper caller : Frame} {new : Frame} (above : l.Above log upper caller)
    (handed : l.HandsOver log upper.invocation new.invocation) : l.Above log new caller := by
  obtain ⟨step, callee, stands, calls, first, called, named, steps⟩ := above
  exact ⟨step, callee, stands, calls, first, called, named, steps.tail handed⟩

theorem calls_of_node? {f : Frame} {node : Node} {callee : String} (stands : l.node? f = some node)
    (activity : node.activity = .call callee) :
    ∃ step, f.step = some step ∧ l.Calls f.flow step callee := by
  obtain ⟨graph, step, found, here, node'⟩ := node?_eq_some.1 stands
  exact ⟨step, here, graph, node, found, node', activity⟩

-- Names are unique in a flow, so that the name of a step tells whether it is a call.
theorem Named.not_calls (named : l.Named) {f : Frame} {node : Node} {callee : String}
    (stands : l.node? f = some node) (other : node.activity.flow? = none) :
    ¬ l.Calls f.flow node.name callee := by
  rintro ⟨graph, node', found, here, activity⟩
  obtain ⟨graph', found', member⟩ := mem_of_node? stands
  rw [found, Option.some.injEq] at found'
  subst found'
  rw [Graph.node?_name (named _ _ found) member, Option.some.injEq] at here
  subst here
  simp [activity, Graph.Activity.flow?] at other

end Library

/-- In some events callers go past the steps that call only when a flow has just come to its end
that descends from the one that was called. -/
def Passed (l : Library) (past trail : List Event) : Prop :=
  ∀ earlier caller step later callee, trail = earlier ++ .left caller step :: later →
    l.Calls caller.flow step callee →
    ∃ before last, earlier = before ++ [.returned last caller] ∧
      l.Descends (past ++ before) caller callee last

namespace Passed

variable {l : Library} {past trail : List Event} {event : Event}

theorem nil : Passed l past [] := by simp [Passed]

theorem append (passed : Passed l past trail)
    (last : ∀ caller step callee, event = .left caller step → l.Calls caller.flow step callee →
      ∃ before last, trail = before ++ [.returned last caller] ∧
        l.Descends (past ++ before) caller callee last) :
    Passed l past (trail ++ [event]) := by
  intro earlier caller step later callee same calls
  rcases List.eq_nil_or_concat later with rfl | ⟨later, final, rfl⟩
  · obtain ⟨rfl, is⟩ := List.append_inj' same rfl
    exact last caller step callee (by simpa using is) calls
  · rw [List.concat_eq_append, ← List.cons_append, ← List.append_assoc] at same
    obtain ⟨rfl, -⟩ := List.append_inj' same rfl
    exact passed earlier caller step later callee rfl calls

theorem still (passed : Passed l past trail) (other : ∀ caller step, event ≠ .left caller step) :
    Passed l past (trail ++ [event]) := by
  apply passed.append
  intro caller step callee same
  exact absurd same (other caller step)

end Passed

namespace Turn

variable {σ : Type} {l : Library} {backend : Backend σ} {t t' : Turn σ} {asked : Option String}
  {given : Slots} {d : Decision} {past : List Event}

/-- Each flow on the stack stands where it has a right to, and so far each caller has gone on only
when it had. -/
structure Lined (l : Library) (past : List Event) (t : Turn σ) : Prop where
  upright : l.Upright t.stack.frames
  above : t.stack.frames.IsChain (l.Above (past ++ t.trail))
  passed : Passed l past t.trail

namespace Lined

theorem more (lined : t.Lined l past) (events : List Event) :
    t.stack.frames.IsChain (l.Above (past ++ (t.trail ++ events))) := by
  apply lined.above.imp
  intro upper caller above
  apply above.mono
  intro event member
  rw [← List.append_assoc]
  exact List.mem_append_left _ member

theorem leaves (lined : t.Lined l past) (named : l.Named) {top : Frame} {node : Node}
    (stands : l.node? top = some node)
    (other : node.activity.flow? = none) :
    (t.onto t.stack [.left top.invocation node.name]).Lined l past := by
  refine ⟨lined.upright, lined.more _, lined.passed.append ?_⟩
  rintro caller step callee same calls
  cases same
  exact absurd calls (named.not_calls stands other)

theorem resumes (lined : t.Lined l past) {top caller : Frame} {below : List Frame} {step : String}
    (frames : t.stack.frames = top :: caller :: below) (resume : caller.resume = some step) :
    Passed l past (t.trail ++
      [.returned top.invocation caller.invocation, .left caller.invocation step]) := by
  have returned : Passed l past (t.trail ++ [.returned top.invocation caller.invocation]) :=
    lined.passed.still (by simp)
  rw [List.append_cons]
  apply returned.append
  intro caller' step' callee same calls
  cases same
  refine ⟨t.trail, top.invocation, rfl, ?_⟩
  -- the step to resume is the one at which the caller sleeps, so both call the same flow
  have asleep := lined.upright.below caller (by rw [frames]; exact List.mem_cons_self)
  have above := lined.above
  rw [frames, List.isChain_cons_cons] at above
  obtain ⟨step', callee', here, calls', descends⟩ := above.1
  obtain rfl : step = step' := by
    rw [asleep.resume, here, Option.some.injEq] at resume
    exact resume.symm
  obtain rfl := calls.unique calls'
  exact descends

theorem stride (lined : t.Lined l past) (named : l.Named)
    (begins : t.trail = [] → ∀ node, l.topNode? t.stack = some node → node.activity.flow? = none)
    (stride : Stride l backend t t') : t'.Lined l past := by
  have upright := upright_of_stride stride lined.upright
  have new (event : Event) : event ∈ past ++ (t.trail ++ [event]) :=
    List.mem_append_right _ (List.mem_append_right _ List.mem_cons_self)
  cases stride with
  | shown | advanced => exact ⟨lined.upright, lined.above, lined.passed⟩
  | filled slots frames =>
    have above := lined.above
    rw [frames] at above
    exact ⟨upright, above.imp_head fun h => h.of_eq rfl, lined.passed⟩
  | entered frames | acted frames =>
    have above := lined.more
    rw [frames] at above
    exact ⟨upright, (above _).imp_head fun h => h.of_eq rfl, lined.passed.still (by simp)⟩
  | failed frames => exact ⟨upright, lined.more _, lined.passed.still (by simp)⟩
  | @left top below node target frames stands here leaves =>
    have other : node.activity.flow? = none := by
      rcases here with other | begun
      · exact other
      · apply begins begun node
        rw [Library.topNode?, top?_eq frames]
        exact stands
    obtain ⟨upright, above, passed⟩ := lined.leaves named stands other
    exact ⟨upright, above, passed⟩
  | answered frames stands activity =>
    exact lined.leaves named stands (by rw [activity]; rfl)
  | @called top below node flow frames active stands activity known =>
    have above := lined.more [.called top.invocation ⟨flow, t.stack.nextId⟩]
    rw [frames] at above
    refine ⟨upright, .cons_cons ?_ (above.imp_head fun h => h.of_eq rfl),
      lined.passed.still (by simp)⟩
    obtain ⟨step, here, calls⟩ := Library.calls_of_node? stands activity
    exact ⟨step, flow, here, calls, ⟨flow, t.stack.nextId⟩, new _, rfl, .refl⟩
  | @linked top below node flow frames active stands activity known =>
    have above := lined.more [.linked top.invocation ⟨flow, t.stack.nextId⟩]
    rw [frames] at above
    refine ⟨upright, above.imp_head fun h => h.handsOver (.inl ⟨new _, ?_⟩),
      lined.passed.still (by simp)⟩
    obtain ⟨graph, found, member⟩ := Library.mem_of_node? stands
    exact ⟨graph, node, found, member, activity⟩
  | @returned top caller below frames active =>
    have above := lined.more [.returned top.invocation caller.invocation]
    rw [frames] at above
    exact ⟨upright, above.tail.imp_head fun h => h.of_eq rfl, lined.passed.still (by simp)⟩
  | @resumed top caller below step target frames active resume leaves =>
    have above := lined.more
      [.returned top.invocation caller.invocation, .left caller.invocation step]
    rw [frames] at above
    exact ⟨upright, above.tail.imp_head fun h => h.of_eq rfl, lined.resumes frames resume⟩
  | ended frames active => exact ⟨upright, .nil, lined.passed.still (by simp)⟩

theorem moves {t₀ : Turn σ} (named : l.Named) (lined : t₀.Lined l past)
    (begins : ∀ node, l.topNode? t₀.stack = some node → node.activity.flow? = none)
    (moves : Moves l backend asked given d t₀ t) : t.Lined l past := by
  induction moves with
  | refl => exact lined
  | @tail t₁ _ earlier move ih =>
    cases move with
    | shown shows' => cases shows'; exact ⟨ih.upright, ih.above, ih.passed⟩
    | stride _ stride =>
      refine ih.stride named ?_ stride
      intro quiet node stands
      rw [(topNode?_of_moves earlier quiet).1] at stands
      exact begins node stands
    | recorded frames =>
      have upright := ih.upright
      have above := ih.above
      rw [frames] at upright above
      obtain ⟨⟨status, resume, known⟩, below⟩ := Library.upright_cons.1 upright
      exact ⟨Library.upright_cons.2 ⟨⟨status, resume, known⟩, below⟩,
        above.imp_head fun h => h.of_eq rfl, ih.passed⟩
    | began empty begun known =>
      exact ⟨Library.upright_cons.2 ⟨.new known, by simp⟩, .singleton _, ih.passed.still (by simp)⟩
    | proposed | withdrawn => exact ⟨ih.upright, ih.above, ih.passed⟩
    | @changed _ top below flow frames active withdrawn begun asked known =>
      have upright := ih.upright
      have above := ih.more [.changed top.invocation ⟨flow, t₁.stack.nextId⟩]
      rw [frames] at upright above
      refine ⟨Library.upright_cons.2 ⟨.new known, (Library.upright_cons.1 upright).2⟩,
        above.imp_head fun h => h.handsOver (.inr ?_), ih.passed.still (by simp)⟩
      exact List.mem_append_right _ (List.mem_append_right _ List.mem_cons_self)
    | cancelled begun =>
      refine ⟨Library.upright_nil, .nil, ?_⟩
      cases frames : t₁.stack.frames with
      | nil => simpa [onto, Stack.top?, frames] using ih.passed
      | cons top below =>
        have passed : Passed l past (t₁.trail ++ [.cancelled top.invocation]) :=
          ih.passed.still (by simp)
        simpa [onto, Stack.top?, frames] using passed

end Lined

end Turn

end Colloquy
