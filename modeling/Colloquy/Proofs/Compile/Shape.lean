import Colloquy.Proofs.Compile.Loops

/-!
Compiled graphs can be run. Each step of the flow has its node at its own position, with the edges
that its kind asks for, and whatever follows an edge comes to a step of the flow or to its end.
-/

set_option autoImplicit false

namespace Colloquy

open Colloquy.Flow (Step)
open Colloquy.Graph (Activity Edge Leaving Node Target)

namespace Graph

def Node.single? (node : Node) : Option Target :=
  match node.edges with
  | [⟨.always, target⟩] => some target
  | _ => none

/-- The targets that `linearPath?` comes to, however long it goes on. -/
inductive OnPath (g : Graph) : Target → Prop where
  | entry : OnPath g g.entry
  | onward {index : Nat} {node : Node} {target : Target} : OnPath g (.step index) →
      g.nodes[index]? = some node → node.single? = some target → OnPath g target

/-- The graph of the flow has all that running it relies on. -/
structure Executable (d : Dialect) (flow : Flow) (g : Graph) : Prop where
  length : g.nodes.length = flow.steps.length
  node : ∀ (index : Nat) (step : Step), flow.steps[index]? = some step →
    ∃ node : Node, g.nodes[index]? = some node ∧ node.name = step.name ∧
      d.activity step = .ok node.activity
  index : ∀ (index : Nat) (step : Step), flow.steps[index]? = some step →
    g.index? step.name = some index
  leaving : ∀ node ∈ g.nodes, Leaving g.nodes.length node.activity node.edges
  within : ∀ node ∈ g.nodes, ∀ edge ∈ node.edges, edge.target.Within g.nodes.length
  enters : ∀ node ∈ g.nodes, ∀ condition body, node.activity = .loop condition body →
    ∃ name first exit, body.head? = some name ∧ g.index? name = some first ∧
      node.edges = [⟨.when condition, .step first⟩, ⟨.otherwise, exit⟩]
  next : ∀ node ∈ g.nodes, node.activity.isQuestion = false → ∀ slots,
    g.next node.name slots ≠ .ok none
  answered : ∀ node ∈ g.nodes, node.activity.isQuestion = true → ∀ affirmed,
    (g.answered node.name affirmed).isSome
  path : ∀ index, g.OnPath (.step index) → ∃ node : Node, g.nodes[index]? = some node ∧
    ∀ bound, g.straight (bound + 1) (.step index) =
      node.single?.bind fun target => (g.straight bound target).map (node.name :: ·)

variable {g : Graph} {node : Node}

theorem single?_eq_some {target : Target} :
    node.single? = some target ↔ node.edges = [⟨.always, target⟩] := by
  unfold Node.single?
  split <;> simp_all

theorem straight_step {index : Nat} (place : g.nodes[index]? = some node) (bound : Nat) :
    g.straight (bound + 1) (.step index) =
      node.single?.bind fun target => (g.straight bound target).map (node.name :: ·) := by
  rw [straight, place]
  cases single : node.single? with
  | some target =>
    rw [single?_eq_some] at single
    simp only [single, bind, Option.bind_some]
    cases g.straight bound target <;> rfl
  | none =>
    simp only [bind, Option.bind_some, Option.bind_none]
    split
    · next target edges => cases single.symm.trans (single?_eq_some.2 edges)
    · rfl

theorem OnPath.within (closed : ∀ node ∈ g.nodes, ∀ edge ∈ node.edges,
    edge.target.Within g.nodes.length) {target : Target} (path : g.OnPath target) :
    target.Within g.nodes.length := by
  cases path with
  | entry => exact g.within_entry
  | onward _ place single =>
    exact closed _ (List.mem_of_getElem? place) ⟨.always, target⟩
      (by simp [single?_eq_some.1 single])

end Graph

namespace Dialect

variable {d : Dialect} {flow : Flow} {graph : Graph}

/-- A flow that is compiled has a graph that can be run. -/
theorem executable_of_compile (compiled : d.compile flow = .ok graph) :
    graph.Executable d flow := by
  have named := named_of_compile compiled
  have leaving := leaving_of_compile compiled
  have within : ∀ node ∈ graph.nodes, ∀ edge ∈ node.edges,
      edge.target.Within graph.nodes.length := fun node member => (leaving node member).within
  obtain ⟨plan, rfl, makes, wired⟩ := exists_plan compiled
  constructor
  case length => exact makes.length
  case leaving => exact leaving
  case within => exact within
  case node =>
    intro index step place
    obtain ⟨node, here, name, activity, -⟩ := wired index step place
    exact ⟨node, here, name, activity⟩
  case index =>
    intro index step place
    obtain ⟨node, here, name, -⟩ := wired index step place
    exact name ▸ Graph.index?_name named here
  case enters =>
    intro node member condition body loop
    obtain ⟨index, place⟩ := List.mem_iff_getElem?.1 member
    obtain ⟨step, -, edges⟩ := makes.edges index node place
    rw [loop] at edges
    obtain ⟨name, first, exit, head, found, -, same⟩ := Compile.Plan.loopEdges_cases edges
    exact ⟨name, first, exit, head, (makes.index? name).trans found, same⟩
  case next => exact fun node member => Graph.next_ne_none named member (leaving node member)
  case answered =>
    exact fun node member => Graph.isSome_answered named member (leaving node member)
  case path =>
    intro index path
    have place := List.getElem?_eq_getElem (path.within within index rfl)
    exact ⟨_, place, Graph.straight_step place⟩

def picking : Step :=
  ((Step.branch "pick").withCase " amount > 1000 " "sure").withCase "amount > 100" "done"

def errand : Flow :=
  ⟨"errand", "", [.loop "again" "more" ["ask", "pick"],
    { Step.collect "ask" "amount" with tag := "Ask" }, picking, .confirm "sure",
    .say "done" "bye"]⟩

def asking : Dialect := (standard .strict).synonym "ask" "collect"

theorem executable_of_compile_errand :
    ∃ graph, asking.compile errand = .ok graph ∧ graph.Executable asking errand := by
  have accepted : (asking.compile errand).toOption.isSome := by decide +kernel
  obtain ⟨graph, made⟩ := Option.isSome_iff_exists.1 accepted
  have compiled := eq_ok_of_toOption made
  exact ⟨graph, compiled, executable_of_compile compiled⟩

end Dialect

end Colloquy
