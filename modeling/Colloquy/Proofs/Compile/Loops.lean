import Colloquy.Proofs.Compile.Edges
import Mathlib.Order.Bounds.Basic

/-!
Loops in compiled flows. Without jumps control goes back from the last step of a body to the head,
and on from the head to what `exit_leaves_iff` tells.
-/

set_option autoImplicit false

namespace Colloquy

open Colloquy.Flow (Step)
open Colloquy.Graph (Activity Edge Node Target)

namespace Graph

def Activity.body : Activity → List String
  | loop _ body => body
  | _ => []

def body (g : Graph) (head : Nat) : List String := (g.nodes[head]?).elim [] (·.activity.body)

/-- The step at `index` is listed in the body of the loop at `head`. -/
def Lists (g : Graph) (head index : Nat) : Prop :=
  ∃ name ∈ g.body head, g.index? name = some index

/-- The step at `tail` is the last in the body of the loop at `head`. -/
def Closes (g : Graph) (head tail : Nat) : Prop :=
  ∃ name, (g.body head).getLast? = some name ∧ g.index? name = some tail

/-- The steps inside a loop: those of its body, and those of the bodies of loops inside it. -/
inductive Inside (g : Graph) (head : Nat) : Nat → Prop where
  | listed {index : Nat} : g.Lists head index → Inside g head index
  | nested {inner index : Nat} : Inside g head inner → g.Lists inner index → Inside g head index

def Leaves (g : Graph) (head : Nat) : Target → Prop
  | .step index => index ≠ head ∧ ¬ g.Inside head index
  | .finish => True

theorem body_eq {g : Graph} {head : Nat} {node : Node} (place : g.nodes[head]? = some node) :
    g.body head = node.activity.body := by
  simp [body, place]

theorem lt_of_inside {g : Graph} {head index : Nat} (inside : g.Inside head index) :
    index < g.nodes.length := by
  have bounded {head index : Nat} (lists : g.Lists head index) : index < g.nodes.length := by
    obtain ⟨name, -, found⟩ := lists
    exact (List.findIdx?_eq_some_iff_getElem.1 found).1
  cases inside with
  | listed lists => exact bounded lists
  | nested _ lists => exact bounded lists

end Graph

theorem last_of_forall₂ {α β : Type} {r : α → β → Prop} {as : List α} {bs : List β}
    (pairs : List.Forall₂ r as bs) {b : β} (last : bs.getLast? = some b) :
    ∃ a, as.getLast? = some a ∧ r a b := by
  have reversed := List.forall₂_reverse_iff.2 pairs
  rw [List.getLast?_eq_head?_reverse] at last
  rw [List.getLast?_eq_head?_reverse]
  generalize as.reverse = as at reversed
  generalize bs.reverse = bs at reversed last
  cases reversed with
  | nil => cases last
  | cons first _ =>
    cases last
    exact ⟨_, rfl, first⟩

theorem isGreatest_foldl_max (indices : List Nat) (first : Nat) :
    IsGreatest {index | index = first ∨ index ∈ indices} (indices.foldl max first) := by
  induction indices generalizing first with
  | nil => simp [IsGreatest, upperBounds]
  | cons second indices ih =>
    obtain ⟨member, above⟩ := ih (max first second)
    have bound := above (.inl rfl)
    constructor
    · rcases member with same | member
      · rcases le_total first second with smaller | larger
        · exact .inr (List.mem_cons.2 (.inl (same.trans (max_eq_right smaller))))
        · exact .inl (same.trans (max_eq_left larger))
      · exact .inr (List.mem_cons_of_mem _ member)
    · rintro index (rfl | member)
      · exact le_trans (le_max_left _ _) bound
      · rcases List.mem_cons.1 member with rfl | member
        · exact le_trans (le_max_right _ _) bound
        · exact above (.inr member)

namespace Compile

section

variable {flow : Flow} {head : Nat} {activity : Activity} {activities : List Activity}
  {known edges : List BackEdge}

/-- A loop lists known steps other than itself, and closes at the last of them. -/
theorem backEdge?_eq_ok {condition : Predicate} {body : List String} {e : Option BackEdge}
    (found : backEdge? flow head (.loop condition body) = .ok e) :
    (∀ name ∈ body, flow.index? name ≠ some head) ∧
      ∃ name tail, body.getLast? = some name ∧ flow.index? name = some tail ∧
        e = some ⟨tail, head⟩ := by
  obtain ⟨steps, listed, rest⟩ := bind_eq_ok.1 found
  have known : List.Forall₂ (fun name index => flow.index? name = some index ∧ index ≠ head)
      body steps := by
    refine (mapM_eq_ok.1 listed).imp ?_
    intro name index ok
    split at ok
    · cases ok
    · next position place =>
      split at ok
      · cases ok
      · next other =>
        cases ok
        exact ⟨place, other⟩
  constructor
  · intro name member
    obtain ⟨index, -, place, other⟩ := exists_of_forall₂ known.flip member
    rw [place]
    exact fun same => other (Option.some.inj same)
  · split at rest
    · next tail last =>
      cases rest
      obtain ⟨name, last, place, -⟩ := last_of_forall₂ known last
      exact ⟨name, tail, last, place, rfl⟩
    · cases rest

theorem mem_backEdges (ok : backEdges flow known head activities = .ok edges) {edge : BackEdge} :
    edge ∈ edges ↔ edge ∈ known ∨ ∃ i activity, activities[i]? = some activity ∧
      backEdge? flow (head + i) activity = .ok (some edge) := by
  induction activities generalizing known head with
  | nil => cases ok; simp
  | cons activity activities ih =>
    have later (found : Option BackEdge) (first : backEdge? flow head activity = .ok found) :
        (∃ i other, (activity :: activities)[i]? = some other ∧
          backEdge? flow (head + i) other = .ok (some edge)) ↔
        found = some edge ∨ ∃ i other, activities[i]? = some other ∧
          backEdge? flow (head + 1 + i) other = .ok (some edge) := by
      constructor
      · rintro ⟨_ | i, other, place, closes⟩
        · cases place
          exact .inl (Except.ok.inj (first.symm.trans closes))
        · exact .inr ⟨i, other, place, by rwa [Nat.add_assoc, Nat.add_comm 1]⟩
      · rintro (rfl | ⟨i, other, place, closes⟩)
        · exact ⟨0, activity, rfl, first⟩
        · exact ⟨i + 1, other, place, by rwa [Nat.add_comm i, ← Nat.add_assoc]⟩
    unfold backEdges at ok
    split at ok
    · cases ok
    · next first => rw [ih ok, later none first]; simp
    · next found first =>
      split at ok
      · cases ok
      · rw [ih ok, later _ first, List.mem_append, List.mem_singleton, or_assoc, Option.some.injEq,
          eq_comm (a := edge)]

theorem nodup_of_backEdges (distinct : (known.map (·.tail)).Nodup)
    (ok : backEdges flow known head activities = .ok edges) : (edges.map (·.tail)).Nodup := by
  induction activities generalizing known head with
  | nil => cases ok; exact distinct
  | cons activity activities ih =>
    unfold backEdges at ok
    split at ok
    · cases ok
    · exact ih distinct ok
    · next edge _ =>
      split at ok
      · cases ok
      · next fresh =>
        refine ih ?_ ok
        rw [List.map_append, List.nodup_append]
        refine ⟨distinct, by simp, ?_⟩
        intro tail member other single same
        obtain ⟨earlier, found, rfl⟩ := List.mem_map.1 member
        simp only [List.map_cons, List.map_nil, List.mem_singleton] at single
        exact fresh (List.any_eq_true.2 ⟨earlier, found, by simp [same, single]⟩)

theorem exists_of_backEdges (ok : backEdges flow known head activities = .ok edges) {i : Nat}
    (place : activities[i]? = some activity) :
    ∃ found, backEdge? flow (head + i) activity = .ok found := by
  induction activities generalizing known head i with
  | nil => cases place
  | cons first activities ih =>
    have later {known : List BackEdge} {found : Option BackEdge}
        (closes : backEdge? flow head first = .ok found)
        (ok : backEdges flow known (head + 1) activities = .ok edges) :
        ∃ found, backEdge? flow (head + i) activity = .ok found := by
      cases i with
      | zero => cases place; exact ⟨found, closes⟩
      | succ i =>
        obtain ⟨found, closes⟩ := ih ok place
        exact ⟨found, by rwa [Nat.add_comm i, ← Nat.add_assoc]⟩
    unfold backEdges at ok
    split at ok
    · cases ok
    · next closes => exact later closes ok
    · next closes =>
      split at ok
      · cases ok
      · exact later closes ok

end

namespace Plan

variable {plan : Plan} {index last : Nat} {step : Step}

theorem loopHead?_eq_some (distinct : (plan.backEdges.map (·.tail)).Nodup) {head tail : Nat} :
    plan.loopHead? tail = some head ↔ ⟨tail, head⟩ ∈ plan.backEdges := by
  unfold loopHead?
  constructor
  · intro found
    obtain ⟨edge, first, rfl⟩ := Option.map_eq_some_iff.1 found
    have same : edge.tail = tail := by simpa using List.find?_some first
    exact same ▸ List.mem_of_find?_eq_some first
  · intro member
    cases found : plan.backEdges.find? (·.tail == tail) with
    | none => simpa using List.find?_eq_none.1 found _ member
    | some edge =>
      have same : edge.tail = tail := by simpa using List.find?_some found
      have unique := List.inj_on_of_nodup_map distinct (List.mem_of_find?_eq_some found) member same
      rw [unique]
      rfl

theorem onward_of_jumpless (plan : Plan) (index last : Nat) (jumpless : step.jump = none) :
    plan.onward index last step =
      .ok ((plan.loopHead? index).elim (plan.successor last) .step) := by
  unfold onward
  rw [jumpless]
  cases plan.loopHead? index <;> rfl

theorem loopEdges_eq_ok {condition : Predicate} {body : List String} {edges : List Edge}
    (jumpless : step.jump = none) (ok : plan.edges index step (.loop condition body) = .ok edges) :
    ∃ first, edges = [⟨.when condition, .step first⟩, ⟨.otherwise,
      (plan.loopHead? index).elim (plan.successor (plan.lastOf index body)) .step⟩] := by
  obtain ⟨name, first, exit, -, -, leads, rfl⟩ := loopEdges_cases ok
  rw [onward_of_jumpless plan index _ jumpless] at leads
  cases leads
  exact ⟨first, rfl⟩

theorem plainEdges_eq_ok {activity : Activity} {edges : List Edge} (plain : activity.isPlain = true)
    (jumpless : step.jump = none) (ok : plan.edges index step activity = .ok edges) :
    edges = [⟨.always, (plan.loopHead? index).elim (plan.successor index) .step⟩] := by
  cases activity with
  | branch | confirm | loop => cases plain
  | _ =>
    unfold Plan.edges at ok
    rw [onward_of_jumpless plan index _ jumpless] at ok
    cases ok
    rfl

end Plan

theorem node_of_nodes {plan : Plan} {index : Nat} {steps : List (Step × Activity)}
    {made : List Node} (ok : nodes plan index steps = .ok made) {i : Nat} {node : Node}
    (place : made[i]? = some node) :
    ∃ step, steps[i]? = some (step, node.activity) ∧
      plan.edges (index + i) step node.activity = .ok node.edges := by
  induction steps generalizing index made i with
  | nil => cases ok; cases place
  | cons step steps ih =>
    obtain ⟨edges, found, rest⟩ := bind_eq_ok.1 ok
    obtain ⟨others, tail, same⟩ := bind_eq_ok.1 rest
    cases same
    cases i with
    | zero =>
      cases place
      exact ⟨step.1, rfl, inStep_eq_ok.1 found⟩
    | succ i =>
      obtain ⟨step', place, found⟩ := ih tail place
      exact ⟨step', place, by rwa [Nat.add_comm i, ← Nat.add_assoc]⟩

theorem activities_of_nodes {plan : Plan} {index : Nat} {steps : List (Step × Activity)}
    {made : List Node} (ok : nodes plan index steps = .ok made) :
    made.map (·.activity) = steps.map (·.2) := by
  induction steps generalizing index made with
  | nil => cases ok; rfl
  | cons step steps ih =>
    obtain ⟨edges, -, rest⟩ := bind_eq_ok.1 ok
    obtain ⟨others, tail, same⟩ := bind_eq_ok.1 rest
    cases same
    simp [ih tail]

end Compile

namespace Compile

variable {graph : Graph} {plan : Plan} {head tail : Nat}

/-- The graph is what the plan makes of its flow, and the plan knows all loops of it. -/
structure Plan.Makes (plan : Plan) (graph : Graph) : Prop where
  length : graph.nodes.length = plan.flow.steps.length
  index? : ∀ name, graph.index? name = plan.flow.index? name
  loops : Compile.backEdges plan.flow [] 0 (graph.nodes.map (·.activity)) = .ok plan.backEdges
  edges : ∀ index node, graph.nodes[index]? = some node → ∃ step ∈ plan.flow.steps,
    plan.edges index step node.activity = .ok node.edges

namespace Plan.Makes

theorem closes (makes : plan.Makes graph) {node : Node} {condition : Predicate}
    {body : List String} (place : graph.nodes[head]? = some node)
    (loop : node.activity = .loop condition body) :
    (∀ name ∈ body, graph.index? name ≠ some head) ∧
      ∃ name tail, body.getLast? = some name ∧ graph.index? name = some tail ∧
        ⟨tail, head⟩ ∈ plan.backEdges := by
  have known : (graph.nodes.map (·.activity))[head]? = some (.loop condition body) := by
    rw [List.getElem?_map, place, Option.map_some, loop]
  obtain ⟨found, closes⟩ := exists_of_backEdges makes.loops known
  rw [Nat.zero_add] at closes
  obtain ⟨others, name, tail, last, index, rfl⟩ := backEdge?_eq_ok closes
  simp only [makes.index?]
  refine ⟨others, name, tail, last, index, (mem_backEdges makes.loops).2 (.inr ?_)⟩
  exact ⟨head, _, known, by rwa [Nat.zero_add]⟩

theorem loopHead?_iff (makes : plan.Makes graph) :
    plan.loopHead? tail = some head ↔ graph.Closes head tail := by
  rw [loopHead?_eq_some (nodup_of_backEdges (by simp) makes.loops)]
  constructor
  · intro member
    rcases (mem_backEdges makes.loops).1 member with member | ⟨i, activity, known, closes⟩
    · cases member
    rw [Nat.zero_add] at closes
    cases head_of_backEdge? closes
    rw [List.getElem?_map] at known
    obtain ⟨node, place, same⟩ := Option.map_eq_some_iff.1 known
    cases activity with
    | loop condition body =>
      obtain ⟨-, name, tail, last, index, edge⟩ := backEdge?_eq_ok closes
      cases edge
      exact ⟨name, by rw [Graph.body_eq place, same]; exact last, (makes.index? name).trans index⟩
    | _ => cases closes
  · rintro ⟨name, last, index⟩
    cases place : graph.nodes[head]? with
    | none => simp [Graph.body, place] at last
    | some node =>
      rw [Graph.body_eq place] at last
      cases loop : node.activity with
      | loop condition body =>
        obtain ⟨-, name', tail', last', index', member⟩ := makes.closes place loop
        rw [loop] at last
        cases last.symm.trans last'
        cases index.symm.trans index'
        exact member
      | _ => rw [loop] at last; cases last

theorem not_lists_self (makes : plan.Makes graph) : ¬ graph.Lists head head := by
  rintro ⟨name, member, index⟩
  cases place : graph.nodes[head]? with
  | none => simp [Graph.body, place] at member
  | some node =>
    rw [Graph.body_eq place] at member
    cases loop : node.activity with
    | loop condition body =>
      rw [loop] at member
      exact (makes.closes place loop).1 name member index
    | _ => rw [loop] at member; cases member

theorem isGreatest_lastOf (makes : plan.Makes graph) (head : Nat) :
    IsGreatest {index | index = head ∨ graph.Lists head index}
      (plan.lastOf head (graph.body head)) := by
  have greatest := isGreatest_foldl_max ((graph.body head).filterMap plan.flow.index?) head
  have same : {index | index = head ∨ index ∈ (graph.body head).filterMap plan.flow.index?} =
      {index | index = head ∨ graph.Lists head index} := by
    ext index
    simp only [List.mem_filterMap, Graph.Lists, makes.index?]
  rw [same] at greatest
  exact greatest

theorem leaves_iff (makes : plan.Makes graph) :
    graph.Leaves head
        ((plan.loopHead? head).elim (plan.successor (plan.lastOf head (graph.body head))) .step) ↔
      (∀ outer, graph.Closes outer head → ¬ graph.Inside head outer) ∧
        ((∀ outer, ¬ graph.Closes outer head) →
          ∀ last, IsGreatest {index | index = head ∨ graph.Lists head index} last →
            ¬ graph.Inside head (last + 1)) := by
  have greatest := makes.isGreatest_lastOf head
  cases closed : plan.loopHead? head with
  | some outer =>
    have closes := makes.loopHead?_iff.1 closed
    have other : outer ≠ head := by
      rintro rfl
      obtain ⟨name, last, index⟩ := closes
      exact makes.not_lists_self ⟨name, List.mem_of_getLast? last, index⟩
    constructor
    · rintro ⟨-, outside⟩
      refine ⟨?_, fun none => absurd closes (none outer)⟩
      intro outer' closes'
      cases closed.symm.trans (makes.loopHead?_iff.2 closes')
      exact outside
    · rintro ⟨outside, -⟩
      exact ⟨other, outside outer closes⟩
  | none =>
    have open' (outer : Nat) : ¬ graph.Closes outer head := by
      intro closes
      cases closed.symm.trans (makes.loopHead?_iff.2 closes)
    have behind : (∀ last, IsGreatest {index | index = head ∨ graph.Lists head index} last →
        ¬ graph.Inside head (last + 1)) ↔
          ¬ graph.Inside head (plan.lastOf head (graph.body head) + 1) :=
      ⟨fun all => all _ greatest, fun outside _ last => greatest.unique last ▸ outside⟩
    rw [behind]
    simp only [Option.elim_none, Plan.successor]
    split
    · next below =>
      have above : head ≤ plan.lastOf head (graph.body head) := greatest.2 (.inl rfl)
      exact ⟨fun leaves => ⟨fun outer closes => absurd closes (open' outer), fun _ => leaves.2⟩,
        fun outside => ⟨by omega, outside.2 open'⟩⟩
    · next beyond =>
      refine ⟨fun _ => ⟨fun outer closes => absurd closes (open' outer), fun _ inside => ?_⟩,
        fun _ => trivial⟩
      have := Graph.lt_of_inside inside
      rw [makes.length] at this
      exact beyond this

end Plan.Makes

end Compile

namespace Dialect

variable {d : Dialect} {flow : Flow} {graph : Graph}

/-- The plan that a flow is compiled by, and what it makes of each step. -/
theorem exists_plan (compiled : d.compile flow = .ok graph) :
    ∃ plan : Compile.Plan, plan.flow = flow ∧ plan.Makes graph ∧
      ∀ index step, flow.steps[index]? = some step → ∃ node, graph.nodes[index]? = some node ∧
        node.name = step.name ∧ d.activity step = .ok node.activity ∧
        plan.edges index step node.activity = .ok node.edges := by
  have names := names_of_compile compiled
  obtain ⟨-, activities, backEdges, steps, loops, made, -⟩ := compile_cases compiled
  have same : graph.nodes.map (·.activity) = activities := by
    rw [Compile.activities_of_nodes made, List.map_snd_zip (Nat.le_of_eq steps.length_eq.symm)]
  have length : graph.nodes.length = flow.steps.length := by simpa using congrArg List.length names
  refine ⟨⟨flow, d.policy, backEdges⟩, rfl, ⟨length, ?_, same ▸ loops, ?_⟩, ?_⟩
  · intro name
    have index := congrArg (List.findIdx? (· == name)) names
    rw [List.findIdx?_map, List.findIdx?_map] at index
    exact index
  · intro index node place
    obtain ⟨step, place, edges⟩ := Compile.node_of_nodes made place
    rw [Nat.zero_add] at edges
    exact ⟨step, (List.of_mem_zip (List.mem_of_getElem? place)).1, edges⟩
  · intro index step place
    have bound : index < graph.nodes.length := length ▸ (List.getElem?_eq_some_iff.1 place).1
    have here : graph.nodes[index]? = some graph.nodes[index] := List.getElem?_eq_getElem bound
    obtain ⟨step', both, edges⟩ := Compile.node_of_nodes made here
    rw [Nat.zero_add] at edges
    obtain rfl : step = step' :=
      Option.some.inj (place.symm.trans (List.getElem?_zip_eq_some.1 both).1)
    have name : (graph.nodes.map (·.name))[index]? = (flow.steps.map (·.name))[index]? := by
      rw [names]
    rw [List.getElem?_map, List.getElem?_map, here, place] at name
    have activity : d.activity step = .ok graph.nodes[index].activity :=
      Compile.inStep_eq_ok.1 ((List.forall₂_iff_zip.1 steps).2 (List.mem_of_getElem? both))
    exact ⟨_, here, Option.some.inj name, activity, edges⟩

theorem exists_makes (compiled : d.compile flow = .ok graph) :
    ∃ plan : Compile.Plan, plan.flow = flow ∧ plan.Makes graph := by
  obtain ⟨plan, same, makes, -⟩ := exists_plan compiled
  exact ⟨plan, same, makes⟩

end Dialect

namespace Dialect

open Colloquy.Graph (Guard)

variable {d : Dialect} {flow : Flow} {graph : Graph}

/-- Where a loop leads when its condition fails, and from where it is entered again, if no step of
the flow has a jump. It leads out of the loop unless it is the last step of a loop inside itself,
or no loop's last step and a loop inside it has the step right behind those that it lists. -/
theorem exit_leaves_iff (compiled : d.compile flow = .ok graph)
    (jumpless : ∀ step ∈ flow.steps, step.jump = none) {head : Nat} {node : Node}
    {condition : Predicate} {body : List String} (place : graph.nodes[head]? = some node)
    (loop : node.activity = .loop condition body) :
    (∃ first exit, node.edges = [⟨.when condition, .step first⟩, ⟨.otherwise, exit⟩] ∧
      (graph.Leaves head exit ↔
        (∀ outer, graph.Closes outer head → ¬ graph.Inside head outer) ∧
          ((∀ outer, ¬ graph.Closes outer head) →
            ∀ last, IsGreatest {index | index = head ∨ graph.Lists head index} last →
              ¬ graph.Inside head (last + 1)))) ∧
      ∃ tail last, graph.Closes head tail ∧ graph.nodes[tail]? = some last ∧
        (last.activity.isPlain = true → last.edges = [⟨.always, .step head⟩]) := by
  obtain ⟨plan, rfl, makes⟩ := exists_makes compiled
  constructor
  · obtain ⟨step, member, edges⟩ := makes.edges head node place
    rw [loop] at edges
    obtain ⟨first, edges⟩ := Compile.Plan.loopEdges_eq_ok (jumpless step member) edges
    have same : graph.body head = body := by rw [Graph.body_eq place, loop]; rfl
    rw [← same] at edges
    exact ⟨first, _, edges, makes.leaves_iff⟩
  · obtain ⟨-, name, tail, last, index, -⟩ := makes.closes place loop
    have closes : graph.Closes head tail := by
      refine ⟨name, ?_, index⟩
      rw [Graph.body_eq place, loop]
      exact last
    obtain ⟨node', place', -⟩ := Graph.name_of_index? index
    refine ⟨tail, node', closes, place', ?_⟩
    intro plain
    obtain ⟨step, member, edges⟩ := makes.edges tail node' place'
    rw [Compile.Plan.plainEdges_eq_ok plain (jumpless step member) edges,
      makes.loopHead?_iff.2 closes]
    rfl

def nesting : Flow :=
  ⟨"nest", "", [.loop "outer" "more" ["inner"], .loop "inner" "again" ["item"],
    .collect "item" "item", .say "done" "bye"]⟩

def nested : Graph :=
  let holds (slot : String) : Predicate := ⟨slot, .operand (.slot slot)⟩
  ⟨"nest", "",
    [⟨"outer", .loop (holds "more") ["inner"],
        [⟨.when (holds "more"), .step 1⟩, ⟨.otherwise, .step 2⟩]⟩,
      ⟨"inner", .loop (holds "again") ["item"],
        [⟨.when (holds "again"), .step 2⟩, ⟨.otherwise, .step 0⟩]⟩,
      ⟨"item", .collect "item" "ask_item" "invalid_item" none false, [⟨.always, .step 1⟩]⟩,
      ⟨"done", .say "bye", [⟨.always, .finish⟩]⟩]⟩

theorem compile_nesting : (standard .lenient).compile nesting = .ok nested := by
  apply eq_ok_of_toOption
  decide +kernel

theorem exit_leaves_iff_nested :
    (standard .lenient).compile nesting = .ok nested ∧
      (∀ step ∈ nesting.steps, step.jump = none) ∧
      (nested.Leaves 1 (.step 0) ↔
        (∀ outer, nested.Closes outer 1 → ¬ nested.Inside 1 outer) ∧
          ((∀ outer, ¬ nested.Closes outer 1) →
            ∀ last, IsGreatest {index | index = 1 ∨ nested.Lists 1 index} last →
              ¬ nested.Inside 1 (last + 1))) ∧
      ∃ tail last, nested.Closes 1 tail ∧ nested.nodes[tail]? = some last ∧
        (last.activity.isPlain = true → last.edges = [⟨.always, .step 1⟩]) := by
  have jumpless : ∀ step ∈ nesting.steps, step.jump = none := by decide
  obtain ⟨⟨first, exit, edges, leaves⟩, back⟩ :=
    exit_leaves_iff compile_nesting jumpless (show nested.nodes[1]? = some _ from rfl) rfl
  cases edges
  exact ⟨compile_nesting, jumpless, leaves, back⟩

/-- When the outer loop is over, the step inside the inner one is taken. -/
theorem exit_enters_nested :
    (standard .lenient).compile nesting = .ok nested ∧
      (∀ step ∈ nesting.steps, step.jump = none) ∧
      nested.body 0 = ["inner"] ∧
      (∃ node ∈ nested.nodes[0]?, ⟨.otherwise, .step 2⟩ ∈ node.edges) ∧
      nested.Inside 0 2 ∧ ¬ nested.Leaves 0 (.step 2) := by
  have inside : nested.Inside 0 2 :=
    .nested (.listed ⟨"inner", List.mem_singleton_self _, rfl⟩)
      ⟨"item", List.mem_singleton_self _, rfl⟩
  exact ⟨compile_nesting, by decide, rfl, ⟨_, rfl, by decide⟩, inside, fun leaves => leaves.2 inside⟩

end Dialect

end Colloquy
