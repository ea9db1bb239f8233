import Colloquy.Proofs.Compile.Paths

/-!
Flows without choices. A flow whose steps all go on to one place, and none by a jump, compiles, and
its steps in their order are the path of its graph: `Dialect.linearPath?_of_compile`.
-/

set_option autoImplicit false

namespace Colloquy

open Colloquy.Flow (Step)
open Colloquy.Graph (Activity Node Target)

namespace Flow

/-- The step has what a step of its type cannot do without, and a rule that can be read, if it has
one and collects. Only types are meant from which control goes on to one place. -/
def Step.Complete (step : Step) : StepType → Prop
  | .collect => step.slot.isSome ∧ ∀ text ∈ step.validation, ∃ p, Predicate.parse text = .ok p
  | .action | .call | .link => step.call.isSome
  | .say => step.message.isSome
  | .branch | .confirm | .loop => False

/-- The flow goes from each step to the one behind it. -/
structure Linear (d : Dialect) (flow : Flow) : Prop where
  distinct : (flow.steps.map (·.name)).Nodup
  reserved : ∀ step ∈ flow.steps, step.name ≠ endName
  jumpless : ∀ step ∈ flow.steps, step.jump = none
  complete : ∀ step ∈ flow.steps, ∃ type, d.type? step.tag = some type ∧ step.Complete type

end Flow

namespace Compile

theorem checkNames_of_nodup {flow : String} {seen : List String} {steps : List Step}
    (distinct : (steps.map (·.name)).Nodup) (reserved : ∀ step ∈ steps, step.name ≠ Flow.endName)
    (fresh : ∀ step ∈ steps, step.name ∉ seen) : checkNames flow seen steps = .ok () := by
  induction steps generalizing seen with
  | nil => rfl
  | cons step steps ih =>
    obtain ⟨apart, distinct⟩ := List.nodup_cons.1 distinct
    obtain ⟨named, reserved⟩ := List.forall_mem_cons.1 reserved
    obtain ⟨new, fresh⟩ := List.forall_mem_cons.1 fresh
    rw [checkNames, if_neg named, if_neg new]
    refine ih distinct reserved fun other member seen => ?_
    rcases List.mem_cons.1 seen with same | seen
    · exact apart (List.mem_map.2 ⟨other, member, same⟩)
    · exact fresh other member seen

theorem exists_activity {step : Step} {type : StepType} (complete : step.Complete type) :
    ∃ activity, Compile.activity type step = .ok activity ∧ activity.isPlain = true := by
  cases type with
  | branch | confirm | loop => cases complete
  | action | call | link | say =>
    obtain ⟨text, given⟩ := Option.isSome_iff_exists.1 complete
    exact ⟨_, bind_eq_ok.2 ⟨text, by rw [given]; rfl, rfl⟩, rfl⟩
  | collect =>
    obtain ⟨slot, given⟩ := Option.isSome_iff_exists.1 complete.1
    have reads : ∃ rule, step.validation.mapM predicate = .ok rule := by
      cases ruled : step.validation with
      | none => exact ⟨none, rfl⟩
      | some text =>
        obtain ⟨p, parsed⟩ := complete.2 text ruled
        exact ⟨some p, by simp [predicate, parsed, Except.mapError]⟩
    obtain ⟨rule, reads⟩ := reads
    exact ⟨_, bind_eq_ok.2 ⟨slot, by rw [given]; rfl, bind_eq_ok.2 ⟨rule, reads, rfl⟩⟩, rfl⟩

theorem backEdges_of_plain {flow : Flow} {activities : List Activity}
    (plain : ∀ activity ∈ activities, activity.isPlain = true) (known : List BackEdge)
    (head : Nat) : backEdges flow known head activities = .ok known := by
  induction activities generalizing head with
  | nil => rfl
  | cons activity activities ih =>
    obtain ⟨first, others⟩ := List.forall_mem_cons.1 plain
    have none : backEdge? flow head activity = .ok none := by
      cases activity with
      | loop => cases first
      | _ => rfl
    rw [backEdges, none]
    exact ih others (head + 1)

theorem exists_nodes {plan : Plan} {steps : List (Step × Activity)}
    (jumpless : ∀ step ∈ steps, step.1.jump = none)
    (plain : ∀ step ∈ steps, step.2.isPlain = true) (index : Nat) :
    ∃ made, nodes plan index steps = .ok made := by
  induction steps generalizing index with
  | nil => exact ⟨[], rfl⟩
  | cons step steps ih =>
    obtain ⟨stays, jumpless⟩ := List.forall_mem_cons.1 jumpless
    obtain ⟨first, plain⟩ := List.forall_mem_cons.1 plain
    obtain ⟨others, made⟩ := ih jumpless plain (index + 1)
    have edges : ∃ edges, plan.edges index step.1 step.2 = .ok edges := by
      obtain ⟨step, activity⟩ := step
      cases activity with
      | branch | confirm | loop => cases first
      | _ => exact ⟨_, bind_eq_ok.2 ⟨_, plan.onward_of_jumpless index index stays, rfl⟩⟩
    obtain ⟨edges, edges'⟩ := edges
    exact ⟨_, bind_eq_ok.2 ⟨edges, inStep_eq_ok.2 edges', bind_eq_ok.2 ⟨others, made, rfl⟩⟩⟩

end Compile

namespace Dialect

variable {d : Dialect} {flow : Flow} {graph : Graph}

theorem exists_compile (linear : flow.Linear d) : ∃ graph, d.compile flow = .ok graph := by
  have each : ∀ step ∈ flow.steps, ∃ activity,
      Compile.inStep flow.id step.name (d.activity step) = .ok activity ∧
        activity.isPlain = true := by
    intro step member
    obtain ⟨type, known, complete⟩ := linear.complete step member
    obtain ⟨activity, made, plain⟩ := Compile.exists_activity complete
    exact ⟨activity, by rw [Dialect.activity, known, Compile.inStep_eq_ok]; exact made, plain⟩
  obtain ⟨activities, made⟩ := forall₂_of_exists each
  have plain : ∀ activity ∈ activities, activity.isPlain = true := by
    intro activity member
    obtain ⟨step, -, -, plain⟩ := exists_of_forall₂ made member
    exact plain
  obtain ⟨nodes, wired⟩ : ∃ nodes,
      Compile.nodes ⟨flow, d.policy, []⟩ 0 (flow.steps.zip activities) = .ok nodes :=
    Compile.exists_nodes (fun step member => linear.jumpless _ (List.of_mem_zip member).1)
      (fun step member => plain _ (List.of_mem_zip member).2) 0
  refine ⟨⟨flow.id, flow.description, nodes⟩, bind_eq_ok.2 ⟨(),
    Compile.checkNames_of_nodup linear.distinct linear.reserved (by simp), bind_eq_ok.2
      ⟨activities, mapM_eq_ok.2 (made.imp fun _ _ => And.left), ?_⟩⟩⟩
  rw [Compile.backEdges_of_plain plain]
  exact bind_eq_ok.2 ⟨[], rfl, bind_eq_ok.2 ⟨nodes, wired, rfl⟩⟩

def behind (flow : Flow) (count : Nat) : Target :=
  if count < flow.steps.length then .step count else .finish

theorem isPlain_of_linear (linear : flow.Linear d) (compiled : d.compile flow = .ok graph) :
    ∀ node ∈ graph.nodes, node.activity.isPlain = true := by
  intro node member
  have runs := executable_of_compile compiled
  obtain ⟨index, here⟩ := List.mem_iff_getElem?.1 member
  have bound : index < flow.steps.length := runs.length ▸ (List.getElem?_eq_some_iff.1 here).1
  obtain ⟨other, place, -, made⟩ := runs.node index _ (List.getElem?_eq_getElem bound)
  cases here.symm.trans place
  obtain ⟨type, known, complete⟩ := linear.complete _ (List.getElem_mem bound)
  obtain ⟨activity, made', plain⟩ := Compile.exists_activity complete
  rw [Dialect.activity, known] at made
  cases made.symm.trans made'
  exact plain

theorem single?_of_linear (linear : flow.Linear d) (compiled : d.compile flow = .ok graph)
    {index : Nat} {step : Step} (place : flow.steps[index]? = some step) :
    ∃ node, graph.nodes[index]? = some node ∧ node.single? = some (behind flow (index + 1)) := by
  have plain := isPlain_of_linear linear compiled
  obtain ⟨plan, rfl, makes, wired⟩ := exists_plan compiled
  have loops := makes.loops
  rw [Compile.backEdges_of_plain (List.forall_mem_map.2 plain)] at loops
  obtain ⟨node, here, -, -, edges⟩ := wired index step place
  refine ⟨node, here, Graph.single?_eq_some.2 ?_⟩
  rw [Compile.Plan.plainEdges_eq_ok (plain node (List.mem_of_getElem? here))
    (linear.jumpless step (List.mem_of_getElem? place)) edges, Compile.Plan.loopHead?,
    ← Except.ok.inj loops]
  rfl

theorem reaches_behind (linear : flow.Linear d) (compiled : d.compile flow = .ok graph)
    {count : Nat} (within : count ≤ flow.steps.length) :
    graph.Reaches graph.entry (List.range count) (behind flow count) := by
  induction count with
  | zero =>
    have size := (executable_of_compile compiled).length
    have entry : graph.entry = behind flow 0 := by
      rw [Graph.entry, behind, ← size]
      cases graph.nodes <;> rfl
    rw [entry]
    exact .here
  | succ count ih =>
    have walk := ih (Nat.le_of_succ_le within)
    rw [behind, if_pos (Nat.lt_of_succ_le within)] at walk
    obtain ⟨node, here, single⟩ :=
      single?_of_linear linear compiled (List.getElem?_eq_getElem within)
    rw [List.range_succ]
    exact walk.trans (.onward here single .here)

theorem linearPath?_of_linear (linear : flow.Linear d) (compiled : d.compile flow = .ok graph) :
    graph.linearPath? = some (flow.steps.map (·.name)) := by
  have size := (executable_of_compile compiled).length
  have walk := reaches_behind linear compiled (Nat.le_refl _)
  rw [behind, if_neg (Nat.lt_irrefl _)] at walk
  rw [Graph.linearPath?_eq_some walk (by simp [size]), ← names_of_compile compiled, Graph.names]
  congr 1
  refine List.ext_getElem (by simp [size]) fun index left right => ?_
  rw [List.getElem_map, List.getElem_map, List.getElem_range]
  exact Graph.targetName_step (List.getElem?_eq_getElem (by simpa using right))

theorem within_of_reaches (compiled : d.compile flow = .ok graph) {passed : List Nat}
    {target : Target} (walk : graph.Reaches graph.entry passed target) :
    target.Within graph.nodes.length := by
  have entered := graph.within_entry
  generalize graph.entry = first at walk entered
  induction walk with
  | here => exact entered
  | onward place single _ ih =>
    exact ih ((executable_of_compile compiled).within _ (List.mem_of_getElem? place)
      ⟨.always, _⟩ (by simp [Graph.single?_eq_some.1 single]))

theorem blocks_iff (compiled : d.compile flow = .ok graph) {index : Nat}
    (within : index < graph.nodes.length) : graph.Blocks index ↔
      ∃ node, graph.nodes[index]? = some node ∧
        node.activity.type ∈ [StepType.branch, .confirm, .loop] := by
  have here := List.getElem?_eq_getElem within
  have leaving := (executable_of_compile compiled).leaving _ (List.getElem_mem within)
  have choice : graph.nodes[index].single? = none ↔
      graph.nodes[index].activity.type ∈ [StepType.branch, .confirm, .loop] := by
    rw [leaving.single?_eq_none]
    cases graph.nodes[index].activity <;> simp [Activity.isPlain, Activity.type]
  constructor
  · exact fun blocked => ⟨_, here, choice.1 (blocked _ here)⟩
  · rintro ⟨node, here', type⟩ other place
    cases here.symm.trans here'
    cases here.symm.trans place
    exact choice.2 type

/-- The path of a compiled flow is what the flow passes from its entry, with any slots at each step,
each step once, before it ends. There is none just if on the way, along edges that are always taken,
stands a choice or a step that has been passed. The search for it comes to an end. A flow whose
steps follow one another compiles, and they are its path. -/
theorem linearPath?_of_compile (d : Dialect) (flow : Flow) :
    (∀ graph, d.compile flow = .ok graph →
      let advances (s next : Graph.Search) : Prop := s.advance graph = .inl next
      (∀ path, graph.linearPath? = some path → path.Nodup ∧
        ∀ slots : List Slots, path.length ≤ slots.length →
          graph.follow graph.entry slots = .ok (path, some .finish)) ∧
      (graph.linearPath? = none ↔
        ∃ passed index, graph.Reaches graph.entry passed (.step index) ∧
          ((∃ node, graph.nodes[index]? = some node ∧
            node.activity.type ∈ [StepType.branch, .confirm, .loop]) ∨ index ∈ passed)) ∧
      WellFounded (fun next s => advances s next) ∧
      ∃ last, Relation.ReflTransGen advances (.start graph) last ∧
        last.advance graph = .inr graph.linearPath?) ∧
    (flow.Linear d → ∃ graph, d.compile flow = .ok graph ∧
      graph.linearPath? = some (flow.steps.map (·.name))) := by
  constructor
  · intro graph compiled advances
    refine ⟨fun path found => ?_, ?_, Graph.Search.wellFounded_advance graph, ?_⟩
    · have named := named_of_compile compiled
      obtain ⟨passed, walk, distinct, rfl⟩ := Graph.reaches_of_linearPath? found
      refine ⟨walk.nodup_names named distinct, fun slots enough => walk.follow named ?_⟩
      simpa [Graph.names] using enough
    · rw [Graph.linearPath?_eq_none_iff]
      refine exists_congr fun passed => exists_congr fun index => and_congr_right fun walk => ?_
      rw [blocks_iff compiled (within_of_reaches compiled walk index rfl)]
    · obtain ⟨last, rounds, -, ends⟩ := Graph.Search.exists_end graph
      exact ⟨last, rounds, ends⟩
  · intro linear
    obtain ⟨graph, compiled⟩ := exists_compile linear
    exact ⟨graph, compiled, linearPath?_of_linear linear compiled⟩

def welcome : Flow :=
  ⟨"welcome", "", [{ Step.collect "ask" "name" with validation := some "name != 'nobody'" },
    .say "greet" "hello", .callFlow "rest" "smalltalk"]⟩

def circling : Flow :=
  ⟨"circling", "", [.say "first" "so", { Step.say "second" "on" with jump := some "first" }]⟩

theorem linearPath?_of_compile_welcome :
    welcome.Linear (standard .strict) ∧
      (∃ graph, (standard .strict).compile welcome = .ok graph ∧
        graph.linearPath? = some ["ask", "greet", "rest"] ∧
        graph.follow graph.entry [.empty, .empty, .empty] =
          .ok (["ask", "greet", "rest"], some .finish)) ∧
      ∃ graph, (standard .strict).compile circling = .ok graph ∧ graph.linearPath? = none ∧
        ∃ passed index, graph.Reaches graph.entry passed (.step index) ∧
          ((∃ node, graph.nodes[index]? = some node ∧
            node.activity.type ∈ [StepType.branch, .confirm, .loop]) ∨ index ∈ passed) := by
  have reads : ∃ p, Predicate.parse "name != 'nobody'" = .ok p := by
    have parsed : (Predicate.parse "name != 'nobody'").toOption.isSome := by decide +kernel
    obtain ⟨p, made⟩ := Option.isSome_iff_exists.1 parsed
    exact ⟨p, eq_ok_of_toOption made⟩
  have linear : welcome.Linear (standard .strict) := by
    refine ⟨by decide, by decide, by decide, ?_⟩
    simp only [welcome, List.forall_mem_cons, List.not_mem_nil, false_imp_iff, implies_true,
      and_true]
    refine ⟨⟨.collect, by decide +kernel, rfl, ?_⟩, ⟨.say, by decide +kernel, rfl⟩,
      ⟨.call, by decide +kernel, rfl⟩⟩
    rintro _ ⟨⟩
    exact reads
  obtain ⟨follows, passes⟩ := linearPath?_of_compile (standard .strict) welcome
  obtain ⟨graph, compiled, path⟩ := passes linear
  obtain ⟨straight, -⟩ := follows graph compiled
  have circles : ((standard .strict).compile circling).toOption.map Graph.linearPath? =
      some none := by decide +kernel
  obtain ⟨circle, made, none⟩ := Option.map_eq_some_iff.1 circles
  have compiled' := eq_ok_of_toOption made
  obtain ⟨-, returns, -⟩ := (linearPath?_of_compile (standard .strict) circling).1 circle compiled'
  exact ⟨linear, ⟨graph, compiled, path, (straight _ path).2 _ (by decide)⟩, circle, compiled',
    none, returns.1 none⟩

end Dialect

end Colloquy
