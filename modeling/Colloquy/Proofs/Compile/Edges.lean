import Colloquy.Proofs.Compile.Names
import Colloquy.Proofs.Condition.Eval

/-!
The edges of compiled steps. What a step does determines which edges leave it, so that from every
step but a question the flow goes on somewhere, and from a question with either answer; and all
edges stay within the flow.
-/

set_option autoImplicit false

namespace Colloquy

open Colloquy.Flow (Case Step)
open Colloquy.Graph (Activity Edge Guard Node Target)

namespace Graph

def Activity.isQuestion : Activity → Bool
  | confirm .. => true
  | _ => false

def Activity.asked? : Activity → Option String
  | collect slot .. => some slot
  | _ => none

def Activity.rule? : Activity → Option Predicate
  | collect _ _ _ rule _ => rule
  | _ => none

def Activity.isPlain : Activity → Bool
  | branch | confirm .. | loop .. => false
  | _ => true

/-- A target is a step of a flow with `size` steps, or its end. -/
def Target.Within (size : Nat) (target : Target) : Prop :=
  ∀ index, target = .step index → index < size

/-- The edges that leave a step, by what it does, in a flow with `size` steps. -/
inductive Leaving (size : Nat) : Activity → List Edge → Prop where
  | plain {a : Activity} {target : Target} : a.isPlain = true → target.Within size →
      Leaving size a [⟨.always, target⟩]
  | loop {condition : Predicate} {body : List String} {first : Nat} {exit : Target} :
      first < size → exit.Within size →
      Leaving size (.loop condition body) [⟨.when condition, .step first⟩, ⟨.otherwise, exit⟩]
  | question {slot : Option String} {prompt : String} {yes no : Target} :
      yes.Within size → no.Within size →
      Leaving size (.confirm slot prompt) [⟨.affirmed, yes⟩, ⟨.denied, no⟩]
  | branch {cases : List Edge} {target : Target} :
      (∀ edge ∈ cases, (∃ p, edge.guard = .when p ∨ edge.guard = .unless p) ∧
        edge.target.Within size) →
      target.Within size → Leaving size .branch (cases ++ [⟨.otherwise, target⟩])

theorem Target.within_finish (size : Nat) : Target.finish.Within size := by
  intro index same
  cases same

theorem Target.within_step {size index : Nat} : (Target.step index).Within size ↔ index < size :=
  ⟨fun within => within index rfl, fun bound _ same => by cases same; exact bound⟩

theorem within_entry (g : Graph) : g.entry.Within g.nodes.length := by
  unfold entry
  split
  · exact Target.within_finish _
  · next filled =>
    refine Target.within_step.2 (List.length_pos_iff.2 ?_)
    rintro none
    simp [none] at filled

end Graph

namespace Flow

def Knows (flow : Flow) (name : String) : Prop :=
  name = endName ∨ ∃ step ∈ flow.steps, step.name = name

/-- The label is the word, in letters of any case and with any white space around it. -/
def Case.reads (case : Case) (word : String) : Bool := Text.spells (Text.trim case.label) word

def Case.isElse (case : Case) : Bool := case.reads "else" || case.reads "default"

end Flow

open Colloquy.Graph (Leaving)

namespace Compile

/-- When the edge of a case is taken: if its label holds, or if the branch's condition is as the
label says. -/
inductive Guards (case : Case) : Option Predicate → Guard → Prop where
  | label {p : Predicate} : predicate (Text.trim case.label) = .ok p → Guards case none (.when p)
  | holds {p : Predicate} : case.reads "true" = true → Guards case (some p) (.when p)
  | fails {p : Predicate} : case.reads "true" = false → case.reads "false" = true →
      Guards case (some p) (.unless p)

end Compile

namespace Compile.Plan

variable {plan : Plan} {index last : Nat} {step : Step}

theorem within_successor (plan : Plan) (index : Nat) :
    (plan.successor index).Within plan.flow.steps.length := by
  unfold successor
  split
  · next below => exact Target.within_step.2 below
  · exact Target.within_finish _

theorem lt_of_index? {flow : Flow} {name : String} {index : Nat}
    (found : flow.index? name = some index) : index < flow.steps.length :=
  (List.findIdx?_eq_some_iff_getElem.1 found).1

theorem within_named? {name : String} {target : Target} (known : plan.named? name = some target) :
    target.Within plan.flow.steps.length := by
  unfold named? at known
  split at known
  · cases known
    exact Target.within_finish _
  · obtain ⟨index, found, rfl⟩ := Option.map_eq_some_iff.1 known
    exact Target.within_step.2 (lt_of_index? found)

theorem within_jumpTarget {name : String} {target : Target}
    (jumps : plan.jumpTarget name = .ok target) : target.Within plan.flow.steps.length := by
  unfold jumpTarget at jumps
  split at jumps
  · next known => cases jumps; exact within_named? known
  · cases jumps; exact Target.within_finish _
  · cases jumps

theorem within_caseTarget {name : String} {target : Target}
    (leads : plan.caseTarget name = .ok target) : target.Within plan.flow.steps.length := by
  unfold caseTarget at leads
  split at leads
  · next known => cases leads; exact within_named? known
  · cases leads

def Closing (plan : Plan) : Prop := ∀ edge ∈ plan.backEdges, edge.head < plan.flow.steps.length

theorem within_onward (closing : plan.Closing) {target : Target}
    (leads : plan.onward index last step = .ok target) :
    target.Within plan.flow.steps.length := by
  unfold onward at leads
  split at leads
  · exact within_jumpTarget leads
  · split at leads
    · next head closes =>
      cases leads
      obtain ⟨edge, found, rfl⟩ := Option.map_eq_some_iff.1 closes
      exact Target.within_step.2 (closing edge (List.mem_of_find?_eq_some found))
    · cases leads
      exact within_successor plan last

def IsCase (plan : Plan) (edge : Edge) : Prop :=
  (∃ p, edge.guard = .when p ∨ edge.guard = .unless p) ∧
    edge.target.Within plan.flow.steps.length

theorem caseEdges_cons_cases {condition : Option Predicate} {fallback final : Option Target}
    {case : Case} {cases : List Case} {made : List Edge}
    (ok : plan.caseEdges condition fallback (case :: cases) = .ok (made, final)) :
    ∃ target, plan.caseTarget case.target = .ok target ∧
      (case.isElse = true ∧ fallback = none ∧
          plan.caseEdges condition (some target) cases = .ok (made, final) ∨
        case.isElse = false ∧ ∃ guard edges, Guards case condition guard ∧
          plan.caseEdges condition fallback cases = .ok (edges, final) ∧
          made = ⟨guard, target⟩ :: edges) := by
  obtain ⟨target, leads, rest⟩ := bind_eq_ok.1 ok
  refine ⟨target, leads, ?_⟩
  dsimp only at rest
  split at rest
  · next isElse =>
    split at rest
    · cases rest
    · next empty => exact .inl ⟨isElse, Option.not_isSome_iff_eq_none.1 empty, rest⟩
  · next notElse =>
    have adds {guard : Guard} (guards : Guards case condition guard)
        (rest : (do
          let rest ← plan.caseEdges condition fallback cases
          return (Edge.mk guard target :: rest.1, rest.2)) = .ok (made, final)) :
        ∃ guard edges, Guards case condition guard ∧
          plan.caseEdges condition fallback cases = .ok (edges, final) ∧
          made = ⟨guard, target⟩ :: edges := by
      obtain ⟨⟨edges, fallback'⟩, others, same⟩ := bind_eq_ok.1 rest
      cases same
      exact ⟨guard, edges, guards, others, rfl⟩
    refine .inr ⟨Bool.eq_false_iff.2 notElse, ?_⟩
    cases condition with
    | none =>
      obtain ⟨guard, parsed, rest⟩ := bind_eq_ok.1 rest
      cases read : predicate (Text.trim case.label) with
      | error fault => simp [read, Except.map] at parsed
      | ok p =>
        simp only [read, Except.map, Except.ok.injEq] at parsed
        exact adds (parsed ▸ .label read) rest
    | some p =>
      dsimp only at rest
      split at rest
      · next holds => exact adds (.holds holds) rest
      · next other =>
        split at rest
        · next fails => exact adds (.fails (Bool.eq_false_iff.2 other) fails) rest
        · cases rest

theorem isCase_of_caseEdges {condition : Option Predicate} {fallback final : Option Target}
    {cases : List Case} {made : List Edge}
    (within : ∀ target ∈ fallback, target.Within plan.flow.steps.length)
    (ok : plan.caseEdges condition fallback cases = .ok (made, final)) :
    (∀ edge ∈ made, plan.IsCase edge) ∧
      ∀ target ∈ final, target.Within plan.flow.steps.length := by
  induction cases generalizing fallback made with
  | nil =>
    cases ok
    exact ⟨by simp, within⟩
  | cons case cases ih =>
    obtain ⟨target, leads, ⟨-, -, rest⟩ | ⟨-, guard, edges, guards, rest, rfl⟩⟩ :=
      caseEdges_cons_cases ok
    · exact ih (by rintro _ ⟨⟩; exact within_caseTarget leads) rest
    · obtain ⟨all, last⟩ := ih within rest
      refine ⟨?_, last⟩
      rintro edge (_ | ⟨_, member⟩)
      · refine ⟨?_, within_caseTarget leads⟩
        cases guards with
        | @label p | @holds p => exact ⟨p, .inl rfl⟩
        | @fails p => exact ⟨p, .inr rfl⟩
      · exact all edge member

theorem within_of_answers {yes no yes' no' : Option Target} {cases : List Case}
    (withinYes : ∀ target ∈ yes, target.Within plan.flow.steps.length)
    (withinNo : ∀ target ∈ no, target.Within plan.flow.steps.length)
    (ok : plan.answers yes no cases = .ok (yes', no')) :
    (∀ target ∈ yes', target.Within plan.flow.steps.length) ∧
      ∀ target ∈ no', target.Within plan.flow.steps.length := by
  induction cases generalizing yes no with
  | nil =>
    cases ok
    exact ⟨withinYes, withinNo⟩
  | cons case cases ih =>
    obtain ⟨target, leads, rest⟩ := bind_eq_ok.1 ok
    have leads := within_caseTarget leads
    have given : ∀ target' ∈ some target, target'.Within plan.flow.steps.length := by
      rintro _ ⟨⟩
      exact leads
    dsimp only at rest
    split at rest
    · cases rest
    · split at rest
      · cases rest
      · exact ih given withinNo rest
    · split at rest
      · cases rest
      · exact ih withinYes given rest

theorem loopEdges_cases {condition : Predicate} {body : List String} {edges : List Edge}
    (ok : plan.loopEdges index step condition body = .ok edges) :
    ∃ name first exit, body.head? = some name ∧ plan.flow.index? name = some first ∧
      plan.onward index (plan.lastOf index body) step = .ok exit ∧
      edges = [⟨.when condition, .step first⟩, ⟨.otherwise, exit⟩] := by
  unfold loopEdges at ok
  split at ok
  · next first found =>
    obtain ⟨exit, leads, same⟩ := bind_eq_ok.1 ok
    cases same
    obtain ⟨name, head, found⟩ := Option.bind_eq_some_iff.1 found
    exact ⟨name, first, exit, head, found, leads, rfl⟩
  · cases ok

theorem branchEdges_cases {edges : List Edge} (ok : plan.branchEdges index step = .ok edges) :
    ∃ condition made final target, step.condition.mapM predicate = .ok condition ∧
      plan.caseEdges condition none step.cases = .ok (made, final) ∧
      (final = some target ∨ final = none ∧ plan.onward index index step = .ok target) ∧
      edges = made ++ [⟨.otherwise, target⟩] := by
  obtain ⟨condition, parsed, rest⟩ := bind_eq_ok.1 ok
  obtain ⟨⟨made, final⟩, cases', rest⟩ := bind_eq_ok.1 rest
  cases final with
  | some target =>
    cases rest
    exact ⟨condition, made, _, target, parsed, cases', .inl rfl, rfl⟩
  | none =>
    obtain ⟨target, leads, same⟩ := bind_eq_ok.1 rest
    cases same
    exact ⟨condition, made, _, target, parsed, cases', .inr ⟨rfl, leads⟩, rfl⟩

/-- The edges of a step are those that suit what it does. -/
theorem leaving_of_edges {activity : Activity} {edges : List Edge} (closing : plan.Closing)
    (ok : plan.edges index step activity = .ok edges) :
    Leaving plan.flow.steps.length activity edges := by
  cases activity with
  | branch =>
    obtain ⟨condition, made, final, target, -, cases', chosen, rfl⟩ := branchEdges_cases ok
    obtain ⟨all, last⟩ := isCase_of_caseEdges (by simp) cases'
    rcases chosen with rfl | ⟨-, leads⟩
    · exact .branch all (last target rfl)
    · exact .branch all (within_onward closing leads)
  | confirm slot prompt =>
    obtain ⟨⟨yes, no⟩, given, rest⟩ := bind_eq_ok.1 ok
    obtain ⟨withinYes, withinNo⟩ := within_of_answers (by simp) (by simp) given
    have denied : (no.getD .finish).Within plan.flow.steps.length := by
      cases no with
      | none => exact Target.within_finish _
      | some target => exact withinNo target rfl
    cases yes with
    | some target =>
      cases rest
      exact .question (withinYes target rfl) denied
    | none =>
      obtain ⟨target, leads, same⟩ := bind_eq_ok.1 rest
      cases same
      exact .question (within_onward closing leads) denied
  | loop condition body =>
    obtain ⟨name, first, exit, -, found, leads, rfl⟩ := loopEdges_cases ok
    exact .loop (lt_of_index? found) (within_onward closing leads)
  | _ =>
    obtain ⟨target, leads, same⟩ := bind_eq_ok.1 ok
    cases same
    exact .plain rfl (within_onward closing leads)

end Compile.Plan

namespace Compile

theorem head_of_backEdge? {flow : Flow} {head : Nat} {activity : Activity} {edge : BackEdge}
    (found : backEdge? flow head activity = .ok (some edge)) : edge.head = head := by
  unfold backEdge? at found
  split at found
  · obtain ⟨steps, -, rest⟩ := bind_eq_ok.1 found
    split at rest
    · cases rest
      rfl
    · cases rest
  · cases found

theorem head_lt_of_backEdges {flow : Flow} {size head : Nat} {activities : List Activity}
    {known edges : List BackEdge} (within : ∀ edge ∈ known, edge.head < size)
    (left : head + activities.length ≤ size)
    (ok : backEdges flow known head activities = .ok edges) :
    ∀ edge ∈ edges, edge.head < size := by
  induction activities generalizing known head with
  | nil =>
    cases ok
    exact within
  | cons activity activities ih =>
    rw [List.length_cons] at left
    unfold backEdges at ok
    split at ok
    · cases ok
    · exact ih within (by omega) ok
    · next edge found =>
      split at ok
      · cases ok
      · refine ih ?_ (by omega) ok
        intro other member
        rcases List.mem_append.1 member with member | member
        · exact within other member
        · cases List.mem_singleton.1 member
          rw [head_of_backEdge? found]
          omega

theorem leaving_of_nodes {plan : Plan} (closing : plan.Closing) {index : Nat}
    {steps : List (Step × Activity)} {made : List Node} (ok : nodes plan index steps = .ok made) :
    ∀ node ∈ made, Leaving plan.flow.steps.length node.activity node.edges := by
  induction steps generalizing index made with
  | nil =>
    cases ok
    simp
  | cons step steps ih =>
    obtain ⟨edges, found, rest⟩ := bind_eq_ok.1 ok
    obtain ⟨others, tail, same⟩ := bind_eq_ok.1 rest
    cases same
    rintro node (_ | ⟨_, member⟩)
    · exact Plan.leaving_of_edges closing (inStep_eq_ok.1 found)
    · exact ih tail node member

theorem checkFlows_eq_ok {flow : String} {ids : List String} {nodes : List Node} :
    checkFlows flow ids nodes = .ok () ↔
      ∀ node ∈ nodes, ∀ callee ∈ node.activity.flow?, callee ∈ ids := by
  induction nodes with
  | nil => simp [checkFlows]
  | cons node nodes ih =>
    rw [List.forall_mem_cons, ← ih, checkFlows]
    cases node.activity.flow? with
    | none => simp
    | some target =>
      by_cases known : target ∈ ids
      · simp [known]
      · simp [known]

theorem mem_of_checkFlows {flow : String} {ids : List String} {nodes : List Node}
    (checked : checkFlows flow ids nodes = .ok ()) :
    ∀ node ∈ nodes, ∀ callee ∈ node.activity.flow?, callee ∈ ids :=
  checkFlows_eq_ok.1 checked

end Compile

namespace Graph

variable {size : Nat} {a : Activity} {edges : List Edge} {slots : Slots}

theorem Leaving.within (leaving : Leaving size a edges) :
    ∀ edge ∈ edges, edge.target.Within size := by
  cases leaving with
  | plain _ within => simpa using within
  | loop first within => simpa using ⟨Target.within_step.2 first, within⟩
  | question yes no => simpa using ⟨yes, no⟩
  | branch cases' within =>
    intro edge member
    rcases List.mem_append.1 member with member | member
    · exact (cases' edge member).2
    · cases List.mem_singleton.1 member
      exact within

/-- Unless a step asks for an answer, one of its edges may always be taken. -/
theorem Leaving.total (leaving : Leaving size a edges) (statement : a.isQuestion = false) :
    ∃ edge ∈ edges, edge.guard = .always ∨ edge.guard = .otherwise := by
  cases leaving with
  | plain => exact ⟨_, List.mem_singleton_self _, .inl rfl⟩
  | loop => exact ⟨_, List.mem_cons_of_mem _ (List.mem_singleton_self _), .inr rfl⟩
  | question => cases statement
  | branch => exact ⟨_, List.mem_append_right _ (List.mem_singleton_self _), .inr rfl⟩

theorem Guard.isClash_of_passes {guard : Guard} {e : ConditionError}
    (fails : guard.passes slots = .error e) : e.IsClash := by
  unfold passes at fails
  split at fails
  · cases fails
  · cases fails
  · exact Predicate.isClash_of_eval fails
  · next p =>
    cases evaluated : p.eval slots with
    | ok b => simp [evaluated, Except.map] at fails
    | error e' =>
      simp only [evaluated, Except.map, Except.error.injEq] at fails
      exact fails ▸ Predicate.isClash_of_eval evaluated
  · cases fails
  · cases fails

theorem isClash_of_firstTarget {e : ConditionError} (fails : firstTarget slots edges = .error e) :
    e.IsClash := by
  induction edges with
  | nil => cases fails
  | cons edge edges ih =>
    rcases bind_eq_error.1 fails with fails | ⟨passed, -, rest⟩
    · exact edge.guard.isClash_of_passes fails
    · split at rest
      · cases rest
      · exact ih rest

theorem mem_of_firstTarget {target : Target} (found : firstTarget slots edges = .ok (some target)) :
    ∃ edge ∈ edges, edge.target = target := by
  induction edges with
  | nil => cases found
  | cons edge edges ih =>
    obtain ⟨passed, -, rest⟩ := bind_eq_ok.1 found
    split at rest
    · cases rest
      exact ⟨edge, List.mem_cons_self, rfl⟩
    · obtain ⟨other, member, same⟩ := ih rest
      exact ⟨other, List.mem_cons_of_mem _ member, same⟩

theorem firstTarget_ne_none
    (total : ∃ edge ∈ edges, edge.guard = .always ∨ edge.guard = .otherwise) :
    firstTarget slots edges ≠ .ok none := by
  induction edges with
  | nil => simp at total
  | cons edge edges ih =>
    intro nowhere
    obtain ⟨passed, passes, rest⟩ := bind_eq_ok.1 nowhere
    obtain ⟨always, member, guard⟩ := total
    rcases List.mem_cons.1 member with rfl | member
    · rcases guard with guard | guard
      all_goals
        simp only [guard, Guard.passes, Except.ok.injEq] at passes
        subst passes
        cases rest
    · split at rest
      · cases rest
      · exact ih ⟨always, member, guard⟩ rest

variable {g : Graph} {node : Node}

theorem next_name (named : g.Named) (member : node ∈ g.nodes) (slots : Slots) :
    g.next node.name slots = firstTarget slots node.edges := by
  rw [next, node?_name named member]

theorem next_ne_none (named : g.Named) (member : node ∈ g.nodes)
    (leaving : Leaving g.nodes.length node.activity node.edges)
    (statement : node.activity.isQuestion = false) (slots : Slots) :
    g.next node.name slots ≠ .ok none := by
  rw [next_name named member]
  exact firstTarget_ne_none (leaving.total statement)

theorem isSome_answered (named : g.Named) (member : node ∈ g.nodes)
    (leaving : Leaving g.nodes.length node.activity node.edges)
    (question : node.activity.isQuestion = true) (affirmed : Bool) :
    (g.answered node.name affirmed).isSome := by
  have here := node?_name named member
  generalize node.activity = activity at leaving question
  generalize edges : node.edges = made at leaving
  cases leaving with
  | question => cases affirmed <;> simp [answered, here, edges]
  | plain plain =>
    cases activity with
    | confirm => cases plain
    | _ => cases question
  | loop | branch => cases question

end Graph

/-- Flows that leave each step, and call each other, only as compiled flows do. -/
structure Library.Closed (l : Library) : Prop where
  named : ∀ flow graph, l.get? flow = some graph → graph.Named
  leaving : ∀ flow graph, l.get? flow = some graph →
    ∀ node ∈ graph.nodes, Leaving graph.nodes.length node.activity node.edges
  calls : ∀ flow graph, l.get? flow = some graph →
    ∀ node ∈ graph.nodes, ∀ callee ∈ node.activity.flow?, (l.get? callee).isSome

namespace Dialect

variable {d : Dialect}

theorem leaving_of_compile {flow : Flow} {graph : Graph} (compiled : d.compile flow = .ok graph) :
    ∀ node ∈ graph.nodes, Leaving graph.nodes.length node.activity node.edges := by
  obtain ⟨-, activities, backEdges, steps, loops, made, -⟩ := compile_cases compiled
  have lengths : activities.length = flow.steps.length := steps.length_eq.symm
  have closing : Compile.Plan.Closing ⟨flow, d.policy, backEdges⟩ :=
    Compile.head_lt_of_backEdges (by simp) (by simp [lengths]) loops
  have length : graph.nodes.length = flow.steps.length := by
    simpa [lengths] using congrArg List.length (Compile.names_of_nodes made)
  rw [length]
  exact Compile.leaving_of_nodes closing made

end Dialect

theorem Library.closed_of_compileAll {d : Dialect} {flows : List Flow} {generation : Nat}
    {graphs : Table Graph} (compiled : d.compileAll flows = .ok graphs) :
    Closed ⟨graphs, generation⟩ where
  named _ _ found := Dialect.named_of_compileAll compiled found
  leaving flow graph found := by
    obtain ⟨flow, -, -, made, -⟩ := Dialect.compile_of_compileAll compiled found
    exact Dialect.leaving_of_compile made
  calls flow graph found node member callee named := by
    obtain ⟨flow, -, -, -, checked⟩ := Dialect.compile_of_compileAll compiled found
    exact Dialect.isSome_of_compileAll compiled
      (Compile.mem_of_checkFlows checked node member callee named)

end Colloquy
