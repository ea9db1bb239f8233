import Colloquy.Proofs.Compile.Branches

/-!
Jumps to steps that do not exist. To compile by the strict rule is to compile by the lenient one and
to look at the jumps then, but only at those that are needed: the jump of a branch with a case for
all else, and that of a question with a case for a yes, is never looked up.
-/

set_option autoImplicit false

namespace Colloquy

open Compile (Fault Plan)
open Colloquy.Flow (Case Step)
open Colloquy.Graph (Activity Edge Node Target)

namespace Flow

instance (flow : Flow) (name : String) : Decidable (flow.Knows name) :=
  inferInstanceAs (Decidable (_ ∨ ∃ step ∈ flow.steps, step.name = name))

/-- Whatever a step jumps to is a step of the flow or its end. -/
def Resolved (flow : Flow) : Prop := ∀ step ∈ flow.steps, ∀ name ∈ step.jump, flow.Knows name

def Case.affirms (case : Case) : Bool :=
  case.reads "yes" || case.reads "affirm" || case.reads "true"

/-- The jump of a step of some type, if its cases leave a use for it. -/
def Step.needed (type : StepType) (step : Step) : Option String :=
  match type with
  | .branch => if step.cases.any Case.isElse then none else step.jump
  | .confirm => if step.cases.any Case.affirms then none else step.jump
  | _ => step.jump

def stray? (flow : Flow) (jump : Option String) : Option String :=
  jump.filter fun name => ¬ flow.Knows name

def confine {α : Type} (flow : Flow) (jump : Option String) (made : Except Fault α) :
    Except Fault α := do
  let a ← made
  match flow.stray? jump with
  | some name => .error (.unknownJump name)
  | none => .ok a

section

variable {flow : Flow} {jump : Option String} {step : Step} {type : StepType} {name : String}
  {α β : Type}

theorem Step.jump_of_needed (needed : name ∈ step.needed type) : name ∈ step.jump := by
  unfold Step.needed at needed
  split at needed
  · split at needed
    · cases needed
    · exact needed
  · split at needed
    · cases needed
    · exact needed
  · exact needed

theorem stray?_eq_some : flow.stray? jump = some name ↔ name ∈ jump ∧ ¬ flow.Knows name := by
  simp [stray?, Option.filter_eq_some_iff]

theorem stray?_eq_none : flow.stray? jump = none ↔ ∀ name ∈ jump, flow.Knows name := by
  simp [stray?, Option.filter_eq_none_iff]

@[simp] theorem confine_none (made : Except Fault α) : flow.confine none made = made := by
  cases made <;> rfl

@[simp] theorem confine_error (fault : Fault) :
    flow.confine jump (.error fault : Except Fault α) = .error fault := rfl

theorem confine_stray (stray : flow.stray? jump = some name) (a : α) :
    flow.confine jump (.ok a) = .error (.unknownJump name) := by
  simp [confine, stray, bind, Except.bind]

theorem confine_known (known : flow.stray? jump = none) (a : α) :
    flow.confine jump (.ok a) = .ok a := by
  simp [confine, known, bind, Except.bind]

theorem confine_bind (made : Except Fault α) (f : α → β) :
    (flow.confine jump made >>= fun a => .ok (f a)) =
      flow.confine jump (made >>= fun a => .ok (f a)) := by
  cases made with
  | error fault => rfl
  | ok a =>
    cases stray : flow.stray? jump with
    | none =>
      rw [confine_known stray]
      exact (confine_known stray (f a)).symm
    | some name =>
      rw [confine_stray stray]
      exact (confine_stray stray (f a)).symm

theorem confine_eq_ok {made : Except Fault α} {a : α} :
    flow.confine jump made = .ok a ↔ made = .ok a ∧ ∀ name ∈ jump, flow.Knows name := by
  rw [← stray?_eq_none]
  cases made with
  | error fault => simp
  | ok b =>
    cases stray : flow.stray? jump with
    | none => simp [confine_known stray]
    | some name => simp [confine_stray stray]

theorem confine_ok_cases (flow : Flow) (jump : Option String) (a : α) :
    (∀ name ∈ jump, flow.Knows name) ∧ flow.confine jump (.ok a) = .ok a ∨
      ∃ name ∈ jump, ¬ flow.Knows name ∧
        flow.confine jump (.ok a) = .error (.unknownJump name) := by
  cases stray : flow.stray? jump with
  | none => exact .inl ⟨stray?_eq_none.1 stray, confine_known stray a⟩
  | some name =>
    obtain ⟨jumps, unknown⟩ := stray?_eq_some.1 stray
    exact .inr ⟨name, jumps, unknown, confine_stray stray a⟩

end

end Flow

namespace Compile.Plan

def under (plan : Plan) (policy : JumpPolicy) : Plan := { plan with policy }

variable {plan : Plan} {policy : JumpPolicy} {index last : Nat} {step : Step}
  {condition : Option Predicate} {fallback final : Option Target} {cases : List Case}
  {made : List Edge}

theorem named?_under (name : String) : (plan.under policy).named? name = plan.named? name := rfl

theorem caseTarget_under (name : String) :
    (plan.under policy).caseTarget name = plan.caseTarget name := rfl

theorem caseEdges_under (cases : List Case) (condition : Option Predicate)
    (fallback : Option Target) :
    (plan.under policy).caseEdges condition fallback cases =
      plan.caseEdges condition fallback cases := by
  induction cases generalizing fallback with
  | nil => rfl
  | cons case cases ih => simp only [caseEdges, caseTarget_under, ih]

theorem answers_under (cases : List Case) (yes no : Option Target) :
    (plan.under policy).answers yes no cases = plan.answers yes no cases := by
  induction cases generalizing yes no with
  | nil => rfl
  | cons case cases ih => simp only [answers, caseTarget_under, ih]

theorem jumpTarget_strict (name : String) :
    (plan.under .strict).jumpTarget name =
      plan.flow.confine (some name) ((plan.under .lenient).jumpTarget name) := by
  unfold jumpTarget
  rw [named?_under, named?_under]
  cases known : plan.named? name with
  | none =>
    have stray : plan.flow.stray? (some name) = some name :=
      Flow.stray?_eq_some.2 ⟨rfl, named?_eq_none.1 known⟩
    exact (Flow.confine_stray stray Target.finish).symm
  | some target =>
    refine (Flow.confine_eq_ok.2 ⟨rfl, ?_⟩).symm
    rintro _ ⟨⟩
    exact knows_of_named? known

theorem onward_strict (index last : Nat) (step : Step) :
    (plan.under .strict).onward index last step =
      plan.flow.confine step.jump ((plan.under .lenient).onward index last step) := by
  unfold onward
  cases step.jump with
  | none => exact (Flow.confine_none _).symm
  | some name => exact jumpTarget_strict name

theorem onward_bind_strict (index last : Nat) (step : Step) (edges : Target → List Edge) :
    ((plan.under .strict).onward index last step >>= fun target => .ok (edges target)) =
      plan.flow.confine step.jump
        ((plan.under .lenient).onward index last step >>= fun target => .ok (edges target)) := by
  rw [onward_strict, Flow.confine_bind]

theorem isElse_of_caseEdges (ok : plan.caseEdges condition none cases = .ok (made, final)) :
    final.isSome = cases.any Case.isElse := by
  rw [final_of_caseEdges ok, Option.none_or, Option.isSome_map, Bool.eq_iff_iff,
    List.find?_isSome, List.any_eq_true]

theorem affirms_of_answers {yes no yes' no' : Option Target}
    (ok : plan.answers yes no cases = .ok (yes', no')) :
    yes'.isSome = (yes.isSome || cases.any Case.affirms) := by
  induction cases generalizing yes no with
  | nil => cases ok; simp
  | cons case cases ih =>
    obtain ⟨target, -, rest⟩ := bind_eq_ok.1 ok
    have reads : answer? (Text.trim case.label) = some true ↔ case.affirms = true := by
      unfold answer? Case.affirms Case.reads
      grind
    rw [List.any_cons]
    dsimp only at rest
    split at rest
    · cases rest
    · next affirms =>
      split at rest
      · cases rest
      · rw [ih rest, reads.1 affirms]; simp
    · next denies =>
      have other : case.affirms = false := by
        rw [Bool.eq_false_iff, ne_eq, ← reads, denies]
        decide
      split at rest
      · cases rest
      · rw [ih rest, other, Bool.false_or]

theorem branchEdges_strict (index : Nat) (step : Step) :
    (plan.under .strict).branchEdges index step =
      plan.flow.confine (step.needed .branch) ((plan.under .lenient).branchEdges index step) := by
  unfold branchEdges
  simp only [caseEdges_under]
  cases step.condition.mapM predicate with
  | error fault => rfl
  | ok condition =>
    cases ok : plan.caseEdges condition none step.cases with
    | error fault => simp [ok, bind, Except.bind]
    | ok result =>
      obtain ⟨made, final⟩ := result
      have needed : step.needed .branch = if final.isSome then none else step.jump := by
        rw [isElse_of_caseEdges ok]
        rfl
      simp only [bind, Except.bind, ok, needed]
      cases final with
      | some target => exact (Flow.confine_none _).symm
      | none =>
        exact onward_bind_strict index index step fun target => made ++ [⟨.otherwise, target⟩]

theorem confirmEdges_strict (index : Nat) (step : Step) :
    (plan.under .strict).confirmEdges index step =
      plan.flow.confine (step.needed .confirm) ((plan.under .lenient).confirmEdges index step) := by
  unfold confirmEdges
  simp only [answers_under]
  cases ok : plan.answers none none step.cases with
  | error fault => rfl
  | ok result =>
    obtain ⟨yes, no⟩ := result
    have needed : step.needed .confirm = if yes.isSome then none else step.jump := by
      rw [affirms_of_answers ok, Option.isSome_none, Bool.false_or]
      rfl
    rw [needed]
    cases yes with
    | some target => exact (Flow.confine_none _).symm
    | none =>
      exact onward_bind_strict index index step fun target =>
        [⟨.affirmed, target⟩, ⟨.denied, no.getD .finish⟩]

theorem loopEdges_strict (index : Nat) (step : Step) (condition : Predicate)
    (body : List String) :
    (plan.under .strict).loopEdges index step condition body =
      plan.flow.confine step.jump ((plan.under .lenient).loopEdges index step condition body) := by
  unfold loopEdges
  simp only [under]
  cases body.head?.bind plan.flow.index? with
  | none => rfl
  | some first =>
    exact onward_bind_strict index (plan.lastOf index body) step fun target =>
      [⟨.when condition, .step first⟩, ⟨.otherwise, target⟩]

/-- Both rules make the same edges of a step, but for its jump if the step needs it. -/
theorem edges_strict (plan : Plan) (index : Nat) (step : Step) (activity : Activity) :
    (plan.under .strict).edges index step activity =
      plan.flow.confine (step.needed activity.type)
        ((plan.under .lenient).edges index step activity) := by
  cases activity with
  | branch => exact branchEdges_strict index step
  | confirm slot prompt => exact confirmEdges_strict index step
  | loop condition body => exact loopEdges_strict index step condition body
  | _ => exact onward_bind_strict index index step fun target => [⟨.always, target⟩]

end Compile.Plan

namespace Compile

variable {plan : Plan} {index : Nat} {steps : List (Step × Activity)} {made : List Node}

theorem nodes_of_strict (ok : nodes (plan.under .strict) index steps = .ok made) :
    nodes (plan.under .lenient) index steps = .ok made := by
  induction steps generalizing index made with
  | nil => exact ok
  | cons step steps ih =>
    obtain ⟨edges, found, rest⟩ := bind_eq_ok.1 ok
    obtain ⟨others, tail, same⟩ := bind_eq_ok.1 rest
    rw [inStep_eq_ok, Plan.edges_strict, Flow.confine_eq_ok] at found
    exact bind_eq_ok.2 ⟨edges, inStep_eq_ok.2 found.1, bind_eq_ok.2 ⟨others, ih tail, same⟩⟩

theorem nodes_strict_cases (ok : nodes (plan.under .lenient) index steps = .ok made) :
    (∀ step ∈ steps, ∀ name ∈ step.1.needed step.2.type, plan.flow.Knows name) ∧
        nodes (plan.under .strict) index steps = .ok made ∨
      ∃ step ∈ steps, ∃ name ∈ step.1.needed step.2.type, ¬ plan.flow.Knows name ∧
        nodes (plan.under .strict) index steps =
          .error (.step plan.flow.id step.1.name (.unknownJump name)) := by
  induction steps generalizing index made with
  | nil => exact .inl ⟨by simp, ok⟩
  | cons step steps ih =>
    obtain ⟨edges, found, rest⟩ := bind_eq_ok.1 ok
    obtain ⟨others, tail, same⟩ := bind_eq_ok.1 rest
    rw [inStep_eq_ok] at found
    have strict := Plan.edges_strict plan index step.1 step.2
    rw [found] at strict
    -- A step comes to its jump last, so that a stray one is all that can be wrong with it here.
    rcases Flow.confine_ok_cases plan.flow (step.1.needed step.2.type) edges with
      ⟨known, confined⟩ | ⟨name, jumps, unknown, refused⟩
    · rw [confined] at strict
      rcases ih tail with ⟨all, made⟩ | ⟨stray, member, name, jumps, unknown, fails⟩
      · refine .inl ⟨List.forall_mem_cons.2 ⟨known, all⟩, ?_⟩
        exact bind_eq_ok.2 ⟨edges, inStep_eq_ok.2 strict, bind_eq_ok.2 ⟨others, made, same⟩⟩
      · refine .inr ⟨stray, List.mem_cons_of_mem _ member, name, jumps, unknown, ?_⟩
        exact bind_eq_error.2 (.inr ⟨edges, inStep_eq_ok.2 strict, bind_eq_error.2 (.inl fails)⟩)
    · rw [refused] at strict
      refine .inr ⟨step, List.mem_cons_self, name, jumps, unknown, bind_eq_error.2 (.inl ?_)⟩
      rw [strict]
      rfl

end Compile

namespace Dialect

def under (d : Dialect) (policy : JumpPolicy) : Dialect := { d with policy }

def Accepts (d : Dialect) (policy : JumpPolicy) (flow : Flow) : Prop :=
  ∃ graph, (d.under policy).compile flow = .ok graph

def needed (d : Dialect) (step : Step) : Option String :=
  (d.type? step.tag).bind step.needed

/-- Whatever a step jumps to is a step of the flow or its end, as far as the jump is needed. -/
def Resolves (d : Dialect) (flow : Flow) : Prop :=
  ∀ step ∈ flow.steps, ∀ name ∈ d.needed step, flow.Knows name

variable {d : Dialect} {flow : Flow} {graph : Graph} {step : Step} {name : String}

theorem jump_of_needed (needed : name ∈ d.needed step) : name ∈ step.jump := by
  obtain ⟨type, -, needed⟩ := Option.bind_eq_some_iff.1 needed
  exact Step.jump_of_needed needed

theorem resolves_of_resolved (resolved : flow.Resolved) : d.Resolves flow :=
  fun step member name needed => resolved step member name (jump_of_needed needed)

theorem exists_plan_of_compile {policy : JumpPolicy}
    (compiled : (d.under policy).compile flow = .ok graph) :
    ∃ (plan : Plan) (steps : List (Step × Activity)),
      plan.flow = flow ∧ steps.map (·.1) = flow.steps ∧
      (∀ step ∈ steps, d.type? step.1.tag = some step.2.type) ∧
      ∀ policy, (d.under policy).compile flow = (do
        return ⟨flow.id, flow.description, ← Compile.nodes (plan.under policy) 0 steps⟩) := by
  obtain ⟨checked, activities, backEdges, steps, loops, -⟩ := compile_cases compiled
  refine ⟨⟨flow, policy, backEdges⟩, flow.steps.zip activities, rfl,
    List.map_fst_zip (Nat.le_of_eq steps.length_eq), ?_, ?_⟩
  · rintro ⟨step, activity⟩ member
    have made := List.forall₂_iff_zip.1 steps
    exact (type?_of_activity (Compile.inStep_eq_ok.1 (made.2 member))).1
  · intro other
    have activities : (flow.steps.mapM fun step =>
        Compile.inStep flow.id step.name ((d.under other).activity step)) = .ok activities :=
      mapM_eq_ok.2 steps
    simp only [compile, checked, activities, loops, bind, Except.bind]
    rfl

theorem strict_cases (accepted : (d.under .lenient).compile flow = .ok graph) :
    d.Resolves flow ∧ (d.under .strict).compile flow = .ok graph ∨
      ∃ step ∈ flow.steps, ∃ name ∈ d.needed step, ¬ flow.Knows name ∧
        (d.under .strict).compile flow = .error (.step flow.id step.name (.unknownJump name)) := by
  obtain ⟨plan, steps, same, all, types, compile⟩ := exists_plan_of_compile accepted
  rw [compile, bind_eq_ok] at accepted
  obtain ⟨made, ok, graph⟩ := accepted
  rw [compile]
  subst same
  have needed {step : Step × Activity} (member : step ∈ steps) :
      d.needed step.1 = step.1.needed step.2.type := by
    rw [needed, types step member, Option.bind_some]
  rcases Compile.nodes_strict_cases ok with
    ⟨known, ok⟩ | ⟨step, member, name, jumps, unknown, fails⟩
  · refine .inl ⟨?_, bind_eq_ok.2 ⟨made, ok, graph⟩⟩
    intro step member
    rw [← all] at member
    obtain ⟨pair, place, rfl⟩ := List.mem_map.1 member
    rw [needed place]
    exact known pair place
  · refine .inr ⟨step.1, all ▸ List.mem_map_of_mem member, name, ?_, unknown,
      bind_eq_error.2 (.inl fails)⟩
    rwa [needed member]

theorem lenient_of_strict (accepted : (d.under .strict).compile flow = .ok graph) :
    (d.under .lenient).compile flow = .ok graph := by
  obtain ⟨plan, steps, -, -, -, compile⟩ := exists_plan_of_compile accepted
  rw [compile, bind_eq_ok] at accepted
  obtain ⟨made, ok, graph⟩ := accepted
  rw [compile]
  exact bind_eq_ok.2 ⟨made, Compile.nodes_of_strict ok, graph⟩

/-- To compile by the strict rule is to compile by the lenient rule and to know all jumps that are
needed; to know all jumps is more than that. -/
theorem accepts_strict_iff (d : Dialect) (flow : Flow) :
    (d.Accepts .strict flow ↔ d.Accepts .lenient flow ∧ d.Resolves flow) ∧
    ((d.Accepts .strict flow ↔ d.Accepts .lenient flow ∧ flow.Resolved) ↔
      (d.Accepts .lenient flow → d.Resolves flow → flow.Resolved)) ∧
    (∀ graph, (d.under .strict).compile flow = .ok graph →
      (d.under .lenient).compile flow = .ok graph) ∧
    (∀ graph e, (d.under .lenient).compile flow = .ok graph →
      (d.under .strict).compile flow = .error e →
      ∃ step ∈ flow.steps, ∃ name ∈ step.jump, ¬ flow.Knows name ∧
        e = .step flow.id step.name (.unknownJump name)) := by
  have accepts : d.Accepts .strict flow ↔ d.Accepts .lenient flow ∧ d.Resolves flow := by
    constructor
    · rintro ⟨graph, accepted⟩
      have lenient := lenient_of_strict accepted
      rcases strict_cases lenient with ⟨resolved, -⟩ | ⟨step, -, name, -, -, fails⟩
      · exact ⟨⟨graph, lenient⟩, resolved⟩
      · cases accepted.symm.trans fails
    · rintro ⟨⟨graph, lenient⟩, resolved⟩
      rcases strict_cases lenient with ⟨-, accepted⟩ | ⟨step, member, name, jumps, unknown, -⟩
      · exact ⟨graph, accepted⟩
      · exact absurd (resolved step member name jumps) unknown
  refine ⟨accepts, ?_, fun _ => lenient_of_strict, ?_⟩
  · constructor
    · intro claimed lenient resolved
      exact (claimed.1 (accepts.2 ⟨lenient, resolved⟩)).2
    · intro enough
      rw [accepts]
      constructor
      · exact fun ⟨lenient, resolved⟩ => ⟨lenient, enough lenient resolved⟩
      · exact fun ⟨lenient, resolved⟩ => ⟨lenient, resolves_of_resolved resolved⟩
  · intro graph e lenient fails
    rcases strict_cases lenient with ⟨-, accepted⟩ | ⟨step, member, name, jumps, unknown, refused⟩
    · cases accepted.symm.trans fails
    · cases refused.symm.trans fails
      exact ⟨step, member, name, jump_of_needed jumps, unknown, rfl⟩

/-- A branch and a question whose cases leave no use for their jumps. -/
def settled : Flow :=
  ⟨"settled", "", [
    { name := "choose", tag := "branch", cases := [⟨"amount > 0", "sure"⟩, ⟨"else", "END"⟩],
      jump := some "nowhere" },
    { name := "sure", tag := "confirm", cases := [⟨"yes", "END"⟩], jump := some "nowhere" }]⟩

theorem strict_accepts_settled :
    (standard .strict).Accepts .strict settled ∧ ¬ settled.Resolved ∧
      ¬ ((standard .strict).Accepts .strict settled ↔
        (standard .strict).Accepts .lenient settled ∧ settled.Resolved) := by
  have accepted : (((standard .strict).under .strict).compile settled).toOption.isSome := by
    decide +kernel
  obtain ⟨graph, made⟩ := Option.isSome_iff_exists.1 accepted
  have accepts : (standard .strict).Accepts .strict settled := ⟨graph, eq_ok_of_toOption made⟩
  have stray : ¬ settled.Resolved := by
    intro resolved
    have known := resolved _ List.mem_cons_self "nowhere" rfl
    revert known
    decide
  exact ⟨accepts, stray, fun claimed => stray (claimed.1 accepts).2⟩

end Dialect

end Colloquy
