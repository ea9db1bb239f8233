import Colloquy.Proofs.Compile.Shape

/-!
Branches as their authors mean them. A branch takes the first of its cases that applies; where it
leads if none does stands in the flow, and not in the order of the cases.
-/

set_option autoImplicit false

namespace Colloquy

open Colloquy.Flow (Case Step)
open Colloquy.Graph (Activity Edge Guard Node Target)

namespace Flow

/-- Where a name leads: to the step of that name, or out of the flow if it is the name of none. -/
def target (flow : Flow) (name : String) : Target :=
  if name = endName then .finish else (flow.index? name).elim .finish .step

/-- The first case whose label is true as a condition. The case for all else is passed over. -/
def firstTrue (slots : Slots) : List Case → Except ConditionError (Option Case)
  | [] => .ok none
  | case :: cases =>
    if case.isElse then firstTrue slots cases
    else do
      let condition ← Condition.parse (Text.trim case.label)
      if ← condition.eval slots then return some case else firstTrue slots cases

def truthWord (holds : Bool) : String := if holds then "true" else "false"

def Case.decides (case : Case) : Bool :=
  case.reads (truthWord true) || case.reads (truthWord false)

/-- The case of a branch that applies. Its own condition is asked only if a case is about it. -/
def Step.applicable (slots : Slots) (step : Step) : Except ConditionError (Option Case) :=
  match step.condition with
  | none => firstTrue slots step.cases
  | some text =>
    if step.cases.any Case.decides then do
      let condition ← Condition.parse text
      let holds ← condition.eval slots
      return step.cases.find? (·.reads (truthWord holds))
    else .ok none

end Flow

namespace Dialect

/-- The loop whose body ends with the name. -/
def loopOf? (d : Dialect) (flow : Flow) (name : String) : Option Nat :=
  flow.steps.findIdx? fun head => d.type? head.tag = some .loop ∧ head.body.getLast? = some name

/-- Where a branch leads if none of its cases applies. -/
def elsewhere (d : Dialect) (flow : Flow) (index : Nat) (step : Step) : Target :=
  match step.cases.find? Case.isElse with
  | some case => flow.target case.target
  | none =>
    match step.jump with
    | some name => flow.target name
    | none =>
      match d.loopOf? flow step.name with
      | some head => .step head
      | none => if index + 1 < flow.steps.length then .step (index + 1) else .finish

def branchTarget (d : Dialect) (flow : Flow) (index : Nat) (step : Step) (slots : Slots) :
    Except ConditionError Target :=
  (step.applicable slots).map fun applies =>
    applies.elim (d.elsewhere flow index step) (flow.target ·.target)

end Dialect

namespace Flow

theorem Case.reads_unique {case : Case} {word other : String} (first : case.reads word = true)
    (second : case.reads other = true) : Text.lower word = Text.lower other := by
  simp only [Case.reads, Text.spells, beq_iff_eq] at first second
  exact first.symm.trans second

theorem Case.not_reads_of_isElse {case : Case} (isElse : case.isElse = true) (holds : Bool) :
    case.reads (truthWord holds) = false := by
  rw [Bool.eq_false_iff]
  intro reads
  rcases Bool.or_eq_true_iff.1 isElse with other | other
  all_goals
    have same := Case.reads_unique reads other
    revert same
    cases holds <;> decide

theorem Case.decides_of_reads {case : Case} (holds : Bool)
    (reads : case.reads (truthWord holds) = true) : case.decides = true := by
  cases holds with
  | true => exact Bool.or_eq_true_iff.2 (.inl reads)
  | false => exact Bool.or_eq_true_iff.2 (.inr reads)

end Flow

namespace Compile

theorem Guards.passes {case : Case} {p : Predicate} {guard : Guard}
    (guards : Guards case (some p) guard) (slots : Slots) :
    guard.passes slots = (p.eval slots).map fun holds => case.reads (Flow.truthWord holds) := by
  have only (yes : case.reads "true" = true) : case.reads "false" = false := by
    rw [Bool.eq_false_iff]
    intro no
    have same := Case.reads_unique yes no
    revert same
    decide
  cases guards with
  | holds yes =>
    have no := only yes
    rw [Graph.Guard.passes]
    cases p.eval slots with
    | error e => simp only [Except.map]
    | ok holds => cases holds <;> simp [Except.map, Flow.truthWord, yes, no]
  | fails yes no =>
    rw [Graph.Guard.passes]
    cases p.eval slots with
    | error e => simp only [Except.map]
    | ok holds => cases holds <;> simp [Except.map, Flow.truthWord, yes, no]

theorem Guards.decides {case : Case} {p : Predicate} {guard : Guard}
    (guards : Guards case (some p) guard) : case.decides = true := by
  cases guards with
  | holds yes => exact Flow.Case.decides_of_reads true yes
  | fails _ no => exact Flow.Case.decides_of_reads false no

end Compile

namespace Compile.Plan

variable {plan : Plan} {cases : List Case} {made : List Edge} {fallback final : Option Target}
  {name : String} {slots : Slots} {target : Target}

theorem named?_eq_none : plan.named? name = none ↔ ¬ plan.flow.Knows name := by
  unfold named? Flow.Knows Flow.index?
  split
  · next same => simp [same]
  · next other => simp [other, List.findIdx?_eq_none_iff]

theorem knows_of_named? (known : plan.named? name = some target) : plan.flow.Knows name := by
  by_contra unknown
  cases (named?_eq_none.2 unknown).symm.trans known

theorem target_of_named? (known : plan.named? name = some target) :
    target = plan.flow.target name := by
  unfold named? at known
  unfold Flow.target
  split at known
  · next same => cases known; rw [if_pos same]
  · next other =>
    obtain ⟨index, found, rfl⟩ := Option.map_eq_some_iff.1 known
    rw [if_neg other, found]
    rfl

theorem target_of_caseTarget (leads : plan.caseTarget name = .ok target) :
    target = plan.flow.target name ∧ plan.flow.Knows name := by
  unfold caseTarget at leads
  split at leads
  · next known =>
    cases leads
    exact ⟨target_of_named? known, knows_of_named? known⟩
  · cases leads

theorem target_of_jumpTarget (leads : plan.jumpTarget name = .ok target) :
    target = plan.flow.target name := by
  unfold jumpTarget at leads
  split at leads
  · next known => cases leads; exact target_of_named? known
  · next unknown _ =>
    cases leads
    unfold named? at unknown
    unfold Flow.target
    split at unknown
    · cases unknown
    · next other => rw [if_neg other, Option.map_eq_none_iff.1 unknown]; rfl
  · cases leads

theorem final_of_caseEdges {condition : Option Predicate}
    (ok : plan.caseEdges condition fallback cases = .ok (made, final)) :
    final = fallback.or ((cases.find? Case.isElse).map (plan.flow.target ·.target)) := by
  induction cases generalizing fallback made with
  | nil => cases ok; simp
  | cons case cases ih =>
    obtain ⟨target, leads, ⟨isElse, rfl, rest⟩ | ⟨notElse, guard, edges, -, rest, -⟩⟩ :=
      caseEdges_cons_cases ok
    · rw [ih rest, List.find?_cons_of_pos isElse, (target_of_caseTarget leads).1]
      rfl
    · rw [ih rest, List.find?_cons_of_neg (by simp [notElse])]

theorem knows_of_caseEdges {condition : Option Predicate}
    (ok : plan.caseEdges condition fallback cases = .ok (made, final)) :
    ∀ case ∈ cases, plan.flow.Knows case.target := by
  induction cases generalizing fallback made with
  | nil => simp
  | cons case cases ih =>
    obtain ⟨target, leads, rest⟩ := caseEdges_cons_cases ok
    refine List.forall_mem_cons.2 ⟨(target_of_caseTarget leads).2, ?_⟩
    rcases rest with ⟨-, -, rest⟩ | ⟨-, guard, edges, -, rest, -⟩
    · exact ih rest
    · exact ih rest

theorem condition_of_predicate {text : String} {p : Predicate}
    (read : predicate text = .ok p) : Condition.parse text = .ok p.condition := by
  unfold predicate Predicate.parse at read
  cases parsed : Condition.parse text with
  | error e => simp [parsed, Except.map, Except.mapError] at read
  | ok c =>
    simp only [parsed, Except.map, Except.mapError, Except.ok.injEq] at read
    rw [← read]

/-- Labels are tried in the order of the cases. -/
theorem firstTarget_of_labels (ok : plan.caseEdges none fallback cases = .ok (made, final)) :
    Graph.firstTarget slots (made ++ [⟨.otherwise, target⟩]) =
      (Flow.firstTrue slots cases).map fun applies =>
        some (applies.elim target (plan.flow.target ·.target)) := by
  induction cases generalizing fallback made with
  | nil => cases ok; rfl
  | cons case cases ih =>
    obtain ⟨target', leads, ⟨isElse, -, rest⟩ | ⟨notElse, guard, edges, guards, rest, rfl⟩⟩ :=
      caseEdges_cons_cases ok
    · rw [ih rest, Flow.firstTrue, if_pos isElse]
    · cases guards with
      | @label p read =>
        obtain ⟨leads, -⟩ := target_of_caseTarget leads
        rw [Flow.firstTrue, if_neg (by simp [notElse]), condition_of_predicate read,
          List.cons_append, Graph.firstTarget, ih rest]
        simp only [Graph.Guard.passes, Predicate.eval, bind, Except.bind]
        cases p.condition.eval slots with
        | error e => rfl
        | ok holds => cases holds <;> simp [Except.map, pure, Except.pure, leads]

/-- The branch's own condition decides between the cases that are about it. -/
theorem firstTarget_of_condition {p : Predicate} {holds : Bool}
    (evaluated : p.eval slots = .ok holds)
    (ok : plan.caseEdges (some p) fallback cases = .ok (made, final)) :
    Graph.firstTarget slots (made ++ [⟨.otherwise, target⟩]) =
      .ok (some ((cases.find? (·.reads (Flow.truthWord holds))).elim target
        (plan.flow.target ·.target))) := by
  induction cases generalizing fallback made with
  | nil => cases ok; rfl
  | cons case cases ih =>
    obtain ⟨target', leads, ⟨isElse, -, rest⟩ | ⟨-, guard, edges, guards, rest, rfl⟩⟩ :=
      caseEdges_cons_cases ok
    · rw [ih rest, List.find?_cons_of_neg (by simp [Case.not_reads_of_isElse isElse])]
    · obtain ⟨leads, -⟩ := target_of_caseTarget leads
      rw [List.cons_append, Graph.firstTarget, guards.passes, evaluated, ih rest]
      cases reads : case.reads (Flow.truthWord holds) with
      | true =>
        simp [List.find?_cons_of_pos, reads, leads, Except.map, bind, Except.bind, pure, Except.pure]
      | false => simp [List.find?_cons_of_neg, reads, Except.map, bind, Except.bind]

theorem firstTarget_of_clash {p : Predicate} {e : ConditionError}
    (fails : p.eval slots = .error e)
    (ok : plan.caseEdges (some p) fallback cases = .ok (made, final)) :
    Graph.firstTarget slots (made ++ [⟨.otherwise, target⟩]) =
      if cases.any Case.decides then .error e else .ok (some target) := by
  induction cases generalizing fallback made with
  | nil => cases ok; rfl
  | cons case cases ih =>
    obtain ⟨target', leads, ⟨isElse, -, rest⟩ | ⟨-, guard, edges, guards, rest, rfl⟩⟩ :=
      caseEdges_cons_cases ok
    · have silent : case.decides = false := by
        simp only [Case.decides, Case.not_reads_of_isElse isElse, Bool.or_self]
      rw [ih rest, List.any_cons, silent, Bool.false_or]
    · rw [List.cons_append, Graph.firstTarget, guards.passes, fails, List.any_cons, guards.decides]
      rfl

/-- The edges of a branch lead to the target of the case that applies, or else to the last one. -/
theorem firstTarget_of_cases {step : Step} {condition : Option Predicate}
    (parsed : step.condition.mapM predicate = .ok condition)
    (ok : plan.caseEdges condition fallback step.cases = .ok (made, final)) :
    Graph.firstTarget slots (made ++ [⟨.otherwise, target⟩]) =
      (step.applicable slots).map fun applies =>
        some (applies.elim target (plan.flow.target ·.target)) := by
  unfold Flow.Step.applicable
  cases own : step.condition with
  | none =>
    rw [own] at parsed
    cases parsed
    exact firstTarget_of_labels ok
  | some text =>
    rw [own] at parsed
    obtain ⟨p, read, same⟩ := bind_eq_ok.1 parsed
    cases same
    dsimp only
    rw [condition_of_predicate read]
    cases evaluated : p.eval slots with
    | error e =>
      rw [firstTarget_of_clash evaluated ok]
      split
      · rw [Predicate.eval] at evaluated
        simp [evaluated, bind, Except.bind, Except.map]
      · rfl
    | ok holds =>
      rw [firstTarget_of_condition evaluated ok]
      split
      · rw [Predicate.eval] at evaluated
        simp [evaluated, bind, Except.bind, Except.map, pure, Except.pure]
      · next undecided =>
        have none : step.cases.find? (·.reads (Flow.truthWord holds)) = none := by
          refine List.find?_eq_none.2 fun case member reads => undecided ?_
          exact List.any_eq_true.2 ⟨case, member, Case.decides_of_reads holds reads⟩
        rw [none]
        rfl

end Compile.Plan

namespace Compile

theorem activity_eq_ok {type : StepType} {step : Step} {activity : Activity}
    (ok : Compile.activity type step = .ok activity) :
    activity.type = type ∧ activity.body = if type = .loop then step.body else [] := by
  cases type with
  | collect =>
    simp only [Compile.activity, bind_eq_ok] at ok
    obtain ⟨slot, -, validation, -, same⟩ := ok
    cases same
    exact ⟨rfl, rfl⟩
  | action | say | call | link =>
    simp only [Compile.activity, bind_eq_ok] at ok
    obtain ⟨text, -, same⟩ := ok
    cases same
    exact ⟨rfl, rfl⟩
  | confirm =>
    cases ok
    exact ⟨rfl, rfl⟩
  | branch =>
    simp only [Compile.activity] at ok
    split at ok
    · cases ok
    · cases ok
      exact ⟨rfl, rfl⟩
  | loop =>
    simp only [Compile.activity, bind_eq_ok] at ok
    obtain ⟨text, -, condition, -, rest⟩ := ok
    split at rest
    · cases rest
    · cases rest
      exact ⟨rfl, rfl⟩

end Compile

namespace Dialect

variable {d : Dialect} {flow : Flow} {graph : Graph}

theorem type?_of_activity {step : Step} {activity : Activity}
    (ok : d.activity step = .ok activity) :
    d.type? step.tag = some activity.type ∧
      activity.body = if d.type? step.tag = some .loop then step.body else [] := by
  unfold Dialect.activity at ok
  split at ok
  · next type known =>
    obtain ⟨same, body⟩ := Compile.activity_eq_ok ok
    rw [known, body, same]
    simp
  · cases ok

theorem closes_iff (compiled : d.compile flow = .ok graph) {head tail : Nat} {step : Step}
    (place : flow.steps[tail]? = some step) :
    graph.Closes head tail ↔ ∃ loop, flow.steps[head]? = some loop ∧
      d.type? loop.tag = some .loop ∧ loop.body.getLast? = some step.name := by
  have executable := executable_of_compile compiled
  have body {loop : Step} (here : flow.steps[head]? = some loop) :
      graph.body head = if d.type? loop.tag = some .loop then loop.body else [] := by
    obtain ⟨node, there, -, activity⟩ := executable.node head loop here
    rw [Graph.body_eq there, (type?_of_activity activity).2]
  constructor
  · rintro ⟨name, last, index⟩
    cases here : flow.steps[head]? with
    | none =>
      rw [List.getElem?_eq_none_iff, ← executable.length] at here
      simp [Graph.body, List.getElem?_eq_none here] at last
    | some loop =>
      rw [body here] at last
      split at last
      · next isLoop =>
        obtain ⟨node, there, same⟩ := Graph.name_of_index? index
        obtain ⟨node', there', same', -⟩ := executable.node tail step place
        cases there.symm.trans there'
        exact ⟨loop, rfl, isLoop, by rw [last, ← same, same']⟩
      · cases last
  · rintro ⟨loop, here, isLoop, last⟩
    refine ⟨step.name, ?_, executable.index tail step place⟩
    rwa [body here, if_pos isLoop]

theorem loopHead?_eq_loopOf? {plan : Compile.Plan} (compiled : d.compile flow = .ok graph)
    (makes : plan.Makes graph) {index : Nat} {step : Step}
    (place : flow.steps[index]? = some step) :
    plan.loopHead? index = d.loopOf? flow step.name := by
  have closes {head : Nat} (found : d.loopOf? flow step.name = some head) :
      plan.loopHead? index = some head := by
    obtain ⟨bound, holds, -⟩ := List.findIdx?_eq_some_iff_getElem.1 found
    refine makes.loopHead?_iff.2 ((closes_iff compiled place).2 ?_)
    exact ⟨_, List.getElem?_eq_getElem bound, by simpa using holds⟩
  cases found : d.loopOf? flow step.name with
  | some head => exact closes found
  | none =>
    rw [Option.eq_none_iff_forall_ne_some]
    intro head closed
    obtain ⟨loop, here, isLoop, last⟩ :=
      (closes_iff compiled place).1 (makes.loopHead?_iff.1 closed)
    have none := List.findIdx?_eq_none_iff.1 found loop (List.mem_of_getElem? here)
    simp [isLoop, last] at none

theorem onward_eq_ok {plan : Compile.Plan} (compiled : d.compile flow = .ok graph)
    (same : plan.flow = flow) (makes : plan.Makes graph) {index : Nat} {step : Step}
    (place : flow.steps[index]? = some step) {target : Target}
    (none : step.cases.find? Case.isElse = none)
    (leads : plan.onward index index step = .ok target) :
    target = d.elsewhere flow index step := by
  subst same
  unfold elsewhere
  unfold Compile.Plan.onward at leads
  rw [none]
  cases jumps : step.jump with
  | some name =>
    rw [jumps] at leads
    exact Compile.Plan.target_of_jumpTarget leads
  | none =>
    rw [jumps, loopHead?_eq_loopOf? compiled makes place] at leads
    dsimp only at leads ⊢
    cases closes : d.loopOf? plan.flow step.name with
    | some head =>
      rw [closes] at leads
      exact (Except.ok.inj leads).symm
    | none =>
      rw [closes] at leads
      exact (Except.ok.inj leads).symm

/-- A compiled branch leads where its definition says, or fails just as its conditions do; and the
cases name only steps of the flow, or its end. -/
theorem next_of_branch (compiled : d.compile flow = .ok graph) {index : Nat} {step : Step}
    (place : flow.steps[index]? = some step) (branch : d.type? step.tag = some .branch)
    (slots : Slots) :
    graph.next step.name slots = (d.branchTarget flow index step slots).map some ∧
      (∀ e, d.branchTarget flow index step slots = .error e → e.IsClash) ∧
      ∀ case ∈ step.cases, flow.Knows case.target := by
  have named := named_of_compile compiled
  obtain ⟨plan, rfl, makes, wired⟩ := exists_plan compiled
  obtain ⟨node, here, name, activity, edges⟩ := wired index step place
  have isBranch : node.activity = .branch := by
    have type := (type?_of_activity activity).1.symm.trans branch
    cases kind : node.activity <;> simp [kind, Activity.type] at type
    rfl
  rw [isBranch] at edges
  obtain ⟨condition, made, final, target, parsed, cases', chosen, made'⟩ :=
    Compile.Plan.branchEdges_cases edges
  have final' := Compile.Plan.final_of_caseEdges cases'
  have last : target = d.elsewhere plan.flow index step := by
    rcases chosen with rfl | ⟨rfl, leads⟩
    · rw [Option.none_or, eq_comm, Option.map_eq_some_iff] at final'
      obtain ⟨case, found, rfl⟩ := final'
      simp only [elsewhere, found]
    · rw [Option.none_or, eq_comm, Option.map_eq_none_iff] at final'
      exact onward_eq_ok compiled rfl makes place final' leads
  have next :
      graph.next step.name slots = (d.branchTarget plan.flow index step slots).map some := by
    rw [← name, Graph.next_name named (List.mem_of_getElem? here), made',
      Compile.Plan.firstTarget_of_cases parsed cases', last, branchTarget]
    cases step.applicable slots <;> rfl
  refine ⟨next, ?_, Compile.Plan.knows_of_caseEdges cases'⟩
  intro e fails
  rw [fails, ← name, Graph.next_name named (List.mem_of_getElem? here)] at next
  exact Graph.isClash_of_firstTarget next

theorem next_of_branch_errand :
    ∃ graph, asking.compile errand = .ok graph ∧ errand.steps[2]? = some picking ∧
      asking.type? picking.tag = some .branch ∧
      graph.next "pick" (.ofList [("amount", .integer 5000)]) = .ok (some (.step 3)) ∧
      graph.next "pick" (.ofList [("amount", .integer 50)]) = .ok (some (.step 0)) := by
  have accepted : (asking.compile errand).toOption.isSome := by decide +kernel
  obtain ⟨graph, made⟩ := Option.isSome_iff_exists.1 accepted
  have compiled := eq_ok_of_toOption made
  have place : errand.steps[2]? = some picking := rfl
  have isBranch : asking.type? picking.tag = some .branch := by decide +kernel
  have leads (amount : Int64) :=
    (next_of_branch compiled place isBranch (.ofList [("amount", .integer amount)])).1
  have large : asking.branchTarget errand 2 picking (.ofList [("amount", .integer 5000)]) =
      .ok (.step 3) := eq_ok_of_toOption (by decide +kernel)
  have small : asking.branchTarget errand 2 picking (.ofList [("amount", .integer 50)]) =
      .ok (.step 0) := eq_ok_of_toOption (by decide +kernel)
  exact ⟨graph, compiled, place, isBranch, (leads 5000).trans (congrArg (Except.map some) large),
    (leads 50).trans (congrArg (Except.map some) small)⟩

end Dialect

end Colloquy
