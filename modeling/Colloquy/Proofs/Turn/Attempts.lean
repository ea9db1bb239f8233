import Colloquy.Proofs.Turn.Course

/-!
Steps that run an action. The turn stands at such a step once it has entered it, and has the backend
run the action before it does anything else; if that fails, the turn ends where it stands.
-/

set_option autoImplicit false

namespace Colloquy

open Colloquy.Graph (Node Target)

variable {σ : Type} {l : Library} {backend : Backend σ} {t t' : Turn σ} {top : Frame}
  {below : List Frame} {graph : Graph} {index limit : Nat} {node : Node} {action : String}
  {earlier : List Event}

namespace TurnM

/-- Goes on from a target, if there is one, with `budget` steps left. -/
def walkOn (l : Library) (backend : Backend σ) (limit budget : Nat) : Option Target → TurnM σ Unit
  | none => return
  | some target => walk l backend limit budget target

/-- Carries out a step that has been entered, and goes on from there with `budget` steps left. -/
def carryOn (l : Library) (backend : Backend σ) (limit budget : Nat) (node : Node) :
    TurnM σ Unit :=
  execute l backend node >>= walkOn l backend limit budget

theorem adds_walkOn (limit budget : Nat) (next : Option Target) :
    Adds Event.isActed budget (walkOn l backend limit budget next) := by
  cases next with
  | none => exact (Costs.pure ()).adds.mono (Nat.zero_le budget)
  | some target =>
    exact adds_walk (fun _ => Event.isWork_of_isActed) costs_acted limit budget target

end TurnM

namespace Turn

/-- The turn has just entered a step that runs an action, after some earlier events. -/
structure AtAction (l : Library) (t : Turn σ) (top : Frame) (node : Node) (action : String)
    (earlier : List Event) : Prop where
  running : t.stack.top? = some top
  stands : l.node? top = some node
  activity : node.activity = .action action
  trail : t.trail = earlier ++ [.entered top.invocation node.name]

theorem run_walk_step (backend : Backend σ) (frames : t.stack.frames = top :: below)
    (known : l.get? top.flow = some graph) (member : graph.nodes[index]? = some node)
    (limit budget : Nat) :
    t.run (TurnM.walk l backend limit (budget + 1) (.step index)) =
      (t.entering top below node).run (TurnM.carryOn l backend limit budget node) := by
  have arrived : t.run (TurnM.arrive l (.step index)) =
      (.ok (some (top.flow, graph, index)), t) := by
    rw [run_arrive_step frames, known]
  rw [TurnM.walk_eq, run_bind_ok arrived]
  simp only [TurnM.walkFromStep, member]
  rw [run_bind, run_enter frames, TurnM.carryOn, run_bind]
  rfl

theorem atAction_entering (named : l.Named) (known : l.get? top.flow = some graph)
    (member : graph.nodes[index]? = some node) (activity : node.activity = .action action) :
    (t.entering top below node).AtAction l { top with step := some node.name } node action
      t.trail where
  running := rfl
  stands := named.node?_eq_some known rfl (List.mem_of_getElem? member)
  activity := activity
  trail := rfl

theorem run_act {m : Machine} (backend : Backend σ) (heard : m.Heard) (kept : t.Kept m)
    (ready : t.failure = none) (frames : t.stack.frames = top :: below) (action : String) :
    ∃ succeeded t', t.run (TurnM.act backend action) = (.ok succeeded, t') ∧
      t'.trail = t.trail ++ [.acted top.invocation action top.slots
        (backend.act action top.slots t.world).1.toOption] := by
  obtain ⟨begins, breaks⟩ := kept.update_acting heard ready
  cases ran : backend.act action top.slots t.world with
  | mk result world =>
    cases result with
    | ok values => exact ⟨true, _, run_act_ok begins frames ran, rfl⟩
    | error failure => exact ⟨false, _, run_act_error begins breaks frames ran, rfl⟩

/-- A step that runs an action does that first. -/
theorem AtAction.trail_of_carryOn {m : Machine} (backend : Backend σ)
    (here : t.AtAction l top node action earlier) (heard : m.Heard) (kept : t.Kept m)
    (ready : t.failure = none) (limit budget : Nat) :
    ∃ rest, (t.run (TurnM.carryOn l backend limit budget node)).2.trail = t.trail ++
      .acted top.invocation action top.slots (backend.act action top.slots t.world).1.toOption ::
        rest := by
  obtain ⟨below, frames⟩ := List.head?_eq_some_iff.1 here.running
  obtain ⟨succeeded, t', acted, trail⟩ := run_act backend heard kept ready frames action
  have lead : t.run (TurnM.carryOn l backend limit budget node) =
      t'.run ((if succeeded then TurnM.goFrom l node.name else pure none) >>=
        TurnM.walkOn l backend limit budget) := by
    unfold TurnM.carryOn TurnM.execute
    simp only [here.activity]
    rw [bind_assoc, run_bind_ok acted]
  -- Whatever follows adds to the trail.
  have leaves : TurnM.Adds Event.isActed 0
      (if succeeded then TurnM.goFrom l node.name else pure none : TurnM σ (Option Target)) := by
    split
    · exact ((TurnM.Steady.of_costs l backend fun _ => Event.isWork_of_isActed).goFrom _).adds
    · exact (TurnM.Costs.pure none).adds
  obtain ⟨events, grown, -⟩ := (leaves.bind fun next _ => TurnM.adds_walkOn limit budget next) t'
  refine ⟨events, ?_⟩
  rw [lead, grown, trail, List.append_assoc]
  rfl

end Turn

theorem Round.failure_eq {target next : Target}
    (round : Round l backend t target (some next) t') : t'.failure = t.failure := by
  cases round <;> rfl

theorem Stand.failure_of_advances {s last : Stand σ}
    (rounds : Relation.ReflTransGen (fun s next => s.advance l backend limit = .inl next) s last) :
    last.turn.failure = s.turn.failure := by
  induction rounds with
  | refl => rfl
  | tail _ goesOn ih =>
    obtain ⟨⟨ran, -⟩, -⟩ := advance_eq_inl.1 goesOn
    exact (Round.of_run ran).failure_eq.trans ih

/-- A walk that ends with a failure ends at the step whose action has failed. -/
theorem Turn.exists_failing {target : Target} (named : l.Named) (ready : t.failure = none)
    (failed : t'.failure.isSome)
    (ran : t.run (TurnM.walk l backend limit limit target) = (.ok (), t')) :
    0 < limit ∧ ∃ (here : Turn σ) (top : Frame) (node : Node) (action : String)
      (earlier : List Event) (budget : Nat), here.AtAction l top node action earlier ∧
      t.run (TurnM.walk l backend limit limit target) =
        here.run (TurnM.carryOn l backend limit budget node) ∧
      t'.stack = here.stack ∧
      t'.trail = here.trail ++ [.acted top.invocation action top.slots none] := by
  obtain ⟨⟨turn, target', entered⟩, rounds, ends, -⟩ :=
    Stand.exists_last l backend limit ⟨t, target, 0⟩ (Nat.zero_le limit)
  have same : Stand.walked l backend limit ⟨t, target, 0⟩ = (.ok (), t') := ran
  have lasts := Stand.walked_of_advances rounds
  have ready : turn.failure = none := (Stand.failure_of_advances rounds).trans ready
  rw [same] at ends
  obtain ⟨round, room⟩ := Stand.advance_eq_inr_ok ends
  cases round with
  | idle | ended | asked =>
    have failed : turn.failure.isSome := failed
    simp [ready] at failed
  | failed machine world message frames known member activity fails =>
    have room : entered < limit := room _ (by rw [Stand.upcoming?_step frames, known]; rfl)
    obtain ⟨budget, left⟩ : ∃ budget, limit - entered = budget + 1 :=
      ⟨limit - entered - 1, by omega⟩
    refine ⟨by omega, _, _, _, _, _, budget, atAction_entering named known member activity, ?_, rfl,
      rfl⟩
    rw [← run_walk_step backend frames known member, ← left]
    exact lasts

end Colloquy
