import Colloquy.Proofs.Turn.Costs

/-!
Going through flows as a loop. In each round either a step is entered, which counts, or a flow comes
to its end, which does not. Without a budget the loop may go on for ever; with one it ends, since a
round that does not count leaves fewer flows, and `TurnM.walk` gives what it ends in.
-/

set_option autoImplicit false

namespace Colloquy

open Colloquy.Graph (Activity Node Target)

variable {σ : Type}

namespace TurnM

/-- A flow comes to its end; gives what its caller goes on to, none if no flow is left. -/
def finish (l : Library) (top : Frame) : List Frame → TurnM σ (Option Target)
  | [] => do
    checkEnd l top
    note .ended
    setFrames []
    return none
  | caller :: below => do
    checkEnd l top
    note (.returned · caller.invocation)
    let caller := caller.wake
    setFrames (caller :: below)
    match caller.step with
    | some step => return some (← leave l caller step)
    | none => return some (← ofExcept id (l.graph caller.flow)).entry

/-- A round of the loop that has come to a target; gives what comes next, none if the turn stops. -/
def round (l : Library) (backend : Backend σ) (target : Target) : TurnM σ (Option Target) := do
  match (← get).stack.frames with
  | [] => return none
  | top :: below =>
    match target with
    | .finish => finish l top below
    | .step index =>
      let graph ← ofExcept id (l.graph top.flow)
      match graph.nodes[index]? with
      | none => throw (.missingStep top.flow (toString index))
      | some node => enter l backend node

end TurnM

/-- Where the loop stands before a round. -/
structure Stand (σ : Type) where
  turn : Turn σ
  target : Target
  /-- How many steps have been entered so far. -/
  entered : Nat

namespace Stand

def cost (s : Stand σ) : Nat :=
  match s.target with
  | .finish => 0
  | .step _ => 1

def upcoming? (l : Library) (s : Stand σ) : Option String :=
  match s.target, s.turn.stack.top? with
  | .step _, some top => (l.get? top.flow).map fun _ => top.flow
  | _, _ => none

/-- The loop, without a budget, goes on from one stand to another. -/
def Goes (l : Library) (backend : Backend σ) (s s' : Stand σ) : Prop :=
  s.turn.run (TurnM.round l backend s.target) = (.ok (some s'.target), s'.turn) ∧
    s'.entered = s.entered + s.cost

/-- A round within a budget: where the loop stands after it, or how the loop ends. Once the budget
is spent no step is entered. -/
def advance (l : Library) (backend : Backend σ) (limit : Nat) (s : Stand σ) :
    Stand σ ⊕ (Except TurnError Unit × Turn σ) :=
  match (s.upcoming? l).filter fun _ => limit ≤ s.entered with
  | some flow => .inr (.error (.stepLimit flow limit), s.turn)
  | none =>
    match s.turn.run (TurnM.round l backend s.target) with
    | (.ok (some target), turn) => .inl ⟨turn, target, s.entered + s.cost⟩
    | (.ok none, turn) => .inr (.ok (), turn)
    | (.error e, turn) => .inr (.error e, turn)

end Stand

variable {l : Library} {backend : Backend σ} {t t' : Turn σ} {top caller : Frame}
  {below : List Frame} {target : Target}

namespace TurnM

theorem land_finish (l : Library) (top caller : Frame) (below : List Frame) :
    (land l top (caller :: below) .finish : TurnM σ _) = do
      match ← finish l top (caller :: below) with
      | some target => land l caller.wake below target
      | none => return none := by
  rw [land, finish]
  simp only [bind_assoc]
  cases caller.wake.step <;> simp only [bind_assoc, pure_bind]

end TurnM

namespace Turn

theorem stack_of_leave {step : String} (left : t.run (TurnM.leave l top step) = (.ok target, t')) :
    t'.stack = t.stack := by
  obtain ⟨_, _, found, rest⟩ := run_bind_eq_ok left
  obtain ⟨-, rfl⟩ := run_ofExcept_eq_ok found
  cases rest
  rfl

theorem frames_of_finish {next : Option Target}
    (ends : t.run (TurnM.finish l top (caller :: below)) = (.ok next, t')) :
    next.isSome ∧ t'.stack.frames = caller.wake :: below := by
  obtain ⟨_, t₁, -, ends⟩ := run_bind_eq_ok ends
  obtain ⟨_, t₂, -, ends⟩ := run_bind_eq_ok ends
  obtain ⟨_, t₃, woken, ends⟩ := run_bind_eq_ok ends
  cases woken
  dsimp only at ends
  split at ends
  · obtain ⟨target, _, left, ends⟩ := run_bind_eq_ok ends
    cases ends
    exact ⟨rfl, congrArg Stack.frames (stack_of_leave left)⟩
  · obtain ⟨graph, _, found, ends⟩ := run_bind_eq_ok ends
    obtain ⟨-, rfl⟩ := run_ofExcept_eq_ok found
    cases ends
    exact ⟨rfl, rfl⟩

/-- Arriving somewhere from the end of a flow takes a round first. -/
theorem run_arrive_finish (backend : Backend σ) (t : Turn σ) :
    t.run (TurnM.arrive l .finish) =
      match t.run (TurnM.round l backend .finish) with
      | (.ok (some target), t') => t'.run (TurnM.arrive l target)
      | (.ok none, t') => (.ok none, t')
      | (.error e, t') => (.error e, t') := by
  rw [TurnM.arrive, TurnM.round, run_bind_ok run_get, run_bind_ok run_get]
  rcases frames : t.stack.frames with _ | ⟨top, _ | ⟨caller, below⟩⟩
  · rfl
  · dsimp only
    rw [TurnM.land, TurnM.finish, bind_assoc, run_bind, run_bind]
    rcases t.run (TurnM.checkEnd l top) with ⟨_ | _, t'⟩ <;> rfl
  · dsimp only
    rw [TurnM.land_finish, bind_assoc, run_bind]
    cases ran : t.run (TurnM.finish l top (caller :: below)) with
    | mk result t' =>
      cases result with
      | error e => rfl
      | ok next =>
        obtain ⟨goesOn, frames'⟩ := frames_of_finish ran
        obtain ⟨target, rfl⟩ := Option.isSome_iff_exists.1 goesOn
        dsimp only
        rw [TurnM.arrive, run_bind_ok run_get, frames']

theorem run_arrive_step (frames : t.stack.frames = top :: below) (index : Nat) :
    t.run (TurnM.arrive l (.step index)) =
      match l.get? top.flow with
      | some graph => (.ok (some (top.flow, graph, index)), t)
      | none => (.error (.unknownFlow top.flow), t) := by
  have landed : (TurnM.land l top below (.step index) : TurnM σ _) = pure (some index) := by
    cases below <;> rfl
  rw [TurnM.arrive, run_bind_ok run_get, frames]
  dsimp only
  rw [landed, pure_bind]
  dsimp only
  rw [run_bind_ok run_get, top?_eq frames, Option.elim_some, Library.graph]
  cases l.get? top.flow <;> rfl

theorem run_round_step (frames : t.stack.frames = top :: below) (index : Nat) :
    t.run (TurnM.round l backend (.step index)) =
      match l.get? top.flow with
      | some graph =>
        match graph.nodes[index]? with
        | some node => t.run (TurnM.enter l backend node)
        | none => (.error (.missingStep top.flow (toString index)), t)
      | none => (.error (.unknownFlow top.flow), t) := by
  rw [TurnM.round, run_bind_ok run_get, frames]
  dsimp only
  rw [Library.graph]
  cases l.get? top.flow with
  | none => rfl
  | some graph =>
    dsimp only
    rw [run_bind_ok (run_ofExcept_ok id graph)]
    cases graph.nodes[index]? <;> rfl

theorem depth_of_round_finish {next : Target}
    (goes : t.run (TurnM.round l backend .finish) = (.ok (some next), t')) :
    t'.stack.depth < t.stack.depth := by
  rw [TurnM.round, run_bind_ok run_get] at goes
  rcases frames : t.stack.frames with _ | ⟨top, _ | ⟨caller, below⟩⟩ <;> rw [frames] at goes
  · cases goes
  · obtain ⟨_, _, -, rest⟩ := run_bind_eq_ok goes
    cases rest
  · obtain ⟨-, frames'⟩ := frames_of_finish goes
    simp [Stack.depth, frames, frames']

end Turn

namespace Stand

variable {s s' : Stand σ} {limit : Nat}

theorem upcoming?_step {turn : Turn σ} (frames : turn.stack.frames = top :: below)
    (index entered : Nat) :
    upcoming? l ⟨turn, .step index, entered⟩ = (l.get? top.flow).map fun _ => top.flow := by
  simp only [upcoming?, Turn.top?_eq frames]

theorem upcoming?_nil (empty : s.turn.stack.frames = []) : s.upcoming? l = none := by
  simp only [upcoming?, Stack.top?, empty, List.head?_nil]
  cases s.target <;> rfl

theorem upcoming_of_goes (goes : s.Goes l backend s') (counts : s.cost ≠ 0) :
    ∃ flow, s.upcoming? l = some flow := by
  obtain ⟨turn, target, entered⟩ := s
  obtain ⟨ran, -⟩ := goes
  cases target with
  | finish => exact absurd rfl counts
  | step index =>
    cases frames : turn.stack.frames with
    | nil =>
      rw [TurnM.round, Turn.run_bind_ok Turn.run_get, frames] at ran
      cases ran
    | cons top below =>
      rw [Turn.run_round_step frames] at ran
      rw [upcoming?_step frames]
      cases known : l.get? top.flow with
      | none =>
        rw [known] at ran
        cases ran
      | some graph => exact ⟨top.flow, rfl⟩

theorem advance_eq_inl :
    s.advance l backend limit = .inl s' ↔
      s.Goes l backend s' ∧ (s.cost = 0 ∨ s.entered < limit) := by
  constructor
  · intro goesOn
    unfold advance at goesOn
    split at goesOn
    · cases goesOn
    · next unspent =>
      split at goesOn
      · next ran =>
        cases goesOn
        have goes : s.Goes l backend ⟨_, _, s.entered + s.cost⟩ := ⟨ran, rfl⟩
        refine ⟨goes, ?_⟩
        by_contra counts
        obtain ⟨counts, spent⟩ := not_or.1 counts
        obtain ⟨flow, upcoming⟩ := upcoming_of_goes goes counts
        simp [upcoming, Nat.not_lt.1 spent] at unspent
      · cases goesOn
      · cases goesOn
  · rintro ⟨⟨ran, entered⟩, within⟩
    have unspent : ((s.upcoming? l).filter fun _ => limit ≤ s.entered) = none := by
      rcases within with free | room
      · have none : s.upcoming? l = none := by
          cases target : s.target with
          | finish => simp [upcoming?, target]
          | step index => simp [cost, target] at free
        rw [none]
        rfl
      · simp [Nat.not_le.2 room]
    rw [advance, unspent]
    simp only [ran, ← entered]

/-- With a budget the loop does not go on for ever. -/
theorem wellFounded_advance (l : Library) (backend : Backend σ) (limit : Nat) :
    WellFounded fun next s : Stand σ => s.advance l backend limit = .inl next := by
  have lex : WellFounded (Prod.Lex (· < ·) (· < ·) : Nat × Nat → Nat × Nat → Prop) :=
    WellFounded.prod_lex Nat.lt_wfRel.wf Nat.lt_wfRel.wf
  refine Subrelation.wf ?_ (InvImage.wf (fun s => (limit - s.entered, s.turn.stack.depth)) lex)
  intro next s goesOn
  obtain ⟨⟨ran, entered⟩, within⟩ := advance_eq_inl.1 goesOn
  cases target : s.target with
  | finish =>
    rw [target] at ran
    have same : next.entered = s.entered := by simpa [cost, target] using entered
    have fewer := Turn.depth_of_round_finish ran
    simp only [InvImage, same]
    exact .right _ fewer
  | step index =>
    have more : next.entered = s.entered + 1 := by simpa [cost, target] using entered
    have room : s.entered < limit := by simpa [cost, target] using within
    exact .left _ _ (by omega)

end Stand

namespace TurnM

def walkFromStep (l : Library) (backend : Backend σ) (limit : Nat) :
    Nat → Option (String × Graph × Nat) → TurnM σ Unit
  | _, none => return
  | 0, some (flow, _, _) => throw (.stepLimit flow limit)
  | budget + 1, some (flow, graph, index) =>
    match graph.nodes[index]? with
    | none => throw (.missingStep flow (toString index))
    | some node => do
      match ← enter l backend node with
      | none => return
      | some target => walk l backend limit budget target

theorem walk_eq (limit budget : Nat) (target : Target) :
    walk l backend limit budget target =
      arrive l target >>= walkFromStep l backend limit budget := by
  cases budget <;> exact bind_congr fun next => by cases next <;> rfl

end TurnM

namespace Stand

variable {s s' : Stand σ} {limit : Nat}

/-- What the walk gives from a stand, with what is left of the budget. -/
def walked (l : Library) (backend : Backend σ) (limit : Nat) (s : Stand σ) :
    Except TurnError Unit × Turn σ :=
  s.turn.run (TurnM.walk l backend limit (limit - s.entered) s.target)

theorem walked_finish (turn : Turn σ) (entered : Nat) :
    walked l backend limit ⟨turn, .finish, entered⟩ =
      Sum.elim (walked l backend limit) id (advance l backend limit ⟨turn, .finish, entered⟩) := by
  rw [walked, TurnM.walk_eq, Turn.run_bind, Turn.run_arrive_finish backend, advance]
  simp only [upcoming?, Option.filter_none]
  rcases turn.run (TurnM.round l backend .finish) with ⟨_ | _ | target, turn'⟩
  · rfl
  · dsimp only
    cases limit - entered <;> rfl
  · dsimp only
    rw [Sum.elim_inl, walked, TurnM.walk_eq, Turn.run_bind]
    rfl

theorem walked_step (turn : Turn σ) (index entered : Nat) :
    walked l backend limit ⟨turn, .step index, entered⟩ =
      Sum.elim (walked l backend limit) id
        (advance l backend limit ⟨turn, .step index, entered⟩) := by
  rw [walked, TurnM.walk_eq, Turn.run_bind, advance]
  dsimp only
  cases frames : turn.stack.frames with
  | nil =>
    rw [upcoming?_nil frames, TurnM.arrive, TurnM.round, Turn.run_bind_ok Turn.run_get,
      Turn.run_bind_ok Turn.run_get, frames]
    cases limit - entered <;> rfl
  | cons top below =>
    rw [upcoming?_step frames, Turn.run_arrive_step frames, Turn.run_round_step frames]
    cases known : l.get? top.flow with
    | none => rfl
    | some graph =>
      by_cases spent : limit ≤ entered
      · rw [Nat.sub_eq_zero_of_le spent]
        simp only [Option.map_some, Option.filter_some, decide_eq_true spent, if_true]
        rfl
      · have budget : limit - entered = limit - (entered + 1) + 1 := by omega
        rw [budget]
        simp only [Option.map_some, Option.filter_some, decide_eq_false spent]
        cases member : graph.nodes[index]? with
        | none =>
          simp only [TurnM.walkFromStep, member]
          rfl
        | some node =>
          simp only [TurnM.walkFromStep, member]
          rw [Turn.run_bind]
          rcases turn.run (TurnM.enter l backend node) with ⟨_ | _ | _, _⟩ <;> rfl

/-- The walk does what a round does, and then what it does from there. -/
theorem walked_eq (l : Library) (backend : Backend σ) (limit : Nat) (s : Stand σ) :
    s.walked l backend limit =
      Sum.elim (walked l backend limit) id (s.advance l backend limit) := by
  obtain ⟨turn, target, entered⟩ := s
  cases target with
  | finish => exact walked_finish turn entered
  | step index => exact walked_step turn index entered

theorem entered_of_advance (goesOn : s.advance l backend limit = .inl s')
    (within : s.entered ≤ limit) : s'.entered ≤ limit := by
  obtain ⟨⟨-, entered⟩, free | room⟩ := advance_eq_inl.1 goesOn
  · omega
  · have cost : s.cost ≤ 1 := by
      unfold cost
      split <;> omega
    omega

theorem exists_last (l : Library) (backend : Backend σ) (limit : Nat) (s : Stand σ)
    (within : s.entered ≤ limit) :
    ∃ last, Relation.ReflTransGen (fun s next => s.advance l backend limit = .inl next) s last ∧
      last.advance l backend limit = .inr (s.walked l backend limit) ∧ last.entered ≤ limit := by
  induction s using (wellFounded_advance l backend limit).induction with
  | _ s ih =>
    have same := walked_eq l backend limit s
    cases advanced : s.advance l backend limit with
    | inl next =>
      obtain ⟨last, rounds, ends, within⟩ := ih next advanced (entered_of_advance advanced within)
      rw [advanced] at same
      refine ⟨last, .head advanced rounds, ?_, within⟩
      rw [ends, same]
      rfl
    | inr ending =>
      rw [advanced] at same
      exact ⟨s, .refl, by rw [advanced, same]; rfl, within⟩

end Stand

namespace TurnM

theorem Steady.finish {P : (α : Type) → TurnM σ α → Prop} (steady : Steady l backend P) (top : Frame)
    (below : List Frame) : P (Option Target) (TurnM.finish l top below) := by
  cases below with
  | nil =>
    exact steady.next (steady.checkEnd top) (steady.next (steady.note fun _ => rfl)
      (steady.next (steady.setFrames _) (steady.pure _)))
  | cons caller below =>
    refine steady.next (steady.checkEnd top) (steady.next (steady.note fun _ => rfl)
      (steady.next (steady.setFrames _) ?_))
    split
    · exact steady.bind (steady.leave _ _) fun _ _ => steady.pure _
    · exact steady.ofExcept (fun _ => Library.isLimit_of_graph) fun _ _ => steady.pure _

theorem costs_round {p : Event → Bool} (work : ∀ e, p e = true → e.isWork = true)
    (entering : ∀ node, Costs p 1 (enter l backend node)) (target : Target) :
    Costs p 1 (round l backend target) := by
  have steady : Steady l backend fun _ => Costs p 0 := .of_costs l backend work
  refine .get fun t => ?_
  split
  · exact (Costs.pure _).mono (Nat.zero_le 1)
  · split
    · exact (steady.finish _ _).mono (Nat.zero_le 1)
    · refine .after (.ofExcept fun _ => Library.isLimit_of_graph) fun graph => ?_
      split
      · exact (Costs.throw rfl).mono (Nat.zero_le 1)
      · exact entering _

end TurnM

namespace Stand

variable {s s' : Stand σ} {limit : Nat}

theorem entered_of_goes (goes : s.Goes l backend s') :
    s'.turn.trail.countP Event.isEntered =
      s.turn.trail.countP Event.isEntered + s.cost := by
  obtain ⟨turn, target, entered⟩ := s
  obtain ⟨ran, -⟩ := goes
  dsimp only at ran ⊢
  have costless : ∀ e, Event.isEntered e = true → e.isWork = true := fun _ =>
    Event.isWork_of_isEntered
  cases frames : turn.stack.frames with
  | nil =>
    rw [TurnM.round, Turn.run_bind_ok Turn.run_get, frames] at ran
    cases ran
  | cons top below =>
    cases target with
    | finish =>
      have costs : TurnM.Costs Event.isEntered 0 (TurnM.finish l top below : TurnM σ _) :=
        (TurnM.Steady.of_costs l backend costless).finish top below
      rw [TurnM.round, Turn.run_bind_ok Turn.run_get, frames] at ran
      have count := costs.adds.count_eq turn
      rw [ran] at count
      exact count
    | step index =>
      rw [Turn.run_round_step frames] at ran
      split at ran
      · split at ran
        · next node _ =>
          have costs : TurnM.Costs Event.isEntered 0 (TurnM.execute l backend node) :=
            .execute costless node fun _ _ _ _ => Nat.le_refl 0
          rw [Turn.run_enter frames] at ran
          have count := congrArg (·.2.trail.countP Event.isEntered) ran
          dsimp only at count
          rw [← count, costs.adds.count_eq]
          simp [Turn.onto, Event.isEntered, cost]
        · cases ran
      · cases ran

/-- The loop comes to stand before a step, of the flow, after having entered `n` steps. -/
def Exceeds (l : Library) (backend : Backend σ) (start : Stand σ) (n : Nat) (flow : String) : Prop :=
  ∃ s, Relation.ReflTransGen (Goes l backend) start s ∧ s.entered = n ∧ s.upcoming? l = some flow

theorem entered_le (goes : Relation.ReflTransGen (Goes l backend) s s') : s.entered ≤ s'.entered := by
  induction goes with
  | refl => exact Nat.le_refl _
  | tail _ last ih => exact ih.trans (last.2 ▸ Nat.le_add_right _ _)

theorem entered_of_all (goes : Relation.ReflTransGen (Goes l backend) s s') :
    s'.turn.trail.countP Event.isEntered + s.entered =
      s.turn.trail.countP Event.isEntered + s'.entered := by
  induction goes with
  | refl => rfl
  | tail _ last ih =>
    have count := entered_of_goes last
    have entered := last.2
    omega

theorem advances_of_goes (goes : Relation.ReflTransGen (Goes l backend) s s')
    (within : s'.entered ≤ limit) :
    Relation.ReflTransGen (fun s next => s.advance l backend limit = .inl next) s s' := by
  induction goes using Relation.ReflTransGen.head_induction_on with
  | refl => exact .refl
  | @head s next first rest ih =>
    refine .head (advance_eq_inl.2 ⟨first, ?_⟩) ih
    have le := (entered_le rest).trans within
    have entered := first.2
    omega

theorem goes_of_advances
    (advances : Relation.ReflTransGen (fun s next => s.advance l backend limit = .inl next) s s') :
    Relation.ReflTransGen (Goes l backend) s s' :=
  Relation.ReflTransGen.mono (fun _ _ goesOn => (advance_eq_inl.1 goesOn).1) _ _ advances

theorem walked_of_advances
    (advances : Relation.ReflTransGen (fun s next => s.advance l backend limit = .inl next) s s') :
    s.walked l backend limit = s'.walked l backend limit := by
  induction advances with
  | refl => rfl
  | tail _ last ih => rw [ih, walked_eq, last, Sum.elim_inl]

theorem advance_spent {flow : String} (upcoming : s.upcoming? l = some flow)
    (spent : s.entered = limit) :
    s.advance l backend limit = .inr (.error (.stepLimit flow limit), s.turn) := by
  rw [advance, upcoming, Option.filter_some, if_pos (decide_eq_true spent.ge)]

/-- The budget is exceeded just if one step more would be entered without it. -/
theorem walked_limit_iff (within : s.entered ≤ limit) {flow : String} {limit' : Nat} :
    (s.walked l backend limit).1 = .error (.stepLimit flow limit') ↔
      limit' = limit ∧ s.Exceeds l backend limit flow := by
  constructor
  · intro fails
    obtain ⟨last, rounds, ends, within⟩ := exists_last l backend limit s within
    unfold advance at ends
    split at ends
    · next flow' spent =>
      rw [← Sum.inr.inj ends] at fails
      cases fails
      obtain ⟨upcoming, spent⟩ := Option.filter_eq_some_iff.1 spent
      exact ⟨rfl, last, goes_of_advances rounds, le_antisymm within (of_decide_eq_true spent),
        upcoming⟩
    · split at ends
      · cases ends
      · rw [← Sum.inr.inj ends] at fails
        cases fails
      · next e turn ran =>
        rw [← Sum.inr.inj ends] at fails
        cases fails
        have costs : TurnM.Costs Event.isEntered 1 (TurnM.round l backend last.target) :=
          TurnM.costs_round (fun _ => Event.isWork_of_isEntered) TurnM.costs_entered _
        have free := costs.free last.turn _ (congrArg Prod.fst ran)
        cases free
  · rintro ⟨rfl, s', goes, entered, upcoming⟩
    rw [walked_of_advances (advances_of_goes goes entered.le), walked_eq,
      advance_spent upcoming entered]
    rfl

theorem advance_mono {ending : Except TurnError Unit × Turn σ} {limit' : Nat} (le : limit ≤ limit')
    (ends : s.advance l backend limit = .inr ending)
    (enough : ∀ e, ending.1 = .error e → e.isLimit = false) :
    s.advance l backend limit' = .inr ending := by
  unfold advance at ends
  split at ends
  · cases ends
    cases enough _ rfl
  · next unspent =>
    have room : ((s.upcoming? l).filter fun _ => limit' ≤ s.entered) = none := by
      rw [Option.filter_eq_none_iff] at unspent ⊢
      exact fun flow upcoming spent => unspent flow upcoming
        (decide_eq_true (le.trans (of_decide_eq_true spent)))
    rw [advance, room]
    exact ends

theorem walked_mono {limit' : Nat} (le : limit ≤ limit') (within : s.entered ≤ limit)
    (enough : ∀ e, (s.walked l backend limit).1 = .error e → e.isLimit = false) :
    s.walked l backend limit' = s.walked l backend limit := by
  obtain ⟨last, rounds, ends, within⟩ := exists_last l backend limit s within
  have rounds := advances_of_goes (goes_of_advances rounds) (within.trans le)
  rw [walked_of_advances rounds, walked_eq, advance_mono le ends enough]
  rfl

end Stand

end Colloquy
