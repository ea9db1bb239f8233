import Colloquy.Proofs.State.Stance
import Colloquy.Session.Decision

/-! From a decision back to what it was made for. -/

set_option autoImplicit false

namespace Colloquy

def MessageKind.isAside : MessageKind → Bool
  | digression | clarification | question => true
  | _ => false

def Decision.depth? : Decision → Option Nat
  | digress depth | digressionLimit depth => some depth
  | _ => none

namespace Decision

variable {limit : Nat} {current : Option Graph.Node} {r : Reading} {s s' : State} {flow : String}

theorem frames_of_activeFlow? : s.activeFlow? = none ↔ s.stack.frames = [] := by
  cases frames : s.stack.frames <;> simp [State.activeFlow?, Stack.top?, frames]

/-- What was the case when a decision was made, as far as it begins or leaves a flow. -/
structure Suits (r : Reading) (s : State) (d : Decision) : Prop where
  begins : ∀ flow, d = .startFlow flow → s.stack.frames = []
  proposes : ∀ flow, d = .proposeChange flow → s.stack.frames ≠ []
  answers : ∀ accepted, d = .answerChange accepted →
    r.kind = .confirmation ∧ r.polarity? = some accepted
  asked : ∀ accepted, d = .answerChange accepted → s.pending.isSome
  confirms : ∀ affirmed, d = .answer affirmed →
    r.kind = .confirmation ∧ r.polarity? = some affirmed

def isPlain : Decision → Bool
  | .startFlow _ | .proposeChange _ | .answerChange _ | .answer _ => false
  | _ => true

theorem Suits.of_isPlain {d : Decision} (plain : d.isPlain = true) : Suits r s d := by
  constructor
  all_goals
    rintro _ rfl
    cases plain

theorem Suits.of_startFlow (empty : s.stack.frames = []) : Suits r s (.startFlow flow) :=
  ⟨fun _ _ => empty, by simp, by simp, by simp, by simp⟩

theorem Suits.of_proposeChange (remain : s.stack.frames ≠ []) : Suits r s (.proposeChange flow) :=
  ⟨by simp, fun _ _ => remain, by simp, by simp, by simp⟩

theorem ordinary_suits (r : Reading) (s : State) : Suits r s (ordinary r s) := by
  unfold ordinary
  split
  · exact .of_isPlain rfl
  · split
    · split
      · next empty => exact .of_startFlow (by simpa [Stack.isEmpty] using empty)
      · exact .of_isPlain rfl
    · exact .of_isPlain rfl

theorem forFlow_suits (r : Reading) (s : State) (flow : String) : Suits r s (forFlow s flow) := by
  unfold forFlow
  split
  · next idle => exact .of_startFlow (frames_of_activeFlow?.1 idle)
  · next active running =>
    split
    · exact .of_isPlain rfl
    · apply Suits.of_proposeChange
      intro empty
      rw [frames_of_activeFlow?.2 empty] at running
      cases running

theorem route_suits (limit : Nat) (current : Option Graph.Node) (r : Reading) (s : State) :
    Suits r s (route limit current r s) := by
  unfold route
  cases kind : r.kind with
  | cancellation | unrecognized => exact .of_isPlain rfl
  | continuation => exact ordinary_suits r s
  | correction | modification =>
    dsimp only
    split
    · exact ordinary_suits r s
    · split <;> exact .of_isPlain rfl
  | digression | clarification | question =>
    dsimp only
    split <;> exact .of_isPlain rfl
  | intentChange =>
    cases r.command with
    | none => exact ordinary_suits r s
    | some flow => exact forFlow_suits r s flow
  | confirmation =>
    dsimp only
    cases polarity : r.polarity? with
    | none =>
      split
      · exact .of_isPlain rfl
      · split
        · exact .of_isPlain rfl
        · exact ordinary_suits r s
    | some affirmed =>
      -- of a yes or no it is only asked which question it answers
      split
      next asked =>
        refine ⟨by simp, by simp, ?_, fun _ _ => asked, by simp⟩
        intro accepted same
        cases same
        exact ⟨kind, polarity⟩
      next =>
        split
        · refine ⟨by simp, by simp, by simp, by simp, ?_⟩
          intro affirmed same
          cases same
          exact ⟨kind, polarity⟩
        · exact ordinary_suits r s

theorem route_of_isAside (limit : Nat) (current : Option Graph.Node) (s : State)
    (aside : r.kind.isAside = true) :
    ∃ depth, (s.digressions ≤ limit → depth ≤ limit) ∧
      (route limit current r s = .digress depth ∨
        route limit current r s = .digressionLimit depth) := by
  have routes : route limit current r s =
      if s.digressions < limit then .digress (s.digressions + 1)
      else .digressionLimit s.digressions := by
    unfold route
    cases kind : r.kind with
    | digression | clarification | question => rfl
    | _ => simp [kind, MessageKind.isAside] at aside
  rw [routes]
  split
  · next below => exact ⟨_, fun _ => below, .inl rfl⟩
  · exact ⟨_, id, .inr rfl⟩

theorem depth?_ordinary (r : Reading) (s : State) : (ordinary r s).depth? = none := by
  unfold ordinary
  split
  · rfl
  · split
    · split <;> rfl
    · rfl

theorem depth?_of_not_isAside (loud : ¬ r.kind.isAside = true) :
    (route limit current r s).depth? = none := by
  unfold route
  cases kind : r.kind with
  | digression | clarification | question => simp [kind, MessageKind.isAside] at loud
  | cancellation | unrecognized => rfl
  | continuation => exact depth?_ordinary r s
  | correction | modification =>
    dsimp only
    split
    · exact depth?_ordinary r s
    · split <;> rfl
  | intentChange =>
    cases r.command with
    | none => exact depth?_ordinary r s
    | some flow =>
      simp only [Option.elim_some, forFlow]
      split
      · rfl
      · split <;> rfl
  | confirmation =>
    dsimp only
    split
    · cases r.polarity? <;> rfl
    · split
      · cases r.polarity? <;> rfl
      · exact depth?_ordinary r s

theorem depth?_route_le (bounded : s.digressions ≤ limit) :
    ∀ depth ∈ (route limit current r s).depth?, depth ≤ limit := by
  intro depth found
  by_cases aside : r.kind.isAside = true
  · obtain ⟨depth', below, routed | routed⟩ := route_of_isAside limit current s aside
    all_goals
      rw [routed] at found
      cases found
      exact below bounded
  · rw [depth?_of_not_isAside aside] at found
    cases found

/-- How a message is routed that comes while a flow runs and a change of flow is open. -/
theorem route_of_pending {active : String} (open' : s.pending.isSome)
    (running : s.activeFlow? = some active) :
    route limit current r s =
      match r.kind with
      | .cancellation => .cancel
      | .correction | .modification => if r.slots.isEmpty then .reprompt else .revise r.slots
      | .confirmation => (r.polarity?).elim .reprompt .answerChange
      | .digression | .clarification | .question =>
        if s.digressions < limit then .digress (s.digressions + 1)
        else .digressionLimit s.digressions
      | .intentChange =>
        match r.command with
        | none => .reprompt
        | some flow => if active = flow then .proceed else .proposeChange flow
      | .unrecognized => .proceed
      | .continuation => .reprompt := by
  have remain : s.stack.isEmpty = false := by
    cases frames : s.stack.frames with
    | nil => simp [State.activeFlow?, Stack.top?, frames] at running
    | cons top below => simp [Stack.isEmpty, frames]
  have usual : ordinary r s = .reprompt := if_pos open'
  unfold route
  cases r.kind with
  | correction | modification => simp only [remain, Bool.false_eq_true, if_false]
  | confirmation => simp only [open', if_true]
  | intentChange => cases r.command <;> simp only [Option.elim, forFlow, running, usual]
  | continuation => exact usual
  | _ => rfl

/-- Apart from digressions, how a message is routed depends on the stance only. -/
theorem route_eq_of_stance (loud : ¬ r.kind.isAside = true) (same : s.stance = s'.stance) :
    route limit current r s = route limit current r s' := by
  obtain ⟨-, stack, -, pending⟩ := State.stance_eq_iff.1 same
  have usual : ordinary r s = ordinary r s' := by simp only [ordinary, stack, pending]
  have change (flow : String) : forFlow s flow = forFlow s' flow := by
    simp only [forFlow, State.activeFlow?, stack]
  unfold route
  cases kind : r.kind with
  | digression | clarification | question => simp [kind, MessageKind.isAside] at loud
  | intentChange => cases r.command <;> simp only [Option.elim, usual, change]
  | _ => simp only [stack, pending, usual]

end Decision

end Colloquy
