import Colloquy.Proofs.Session.Script
import Colloquy.Proofs.Session.Settling
import Colloquy.Proofs.Turn.Rounds

/-!
The budget of steps is a guard and nothing else. It ends a loop that would go on for ever, and of a
call that stays within it nothing depends on how large it is.
-/

set_option autoImplicit false

namespace Colloquy

open Colloquy.Graph (Target)

variable {σ : Type}

def Engine.within (engine : Engine σ) (limit : Nat) : Engine σ :=
  { engine with settings := { engine.settings with maxSteps := limit } }

section

variable (engine : Engine σ) (limit : Nat)

@[simp] theorem Engine.within_registry : (engine.within limit).registry = engine.registry := rfl

@[simp] theorem Engine.within_backend : (engine.within limit).backend = engine.backend := rfl

@[simp] theorem Engine.within_maxDigressions :
    (engine.within limit).settings.maxDigressions = engine.settings.maxDigressions := rfl

@[simp] theorem Engine.within_maxSteps : (engine.within limit).settings.maxSteps = limit := rfl

end

namespace Library

variable {l : Library} {stack : Stack} {e : TurnError}

theorem isLimit_of_currentNode (fails : l.currentNode stack = .error e) : e.isLimit = false := by
  unfold currentNode at fails
  split at fails
  · cases fails
  · rcases bind_eq_error.1 fails with unknown | ⟨graph, -, rest⟩
    · exact isLimit_of_graph unknown
    · cases rest

theorem isLimit_of_resting {pending : Option String} (fails : l.resting stack pending = .error e) :
    e.isLimit = false := by
  rcases bind_eq_error.1 fails with unknown | ⟨node, -, rest⟩
  · exact isLimit_of_currentNode unknown
  · dsimp only at rest
    split at rest
    · cases rest
    · split at rest <;> cases rest

end Library

namespace Turn

variable {t : Turn σ} {l : Library} {before : State} {r : Reading} {d : Decision} {e : TurnError}

theorem isLimit_of_resting (fails : t.resting l before d = .error e) : e.isLimit = false := by
  unfold resting at fails
  split at fails
  · cases fails
  · split at fails
    case h_4 => exact Library.isLimit_of_resting fails
    all_goals
      split at fails
      · cases fails
      · exact Library.isLimit_of_resting fails

theorem isLimit_of_commit {render : Message → String}
    (fails : (t.commit l render before r d).1 = .error e) : e.isLimit = false := by
  unfold commit at fails
  split at fails
  · next unplaced =>
    cases fails
    exact isLimit_of_resting unplaced
  · split at fails
    · cases fails
      rfl
    · dsimp only at fails
      split at fails <;> cases fails
      rfl

end Turn

namespace TurnM

/-- The steps, whatever the budget, come to begin the loop at a stand. -/
def Begins (l : Library) (backend : Backend σ) (steps : Nat → TurnM σ Unit) (t : Turn σ)
    (start : Stand σ) : Prop :=
  start.entered = 0 ∧
    ∀ limit, t.run (steps limit) = start.turn.run (walk l backend limit limit start.target)

end TurnM

/-- What a budget has to do with an outcome, the work for which begins the loop at a stand or not at
all. It bounds the work, and is exceeded just if one step more would be entered; nothing else
depends on it. -/
structure Guarded {α β : Type} (l : Library) (backend : Backend σ) (begun : Option (Stand σ))
    (result : β → Except TurnError α) (trail : β → List Event) (outcome : Nat → β) : Prop where
  entered (limit : Nat) : (trail (outcome limit)).countP Event.isEntered ≤ limit
  acted (limit : Nat) : (trail (outcome limit)).countP Event.isActed ≤ limit
  limited (limit : Nat) (flow : String) (limit' : Nat) :
    result (outcome limit) = .error (.stepLimit flow limit') ↔
      limit' = limit ∧ ∃ start ∈ begun, start.Exceeds l backend limit flow
  enough {limit limit' : Nat} : limit ≤ limit' →
    (∀ flow n, result (outcome limit) ≠ .error (.stepLimit flow n)) →
      outcome limit' = outcome limit

namespace Guarded

variable {α β γ δ : Type} {l : Library} {backend : Backend σ} {result : β → Except TurnError α}
  {trail : β → List Event} {result' : γ → Except TurnError δ} {trail' : γ → List Event}

theorem idle {b : β} (quiet : (trail b).countP Event.isWork = 0)
    (free : ∀ e, result b = .error e → e.isLimit = false) :
    Guarded l backend none result trail fun _ => b where
  entered limit := by
    have le := List.countP_mono_left (l := trail b) fun e _ => Event.isWork_of_isEntered (e := e)
    omega
  acted limit := by
    have le := List.countP_mono_left (l := trail b) fun e _ => Event.isWork_of_isActed (e := e)
    omega
  limited limit flow limit' := by
    refine ⟨fun limited => ?_, by simp⟩
    cases free _ limited
  enough _ _ := rfl

theorem map {begun : Option (Stand σ)} {outcome : Nat → β}
    (guarded : Guarded l backend begun result trail outcome) (f : β → γ)
    (results : ∀ b flow n, result' (f b) = .error (.stepLimit flow n) ↔
      result b = .error (.stepLimit flow n))
    (trails : ∀ b, trail' (f b) = trail b) :
    Guarded l backend begun result' trail' fun limit => f (outcome limit) where
  entered limit := by rw [trails]; exact guarded.entered limit
  acted limit := by rw [trails]; exact guarded.acted limit
  limited limit flow limit' := (results _ _ _).trans (guarded.limited limit flow limit')
  enough le free := by
    rw [guarded.enough le fun flow n limited => free flow n ((results _ _ _).2 limited)]

theorem of_error {b : β} {e : TurnError} (quiet : (trail b).countP Event.isWork = 0)
    (fails : result b = .error e) (free : e.isLimit = false) :
    Guarded l backend none result trail fun _ => b := by
  refine .idle quiet ?_
  intro e' fails'
  cases fails.symm.trans fails'
  exact free

end Guarded

theorem Stand.count_walked {l : Library} {backend : Backend σ} {p : Event → Bool}
    (work : ∀ e, p e = true → e.isWork = true)
    (entering : ∀ node, TurnM.Costs p 1 (TurnM.enter l backend node)) {t : Turn σ}
    (quiet : t.trail.countP Event.isWork = 0) (target : Target) (limit : Nat) :
    (walked l backend limit ⟨t, target, 0⟩).2.trail.countP p ≤ limit := by
  have before : t.trail.countP p ≤ t.trail.countP Event.isWork :=
    List.countP_mono_left fun e _ => work e
  obtain ⟨events, trail, count⟩ := TurnM.adds_walk work entering limit limit target t
  have counted : (t.trail ++ events).countP p ≤ limit := by
    rw [List.countP_append]
    omega
  exact trail ▸ counted

theorem Guarded.walked (l : Library) (backend : Backend σ) {t : Turn σ}
    (quiet : t.trail.countP Event.isWork = 0) (target : Target) :
    Guarded l backend (some ⟨t, target, 0⟩) (·.1) (·.2.trail)
      fun limit => Stand.walked l backend limit ⟨t, target, 0⟩ where
  entered :=
    Stand.count_walked (fun _ => Event.isWork_of_isEntered) TurnM.costs_entered quiet target
  acted := Stand.count_walked (fun _ => Event.isWork_of_isActed) TurnM.costs_acted quiet target
  limited limit flow limit' := by
    simpa using Stand.walked_limit_iff (Nat.zero_le limit)
  enough {limit limit'} le free := by
    refine Stand.walked_mono le (Nat.zero_le limit) fun e fails => ?_
    cases e with
    | stepLimit flow n => exact absurd fails (free flow n)
    | _ => rfl

theorem Turn.exists_guarded (l : Library) (backend : Backend σ) {t : Turn σ} (begins : t.trail = [])
    (r : Reading) (text : String) (d : Decision) :
    let steps (limit : Nat) := TurnM.perform ⟨l, backend, limit⟩ r text d
    ∃ begun : Option (Stand σ), (∀ start ∈ begun, TurnM.Begins l backend steps t start) ∧
      Guarded l backend begun (·.1) (·.2.trail) fun limit => t.run (steps limit) := by
  dsimp only
  obtain ⟨lead, costs, same⟩ := (TurnM.Carried.of_once l backend).perform r text d
  have quiet : (t.run lead).2.trail.countP Event.isWork = 0 := by
    rw [costs.adds.count_eq, begins]
    rfl
  have free := costs.free t
  simp only [TurnM.Begins, same, run_bind]
  generalize t.run lead = led at quiet free
  obtain ⟨e | _ | target, t'⟩ := led
  · exact ⟨none, by simp, .idle quiet fun _ fails => free _ (by cases fails; rfl)⟩
  · exact ⟨none, by simp, .idle quiet fun _ fails => by cases fails⟩
  · refine ⟨some ⟨t', target, 0⟩, ?_, .walked l backend quiet target⟩
    rintro _ ⟨⟩
    exact ⟨rfl, fun _ => rfl⟩

def Ending.ofRun (engine : Engine σ) (before : State) (r : Reading) (d : Decision) :
    Except TurnError Unit × Turn σ → Ending σ
  | (.error e, t) => ⟨.error e, t.machine, t.world, t.trail⟩
  | (.ok _, t) =>
    let (result, machine) := t.commit engine.registry.current engine.backend.render before r d
    ⟨result, machine, t.world, t.trail⟩

namespace Session

open Script

variable {engine : Engine σ}

theorem dispatch_within (engine : Engine σ) (limit : Nat) (before : State) (m : Machine) (world : σ)
    (d : Decision) (r : Reading) (text : String) :
    dispatch (engine.within limit) before m world d r text =
      .ofRun engine before r d ((Turn.start m world).run
        (TurnM.perform ⟨engine.registry.current, engine.backend, limit⟩ r text d)) := by
  simp only [dispatch, Engine.within_registry, Engine.within_backend, Engine.within_maxSteps]
  rcases (Turn.start m world).run _ with ⟨_ | _, _⟩ <;> rfl

/-- What a call comes to carry out, if it comes so far: a decision on a reading of a message, in a
turn. -/
inductive Undertakes (s : Session) (engine : Engine σ) (world : σ) :
    Call → Turn σ → Decision → Reading → String → Prop where
  | heard {text : String} {m : Machine} {r : Reading} {world' : σ} {current : Option Graph.Node} :
      s.machine.update (hearing text) = .ok m →
      engine.backend.classify (request m.state text) world = (.ok r, world') →
      engine.registry.current.currentNode m.state.stack = .ok current →
      Undertakes s engine world (.turn text) (.start m world')
        (.route engine.settings.maxDigressions current r m.state) r text
  | launched {flow : String} {slots : Slots} {m : Machine} :
      s.denial? engine (.start flow slots) = none →
      s.machine.update { phase := some .understanding } = .ok m →
      Undertakes s engine world (.start flow slots) (.start m world) (.startFlow flow)
        (.certain .intentChange (some flow) slots.toList) ""

def Begins (s : Session) (engine : Engine σ) (world : σ) (call : Call) (start : Stand σ) : Prop :=
  ∃ t d r text, s.Undertakes engine world call t d r text ∧
    TurnM.Begins engine.registry.current engine.backend
      (fun limit => TurnM.perform ⟨engine.registry.current, engine.backend, limit⟩ r text d) t start

theorem exists_guarded_dispatch {s : Session} {world world' : σ} {call : Call} {d : Decision}
    {r : Reading} {text : String} {m : Machine} (before : State)
    (undertakes : s.Undertakes engine world call (.start m world') d r text) :
    ∃ begun : Option (Stand σ), (∀ start ∈ begun, s.Begins engine world call start) ∧
      Guarded engine.registry.current engine.backend begun Reply.result Reply.trail
        fun limit => s.conclude (dispatch (engine.within limit) before m world' d r text) := by
  obtain ⟨begun, begins, guarded⟩ := Turn.exists_guarded engine.registry.current engine.backend
    (t := .start m world') rfl r text d
  simp only [dispatch_within]
  refine ⟨begun, fun start member => ⟨_, d, r, text, undertakes, begins start member⟩,
    guarded.map (fun run => s.conclude (.ofRun engine before r d run)) ?_ ?_⟩
  · rintro ⟨_ | _, t⟩ flow n
    · exact ⟨fun limited => by cases limited; rfl, fun limited => by cases limited; rfl⟩
    · refine ⟨fun limited => ?_, fun limited => by cases limited⟩
      cases Turn.isLimit_of_commit limited
  · rintro ⟨_ | _, t⟩ <;> rfl

theorem isLimit_of_misunderstood {m : Machine} {failure : BackendError} {e : TurnError}
    (fails : (misunderstood engine m failure).1 = .error e) : e.isLimit = false := by
  simp only [misunderstood] at fails
  split at fails <;> cases fails
  rfl

theorem exists_guarded_hear (engine : Engine σ) (s : Session) (world : σ) (text : String) :
    ∃ begun : Option (Stand σ), (∀ start ∈ begun, s.Begins engine world (.turn text) start) ∧
      Guarded engine.registry.current engine.backend begun Reply.result Reply.trail
        fun limit => s.conclude (hear (engine.within limit) s.machine world text) := by
  have misread (limit : Nat) (m : Machine) (failure : BackendError) :
      misunderstood (engine.within limit) m failure = misunderstood engine m failure := rfl
  simp only [hear, Engine.within_registry, Engine.within_backend, Engine.within_maxDigressions,
    misread]
  cases heard : s.machine.update (hearing text) with
  | error e =>
    dsimp only
    exact ⟨none, by simp, .of_error rfl rfl rfl⟩
  | ok m =>
    dsimp only
    rcases reads : engine.backend.classify (request m.state text) world with
      ⟨failure | reading, world'⟩
    · dsimp only
      refine ⟨none, by simp, .idle rfl ?_⟩
      intro e fails
      exact isLimit_of_misunderstood fails
    · dsimp only
      cases placed : engine.registry.current.currentNode m.state.stack with
      | error e =>
        dsimp only
        exact ⟨none, by simp, .of_error rfl rfl (Library.isLimit_of_currentNode placed)⟩
      | ok current => exact exists_guarded_dispatch _ (.heard heard reads placed)

theorem isLimit_of_denial {s : Session} {call : Call} {e : TurnError}
    (denied : s.denial? engine call = some e) : e.isLimit = false := by
  cases call with
  | turn text => cases denied
  | start flow slots =>
    simp only [denial?] at denied
    split at denied
    · obtain ⟨active, -, rfl⟩ := Option.map_eq_some_iff.1 denied
      rfl
    · cases denied
      rfl

theorem exists_guarded (engine : Engine σ) (s : Session) (world : σ) (call : Call) :
    ∃ begun : Option (Stand σ), (∀ start ∈ begun, s.Begins engine world call start) ∧
      Guarded engine.registry.current engine.backend begun Reply.result Reply.trail
        fun limit => s.call (engine.within limit) world call := by
  have admitted (limit : Nat) : s.denial? (engine.within limit) call = s.denial? engine call := by
    cases call <;> rfl
  simp only [call_eq, admitted]
  cases denied : s.denial? engine call with
  | some e =>
    dsimp only
    exact ⟨none, by simp, .of_error rfl rfl (isLimit_of_denial denied)⟩
  | none =>
    cases call with
    | turn text => exact exists_guarded_hear engine s world text
    | start flow slots =>
      simp only [work, launch]
      cases heard : s.machine.update { phase := some .understanding } with
      | error e =>
        dsimp only
        exact ⟨none, by simp, .of_error rfl rfl rfl⟩
      | ok m => exact exists_guarded_dispatch _ (.launched denied heard)

/-- The budget of steps only guards. Within it the loop through the flows ends, in what the walk
gives, and counts the steps that it enters; the budget is exceeded just if the loop, going on
without one, comes to a step more. Carrying out a decision first gets ready, which takes no step,
and then goes through the loop once or not at all. A call enters no more steps and runs no more
actions than the budget allows. It fails for the budget just if the loop that it begins, where it
begins one, exceeds that; and unless it does, a larger budget makes no difference to it. -/
theorem budget_guards (engine : Engine σ) (limit : Nat) :
    let l := engine.registry.current
    let backend := engine.backend
    let advances (s next : Stand σ) : Prop := s.advance l backend limit = .inl next
    WellFounded (fun next s => advances s next) ∧
    (∀ (t : Turn σ) (target : Target),
      let start : Stand σ := ⟨t, target, 0⟩
      let walk := t.run (TurnM.walk l backend limit limit target)
      (∃ last, Relation.ReflTransGen advances start last ∧
        last.advance l backend limit = .inr walk ∧ last.entered ≤ limit ∧
        last.turn.trail.countP Event.isEntered =
          t.trail.countP Event.isEntered + last.entered) ∧
      ∀ flow n, walk.1 = .error (.stepLimit flow n) ↔
        n = limit ∧ start.Exceeds l backend limit flow) ∧
    (∀ (r : Reading) (text : String) (d : Decision),
      TurnM.Once l backend fun limit => TurnM.perform ⟨l, backend, limit⟩ r text d) ∧
    ∀ (s : Session) (world : σ) (call : Call),
      let reply (limit : Nat) := s.call (engine.within limit) world call
      (reply limit).trail.countP Event.isEntered ≤ limit ∧
      (reply limit).trail.countP Event.isActed ≤ limit ∧
      (∃ begun : Option (Stand σ), (∀ start ∈ begun, s.Begins engine world call start) ∧
        ∀ limit flow n, (reply limit).result = .error (.stepLimit flow n) ↔
          n = limit ∧ ∃ start ∈ begun, start.Exceeds l backend limit flow) ∧
      ∀ more, limit ≤ more →
        (∀ flow n, (reply limit).result ≠ .error (.stepLimit flow n)) →
          reply more = reply limit := by
  intro l backend advances
  refine ⟨Stand.wellFounded_advance l backend limit, fun t target => ⟨?_, fun flow n => ?_⟩,
    fun r text d => (TurnM.Carried.of_once l backend).perform r text d, fun s world call => ?_⟩
  · obtain ⟨last, rounds, ends, within⟩ :=
      Stand.exists_last l backend limit ⟨t, target, 0⟩ (Nat.zero_le limit)
    have counted := Stand.entered_of_all (Stand.goes_of_advances rounds)
    exact ⟨last, rounds, ends, within, counted⟩
  · exact Stand.walked_limit_iff (s := ⟨t, target, 0⟩) (Nat.zero_le limit)
  · obtain ⟨begun, begins, guarded⟩ := exists_guarded engine s world call
    exact ⟨guarded.entered limit, guarded.acted limit, ⟨begun, begins, guarded.limited⟩,
      fun more le => guarded.enough le⟩

theorem budget_guards_droning :
    let engine : Engine (List Reading) := .scripted [droning, greeting]
    let s : Session := .new "script" engine
    let drones := s.call (engine.within 3) [] (.start "drone" .empty)
    let greets (limit : Nat) := s.call (engine.within limit) [] (.start "greet" .empty)
    drones.result = .error (.stepLimit "drone" 3) ∧ drones.trail.countP Event.isEntered ≤ 3 ∧
      (∀ flow n, (greets 1).result ≠ .error (.stepLimit flow n)) ∧ greets 64 = greets 1 := by
  intro engine s drones greets
  obtain ⟨-, -, -, guards⟩ := budget_guards engine 3
  obtain ⟨entered, -⟩ := guards s [] (.start "drone" .empty)
  obtain ⟨-, -, -, guards⟩ := budget_guards engine 1
  obtain ⟨-, -, -, more⟩ := guards s [] (.start "greet" .empty)
  have enough (flow : String) (n : Nat) : (greets 1).result ≠ .error (.stepLimit flow n) := by
    rintro ⟨⟩
  exact ⟨rfl, entered, enough, more 64 (by decide) enough⟩

end Session

end Colloquy
