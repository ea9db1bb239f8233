import Colloquy.Proofs.Session.Settling
import Colloquy.Proofs.Turn.Inheritance

/-!
Backends that answer a request alike whenever it is made. With such a backend a session comes to the
same whatever state the backend is in: calls of other sessions do not show.
-/

set_option autoImplicit false

namespace Colloquy

variable {σ α β : Type}

/-- What the backend answers depends on what it is asked alone, and not on its state. -/
structure Backend.Memoryless (backend : Backend σ) : Prop where
  classify (request : Request) (world world' : σ) :
    (backend.classify request world').1 = (backend.classify request world).1
  act (action : String) (slots : Slots) (world world' : σ) :
    (backend.act action slots world').1 = (backend.act action slots world).1

def TurnM.Unworldly (steps : TurnM σ α) : Prop :=
  ∀ (t : Turn σ) (world : σ), ∃ last, { t with world }.run steps =
    ((t.run steps).1, { (t.run steps).2 with world := last })

namespace TurnM

namespace Unworldly

theorem modify {change : Turn σ → Turn σ}
    (same : ∀ (t : Turn σ) (world : σ), change { t with world } = { change t with world }) :
    Unworldly (modify change) := by
  intro t world
  refine ⟨world, ?_⟩
  rw [Turn.run_modify, Turn.run_modify, same]

theorem bind {first : TurnM σ α} {rest : α → TurnM σ β} (begins : Unworldly first)
    (goesOn : ∀ a, first.Gives a → Unworldly (rest a)) : Unworldly (first >>= rest) := by
  intro t world
  obtain ⟨last, same⟩ := begins t world
  rw [Turn.run_bind, Turn.run_bind, same]
  cases ran : t.run first with
  | mk result t' =>
    cases result with
    | ok a => exact goesOn a ⟨t, t', ran⟩ t' last
    | error e => exact ⟨last, rfl⟩

theorem get {rest : Turn σ → TurnM σ α}
    (same : ∀ (t : Turn σ) (world : σ), rest { t with world } = rest t)
    (goesOn : ∀ t, Unworldly (rest t)) : Unworldly (get >>= rest) := by
  intro t world
  rw [Turn.run_bind_ok Turn.run_get, Turn.run_bind_ok Turn.run_get, same]
  exact goesOn t t world

theorem update (u : Update) : Unworldly (update u : TurnM σ Unit) := by
  intro t world
  refine ⟨world, ?_⟩
  simp only [TurnM.update, Turn.run_bind_ok Turn.run_get]
  cases t.machine.update u <;> rfl

theorem invoke {backend : Backend σ} (memoryless : backend.Memoryless) (action : String) :
    Unworldly (invoke backend action) := by
  intro t world
  refine ⟨(backend.act action t.stack.slots world).2, ?_⟩
  simp only [TurnM.invoke, Turn.run_bind_ok Turn.run_get,
    memoryless.act action t.stack.slots t.world world]
  rfl

end Unworldly

theorem Inherited.of_memoryless {l : Library} {backend : Backend σ}
    (memoryless : backend.Memoryless) : Inherited l backend fun _ => Unworldly where
  pure _ _ world := ⟨world, rfl⟩
  throw _ _ world := ⟨world, rfl⟩
  throws _ _ world := ⟨world, rfl⟩
  bind := .bind
  get same goesOn := .get (fun _ _ => same _ _ rfl) goesOn
  say _ := .modify fun _ _ => rfl
  restack _ := .modify fun _ _ => rfl
  note _ := .modify fun _ _ => rfl
  notes _ := .modify fun _ _ => rfl
  advanced := .modify fun _ _ => rfl
  update _ _ := .update _
  invoke := .invoke memoryless
  fails _ := .modify fun _ _ => rfl

theorem Carried.of_memoryless {l : Library} {backend : Backend σ}
    (memoryless : backend.Memoryless) (limit : Nat) :
    Carried l backend (fun _ => Unworldly) fun steps => Unworldly (steps limit) where
  toGuided := (Inherited.of_memoryless memoryless).guided limit
  heed same goesOn := .get (fun t world => congrFun (same { t with world } t rfl) limit) goesOn
  reopen _ := .modify fun _ _ => rfl
  propose _ := .modify fun _ _ => rfl
  cancel := .bind (.modify fun _ _ => rfl) fun _ _ =>
    .bind (.modify fun _ _ => rfl) fun _ _ => .modify fun _ _ => rfl

end TurnM

namespace Session

variable {engine : Engine σ}

theorem dispatch_unworldly (memoryless : engine.backend.Memoryless) (before : State) (m : Machine)
    (world world' : σ) (d : Decision) (r : Reading) (text : String) :
    ∃ last, dispatch engine before m world' d r text =
      { dispatch engine before m world d r text with world := last } := by
  have unworldly : TurnM.Unworldly (TurnM.perform engine.stage r text d) :=
    (TurnM.Carried.of_memoryless memoryless engine.settings.maxSteps).perform r text d
  obtain ⟨last, same⟩ := unworldly (.start m world) world'
  have same : (Turn.start m world').run (TurnM.perform engine.stage r text d) = _ := same
  refine ⟨last, ?_⟩
  simp only [dispatch, same]
  cases (Turn.start m world).run (TurnM.perform engine.stage r text d) with
  | mk result t => cases result <;> rfl

theorem hear_unworldly (memoryless : engine.backend.Memoryless) (m : Machine) (world world' : σ)
    (text : String) :
    ∃ last, hear engine m world' text = { hear engine m world text with world := last } := by
  unfold hear
  dsimp only
  cases m.update (hearing text) with
  | error e => exact ⟨world', rfl⟩
  | ok k =>
    dsimp only
    have same := memoryless.classify (request k.state text) world world'
    generalize engine.backend.classify (request k.state text) world = here at same
    generalize engine.backend.classify (request k.state text) world' = there at same
    obtain ⟨answer, given⟩ := here
    obtain ⟨answer', given'⟩ := there
    obtain rfl : answer' = answer := same
    cases answer' with
    | error failure => exact ⟨given', rfl⟩
    | ok reading =>
      cases engine.registry.current.currentNode k.state.stack with
      | error e => exact ⟨given', rfl⟩
      | ok current => exact dispatch_unworldly memoryless _ _ _ _ _ _ _

/-- What comes of a turn does not depend on the state of a backend that remembers nothing. -/
theorem handleTurn_unworldly (memoryless : engine.backend.Memoryless) (s : Session)
    (world world' : σ) (text : String) :
    ∃ last, s.handleTurn engine world' text =
      { s.handleTurn engine world text with world := last } := by
  obtain ⟨last, same⟩ := hear_unworldly memoryless s.machine world world' text
  exact ⟨last, by rw [handleTurn, same]; rfl⟩

end Session

end Colloquy
