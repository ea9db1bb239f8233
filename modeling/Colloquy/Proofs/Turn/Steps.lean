import Colloquy.Session.Perform
import Mathlib.Logic.Relation

/-!
Running the steps of a turn. `Turn.Along` tells what some steps end in and how they fail, and that
all they do on the way is made of moves of one kind.
-/

set_option autoImplicit false

namespace Colloquy.Turn

variable {σ α β : Type} {t : Turn σ}

@[simp] theorem run_pure (a : α) : t.run (pure a) = (.ok a, t) := rfl

@[simp] theorem run_throw (e : TurnError) : t.run (throw e : TurnM σ α) = (.error e, t) := rfl

@[simp] theorem run_get : t.run get = (.ok t, t) := rfl

@[simp] theorem run_set (t' : Turn σ) : t.run (set t') = (.ok (), t') := rfl

@[simp] theorem run_modify (f : Turn σ → Turn σ) : t.run (modify f) = (.ok (), f t) := rfl

theorem run_bind (first : TurnM σ α) (rest : α → TurnM σ β) :
    t.run (first >>= rest) =
      match t.run first with
      | (.ok a, t') => t'.run (rest a)
      | (.error e, t') => (.error e, t') := by
  simp only [run, ExceptT.run_bind, StateT.run_bind]
  rcases (ExceptT.run first).run t with ⟨_ | _, _⟩ <;> rfl

theorem run_bind_ok {first : TurnM σ α} {a : α} {t' : Turn σ} (ran : t.run first = (.ok a, t'))
    (rest : α → TurnM σ β) : t.run (first >>= rest) = t'.run (rest a) := by
  rw [run_bind, ran]

theorem run_bind_error {first : TurnM σ α} {e : TurnError} {t' : Turn σ}
    (ran : t.run first = (.error e, t')) (rest : α → TurnM σ β) :
    t.run (first >>= rest) = (.error e, t') := by
  rw [run_bind, ran]

theorem run_bind_eq_ok {first : TurnM σ α} {rest : α → TurnM σ β} {b : β} {t' : Turn σ}
    (ran : t.run (first >>= rest) = (.ok b, t')) :
    ∃ a t₁, t.run first = (.ok a, t₁) ∧ t₁.run (rest a) = (.ok b, t') := by
  rw [run_bind] at ran
  split at ran
  · exact ⟨_, _, ‹_›, ran⟩
  · cases ran

@[simp] theorem run_ofExcept_ok {ε : Type} (wrap : ε → TurnError) (a : α) :
    t.run (TurnM.ofExcept wrap (.ok a)) = (.ok a, t) := rfl

@[simp] theorem run_ofExcept_error {ε : Type} (wrap : ε → TurnError) (e : ε) :
    t.run (TurnM.ofExcept wrap (.error e) : TurnM σ α) = (.error (wrap e), t) := rfl

theorem run_ofExcept_eq_ok {ε : Type} {wrap : ε → TurnError} {x : Except ε α} {a : α} {t' : Turn σ}
    (ran : t.run (TurnM.ofExcept wrap x) = (.ok a, t')) : x = .ok a ∧ t' = t := by
  cases x <;> cases ran
  exact ⟨rfl, rfl⟩

/-- The steps take the turn along moves; they end in `done` or fail in `failed`. -/
def Along (t : Turn σ) (move : Turn σ → Turn σ → Prop) (steps : TurnM σ α)
    (done : α → Turn σ → Prop) (failed : TurnError → Turn σ → Prop) : Prop :=
  Relation.ReflTransGen move t (t.run steps).2 ∧
    match (t.run steps).1 with
    | .ok a => done a (t.run steps).2
    | .error e => failed e (t.run steps).2

namespace Along

variable {move : Turn σ → Turn σ → Prop} {failed : TurnError → Turn σ → Prop}

theorem of_ok {steps : TurnM σ α} {done : α → Turn σ → Prop} {a : α} {t' : Turn σ}
    (ran : t.run steps = (.ok a, t')) (moves : Relation.ReflTransGen move t t')
    (holds : done a t') : t.Along move steps done failed := by
  simpa only [Along, ran] using And.intro moves holds

theorem of_error {steps : TurnM σ α} {done : α → Turn σ → Prop} {e : TurnError} {t' : Turn σ}
    (ran : t.run steps = (.error e, t')) (moves : Relation.ReflTransGen move t t')
    (holds : failed e t') : t.Along move steps done failed := by
  simpa only [Along, ran] using And.intro moves holds

theorem pure {done : α → Turn σ → Prop} {a : α} (holds : done a t) :
    t.Along move (pure a) done failed :=
  of_ok (run_pure a) .refl holds

theorem throw {done : α → Turn σ → Prop} {e : TurnError} (holds : failed e t) :
    t.Along move (throw e : TurnM σ α) done failed :=
  of_error (run_throw e) .refl holds

theorem bind {first : TurnM σ α} {rest : α → TurnM σ β} {between : α → Turn σ → Prop}
    {done : β → Turn σ → Prop} (begins : t.Along move first between failed)
    (goesOn : ∀ a t', Relation.ReflTransGen move t t' → between a t' →
      t'.Along move (rest a) done failed) :
    t.Along move (first >>= rest) done failed := by
  obtain ⟨moves, ends⟩ := begins
  cases ran : t.run first with
  | mk result t' =>
    rw [ran] at moves ends
    cases result with
    | ok a =>
      obtain ⟨moves', ends'⟩ := goesOn a t' moves ends
      rw [← run_bind_ok ran rest] at moves' ends'
      exact ⟨moves.trans moves', ends'⟩
    | error e => exact of_error (run_bind_error ran rest) moves ends

theorem of_run_eq {steps rest : TurnM σ α} {done : α → Turn σ → Prop} {t' : Turn σ}
    (same : t.run steps = t'.run rest) (moves : Relation.ReflTransGen move t t')
    (goesOn : t'.Along move rest done failed) : t.Along move steps done failed := by
  simp only [Along, same]
  exact ⟨moves.trans goesOn.1, goesOn.2⟩

theorem bind_ok {first : TurnM σ α} {rest : α → TurnM σ β} {done : β → Turn σ → Prop} {a : α}
    {t' : Turn σ} (ran : t.run first = (.ok a, t')) (moves : Relation.ReflTransGen move t t')
    (goesOn : t'.Along move (rest a) done failed) :
    t.Along move (first >>= rest) done failed :=
  of_run_eq (run_bind_ok ran rest) moves goesOn

theorem get {rest : Turn σ → TurnM σ α} {done : α → Turn σ → Prop}
    (goesOn : t.Along move (rest t) done failed) : t.Along move (get >>= rest) done failed :=
  bind_ok run_get .refl goesOn

theorem ofExcept {ε : Type} {wrap : ε → TurnError} {x : Except ε α} {rest : α → TurnM σ β}
    {done : β → Turn σ → Prop} (goesOn : ∀ a, x = .ok a → t.Along move (rest a) done failed)
    (fails : ∀ e, x = .error e → failed (wrap e) t) :
    t.Along move (TurnM.ofExcept wrap x >>= rest) done failed := by
  cases x with
  | ok a => exact bind_ok (run_ofExcept_ok wrap a) .refl (goesOn a rfl)
  | error e =>
    exact of_error (run_bind_error (run_ofExcept_error wrap e) rest) .refl (fails e rfl)

theorem mono {steps : TurnM σ α} {done done' : α → Turn σ → Prop}
    {failed' : TurnError → Turn σ → Prop} (along : t.Along move steps done failed)
    (ends : ∀ a t', Relation.ReflTransGen move t t' → done a t' → done' a t')
    (fails : ∀ e t', Relation.ReflTransGen move t t' → failed e t' → failed' e t') :
    t.Along move steps done' failed' := by
  obtain ⟨moves, holds⟩ := along
  refine ⟨moves, ?_⟩
  split at holds
  · exact ends _ _ moves holds
  · exact fails _ _ moves holds

theorem lift {steps : TurnM σ α} {done : α → Turn σ → Prop} {move' : Turn σ → Turn σ → Prop}
    (along : t.Along move steps done failed) (finer : ∀ t₁ t₂, move t₁ t₂ → move' t₁ t₂) :
    t.Along move' steps done failed :=
  ⟨Relation.ReflTransGen.mono finer _ _ along.1, along.2⟩

end Along

end Colloquy.Turn
