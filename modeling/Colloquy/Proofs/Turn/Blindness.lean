import Colloquy.Proofs.State.Update
import Colloquy.Proofs.Turn.Inheritance

/-!
What the steps of a turn do not look at. Of the machine they see the phase, the stack and the slot
waited for, and of the backend's state what its actions see. All else may be replaced: it changes
nothing, and comes out as it was put in.
-/

set_option autoImplicit false

namespace Colloquy

namespace Machine

/-- What a turn sees of `m`, among everything else of `k`. -/
def amid (m k : Machine) : Machine :=
  { k with state := { k.state with
    phase := m.state.phase
    stack := m.state.stack
    waiting := m.state.waiting } }

theorem amid_eq {m k : Machine} (phase : m.state.phase = k.state.phase)
    (stack : m.state.stack = k.state.stack) (waiting : m.state.waiting = k.state.waiting) :
    m.amid k = k := by
  simp only [amid, phase, stack, waiting]

theorem update_amid {k : Machine} (trimmed : k.state.history.length ≤ k.window) {phase : Phase}
    (free : phase.isFree = true) (waiting : Option (Option String)) (m : Machine) :
    (m.amid k).update { phase := some phase, waiting } =
      (m.update { phase := some phase, waiting }).map (·.amid k) := by
  let u : Update := { phase := some phase, waiting }
  have after : (m.amid k).after u = (m.after u).amid k := by
    simp [Machine.after, amid, Update.apply, State.trim, Nat.sub_eq_zero_of_le trimmed, u]
  have fault : ((m.after u).amid k).state.fault? = (m.after u).state.fault? := by
    simp only [State.fault?, State.phaseFault?_eq_none (s := (m.after u).state) free,
      State.phaseFault?_eq_none (s := ((m.after u).amid k).state) free]
    rfl
  have permits : (m.amid k).permits u = m.permits u := rfl
  cases permitted : m.permits u with
  | false =>
    have refused {n : Machine} (denied : n.permits u = false) :
        n.update u = .error (.transition n.state.phase phase) := by
      simp [update, denied, u]
    rw [refused permitted, refused (permits.trans permitted)]
    rfl
  | true =>
    cases found : (m.after u).state.fault? with
    | none =>
      rw [update_eq_ok permitted found, update_eq_ok (permits.trans permitted), after]
      · rfl
      · rw [after]
        exact fault.trans found
    | some cause =>
      rw [update_eq_error permitted found, update_eq_error (permits.trans permitted)]
      · rfl
      · rw [after]
        exact fault.trans found

end Machine

variable {σ α β : Type}

/-- What the steps of a turn see of `t`, among everything else of `k`, and with the backend's state
changed by `veil`. -/
def Turn.amid (t : Turn σ) (k : Machine) (veil : σ → σ) : Turn σ :=
  { t with machine := t.machine.amid k, world := veil t.world }

theorem Turn.amid_self (t : Turn σ) : t.amid t.machine id = t := rfl

def Turn.veiled (t : Turn σ) (recast : Machine → Machine) (veil : σ → σ)
    (ask : Option String → Option String) : Turn σ :=
  { t with machine := recast t.machine, world := veil t.world, pending := ask t.pending }

/-- Actions neither see nor change what the veil hides. -/
def Backend.Blind (backend : Backend σ) (veil : σ → σ) : Prop :=
  ∀ action slots world, backend.act action slots (veil world) =
    ((backend.act action slots world).1, veil (backend.act action slots world).2)

theorem Backend.blind_id (backend : Backend σ) : backend.Blind id := fun _ _ _ => rfl

def TurnM.Unseen (recast : Machine → Machine) (veil : σ → σ) (ask : Option String → Option String)
    (steps : TurnM σ α) : Prop :=
  ∀ t : Turn σ, (t.veiled recast veil ask).run steps =
    ((t.run steps).1, (t.run steps).2.veiled recast veil ask)

/-- The steps neither see nor change what is put in from `k`, and what the veil hides. -/
def TurnM.Blind (k : Machine) (veil : σ → σ) (steps : TurnM σ α) : Prop :=
  ∀ t : Turn σ, (t.amid k veil).run steps = ((t.run steps).1, (t.run steps).2.amid k veil)

namespace TurnM

variable {recast : Machine → Machine} {veil : σ → σ} {ask : Option String → Option String}
  {l : Library} {backend : Backend σ}

namespace Unseen

theorem modify {change : Turn σ → Turn σ}
    (same : ∀ t : Turn σ, change (t.veiled recast veil ask) = (change t).veiled recast veil ask) :
    Unseen recast veil ask (modify change) := by
  intro t
  rw [Turn.run_modify, Turn.run_modify, same]

theorem bind {first : TurnM σ α} {rest : α → TurnM σ β} (begins : Unseen recast veil ask first)
    (goesOn : ∀ a, first.Gives a → Unseen recast veil ask (rest a)) :
    Unseen recast veil ask (first >>= rest) := by
  intro t
  rw [Turn.run_bind, Turn.run_bind, begins t]
  cases ran : t.run first with
  | mk result t' =>
    cases result with
    | ok a => exact goesOn a ⟨t, t', ran⟩ t'
    | error e => rfl

theorem get {rest : Turn σ → TurnM σ α}
    (same : ∀ t : Turn σ, rest (t.veiled recast veil ask) = rest t)
    (goesOn : ∀ t, Unseen recast veil ask (rest t)) : Unseen recast veil ask (get >>= rest) := by
  intro t
  rw [Turn.run_bind_ok Turn.run_get, Turn.run_bind_ok Turn.run_get, same]
  exact goesOn t t

theorem invoke (blind : backend.Blind veil) (action : String) :
    Unseen recast veil ask (invoke backend action) := by
  intro t
  simp only [TurnM.invoke, Turn.run_bind_ok Turn.run_get,
    show (t.veiled recast veil ask).stack = t.stack from rfl,
    show (t.veiled recast veil ask).world = veil t.world from rfl,
    blind action t.stack.slots t.world]
  rfl

theorem update {u : Update}
    (same : ∀ m : Machine, (recast m).update u = (m.update u).map recast) :
    Unseen recast veil ask (update u : TurnM σ Unit) := by
  intro t
  simp only [TurnM.update, Turn.run_bind_ok Turn.run_get]
  rw [show (t.veiled recast veil ask).machine = recast t.machine from rfl, same]
  cases t.machine.update u <;> rfl

end Unseen

theorem Inherited.of_unseen
    (updates : ∀ {phase : Phase} (waiting : Option (Option String)) (m : Machine),
      phase.isFree = true → (recast m).update { phase := some phase, waiting } =
        (m.update { phase := some phase, waiting }).map recast)
    (blind : backend.Blind veil) : Inherited l backend fun _ => Unseen recast veil ask where
  pure _ _ := rfl
  throw _ _ := rfl
  throws _ _ := rfl
  bind := .bind
  get same goesOn := .get (fun t => same _ t rfl) goesOn
  say _ := .modify fun _ => rfl
  restack _ := .modify fun _ => rfl
  note _ := .modify fun _ => rfl
  notes _ := .modify fun _ => rfl
  advanced := .modify fun _ => rfl
  update free waiting := .update fun m => updates waiting m free
  invoke := .invoke blind
  fails _ := .modify fun _ => rfl

-- What looks at the open question as well does not see it replaced by itself.
theorem Inherited.carried_of_unseen
    (inherited : Inherited l backend fun _ => Unseen recast veil id) (limit : Nat) :
    Carried l backend (fun _ => Unseen recast veil id)
      fun steps => Unseen recast veil id (steps limit) where
  toGuided := inherited.guided limit
  heed same goesOn := .get (fun t => congrFun (same (t.veiled recast veil id) t rfl) limit) goesOn
  reopen _ := .modify fun _ => rfl
  propose _ := .modify fun _ => rfl
  cancel := .bind (.modify fun _ => rfl) fun _ _ =>
    .bind (.modify fun _ => rfl) fun _ _ => .modify fun _ => rfl

variable {k : Machine}

/-- Whatever is decided, carrying it out neither sees nor changes more of the state machine than
the phase and the slot waited for, and more of the backend's state than its actions do. -/
theorem blind_perform {s : Stage σ} (trimmed : k.state.history.length ≤ k.window)
    (blind : s.backend.Blind veil) (r : Reading) (text : String) (d : Decision) :
    Blind k veil (perform s r text d) := by
  have inherited : Inherited s.library s.backend fun _ => Unseen (·.amid k) veil id :=
    .of_unseen (fun waiting m free => Machine.update_amid trimmed free waiting m) blind
  exact (inherited.carried_of_unseen s.maxSteps).perform r text d

theorem Blind.amid_machine {t : Turn σ} {steps : TurnM σ α} (blind : Blind t.machine id steps) :
    (t.run steps).2.machine.amid t.machine = (t.run steps).2.machine := by
  have same := blind t
  rw [Turn.amid_self] at same
  exact (congrArg (fun run => run.2.machine) same).symm

end TurnM

end Colloquy
