import Colloquy.Proofs.Session.Cancelling
import Colloquy.Proofs.Turn.Blindness
import Colloquy.Snapshot.Basic

/-!
Failed calls. Whatever a call has done before it failed, the stack and the slot waited for are again
as they were, and the state machine never refuses to put them back.
-/

set_option autoImplicit false

namespace Colloquy

variable {σ : Type}

-- A commit that fails for other reasons than a refused update has not begun.
theorem Turn.commit_error {t : Turn σ} {l : Library} {render : Message → String} {before : State}
    {r : Reading} {d : Decision} {e : TurnError} {machine : Machine}
    (fails : t.commit l render before r d = (.error e, machine)) :
    (∃ cause, e = .state cause) ∨ machine = t.machine := by
  unfold commit at fails
  split at fails
  · cases fails
    exact .inr rfl
  · split at fails
    · cases fails
      exact .inr rfl
    · dsimp only at fails
      split at fails
      · cases fails
        exact .inl ⟨_, rfl⟩
      · cases fails

namespace Session

variable {s : Session} {engine : Engine σ} {k m : Machine} {world : σ} {e : TurnError}

theorem after_takingBack {before : State} (trimmed : k.state.history.length ≤ k.window)
    (within : m.amid k = m) :
    (m.after (takingBack before)).state =
      { k.state with phase := .error, stack := before.stack, waiting := before.waiting } := by
  rw [← within]
  simp [Machine.after, Machine.amid, Update.apply, State.trim, takingBack,
    Nat.sub_eq_zero_of_le trimmed]

theorem dispatch_amid {before : State} {d : Decision} {r : Reading} {text : String}
    (trimmed : k.state.history.length ≤ k.window)
    (fails : (dispatch engine before k world d r text).result = .error e)
    (notState : ∀ cause, e ≠ .state cause) :
    (dispatch engine before k world d r text).machine.amid k =
      (dispatch engine before k world d r text).machine := by
  have blind := TurnM.blind_perform (s := engine.stage) trimmed (Backend.blind_id _) r text d
  have within := blind.amid_machine (t := .start k world)
  simp only [dispatch] at fails ⊢
  cases ran : (Turn.start k world).run (TurnM.perform engine.stage r text d) with
  | mk result t =>
    have within : t.machine.amid k = t.machine := by
      rw [ran] at within
      exact within
    simp only [ran] at fails ⊢
    cases result with
    | error e => exact within
    | ok _ =>
      cases committed : t.commit engine.registry.current engine.backend.render before r d with
      | mk result machine =>
        simp only [committed] at fails ⊢
        subst fails
        obtain ⟨cause, rfl⟩ | rfl := Turn.commit_error committed
        · exact absurd rfl (notState cause)
        · exact within

def coming : Call → Update
  | .turn text => hearing text
  | .start .. => { phase := some .understanding }

theorem misunderstood_error {failure : BackendError}
    (fails : (misunderstood engine m failure).1 = .error e) : ∃ cause, e = .state cause := by
  simp only [misunderstood] at fails
  split at fails <;> cases fails
  exact ⟨_, rfl⟩

theorem work_amid {call : Call} (fails : (s.work engine world call).result = .error e)
    (notState : ∀ cause, e ≠ .state cause) :
    (s.work engine world call).machine.amid (s.machine.after (coming call)) =
      (s.work engine world call).machine := by
  have trimmed : (s.machine.after (coming call)).state.history.length ≤ s.machine.window :=
    Update.length_apply_history ..
  cases call with
  | turn text =>
    simp only [work, hear] at fails ⊢
    split at fails
    · cases fails
      exact absurd rfl (notState _)
    · next k accepted =>
      obtain ⟨rfl, -⟩ := Machine.update_cases accepted
      split at fails
      · obtain ⟨cause, rfl⟩ := misunderstood_error fails
        exact absurd rfl (notState cause)
      · split at fails
        · rfl
        · exact dispatch_amid trimmed fails notState
  | start flow slots =>
    simp only [work, launch] at fails ⊢
    split at fails
    · cases fails
      exact absurd rfl (notState _)
    · next k accepted =>
      obtain ⟨rfl, -⟩ := Machine.update_cases accepted
      exact dispatch_amid trimmed fails notState

end Session

/-- The state after a call that has failed: all that it keeps is that a message has come in. -/
def Call.failed (window : Nat) (s : State) : Call → State
  | .turn text => State.trim window { s with
      phase := .error
      turns := s.turns + 1
      history := s.history ++ [⟨.user, text⟩] }
  | .start .. => { s with phase := .error }

theorem Machine.Sound.after_coming {m : Machine} (sound : m.Sound) (call : Call) :
    { (m.after (Session.coming call)).state with
      phase := .error, stack := m.state.stack, waiting := m.state.waiting } =
      call.failed m.window m.state := by
  cases call with
  | turn text => rfl
  | start flow slots =>
    simp [Machine.after, Update.apply, State.trim, Session.coming, Call.failed,
      Nat.sub_eq_zero_of_le sound.trimmed]

namespace Conversation

open Script

variable {c : Conversation σ}

/-- What a conversation can come to, whether it was begun anew or taken up again. -/
inductive Lived : Conversation σ → Prop where
  | opened (id : String) (engine : Engine σ) (world : σ) : Lived (opened id engine world)
  | restored {engine : Engine σ} {snapshot : Snapshot} {session : Session} (world : σ) :
      Session.restore engine snapshot = .ok session → Lived ⟨engine, session, world, []⟩
  | called {c : Conversation σ} (call : Call) : Lived c → Lived (c.next call)
  | reloaded {c : Conversation σ} {flows : List Flow} {registry : Registry} :
      c.engine.registry.reload flows = .ok registry → Lived c →
      Lived { c with engine := { c.engine with registry } }

theorem Reached.lived (reached : c.Reached) : c.Lived := by
  induction reached with
  | opened id engine world => exact .opened id engine world
  | called call _ ih => exact .called call ih
  | reloaded reloads _ ih => exact .reloaded reloads ih

theorem Lived.sound (lived : c.Lived) : c.session.machine.Sound := by
  induction lived with
  | opened => exact Machine.new_sound _
  | restored world restored =>
    obtain ⟨machine, found, same⟩ := bind_eq_ok.1 restored
    cases same
    exact Machine.sound_of_restore found
  | called call _ ih => exact Session.call_sound ih call
  | reloaded _ _ ih => exact ih

/-- A call that is turned away at once changes nothing. One that fails later leaves the session in
the error phase, with the stack and the slot waited for as before, which no state of the machine
stands in the way of; and unless the state machine has refused something, all else is as before
too, but for the message that has come in. -/
theorem failure_undone (lived : c.Lived) (call : Call) :
    (∀ e, c.session.denial? c.engine call = some e →
      (c.reply call).result = .error e ∧ c.next call = c) ∧
    (∀ machine : Machine, ∃ m, machine.update (Session.takingBack c.state) = .ok m) ∧
    ∀ e, c.session.denial? c.engine call = none → (c.reply call).result = .error e →
      (c.next call).state.phase = .error ∧ (c.next call).state.stack = c.state.stack ∧
      (c.next call).state.waiting = c.state.waiting ∧
      ((∀ cause, e ≠ .state cause) →
        (c.next call).state = call.failed c.session.machine.window c.state) := by
  have sound := lived.sound
  have called : c.reply call = _ := Session.call_eq c.session c.engine c.world call
  refine ⟨?_, ?_, ?_⟩
  · intro e denied
    simp only [denied] at called
    simp [next, called, Except.isOk, Except.toBool]
  · intro machine
    obtain ⟨-, settled⟩ := Session.recover_eq sound.consistent machine
    exact ⟨_, Machine.update_eq_ok (Machine.permits_of_leadsTo rfl (Phase.leadsTo_error _))
      settled.consistent⟩
  · intro e admitted fails
    simp only [admitted] at called
    rw [called] at fails
    have fails : (c.session.work c.engine c.world call).result = .error e := fails
    obtain ⟨recovered, -⟩ := Session.recover_eq sound.consistent
      (c.session.work c.engine c.world call).machine
    have left : (c.next call).state =
        ((c.session.work c.engine c.world call).machine.after
          (Session.takingBack c.state)).state := by
      simp only [next, state, Session.state, called, Session.conclude, fails] at recovered ⊢
      rw [recovered]
    rw [left]
    refine ⟨rfl, rfl, rfl, ?_⟩
    intro notState
    rw [Session.after_takingBack (Update.length_apply_history ..)
      (Session.work_amid fails notState)]
    exact sound.after_coming call

theorem failure_undone_outdated :
    outdated.Lived ∧ outdated.session.denial? outdated.engine (.turn "stop") = none ∧
      (outdated.reply (.turn "stop")).result = .error (.unknownFlow "ask") ∧
      (outdated.next (.turn "stop")).state =
        (Call.turn "stop").failed outdated.session.machine.window outdated.state := by
  have lived := outdated_reached.lived
  have fails : (outdated.reply (.turn "stop")).result = .error (.unknownFlow "ask") := rfl
  obtain ⟨-, -, undone⟩ := failure_undone lived (.turn "stop")
  obtain ⟨-, -, -, same⟩ := undone _ rfl fails
  exact ⟨lived, rfl, fails, same (by simp)⟩

end Conversation

end Colloquy
