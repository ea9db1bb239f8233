import Colloquy.Proofs.Session.Transcript
import Colloquy.Proofs.State.Coherence

/-!
Taking up a session again. A snapshot can be taken up just when its state keeps the rules of
consistent states, and all of it comes back but for lines of the history that the window has no room
for; a session that has come about by calls is its own restoration.
-/

set_option autoImplicit false

namespace Colloquy

variable {σ : Type}

theorem Session.restore_eq_ok {engine : Engine σ} {snapshot : Snapshot} {session : Session} :
    restore engine snapshot = .ok session ↔ snapshot.state.Coherent ∧
      session = ⟨snapshot.id, snapshot.state.trim engine.settings.window, engine.settings.window⟩ := by
  rw [← State.consistent_iff_coherent, restore, bind_eq_ok]
  constructor
  · rintro ⟨machine, found, same⟩
    obtain ⟨consistent, rfl⟩ := Machine.restore_eq_ok.1 found
    cases same
    exact ⟨consistent, rfl⟩
  · rintro ⟨consistent, rfl⟩
    exact ⟨_, Machine.restore_eq_ok.2 ⟨consistent, rfl⟩, rfl⟩

namespace Conversation

/-- A session that has come about by calls can be taken up anywhere. Where it was, it goes on as if
nothing had happened; elsewhere nothing is lost but what is too much history there. Any other
snapshot can be taken up just when its state is coherent, whatever its phase is. -/
theorem restored_alike (id : String) (engine : Engine σ) (world : σ) (calls : List Call) :
    let c := (opened id engine world).after calls
    (∃ session, Session.restore engine c.session.snapshot = .ok session ∧
      session.id = c.session.id ∧ session.state = c.state ∧
      ∀ later, results { c with session } later = c.results later) ∧
    (∀ {τ : Type} (other : Engine τ), ∃ session,
      Session.restore other c.session.snapshot = .ok session ∧ session.id = c.session.id ∧
      session.state = { c.state with
        history := c.state.history.rtake other.settings.window }) ∧
    ∀ {τ : Type} (other : Engine τ) (snapshot : Snapshot),
      (∃ session, Session.restore other snapshot = .ok session) ↔ snapshot.state.Coherent := by
  intro c
  have reached : c.Reached := (Reached.opened id engine world).after calls
  have tells := (Reached.opened id engine world).after_tells calls
  have sound := reached.machine.sound
  have coherent : c.state.Coherent := State.consistent_iff_coherent.1 sound.consistent
  have window : engine.settings.window = c.session.machine.window := tells.window.symm
  have untrimmed : c.state.trim engine.settings.window = c.state := by
    have kept := rtake_of_length_le sound.trimmed
    rw [← window] at kept
    exact congrArg (fun history => { c.state with history }) kept
  have again : Session.restore engine c.session.snapshot = .ok c.session := by
    refine Session.restore_eq_ok.2 ⟨coherent, ?_⟩
    change c.session = ⟨c.session.id, c.state.trim engine.settings.window, engine.settings.window⟩
    rw [untrimmed, window]
    rfl
  refine ⟨⟨c.session, again, rfl, rfl, fun _ => rfl⟩, ?_, ?_⟩
  · intro τ other
    exact ⟨_, Session.restore_eq_ok.2 ⟨coherent, rfl⟩, rfl, rfl⟩
  · intro τ other snapshot
    constructor
    · rintro ⟨session, restored⟩
      exact (Session.restore_eq_ok.1 restored).1
    · intro coherent
      exact ⟨_, Session.restore_eq_ok.2 ⟨coherent, rfl⟩⟩

end Conversation

end Colloquy
