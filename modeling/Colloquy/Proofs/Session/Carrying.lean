import Colloquy.Proofs.Session.Settling
import Colloquy.Proofs.Session.Outset
import Colloquy.Proofs.Turn.Blindness

/-!
How a call carries out a decision, and what it leaves if it does not fail: whatever the turn has
come to is committed.
-/

set_option autoImplicit false

namespace Colloquy

variable {σ : Type} {engine : Engine σ} {s : Session} {world world' : σ} {call : Call} {m : Machine}
  {d : Decision} {r : Reading} {text : String} {outcome : Outcome}

namespace Session

/-- What a call carries out, and the message that it does so for, with the machine and the backend's
state once the message is understood. -/
structure Carries (s : Session) (engine : Engine σ) (world : σ) (call : Call) (d : Decision)
    (r : Reading) (text : String) (m : Machine) (world' : σ) : Prop where
  heard : m.Heard
  stack : m.state.stack = s.state.stack
  digressions : m.state.digressions = s.state.digressions
  same : s.call engine world call = s.conclude (dispatch engine s.state m world' d r text)
  ready : (Turn.start m world').Ready engine.registry.current d
  origin : (call = .turn text ∧ s.Reads engine world text r ∧ d = s.decision engine r) ∨
    ∃ flow slots, call = .start flow slots ∧ d = .startFlow flow

theorem carries_of_reads (rests : engine.registry.current.Rests s.state)
    (reads : s.Reads engine world text r) :
    s.Carries engine world (.turn text) (s.decision engine r) r text
      (s.machine.after (hearing text)) (s.heeded engine world text) := by
  obtain ⟨heard, same⟩ := call_of_rests rests reads
  have suits := Decision.route_suits engine.settings.maxDigressions
    (engine.registry.current.topNode? s.state.stack) r s.state
  refine ⟨heard, rfl, rfl, same, ⟨rests.waits, suits.begins, ?_⟩, .inl ⟨rfl, reads, rfl⟩⟩
  intro accepted same
  have asked := suits.asked accepted same
  exact ⟨asked, rests.pending asked⟩

theorem carries_of_start (rests : engine.registry.current.Rests s.state) {flow : String}
    {slots : Slots} (admitted : s.denial? engine (.start flow slots) = none) :
    s.Carries engine world (.start flow slots) (.startFlow flow)
      (.certain .intentChange (some flow) slots.toList) ""
      (s.machine.after { phase := some .understanding }) world := by
  have idle : s.state.activeFlow? = none := by
    simp only [denial?] at admitted
    split at admitted
    · simpa using admitted
    · cases admitted
  have empty := Decision.frames_of_activeFlow?.1 idle
  have same := call_eq s engine world (.start flow slots)
  obtain ⟨accepted, heard⟩ := Machine.update_understanding
    (u := { phase := some .understanding }) rests.settled rfl rfl rfl
  simp only [admitted, work, launch, accepted] at same
  exact ⟨heard, rfl, rfl, same, ⟨rests.waits, fun _ _ => empty, by simp⟩, .inr ⟨_, _, rfl, rfl⟩⟩

theorem decision_of_misunderstood {failure : BackendError}
    (done : (misunderstood engine m failure).1 = .ok outcome) : outcome.decision = none := by
  simp only [misunderstood] at done
  split at done
  · cases done
  · cases done
    rfl

structure Comes (s : Session) (engine : Engine σ) (world : σ) (call : Call) (d : Decision)
    (t : Turn σ) (outcome : Outcome) : Prop where
  decision : outcome.decision = some d
  messages : outcome.messages = t.messages
  failure : outcome.failure = t.failure
  trail : (s.call engine world call).trail = t.trail
  stack : (s.call engine world call).session.state.stack = t.stack
  digressions : (s.call engine world call).session.state.digressions =
    t.digressions s.state d
  counted : t.machine.state.digressions = s.state.digressions

theorem Carries.comes (carries : s.Carries engine world call d r text m world')
    (done : (s.call engine world call).result = .ok outcome) :
    ∃ t, Upshot engine.stage r text d (.start m world') t ∧
      s.Comes engine world call d t outcome := by
  have blind := TurnM.blind_perform (s := engine.stage) carries.heard.trimmed
    (Backend.blind_id _) r text d
  have counted := congrArg (·.state.digressions) (blind.amid_machine (t := .start m world'))
  rw [carries.same] at done
  have done : (dispatch engine s.state m world' d r text).result = .ok outcome := done
  obtain ⟨t, ran, committed⟩ := dispatch_eq_ok done
  rw [ran] at counted
  refine ⟨t, .of_perform carries.ready ran, ?_⟩
  have left : (s.call engine world call).session.machine =
      (dispatch engine s.state m world' d r text).machine := by
    rw [carries.same]
    simp only [conclude, done]
  have trail : (s.call engine world call).trail = t.trail := by
    rw [carries.same]
    simp only [conclude, dispatch, ran]
  obtain ⟨phase, waiting, -, stance, -, decision, messages, failure, digressions⟩ :=
    Turn.commit_eq_ok committed
  exact ⟨decision, messages, failure, trail, (congrArg (·.state.stack) left).trans
    (congrArg Stance.stack stance), (congrArg (·.state.digressions) left).trans digressions,
    counted.symm.trans carries.digressions⟩

theorem exists_carries (rests : engine.registry.current.Rests s.state)
    (done : (s.call engine world call).result = .ok outcome) (decided : outcome.decision = some d) :
    ∃ r text m world', s.Carries engine world call d r text m world' := by
  have decision {d' : Decision} {r : Reading} {text : String} {m : Machine} {world' : σ}
      (carries : s.Carries engine world call d' r text m world') :
      s.Carries engine world call d r text m world' := by
    obtain ⟨t, -, comes⟩ := carries.comes done
    obtain rfl : d = d' := Option.some.inj (decided.symm.trans comes.decision)
    exact carries
  cases call with
  | turn text =>
    cases reads : (engine.backend.classify
      (request (s.machine.after (hearing text)).state text) world).1 with
    | error failure =>
      obtain ⟨world', same⟩ := call_of_misread rests.settled reads
      rw [same] at done
      have undecided := decision_of_misunderstood done
      cases undecided.symm.trans decided
    | ok r => exact ⟨r, text, _, _, decision (carries_of_reads rests reads)⟩
  | start flow slots =>
    cases admitted : s.denial? engine (.start flow slots) with
    | some e =>
      rw [call_eq, admitted] at done
      cases done
    | none => exact ⟨_, _, _, _, decision (carries_of_start rests admitted)⟩

end Session

end Colloquy
