import Colloquy.Proofs.Session.Calls

/-!
A session settles after every call, whatever the flows are that it runs, and also when they are
others than those that its stack is about.
-/

set_option autoImplicit false

namespace Colloquy

variable {σ : Type}

theorem Library.isResting_of_resting {l : Library} {stack : Stack} {pending waiting : Option String}
    {phase : Phase} (chosen : l.resting stack pending = .ok (phase, waiting)) :
    phase.isResting = true := by
  obtain ⟨node, -, rest⟩ := bind_eq_ok.1 chosen
  dsimp only at rest
  split at rest
  · cases rest; rfl
  · split at rest
    · cases rest; rfl
    · cases rest; rfl
    · cases rest; rfl
    · split at rest <;> cases rest <;> rfl

namespace Turn

variable {t : Turn σ} {l : Library} {before : State} {d : Decision}

theorem isResting_of_resting {phase : Phase} {waiting : Option String}
    (chosen : t.resting l before d = .ok (phase, waiting)) : phase.isResting = true := by
  unfold resting at chosen
  split at chosen
  · cases chosen; rfl
  · split at chosen
    case h_4 => exact Library.isResting_of_resting chosen
    all_goals
      split at chosen
      · next rests => cases chosen; exact rests
      · exact Library.isResting_of_resting chosen

theorem commit_settled {render : Message → String} {r : Reading} {outcome : Outcome}
    {machine : Machine} (committed : t.commit l render before r d = (.ok outcome, machine)) :
    machine.Settled := by
  obtain ⟨phase, waiting, chosen, stance, sound, -⟩ := commit_eq_ok committed
  have rests : machine.state.phase = phase := congrArg Stance.phase stance
  exact ⟨rests ▸ isResting_of_resting chosen, sound⟩

end Turn

namespace Session

variable {s : Session} {engine : Engine σ} {m : Machine} {world : σ} {outcome : Outcome}

theorem dispatch_settled {before : State} {d : Decision} {r : Reading} {text : String}
    (done : (dispatch engine before m world d r text).result = .ok outcome) :
    (dispatch engine before m world d r text).machine.Settled := by
  obtain ⟨t, -, committed⟩ := dispatch_eq_ok done
  exact Turn.commit_settled committed

theorem misunderstood_settled {failure : BackendError}
    (done : (misunderstood engine m failure).1 = .ok outcome) :
    (misunderstood engine m failure).2.Settled := by
  simp only [misunderstood] at done ⊢
  split at done
  · cases done
  · next machine accepted =>
    refine ⟨?_, Machine.sound_of_update accepted⟩
    obtain ⟨rfl, -⟩ := Machine.update_cases accepted
    rfl

theorem hear_settled {text : String} (done : (hear engine m world text).result = .ok outcome) :
    (hear engine m world text).machine.Settled := by
  unfold hear at done ⊢
  dsimp only at done ⊢
  split at done
  · cases done
  · next machine accepted =>
    split at done
    · exact misunderstood_settled done
    · split at done
      · cases done
      · exact dispatch_settled done

theorem launch_settled {flow : String} {slots : Slots}
    (done : (launch engine m world flow slots).result = .ok outcome) :
    (launch engine m world flow slots).machine.Settled := by
  unfold launch at done ⊢
  dsimp only at done ⊢
  split at done
  · cases done
  · exact dispatch_settled done

def work (s : Session) (engine : Engine σ) (world : σ) : Call → Ending σ
  | .turn text => hear engine s.machine world text
  | .start flow slots => launch engine s.machine world flow slots

theorem call_eq (s : Session) (engine : Engine σ) (world : σ) (call : Call) :
    s.call engine world call =
      match s.denial? engine call with
      | some e => { result := .error e, session := s, world }
      | none => s.conclude (s.work engine world call) := by
  cases call with
  | turn text => rfl
  | start flow slots =>
    change s.startFlow engine world flow slots = _
    simp only [startFlow, denial?]
    split
    · cases s.state.activeFlow? <;> rfl
    · rfl

theorem work_settled {call : Call} (done : (s.work engine world call).result = .ok outcome) :
    (s.work engine world call).machine.Settled := by
  cases call with
  | turn text => exact hear_settled done
  | start flow slots => exact launch_settled done

theorem conclude_settled {ending : Ending σ} (consistent : s.state.Consistent)
    (done : ∀ outcome, ending.result = .ok outcome → ending.machine.Settled) :
    (s.conclude ending).session.machine.Settled := by
  unfold conclude
  cases result : ending.result with
  | ok outcome => exact done outcome result
  | error e =>
    obtain ⟨recovered, settled⟩ := recover_eq consistent ending.machine
    simp only [recovered]
    exact ⟨settled.phase, settled.consistent, Update.length_apply_history ..⟩

theorem call_sound (sound : s.machine.Sound) (call : Call) :
    (s.call engine world call).session.machine.Sound := by
  rw [call_eq]
  split
  · exact sound
  · exact (conclude_settled sound.consistent fun _ => work_settled).sound

theorem call_settled (settled : s.state.Settled) (call : Call) :
    (s.call engine world call).session.state.Settled := by
  rw [call_eq]
  split
  · exact settled
  · have settled' : (s.conclude (s.work engine world call)).session.machine.Settled :=
      conclude_settled settled.consistent fun _ => work_settled
    exact ⟨settled'.phase, settled'.sound.consistent⟩

end Session

end Colloquy
