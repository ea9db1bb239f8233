import Colloquy.Proofs.Session.Recovery

/-!
Digressions. A message that leaves the topic brings the session back to where it stood, and there
are never more of them in a row than the settings put up with.
-/

set_option autoImplicit false

namespace Colloquy

variable {σ : Type} {t : Turn σ} {l : Library}

theorem Library.position_of_waits {stack : Stack}
    (waits : stack.frames = [] ∨ ∃ node, l.topNode? stack = some node ∧ Library.Waits node) :
    ∃ place, l.position stack = .ok place := by
  rcases waits with vacant | ⟨node, stands, -⟩
  · exact ⟨none, by simp only [Library.position, Stack.top?, vacant, List.head?_nil]⟩
  · obtain ⟨graph, index, found⟩ := Library.position_of_topNode? stands
    exact ⟨_, found⟩

theorem Turn.run_ask {place : Option Position} (found : l.position t.stack = .ok place) :
    ∃ asked messages, t.run (TurnM.ask l) = (.ok asked, { t with messages }) := by
  have placed : t.run (TurnM.position l) = (.ok place, t) := by
    rw [TurnM.position, run_bind_ok run_get, found, run_ofExcept_ok]
  unfold TurnM.ask
  rw [run_bind_ok placed]
  split
  · split
    · exact ⟨true, _, rfl⟩
    · exact ⟨false, t.messages, rfl⟩
  · exact ⟨false, t.messages, rfl⟩

theorem Turn.run_aside {s : Stage σ} {place : Option Position}
    (found : s.library.position t.stack = .ok place) (r : Reading) (text : String) {depth : Nat}
    {d : Decision} (aside : d = .digress depth ∨ d = .digressionLimit depth) :
    ∃ messages, t.run (TurnM.perform s r text d) = (.ok (), { t with messages }) := by
  have asks (template : String) : ∃ messages,
      t.run (do
        TurnM.say template
        let _ ← TurnM.ask s.library) = (.ok (), { t with messages }) := by
    let shown : Turn σ := { t with messages := t.messages ++ [t.message template] }
    obtain ⟨asked, messages, ran⟩ := Turn.run_ask (t := shown) found
    refine ⟨messages, ?_⟩
    rw [TurnM.say, run_bind_ok (run_modify _), run_bind_ok ran]
    rfl
  rcases aside with rfl | rfl
  · exact asks "digression"
  · exact asks "digression_limit"

namespace Turn

variable {before : State} {r : Reading} {d : Decision} {limit : Nat}

theorem digressions_le (bounded : t.machine.state.digressions ≤ limit)
    (routed : ∀ depth ∈ d.depth?, depth ≤ limit) : t.digressions before d ≤ limit := by
  unfold digressions
  cases d with
  | digress depth | digressionLimit depth => exact routed depth rfl
  | _ =>
    dsimp only
    split
    · exact Nat.zero_le limit
    · exact bounded

theorem commit_digressions_le (render : Message → String)
    (bounded : t.machine.state.digressions ≤ limit)
    (routed : ∀ depth ∈ d.depth?, depth ≤ limit) :
    (t.commit l render before r d).2.state.digressions ≤ limit := by
  have counted : t.digressions before d ≤ limit := digressions_le bounded routed
  unfold commit
  split
  · exact bounded
  · split
    · exact bounded
    · next accepted =>
      obtain ⟨rfl, -⟩ := Machine.update_cases accepted
      dsimp only
      split
      · exact counted
      · next accepted =>
        obtain ⟨rfl, -⟩ := Machine.update_cases accepted
        exact counted

end Turn

namespace Session

variable {engine : Engine σ} {s : Session} {m : Machine} {before : State} {world : σ}
  {d : Decision} {r : Reading} {text : String}

-- A session at rest stands at a step, so that the question can be asked again.
theorem dispatch_aside {d : Decision} {r : Reading} {text : String} {depth : Nat}
    (rests : engine.registry.current.Rests before) (heard : m.Heard)
    (stack : m.state.stack = before.stack) (pending : m.state.pending = before.pending)
    (aside : d = .digress depth ∨ d = .digressionLimit depth) :
    ∃ machine outcome, machine.state.stance = before.stance ∧
      dispatch engine before m world d r text = ⟨.ok outcome, machine, world, []⟩ := by
  have quiet : d.isQuiet = true := by rcases aside with rfl | rfl <;> rfl
  obtain ⟨place, found⟩ := Library.position_of_waits rests.waits
  rw [← stack] at found
  obtain ⟨messages, ran⟩ := Turn.run_aside (t := .start m world)
    (s := engine.stage) found r text aside
  let t : Turn σ := { Turn.start m world with messages }
  have same : t.stack = before.stack := stack
  have asked : t.pending = before.pending := pending
  have upright : engine.registry.current.Upright t.stack.frames := same ▸ rests.upright
  have ends : t.Ends engine.registry.current := .rests rfl (same ▸ rests.waits)
  obtain ⟨result, machine, committed, cases⟩ := Turn.commit_cases engine.backend.render r rests
    heard (.begun rfl rfl) upright ends (d := d) fun _ => ⟨same, asked⟩
  rcases cases with ⟨⟨open', vacant, -⟩, -⟩ | ⟨⟨outcome, rfl⟩, -⟩
  · rw [asked] at open'
    rw [same] at vacant
    exact absurd vacant (rests.pending open')
  · obtain ⟨phase, waiting, chosen, stance, -⟩ := Turn.commit_eq_ok committed
    rw [Turn.resting_of_isQuiet rfl rests.phase quiet] at chosen
    cases chosen
    refine ⟨machine, outcome, ?_, ?_⟩
    · rw [stance, same, asked]
      rfl
    · simp only [dispatch, ran]
      rw [show Turn.commit _ _ _ _ _ _ = _ from committed]
      rfl

theorem dispatch_digressions_le {limit : Nat} (trimmed : m.state.history.length ≤ m.window)
    (bounded : m.state.digressions ≤ limit) (routed : ∀ depth ∈ d.depth?, depth ≤ limit) :
    (dispatch engine before m world d r text).machine.state.digressions ≤ limit := by
  have blind := TurnM.blind_perform (s := engine.stage) trimmed (Backend.blind_id _) r text d
  have within := congrArg (·.state.digressions) (blind.amid_machine (t := .start m world))
  simp only [dispatch]
  cases ran : (Turn.start m world).run (TurnM.perform engine.stage r text d) with
  | mk result t =>
    rw [ran] at within
    have bounded : t.machine.state.digressions ≤ limit := within.symm.trans_le bounded
    cases result with
    | error e => exact bounded
    | ok _ => exact Turn.commit_digressions_le engine.backend.render bounded routed

theorem hear_digressions_le (bounded : m.state.digressions ≤ engine.settings.maxDigressions) :
    (hear engine m world text).machine.state.digressions ≤ engine.settings.maxDigressions := by
  unfold hear
  dsimp only
  split
  · exact bounded
  · next accepted =>
    obtain ⟨rfl, -⟩ := Machine.update_cases accepted
    split
    · dsimp only [misunderstood]
      split
      · exact bounded
      · next accepted =>
        obtain ⟨rfl, -⟩ := Machine.update_cases accepted
        exact bounded
    · split
      · exact bounded
      · exact dispatch_digressions_le (Update.length_apply_history ..) bounded
          (Decision.depth?_route_le bounded)

theorem launch_digressions_le {flow : String} {slots : Slots} {limit : Nat}
    (bounded : m.state.digressions ≤ limit) :
    (launch engine m world flow slots).machine.state.digressions ≤ limit := by
  unfold launch
  dsimp only
  split
  · exact bounded
  · next accepted =>
    obtain ⟨rfl, -⟩ := Machine.update_cases accepted
    exact dispatch_digressions_le (Update.length_apply_history ..) bounded
      (by simp [Decision.depth?])

theorem call_digressions_le (consistent : s.state.Consistent)
    (bounded : s.state.digressions ≤ engine.settings.maxDigressions) (call : Call) :
    (s.call engine world call).session.state.digressions ≤ engine.settings.maxDigressions := by
  rw [call_eq]
  split
  · exact bounded
  · have worked : (s.work engine world call).machine.state.digressions ≤
        engine.settings.maxDigressions := by
      cases call with
      | turn text => exact hear_digressions_le bounded
      | start flow slots => exact launch_digressions_le bounded
    unfold conclude
    cases (s.work engine world call).result with
    | ok outcome => exact worked
    | error e =>
      simp only [(recover_eq consistent (s.work engine world call).machine).1]
      exact worked

end Session

/-- No session ever counts more digressions in a row than there may be. -/
theorem Conversation.Reached.digressions_le {c : Conversation σ} (reached : c.Reached) :
    c.state.digressions ≤ c.engine.settings.maxDigressions := by
  induction reached with
  | opened => exact Nat.zero_le _
  | called call reached ih =>
    exact Session.call_digressions_le reached.settled.consistent ih call
  | reloaded _ _ ih => exact ih

end Colloquy
