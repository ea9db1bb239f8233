import Colloquy.Proofs.Session.Invariant
import Colloquy.Proofs.Session.Recovery
import Colloquy.Proofs.Session.Script
import Colloquy.Proofs.State.Ledger

/-!
The transcript of a conversation. What a session keeps of it is its end, as much as the window
holds; messages are counted whether they were answered or not; and what the outcome of a call tells
is what the session then holds.
-/

set_option autoImplicit false

namespace Colloquy

variable {σ : Type}

def answered : Except TurnError Outcome → List Line
  | .ok outcome => outcome.responses.map (Line.mk .assistant)
  | .error _ => []

namespace Call

def isTurn : Call → Bool
  | .turn _ => true
  | .start .. => false

def heard : Call → List Line
  | .turn text => [⟨.user, text⟩]
  | .start .. => []

/-- What is said in a call that has this result. -/
def lines (call : Call) (result : Except TurnError Outcome) : List Line :=
  call.heard ++ answered result

end Call

/-- All that is said in some calls. -/
def Conversation.transcript (c : Conversation σ) : List Call → List Line
  | [] => []
  | call :: calls => call.lines (c.reply call).result ++ (c.next call).transcript calls

/-- An outcome tells what was shown, and what the session then holds. -/
structure Outcome.Recorded (render : Message → String) (s : State) (outcome : Outcome) : Prop where
  responses : outcome.responses = outcome.messages.map render
  phase : outcome.phase = s.phase
  waiting : outcome.waiting = s.waiting
  response : s.response = outcome.responses.getLast?

namespace Machine

structure Tells (k m : Machine) (messages : Nat) (lines : List Line) : Prop where
  window : m.window = k.window
  turns : m.state.turns = k.state.turns + messages
  history : m.state.history = (k.state.history ++ lines).rtake k.window

variable {k m m' : Machine} {messages messages' : Nat} {lines lines' : List Line} {u : Update}

theorem Tells.refl (trimmed : m.state.history.length ≤ m.window) : m.Tells m 0 [] := by
  refine ⟨rfl, rfl, ?_⟩
  rw [List.append_nil, rtake_of_length_le trimmed]

theorem Tells.trans (first : k.Tells m messages lines) (next : m.Tells m' messages' lines') :
    k.Tells m' (messages + messages') (lines ++ lines') := by
  refine ⟨next.window.trans first.window, ?_, ?_⟩
  · rw [next.turns, first.turns, Nat.add_assoc]
  · rw [next.history, first.history, first.window, rtake_append_rtake, List.append_assoc]

theorem Tells.trimmed (tells : k.Tells m messages lines) : m.state.history.length ≤ m.window := by
  rw [tells.history, tells.window, List.rtake, List.length_drop]
  omega

theorem tells_after (turns : u.turns = none) (history : u.history = none) :
    m.Tells (m.after u) u.countsTurn.toNat u.lines := by
  refine ⟨rfl, ?_, ?_⟩
  · cases counts : u.countsTurn <;> simp [after, Update.apply, State.trim, turns, counts]
  · simp only [after, Update.apply, State.trim, history, Option.getD_none]
    rfl

theorem tells_of_amid (trimmed : k.state.history.length ≤ k.window) (within : m.amid k = m) :
    k.Tells m 0 [] := by
  rw [← within]
  exact ⟨rfl, rfl, (Tells.refl trimmed).history⟩

structure Records (render : Message → String) (k m : Machine)
    (result : Except TurnError Outcome) : Prop where
  tells : k.Tells m 0 (answered result)
  recorded : ∀ outcome, result = .ok outcome → outcome.Recorded render m.state

theorem Tells.records {render : Message → String} {result : Except TurnError Outcome}
    (first : k.Tells m 0 []) (rest : m.Records render m' result) : k.Records render m' result := by
  refine ⟨?_, rest.recorded⟩
  simpa using first.trans rest.tells

theorem Tells.records_error {render : Message → String} (tells : k.Tells m 0 []) (e : TurnError) :
    k.Records render m (.error e) :=
  ⟨tells, fun _ done => nomatch done⟩

end Machine

open Machine (Tells Records)

-- Only the second update of a commit adds to the history, so that nothing is said if it is refused.
theorem Turn.commit_records {t : Turn σ} (trimmed : t.machine.state.history.length ≤ t.machine.window)
    (l : Library) (render : Message → String) (before : State) (r : Reading) (d : Decision) :
    t.machine.Records render (t.commit l render before r d).2 (t.commit l render before r d).1 := by
  have still (e : TurnError) : t.machine.Records render t.machine (.error e) :=
    (Tells.refl trimmed).records_error e
  unfold commit
  split
  · exact still _
  · next phase waiting _ =>
    split
    · exact still _
    · next machine accepted =>
      obtain ⟨rfl, -⟩ := Machine.update_cases accepted
      have effects := Machine.tells_after (m := t.machine) (u := t.effects before r d waiting) rfl rfl
      dsimp only
      split
      · exact effects.records_error _
      · next settled =>
        obtain ⟨rfl, -⟩ := Machine.update_cases settled
        exact ⟨effects.trans (Machine.tells_after rfl rfl), by rintro _ ⟨⟩; exact ⟨rfl, rfl, rfl, rfl⟩⟩

namespace Session

variable {s : Session} {engine : Engine σ} {k m : Machine} {world : σ}

theorem dispatch_records (trimmed : k.state.history.length ≤ k.window) (before : State) (world : σ)
    (d : Decision) (r : Reading) (text : String) :
    k.Records engine.backend.render (dispatch engine before k world d r text).machine
      (dispatch engine before k world d r text).result := by
  have blind := TurnM.blind_perform (s := engine.stage) trimmed (Backend.blind_id _) r text d
  have within := Machine.tells_of_amid trimmed (blind.amid_machine (t := .start k world))
  simp only [dispatch]
  cases ran : (Turn.start k world).run (TurnM.perform engine.stage r text d) with
  | mk result t =>
    rw [ran] at within
    cases result with
    | error e => exact within.records_error e
    | ok _ => exact within.records (Turn.commit_records within.trimmed ..)

def Misreads (s : Session) (engine : Engine σ) (world : σ) (text : String)
    (failure : BackendError) : Prop :=
  (engine.backend.classify (request (s.machine.after (hearing text)).state text) world).1 =
    .error failure

theorem misunderstood_records (trimmed : m.state.history.length ≤ m.window)
    (failure : BackendError) :
    m.Records engine.backend.render (misunderstood engine m failure).2
      (misunderstood engine m failure).1 := by
  simp only [misunderstood]
  split
  · exact (Tells.refl trimmed).records_error _
  · next accepted =>
    obtain ⟨rfl, -⟩ := Machine.update_cases accepted
    exact ⟨Machine.tells_after rfl rfl, by rintro _ ⟨⟩; exact ⟨rfl, rfl, rfl, rfl⟩⟩

theorem messages_of_misunderstood {failure : BackendError} {outcome : Outcome}
    (done : (misunderstood engine m failure).1 = .ok outcome) :
    ∃ message, message.template = "error" ∧ outcome.messages = [message] := by
  simp only [misunderstood] at done
  split at done <;> cases done
  exact ⟨_, rfl, rfl⟩

theorem work_records (settled : s.state.Settled) (engine : Engine σ) (world : σ) (call : Call) :
    (s.machine.after (coming call)).Records engine.backend.render (s.work engine world call).machine
      (s.work engine world call).result := by
  have trimmed : (s.machine.after (coming call)).state.history.length ≤ s.machine.window :=
    Update.length_apply_history ..
  cases call with
  | turn text =>
    obtain ⟨accepted, -⟩ := Machine.update_understanding (u := hearing text) settled rfl rfl rfl
    simp only [work, hear, accepted]
    split
    · exact misunderstood_records trimmed _
    · split
      · exact (Tells.refl trimmed).records_error _
      · exact dispatch_records trimmed ..
  | start flow slots =>
    obtain ⟨accepted, -⟩ := Machine.update_understanding
      (u := { phase := some .understanding }) settled rfl rfl rfl
    simp only [work, launch, accepted]
    exact dispatch_records trimmed ..

theorem conclude_records {render : Message → String} {ending : Ending σ}
    (consistent : s.state.Consistent) (records : k.Records render ending.machine ending.result) :
    k.Records render (s.conclude ending).session.machine (s.conclude ending).result := by
  obtain ⟨result, machine, world, trail⟩ := ending
  cases result with
  | ok outcome => exact records
  | error e =>
    obtain ⟨recovered, -⟩ := recover_eq consistent machine
    simp only [conclude, recovered]
    have back := Machine.tells_after (m := machine) (u := takingBack s.state) rfl rfl
    exact (records.tells.trans back).records_error e

/-- What a call adds to the session's record of the conversation. -/
theorem call_tells (settled : s.machine.Settled) (engine : Engine σ) (world : σ) (call : Call) :
    s.machine.Tells (s.call engine world call).session.machine call.isTurn.toNat
        (call.lines (s.call engine world call).result) ∧
      ∀ outcome, (s.call engine world call).result = .ok outcome →
        outcome.Recorded engine.backend.render (s.call engine world call).session.state := by
  rw [call_eq]
  cases denied : s.denial? engine call with
  | some e =>
    refine ⟨?_, fun _ done => nomatch done⟩
    cases call with
    | turn text => cases denied
    | start flow slots => exact .refl settled.sound.trimmed
  | none =>
    have comes : s.machine.Tells (s.machine.after (coming call)) call.isTurn.toNat call.heard := by
      cases call <;> exact Machine.tells_after rfl rfl
    have records := conclude_records settled.sound.consistent
      (work_records ⟨settled.phase, settled.sound.consistent⟩ engine world call)
    exact ⟨comes.trans records.tells, records.recorded⟩

theorem call_misread {text : String} {failure : BackendError} (settled : s.state.Settled)
    (misreads : s.Misreads engine world text failure) :
    ∃ outcome message, (s.call engine world (.turn text)).result = .ok outcome ∧
      message.template = "error" ∧ outcome.messages = [message] := by
  obtain ⟨-, heard⟩ := Machine.update_understanding (u := hearing text) settled rfl rfl rfl
  obtain ⟨outcome, response, answered⟩ := misunderstood_eq engine heard failure
  obtain ⟨world', same⟩ := call_of_misread settled misreads
  have done := congrArg Prod.fst answered
  obtain ⟨message, template, messages⟩ := messages_of_misunderstood done
  exact ⟨outcome, message, (congrArg Reply.result same).trans done, template, messages⟩

end Session

namespace Conversation

open Script

variable {c : Conversation σ}

theorem Reached.machine (reached : c.Reached) : c.session.machine.Settled :=
  ⟨reached.settled.phase, reached.lived.sound⟩

theorem Reached.after_tells (reached : c.Reached) (calls : List Call) :
    c.session.machine.Tells (c.after calls).session.machine (calls.countP Call.isTurn)
      (c.transcript calls) := by
  induction calls generalizing c with
  | nil => exact .refl reached.machine.sound.trimmed
  | cons call calls ih =>
    have first : c.session.machine.Tells (c.next call).session.machine call.isTurn.toNat
        (call.lines (c.reply call).result) :=
      (Session.call_tells reached.machine c.engine c.world call).1
    have rest := ih (c := c.next call) (.called call reached)
    have counted : (call :: calls).countP Call.isTurn =
        call.isTurn.toNat + calls.countP Call.isTurn := by
      rw [List.countP_cons, Nat.add_comm]
      cases call.isTurn <;> rfl
    rw [counted]
    exact first.trans rest

/-- After any calls, all messages have been counted and the history is the end of all that was said,
a failed call keeping only what the user said. Whatever the next call gives is what the session then
holds, and a message that is not understood is answered with an apology alone. -/
theorem transcript_kept (id : String) (engine : Engine σ) (world : σ) (calls : List Call) :
    let c := (opened id engine world).after calls
    c.state.turns = calls.countP Call.isTurn ∧
    c.state.history = ((opened id engine world).transcript calls).rtake engine.settings.window ∧
    (∀ call outcome, (c.reply call).result = .ok outcome →
      outcome.Recorded engine.backend.render (c.next call).state) ∧
    ∀ text failure, c.session.Misreads engine c.world text failure →
      ∃ outcome message, (c.reply (.turn text)).result = .ok outcome ∧
        message.template = "error" ∧ outcome.messages = [message] := by
  intro c
  have reached : c.Reached := (Reached.opened id engine world).after calls
  have same : c.engine = engine := after_engine calls
  have tells := (Reached.opened id engine world).after_tells calls
  refine ⟨?_, tells.history, ?_, ?_⟩
  · rw [← Nat.zero_add (calls.countP Call.isTurn)]
    exact tells.turns
  · intro call outcome done
    rw [← same]
    exact (Session.call_tells reached.machine c.engine c.world call).2 outcome done
  · intro text failure misreads
    rw [← same] at misreads
    exact Session.call_misread reached.settled misreads

theorem transcript_kept_unheard :
    let c := (scripted [asking] [continues]).after [.start "ask" .empty, .turn "5"]
    c.state.turns = 1 ∧ c.state.history = [⟨.assistant, "ask_x"⟩, ⟨.user, "5"⟩] ∧
      c.session.Misreads c.engine c.world "what" (.classification "") ∧
      ∃ outcome message, (c.reply (.turn "what")).result = .ok outcome ∧
        message.template = "error" ∧ outcome.messages = [message] := by
  intro c
  obtain ⟨turns, history, -, apology⟩ := transcript_kept "script" (.scripted [asking]) [continues]
    [.start "ask" .empty, .turn "5"]
  have misreads : c.session.Misreads c.engine c.world "what" (.classification "") := rfl
  exact ⟨turns, history, misreads, apology "what" _ misreads⟩

end Conversation

end Colloquy
