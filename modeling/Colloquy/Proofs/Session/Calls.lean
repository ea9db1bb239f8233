import Colloquy.Proofs.Session.Commit
import Colloquy.Proofs.Session.Routing

/-!
What a call of a session comes to when the session was at rest: the turn that it goes through, and
how the session is left.
-/

set_option autoImplicit false

namespace Colloquy

variable {σ : Type} {engine : Engine σ} {before : State} {m : Machine} {world : σ} {d : Decision}

abbrev Engine.stage (engine : Engine σ) : Stage σ :=
  ⟨engine.registry.current, engine.backend, engine.settings.maxSteps⟩

namespace Session

theorem recover_eq (consistent : before.Consistent) (machine : Machine) :
    recover before machine = machine.after (takingBack before) ∧
      (machine.after (takingBack before)).state.Settled := by
  have sound : (machine.after (takingBack before)).state.Consistent :=
    consistent.of_isFree rfl rfl (.inr rfl)
  have accepted :=
    Machine.update_eq_ok (Machine.permits_of_leadsTo rfl (Phase.leadsTo_error _)) sound
  exact ⟨by simp only [recover, accepted], rfl, sound⟩

end Session

theorem Turn.ends_of_rested {l : Library} {backend : Backend σ} {asked : Option String}
    {given : Slots} {t₀ t : Turn σ} (moves : Moves l backend asked given d t₀ t)
    (waits : t₀.stack.frames = [] ∨ ∃ node, l.topNode? t₀.stack = some node ∧ Library.Waits node)
    (rested : l.Rested t) : t.Ends l := by
  rcases rested with halts | ⟨quiet, ready⟩
  · cases halts with
    | finished frames ready => exact .rests ready (.inl frames)
    | asks frames stands asks ready =>
      refine .rests ready (.inr ⟨_, ?_, .inl asks⟩)
      rw [Library.topNode?, top?_eq frames]
      exact stands
    | fails frames stands activity failed =>
      refine .fails failed ?_ activity
      rw [Library.topNode?, top?_eq frames]
      exact stands
  · obtain ⟨node, empty⟩ := topNode?_of_moves moves quiet
    apply Ends.rests ready
    rcases waits with vacant | standing
    · exact .inl (by simpa [Stack.isEmpty, vacant] using empty)
    · rw [node]
      exact .inr standing

namespace Session

/-- What comes of a turn that has gone along to `t`, where its steps ended as `ran`. -/
inductive Result (l : Library) (before : State) (ran : Except TurnError Unit) (t : Turn σ)
    (machine : Machine) : Except TurnError Outcome → Prop where
  | failed {e : TurnError} : ran = .error e → t.Stuck l before.pending e →
      machine.state.pending = before.pending → Result l before ran t machine (.error e)
  | refused : ran = .ok () → t.Bereft → machine.state.pending = t.pending →
      Result l before ran t machine (.error (.state (.inconsistent (.noFlow .confirming))))
  | done {outcome : Outcome} : ran = .ok () → l.Rests machine.state →
      machine.state.stack = t.stack → machine.state.pending = t.pending →
      Result l before ran t machine (.ok outcome)

theorem Result.settled {l : Library} {ran : Except TurnError Unit} {t : Turn σ} {machine : Machine}
    {result : Except TurnError Outcome} (ends : Result l before ran t machine result)
    (completed : ran = .ok ()) (closed : t.pending = none) :
    (∃ outcome, result = .ok outcome) ∧ machine.state.stack = t.stack := by
  cases ends with
  | failed fails => cases fails.symm.trans completed
  | refused _ bereft => simp [Turn.Bereft, closed] at bereft
  | done _ _ stack _ => exact ⟨⟨_, rfl⟩, stack⟩

theorem dispatch_cases (world : σ) (r : Reading) (text : String)
    (named : engine.registry.current.Named)
    (rests : engine.registry.current.Rests before) (heard : m.Heard)
    (stack : m.state.stack = before.stack) (pending : m.state.pending = before.pending)
    (begins : ∀ flow, d = .startFlow flow → before.stack.frames = []) :
    ∃ ran t, (Turn.start m world).run (TurnM.perform engine.stage r text d) = (ran, t) ∧
      Moves engine.registry.current engine.backend before.pending (.ofList r.slots) d
        (Turn.start m world) t ∧
      (dispatch engine before m world d r text).trail = t.trail ∧
      Result engine.registry.current before ran t
        (dispatch engine before m world d r text).machine
        (dispatch engine before m world d r text).result := by
  have fresh : (Turn.start m world).Fresh m := ⟨.begun rfl rfl, rfl, rfl⟩
  have along : (Turn.start m world).Along _ (TurnM.perform engine.stage r text d) _ _ :=
    Turn.along_perform named heard fresh (by rw [Turn.start, stack, pending]; exact rests.pending)
      (by rw [Turn.start, stack]; exact begins)
  obtain ⟨moves, ends⟩ := along
  simp only [dispatch]
  cases ran : (Turn.start m world).run (TurnM.perform engine.stage r text d) with
  | mk result t =>
    rw [ran] at moves ends
    dsimp only at moves ends
    rw [show (Turn.start m world).pending = before.pending from pending] at moves ends
    have kept := fresh.kept.moves moves
    refine ⟨result, t, rfl, moves, ?_⟩
    cases result with
    | error e =>
      refine ⟨rfl, .failed rfl ends ?_⟩
      rcases kept with ⟨-, machine⟩ | ⟨-, machine⟩ | ⟨-, machine⟩ <;>
        exact (congrArg (·.state.pending) machine).trans pending
    | ok _ =>
      have same : (Turn.start m world).stack = before.stack := stack
      have upright := Turn.upright_of_moves moves (by rw [same]; exact rests.upright)
      have ends := Turn.ends_of_rested moves (by rw [same]; exact rests.waits) ends
      have quiet (still : d.isQuiet = true) :
          t.stack = before.stack ∧ t.pending = before.pending := by
        rw [Turn.eq_of_quiet_moves moves rfl still]
        exact ⟨stack, pending⟩
      obtain ⟨result, machine, committed, cases⟩ :=
        Turn.commit_cases engine.backend.render r rests heard kept upright ends quiet
      simp only [committed]
      rcases cases with ⟨bereft, rfl, left⟩ | ⟨⟨outcome, rfl⟩, rests, stack, left⟩
      · exact ⟨trivial, .refused rfl bereft left⟩
      · exact ⟨trivial, .done rfl rests stack left⟩

theorem dispatch_eq_ok {r : Reading} {text : String} {outcome : Outcome}
    (done : (dispatch engine before m world d r text).result = .ok outcome) :
    ∃ t, (Turn.start m world).run (TurnM.perform engine.stage r text d) = (.ok (), t) ∧
      t.commit engine.registry.current engine.backend.render before r d =
        (.ok outcome, (dispatch engine before m world d r text).machine) := by
  simp only [dispatch] at done ⊢
  cases ran : (Turn.start m world).run (TurnM.perform engine.stage r text d) with
  | mk result t =>
    simp only [ran] at done ⊢
    cases result with
    | error e => cases done
    | ok _ => exact ⟨t, rfl, Prod.ext done rfl⟩

theorem misunderstood_eq (engine : Engine σ) (heard : m.Heard) (failure : BackendError) :
    ∃ outcome response, misunderstood engine m failure =
      (.ok outcome, m.after (apologizing response)) := by
  have accepted (response : String) :
      m.update (apologizing response) = .ok (m.after (apologizing response)) := by
    apply Machine.update_eq_ok (Machine.permits_of_leadsTo rfl (Phase.leadsTo_error _))
    exact heard.consistent.of_isFree rfl rfl (.inr rfl)
  simp only [misunderstood, accepted]
  exact ⟨_, _, rfl⟩

/-- How a call leaves the session, after a turn that has gone along to `t`. -/
inductive Closes (before : State) (t : Turn σ) (after : State) :
    Except TurnError Outcome → Prop where
  | failed {e : TurnError} : (∀ cause, e ≠ .state cause) →
      (t.stack.frames = [] → t.trail = []) → after.stack = before.stack →
      after.pending = before.pending → Closes before t after (.error e)
  | refused : t.Bereft → after.stack = before.stack → after.pending = t.pending →
      Closes before t after (.error (.state (.inconsistent (.noFlow .confirming))))
  | done {outcome : Outcome} : after.stack = t.stack → after.pending = t.pending →
      Closes before t after (.ok outcome)

theorem conclude_closes {s : Session} {ending : Ending σ} {l : Library} {t : Turn σ}
    {ran : Except TurnError Unit} (rests : l.Rests s.state)
    (result : Result l s.state ran t ending.machine ending.result)
    (backed : t.Bereft → s.state.stack.frames ≠ []) :
    l.Rests (s.conclude ending).session.state ∧
      Closes s.state t (s.conclude ending).session.state (s.conclude ending).result := by
  obtain ⟨result', machine, world, trail⟩ := ending
  obtain ⟨recovered, -⟩ := recover_eq rests.consistent machine
  cases result with
  | failed _ stuck same =>
    simp only [conclude, recovered]
    refine ⟨rests.of_error rfl rfl rfl fun waits => rests.pending ?_,
      .failed stuck.notState (absurd · stuck.frames) rfl same⟩
    rw [← show machine.state.pending = s.state.pending from same]
    exact waits
  | refused _ bereft same =>
    simp only [conclude, recovered]
    exact ⟨rests.of_error rfl rfl rfl fun _ => backed bereft, .refused bereft rfl same⟩
  | done _ rests' stack' pending' => exact ⟨rests', .done stack' pending'⟩

def Reads (s : Session) (engine : Engine σ) (world : σ) (text : String) (r : Reading) : Prop :=
  (engine.backend.classify (request (s.machine.after (hearing text)).state text) world).1 = .ok r

def Confirms (s : Session) (engine : Engine σ) (world : σ) (call : Call) (affirmed : Bool) : Prop :=
  ∃ text r, call = .turn text ∧ s.Reads engine world text r ∧ r.kind = .confirmation ∧
    r.polarity? = some affirmed

def given (s : Session) (engine : Engine σ) (world : σ) : Call → Slots
  | .turn text =>
    match (engine.backend.classify
      (request (s.machine.after (hearing text)).state text) world).1 with
    | .ok r => .ofList r.slots
    | .error _ => .empty
  | .start _ slots => .ofList slots.toList

theorem given_of_reads {s : Session} {text : String} {r : Reading}
    (reads : s.Reads engine world text r) :
    s.given engine world (.turn text) = .ofList r.slots := by
  simp only [given, show _ = Except.ok r from reads]

/-- Why a call is turned away before anything is done: it is to start a flow that is unknown, or to
start one while another runs. -/
def denial? (s : Session) (engine : Engine σ) : Call → Option TurnError
  | .turn _ => none
  | .start flow _ =>
    if engine.registry.current.contains flow then
      s.state.activeFlow?.map fun active => .stack (.notEmpty active)
    else some (.unknownFlow flow)

theorem call_of_misread {s : Session} {text : String} {failure : BackendError}
    (settled : s.state.Settled)
    (misread : (engine.backend.classify
      (request (s.machine.after (hearing text)).state text) world).1 = .error failure) :
    ∃ world', s.call engine world (.turn text) = s.conclude
      ⟨(misunderstood engine (s.machine.after (hearing text)) failure).1,
        (misunderstood engine (s.machine.after (hearing text)) failure).2, world', []⟩ := by
  obtain ⟨accepted, -⟩ := Machine.update_understanding (u := hearing text) settled rfl rfl rfl
  cases classified : engine.backend.classify
    (request (s.machine.after (hearing text)).state text) world with
  | mk result world' =>
    rw [classified] at misread
    subst misread
    refine ⟨world', ?_⟩
    change s.conclude (hear engine s.machine world text) = _
    simp only [hear, accepted, classified]

def heeded (s : Session) (engine : Engine σ) (world : σ) (text : String) : σ :=
  (engine.backend.classify (request (s.machine.after (hearing text)).state text) world).2

-- The step of the running flow is looked up before the message is routed, whatever the message is.
theorem call_of_reads {s : Session} {text : String} {r : Reading} (settled : s.state.Settled)
    (reads : s.Reads engine world text r) :
    (s.machine.after (hearing text)).Heard ∧
      s.call engine world (.turn text) = s.conclude
        (match engine.registry.current.currentNode s.state.stack with
        | .error e =>
          ⟨.error e, s.machine.after (hearing text), s.heeded engine world text, []⟩
        | .ok current => dispatch engine s.state (s.machine.after (hearing text))
            (s.heeded engine world text) (Decision.route engine.settings.maxDigressions current r
              (s.machine.after (hearing text)).state) r text) := by
  obtain ⟨accepted, heard⟩ := Machine.update_understanding (u := hearing text) settled rfl rfl rfl
  unfold Reads at reads
  unfold heeded
  cases classified : engine.backend.classify
    (request (s.machine.after (hearing text)).state text) world with
  | mk result world' =>
    rw [classified] at reads
    subst reads
    refine ⟨heard, ?_⟩
    change s.conclude (hear engine s.machine world text) = _
    simp only [hear, accepted, classified]
    rfl

def decision (s : Session) (engine : Engine σ) (r : Reading) : Decision :=
  Decision.route engine.settings.maxDigressions (engine.registry.current.topNode? s.state.stack) r
    s.state

theorem call_of_rests {s : Session} {text : String} {r : Reading}
    (rests : engine.registry.current.Rests s.state) (reads : s.Reads engine world text r) :
    (s.machine.after (hearing text)).Heard ∧
      s.call engine world (.turn text) = s.conclude
        (dispatch engine s.state (s.machine.after (hearing text)) (s.heeded engine world text)
          (s.decision engine r) r text) := by
  obtain ⟨heard, same⟩ := call_of_reads rests.settled reads
  have known : ∀ f ∈ s.state.stack.top?, (engine.registry.current.get? f.flow).isSome :=
    fun f found => (rests.upright.top f found).known
  rw [Library.currentNode_eq known] at same
  exact ⟨heard, same⟩

/-- A call to a session at rest goes through a turn from `t₀` to `t`, which carries out `d`. -/
structure Goes (s : Session) (engine : Engine σ) (world : σ) (call : Call) (d : Decision)
    (t₀ t : Turn σ) : Prop where
  stack : t₀.stack = s.state.stack
  pending : t₀.pending = s.state.pending
  begun : t₀.trail = []
  moves : Moves engine.registry.current engine.backend t₀.pending (s.given engine world call) d t₀ t
  trail : (s.call engine world call).trail = t.trail
  proposes : ∀ flow, d = .proposeChange flow → s.state.stack.frames ≠ []
  answers : ∀ accepted, d = .answerChange accepted → s.Confirms engine world call accepted
  confirms : ∀ affirmed, d = .answer affirmed → s.Confirms engine world call affirmed
  stuck : ∀ e, (s.call engine world call).result = .error e → (∀ cause, e ≠ .state cause) →
    s.denial? engine call = some e ∨ t.Stuck engine.registry.current t₀.pending e
  rests : engine.registry.current.Rests (s.call engine world call).session.state
  closes : Closes s.state t (s.call engine world call).session.state
    (s.call engine world call).result

-- A call that is answered without a turn, as if the turn had done nothing.
theorem goes_nowhere {s : Session} {call : Call} {t : Turn σ} (stack : t.stack = s.state.stack)
    (pending : t.pending = s.state.pending) (begun : t.trail = [])
    (trail : (s.call engine world call).trail = [])
    (denied : ∀ e, (s.call engine world call).result = .error e → s.denial? engine call = some e)
    (rests : engine.registry.current.Rests (s.call engine world call).session.state)
    (closes : Closes s.state t (s.call engine world call).session.state
      (s.call engine world call).result) :
    ∃ d t₀ t, s.Goes engine world call d t₀ t :=
  ⟨.reprompt, t, t, stack, pending, begun, .refl, trail.trans begun.symm, by simp, by simp, by simp,
    fun e fails _ => .inl (denied e fails), rests, closes⟩

theorem goes_through {s : Session} {call : Call} {world' : σ} {r : Reading} {text : String}
    (named : engine.registry.current.Named) (rests : engine.registry.current.Rests s.state)
    (heard : m.Heard) (stack : m.state.stack = s.state.stack)
    (pending : m.state.pending = s.state.pending)
    (gives : s.given engine world call = .ofList r.slots)
    (same : s.call engine world call = s.conclude (dispatch engine s.state m world' d r text))
    (begins : ∀ flow, d = .startFlow flow → s.state.stack.frames = [])
    (proposes : ∀ flow, d = .proposeChange flow → s.state.stack.frames ≠ [])
    (answers : ∀ accepted, d = .answerChange accepted → s.Confirms engine world call accepted)
    (confirms : ∀ affirmed, d = .answer affirmed → s.Confirms engine world call affirmed) :
    ∃ t₀ t, s.Goes engine world call d t₀ t := by
  obtain ⟨ran, t, -, moves, trail, result⟩ := dispatch_cases world' r text named rests heard stack
    pending begins
  have asked : (Turn.start m world').pending = s.state.pending := pending
  rw [← asked, ← gives] at moves
  have traced := Turn.traced_of_moves rfl moves
  have backed (bereft : t.Bereft) : s.state.stack.frames ≠ [] := by
    rcases traced.pending with kept | ⟨none, -⟩ | ⟨flow, proposed⟩
    · exact rests.pending (by rw [← asked, ← kept]; exact bereft.1)
    · have := bereft.1
      simp [none] at this
    · exact proposes flow proposed
  obtain ⟨rests', closes⟩ := conclude_closes rests result backed
  have stuck (e : TurnError) (fails : (s.call engine world call).result = .error e)
      (notState : ∀ cause, e ≠ .state cause) :
      t.Stuck engine.registry.current s.state.pending e := by
    rw [same] at fails
    change (dispatch engine s.state m world' d r text).result = .error e at fails
    rw [fails] at result
    cases result with
    | failed _ stuck => exact stuck
    | refused => exact absurd rfl (notState _)
  exact ⟨_, t, stack, pending, rfl, moves, same ▸ trail, proposes, answers, confirms,
    fun e fails notState => .inr (asked ▸ stuck e fails notState), same ▸ rests', same ▸ closes⟩

theorem goes_of_reads {s : Session} {text : String} {r : Reading}
    (named : engine.registry.current.Named) (rests : engine.registry.current.Rests s.state)
    (reads : s.Reads engine world text r) :
    ∃ t₀ t, s.Goes engine world (.turn text) (s.decision engine r) t₀ t := by
  obtain ⟨heard, same⟩ := call_of_rests rests reads
  have suits := Decision.route_suits engine.settings.maxDigressions
    (engine.registry.current.topNode? s.state.stack) r s.state
  refine goes_through named rests heard rfl rfl (given_of_reads reads) same suits.begins
    suits.proposes ?_ ?_
  · intro accepted answers
    exact ⟨text, r, rfl, reads, suits.answers accepted answers⟩
  · intro affirmed confirms
    exact ⟨text, r, rfl, reads, suits.confirms affirmed confirms⟩

theorem goes_of_turn {s : Session} (named : engine.registry.current.Named)
    (rests : engine.registry.current.Rests s.state) (world : σ) (text : String) :
    ∃ d t₀ t, s.Goes engine world (.turn text) d t₀ t := by
  obtain ⟨accepted, heard⟩ :=
    Machine.update_understanding (u := hearing text) rests.settled rfl rfl rfl
  cases reads : (engine.backend.classify
    (request (s.machine.after (hearing text)).state text) world).1 with
  | error failure =>
    obtain ⟨outcome, response, answered⟩ := misunderstood_eq engine heard failure
    obtain ⟨world', same⟩ := call_of_misread rests.settled reads
    rw [answered] at same
    refine goes_nowhere (t := .start s.machine world) rfl rfl rfl ?_ ?_ ?_ ?_
    · rw [same]; rfl
    · rw [same]; rintro e ⟨⟩
    · rw [same]; exact rests.of_error rfl rfl rfl rests.pending
    · rw [same]; exact .done rfl rfl
  | ok r => exact ⟨_, goes_of_reads named rests reads⟩

theorem goes_of_start {s : Session} (named : engine.registry.current.Named)
    (rests : engine.registry.current.Rests s.state) (world : σ) (flow : String) (slots : Slots) :
    ∃ d t₀ t, s.Goes engine world (.start flow slots) d t₀ t := by
  have starts : s.call engine world (.start flow slots) = s.startFlow engine world flow slots := rfl
  unfold startFlow at starts
  split at starts
  case isFalse unknown =>
    refine goes_nowhere (t := .start s.machine world) rfl rfl rfl ?_ ?_ ?_ ?_
    · rw [starts]
    · rw [starts]
      rintro e ⟨⟩
      exact if_neg unknown
    · rw [starts]; exact rests
    · rw [starts]; exact .failed (by simp) (fun _ => rfl) rfl rfl
  case isTrue known =>
    split at starts
    · next active running =>
      refine goes_nowhere (t := .start s.machine world) rfl rfl rfl ?_ ?_ ?_ ?_
      · rw [starts]
      · rw [starts]
        rintro e ⟨⟩
        simp only [denial?, if_pos known, running, Option.map_some]
      · rw [starts]; exact rests
      · rw [starts]; exact .failed (by simp) (fun _ => rfl) rfl rfl
    · next idle =>
      have empty := Decision.frames_of_activeFlow?.1 idle
      obtain ⟨accepted, heard⟩ := Machine.update_understanding
        (u := { phase := some .understanding }) rests.settled rfl rfl rfl
      simp only [launch, accepted] at starts
      exact ⟨_, goes_through named rests heard rfl rfl rfl starts (fun _ _ => empty) (by simp)
        (by simp) (by simp)⟩

theorem exists_goes {s : Session} (named : engine.registry.current.Named)
    (rests : engine.registry.current.Rests s.state) (world : σ) (call : Call) :
    ∃ d t₀ t, s.Goes engine world call d t₀ t := by
  cases call with
  | turn text => exact goes_of_turn named rests world text
  | start flow slots => exact goes_of_start named rests world flow slots

end Session

end Colloquy
