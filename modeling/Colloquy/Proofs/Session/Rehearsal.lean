import Colloquy.Proofs.Session.Digression
import Colloquy.Proofs.Session.Invariant

/-!
Conversations laid down beforehand. What a session does depends on where it stands only, and not on
what was said before. Messages that leave the topic therefore have no influence on the flows: with
and without them a conversation comes to the same.
-/

set_option autoImplicit false

namespace Colloquy

variable {σ : Type}

namespace Turn

variable {t : Turn σ} {k : Machine} {veil : σ → σ} {l : Library} {render : Message → String}
  {before before' : State} {r : Reading} {d : Decision}

theorem resting_amid (same : before.stance = before'.stance) :
    (t.amid k veil).resting l before' d = t.resting l before d := by
  obtain ⟨phase, -, waiting, -⟩ := State.stance_eq_iff.1 same
  rw [show (t.amid k veil).resting l before' d = t.resting l before' d from rfl]
  unfold resting
  rw [phase, waiting]

-- What is kept of digressions, counters and the history goes into a commit, but not into its
-- outcome.
theorem commit_amid (stance : (t.amid k veil).machine.state.stance = t.machine.state.stance)
    (same : before.stance = before'.stance) :
    ((t.amid k veil).commit l render before' r d).1 = (t.commit l render before r d).1 ∧
      ((t.amid k veil).commit l render before' r d).2.state.stance =
        (t.commit l render before r d).2.state.stance := by
  simp only [commit, resting_amid same]
  cases t.resting l before d with
  | error e => exact ⟨rfl, stance⟩
  | ok chosen =>
    obtain ⟨phase, waiting⟩ := chosen
    rcases Machine.update_alike ((t.amid k veil).effects before' r d waiting)
      (t.effects before r d waiting) stance rfl rfl with
      ⟨e, first, second⟩ | ⟨n, n', first, second, stance'⟩
    · simp only [first, second]
      exact ⟨trivial, stance⟩
    · simp only [first, second]
      rcases Machine.update_alike (settlement ((t.amid k veil).messages.map render) phase)
        (settlement (t.messages.map render) phase) stance' rfl rfl with
        ⟨e, first, second⟩ | ⟨n, n', first, second, stance''⟩
      · simp only [first, second]
        exact ⟨trivial, stance'⟩
      · simp only [first, second]
        exact ⟨rfl, stance''⟩

end Turn

/-- Two calls that end alike, but for what the veil hides. -/
structure Ending.Like (veil : σ → σ) (a b : Ending σ) : Prop where
  result : b.result = a.result
  stance : b.machine.state.stance = a.machine.state.stance
  world : b.world = veil a.world

namespace Session

variable {engine : Engine σ} {m m' : Machine} {before before' : State} {world : σ} {veil : σ → σ}

theorem dispatch_like {d : Decision} {r : Reading} {text : String}
    (blind : engine.backend.Blind veil) (trimmed : m.state.history.length ≤ m.window)
    (trimmed' : m'.state.history.length ≤ m'.window) (same : m.state.stance = m'.state.stance)
    (befores : before.stance = before'.stance) :
    (dispatch engine before m world d r text).Like veil
      (dispatch engine before' m' (veil world) d r text) := by
  obtain ⟨phase, stack, waiting, pending⟩ := State.stance_eq_iff.1 same
  have starts : Turn.start m' (veil world) = (Turn.start m world).amid m' veil := by
    simp only [Turn.start, Turn.amid, Machine.amid_eq phase stack waiting, stack, pending]
  have veiled := TurnM.blind_perform (s := engine.stage) trimmed' blind r text d (Turn.start m world)
  have within := (TurnM.blind_perform (s := engine.stage) trimmed (Backend.blind_id _) r text
    d).amid_machine (t := .start m world)
  simp only [dispatch, starts]
  cases ran : (Turn.start m world).run (TurnM.perform engine.stage r text d) with
  | mk result t =>
    rw [ran] at veiled within
    have kept : t.machine.state.pending = m.state.pending :=
      congrArg (·.state.pending) within.symm
    have stance : (t.amid m' veil).machine.state.stance = t.machine.state.stance :=
      State.stance_eq_iff.2 ⟨rfl, rfl, rfl, pending.symm.trans kept.symm⟩
    simp only [veiled]
    cases result with
    | error e => exact ⟨rfl, stance, rfl⟩
    | ok _ =>
      obtain ⟨result, stance'⟩ := Turn.commit_amid (l := engine.registry.current)
        (r := r) (d := d) stance befores
      exact ⟨result, stance', rfl⟩

theorem misunderstood_like (engine : Engine σ) (failure : BackendError)
    (same : m.state.stance = m'.state.stance) :
    (misunderstood engine m' failure).1 = (misunderstood engine m failure).1 ∧
      (misunderstood engine m' failure).2.state.stance =
        (misunderstood engine m failure).2.state.stance := by
  obtain ⟨-, stack, waiting, -⟩ := State.stance_eq_iff.1 same
  simp only [misunderstood, stack, waiting]
  generalize engine.backend.render _ = response
  rcases Machine.update_alike (apologizing response) (apologizing response) same.symm rfl rfl with
    ⟨e, first, second⟩ | ⟨n, n', first, second, stance⟩
  · simp only [first, second]
    exact ⟨trivial, same.symm⟩
  · simp only [first, second]
    exact ⟨trivial, stance⟩

theorem conclude_like {s s' : Session} {a b : Ending σ} (consistent : s.state.Consistent)
    (consistent' : s'.state.Consistent) (same : s.state.stance = s'.state.stance)
    (like : a.Like veil b) :
    (s'.conclude b).session.state.stance = (s.conclude a).session.state.stance := by
  obtain ⟨result, machine, world, trail⟩ := a
  obtain ⟨result', machine', world', trail'⟩ := b
  obtain ⟨rfl : result' = result, stance, -⟩ := like
  cases result' with
  | ok outcome => exact stance
  | error e =>
    obtain ⟨-, stack, waiting, -⟩ := State.stance_eq_iff.1 same
    obtain ⟨-, -, -, pending⟩ := State.stance_eq_iff.1 stance
    obtain ⟨recovered, -⟩ := recover_eq consistent machine
    obtain ⟨recovered', -⟩ := recover_eq consistent' machine'
    simp only [conclude, recovered, recovered']
    exact State.stance_eq_iff.2 ⟨rfl, stack.symm, waiting.symm, pending⟩

end Session

/-- What is laid down beforehand of a conversation: how the messages to come are understood; and the
actions run so far, which alone their results may depend on. -/
structure Rehearsal where
  readings : List (Except BackendError Reading)
  acted : List (String × Slots)
  deriving DecidableEq

namespace Rehearsal

def recast (readings : List (Except BackendError Reading)) (w : Rehearsal) : Rehearsal :=
  { w with readings }

end Rehearsal

/-- Understands messages as laid down; what an action gives depends on all actions so far. -/
def Backend.rehearsed
    (results : List (String × Slots) → Except BackendError (List (String × Value)))
    (render : Message → String) : Backend Rehearsal where
  classify _ w :=
    match w.readings with
    | [] => (.error (.classification ""), w)
    | result :: readings => (result, w.recast readings)
  act action slots w :=
    let acted := w.acted ++ [(action, slots)]
    (results acted, { w with acted })
  render := render

variable {results : List (String × Slots) → Except BackendError (List (String × Value))}
  {render : Message → String}

theorem Backend.rehearsed_blind (readings : List (Except BackendError Reading)) :
    (Backend.rehearsed results render).Blind (Rehearsal.recast readings) := fun _ _ _ => rfl

structure Cue where
  text : String
  result : Except BackendError Reading
  deriving DecidableEq

namespace Cue

def call (q : Cue) : Call := .turn q.text

def isAside (q : Cue) : Bool :=
  match q.result with
  | .ok r => r.kind.isAside
  | .error _ => false

end Cue

namespace Session

variable {engine : Engine Rehearsal} {m m' : Machine} {w : Rehearsal} {q : Cue}
  {readings readings' : List (Except BackendError Reading)}

theorem hear_like (played : engine.backend = .rehearsed results render) (settled : m.state.Settled)
    (settled' : m'.state.Settled) (same : m.state.stance = m'.state.stance)
    (loud : ¬ q.isAside = true) (reads : w.readings = q.result :: readings) :
    (hear engine m w q.text).Like (Rehearsal.recast readings')
      (hear engine m' (w.recast (q.result :: readings')) q.text) := by
  obtain ⟨accepted, heard⟩ := Machine.update_understanding (u := hearing q.text) settled rfl rfl rfl
  obtain ⟨accepted', heard'⟩ :=
    Machine.update_understanding (u := hearing q.text) settled' rfl rfl rfl
  have same' : (m.after (hearing q.text)).state.stance = (m'.after (hearing q.text)).state.stance :=
    congrArg (hearing q.text).stance same
  obtain ⟨-, stack, -⟩ := State.stance_eq_iff.1 same'
  have blind : engine.backend.Blind (Rehearsal.recast readings') := by
    rw [played]
    exact Backend.rehearsed_blind readings'
  have classified (request : Request) :
      engine.backend.classify request w = (q.result, w.recast readings) ∧
        engine.backend.classify request (w.recast (q.result :: readings')) =
          (q.result, w.recast readings') := by
    rw [played]
    simp [Backend.rehearsed, reads, Rehearsal.recast]
  simp only [hear, accepted, accepted', classified, stack]
  cases understood : q.result with
  | error failure =>
    obtain ⟨result, stance⟩ := misunderstood_like engine failure same'
    exact ⟨result, stance, rfl⟩
  | ok r =>
    dsimp only
    cases engine.registry.current.currentNode (m'.after (hearing q.text)).state.stack with
    | error e => exact ⟨rfl, same'.symm, rfl⟩
    | ok current =>
      have loud' : ¬ r.kind.isAside = true := by simpa [Cue.isAside, understood] using loud
      dsimp only
      rw [Decision.route_eq_of_stance loud' same']
      exact dispatch_like blind heard.trimmed heard'.trimmed same' same

theorem hear_aside (played : engine.backend = .rehearsed results render)
    (rests : engine.registry.current.Rests m.state) (aside : q.isAside = true)
    (reads : w.readings = q.result :: readings) :
    ∃ machine outcome, machine.state.stance = m.state.stance ∧
      hear engine m w q.text = ⟨.ok outcome, machine, w.recast readings, []⟩ := by
  obtain ⟨accepted, heard⟩ := Machine.update_understanding (u := hearing q.text)
    rests.settled rfl rfl rfl
  have known : ∀ f ∈ m.state.stack.top?, (engine.registry.current.get? f.flow).isSome :=
    fun f found => (rests.upright.top f found).known
  have current := Library.currentNode_eq known
  have classified (request : Request) :
      engine.backend.classify request w = (q.result, w.recast readings) := by
    rw [played]
    simp [Backend.rehearsed, reads]
  simp only [hear, accepted, classified]
  unfold Cue.isAside at aside
  split at aside
  · next r understood =>
    rw [understood]
    dsimp only
    rw [show (m.after (hearing q.text)).state.stack = m.state.stack from rfl, current]
    obtain ⟨depth, -, routed⟩ := Decision.route_of_isAside engine.settings.maxDigressions
      (engine.registry.current.topNode? m.state.stack) (m.after (hearing q.text)).state aside
    exact dispatch_aside rests heard rfl rfl routed
  · cases aside

end Session

namespace Conversation

open Script

/-- Two conversations with the same flows that stand alike, and in which the same actions have been
run. -/
structure Alike (c c' : Conversation Rehearsal) : Prop where
  engine : c.engine = c'.engine
  stance : c.state.stance = c'.state.stance
  acted : c.world.acted = c'.world.acted

def rehearsed (id : String) (engine : Engine Rehearsal) (cues : List Cue) :
    Conversation Rehearsal :=
  opened id engine ⟨cues.map (·.result), []⟩

variable {c c' : Conversation Rehearsal} {q : Cue}
  {readings readings' : List (Except BackendError Reading)}

theorem Alike.next (alike : c.Alike c') (played : c.engine.backend = .rehearsed results render)
    (settled : c.state.Settled) (settled' : c'.state.Settled) (loud : ¬ q.isAside = true)
    (reads : c.world.readings = q.result :: readings)
    (reads' : c'.world.readings = q.result :: readings') :
    (c.next q.call).Alike (c'.next q.call) ∧ (c'.next q.call).world.readings = readings' := by
  obtain ⟨engine, stance, acted⟩ := alike
  have world : c'.world = c.world.recast (q.result :: readings') := by
    rw [← reads', Rehearsal.recast, acted]
  have like : (Session.hear c.engine c.session.machine c.world q.text).Like
      (Rehearsal.recast readings') (Session.hear c.engine c'.session.machine c'.world q.text) := by
    rw [world]
    exact Session.hear_like played settled settled' stance loud reads
  have worlds : (c'.next q.call).world = (c.next q.call).world.recast readings' := by
    rw [Conversation.next, Conversation.next, reply, reply, ← engine]
    exact like.world
  refine ⟨⟨engine, ?_, ?_⟩, by rw [worlds]; rfl⟩
  · have same := Session.conclude_like settled.consistent settled'.consistent stance like
    rw [Conversation.next, Conversation.next, reply, reply, ← engine]
    exact same.symm
  · rw [worlds]
    rfl

theorem Alike.trans {c'' : Conversation Rehearsal} (alike : c.Alike c') (alike' : c'.Alike c'') :
    c.Alike c'' :=
  ⟨alike.engine.trans alike'.engine, alike.stance.trans alike'.stance,
    alike.acted.trans alike'.acted⟩

theorem next_aside (played : c.engine.backend = .rehearsed results render)
    (rests : c.engine.registry.current.Rests c.state) (aside : q.isAside = true)
    (reads : c.world.readings = q.result :: readings) :
    (c.next q.call).Alike c ∧ (c.next q.call).world.readings = readings := by
  obtain ⟨machine, outcome, stance, heard⟩ := Session.hear_aside played rests aside reads
  have replied : c.reply q.call = ⟨.ok outcome, ⟨c.session.id, machine⟩,
      c.world.recast readings, []⟩ := by
    change c.session.conclude (Session.hear c.engine c.session.machine c.world q.text) = _
    rw [show Session.hear c.engine c.session.machine c.world q.text = _ from heard]
    rfl
  refine ⟨⟨rfl, ?_, ?_⟩, ?_⟩
  · simp only [state, next, replied]
    exact stance
  · simp only [next, replied]
    rfl
  · simp only [next, replied]
    rfl

-- The induction is on the messages. One that leaves the topic is left out on the other side, where
-- nothing then happens; all others happen on both sides.
theorem Alike.after {cues : List Cue} (alike : c.Alike c')
    (played : c.engine.backend = .rehearsed results render)
    (named : c.engine.registry.current.Named) (rests : c.engine.registry.current.Rests c.state)
    (rests' : c'.engine.registry.current.Rests c'.state)
    (reads : c.world.readings = cues.map (·.result))
    (reads' : c'.world.readings = (cues.filter (!·.isAside)).map (·.result)) :
    (c.after (cues.map (·.call))).Alike
      (c'.after ((cues.filter (!·.isAside)).map (·.call))) := by
  induction cues generalizing c c' with
  | nil => exact alike
  | cons q cues ih =>
    have next_rests' := next_rests named rests q.call
    by_cases aside : q.isAside = true
    · rw [List.filter_cons_of_neg (by simp [aside])] at reads' ⊢
      obtain ⟨back, reads⟩ := next_aside played rests aside reads
      exact ih (back.trans alike) played named next_rests' rests' reads reads'
    · rw [List.filter_cons_of_pos (by simp [aside])] at reads' ⊢
      have named' : c'.engine.registry.current.Named := alike.engine ▸ named
      obtain ⟨-, left⟩ :=
        Alike.next ⟨rfl, rfl, rfl⟩ played rests.settled rests.settled aside reads reads
      obtain ⟨alike', left'⟩ := alike.next played rests.settled rests'.settled aside reads reads'
      exact ih alike' played named next_rests'
        (next_rests named' rests' q.call) left left'

/-- Messages that leave the topic change nothing for the flows, neither where they stand in the end
nor which actions they run on which slots, and there are never too many of them in a row. -/
theorem asides_without_effect {dialect : Dialect} {flows : List Flow} {registry : Registry}
    (compiled : dialect.compileAll flows = .ok registry.current.graphs) (settings : Settings)
    (results : List (String × Slots) → Except BackendError (List (String × Value)))
    (render : Message → String) (id : String) (cues : List Cue) :
    let engine : Engine Rehearsal := ⟨registry, .rehearsed results render, settings⟩
    let others := cues.filter (!·.isAside)
    let c := (rehearsed id engine cues).after (cues.map (·.call))
    let c' := (rehearsed id engine others).after (others.map (·.call))
    c.state.stance = c'.state.stance ∧ c.world.acted = c'.world.acted ∧
      ∀ n, ((rehearsed id engine cues).after ((cues.map (·.call)).take n)).state.digressions ≤
        settings.maxDigressions := by
  intro engine others c c'
  have named : engine.registry.current.Named := Library.named_of_compileAll compiled
  have begins : (rehearsed id engine cues).Alike (rehearsed id engine others) := ⟨rfl, rfl, rfl⟩
  have alike : c.Alike c' :=
    begins.after rfl named (opened_rests ..) (opened_rests ..) rfl rfl
  refine ⟨alike.stance, alike.acted, ?_⟩
  intro n
  have reached := Reached.after (.opened id engine ⟨cues.map (·.result), []⟩)
    ((cues.map (·.call)).take n)
  have bounded := reached.digressions_le
  rw [after_engine] at bounded
  exact bounded

def clerk : Engine Rehearsal :=
  ⟨⟨.standard .lenient, .of [ordering] 0⟩, .rehearsed (fun _ => .ok []) (·.template), {}⟩

def distracted : List Cue :=
  [⟨"order", .ok (wants "order")⟩, ⟨"why?", .ok (.certain .question none [])⟩,
    ⟨"tea", .ok (.certain .continuation none [("item", .text "tea")])⟩]

def served (cues : List Cue) : Conversation Rehearsal :=
  (rehearsed "script" clerk cues).after (cues.map (·.call))

theorem asides_without_effect_distracted :
    (Dialect.standard .lenient).compileAll [ordering] = .ok clerk.registry.current.graphs ∧
      (served distracted).state.stance = (served (distracted.filter (!·.isAside))).state.stance ∧
      (served distracted).world.acted = (served (distracted.filter (!·.isAside))).world.acted ∧
      (served distracted).world.acted.map (·.1) = ["order"] := by
  have compiled : (Dialect.standard .lenient).compileAll [ordering] =
      .ok clerk.registry.current.graphs := rfl
  have same := asides_without_effect compiled {} (fun _ => .ok []) (·.template) "script" distracted
  exact ⟨compiled, same.1, same.2.1, by decide +kernel⟩

end Conversation

end Colloquy
