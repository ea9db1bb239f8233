import Colloquy.Proofs.Session.Invariant
import Colloquy.Proofs.Session.Script
import Colloquy.Proofs.Turn.Lineage

/-!
Over a whole conversation, a caller goes past the step that calls only when a flow has come to its
end that descends from the one it has called: through links, and through changes of flow that the
user has agreed to.
-/

set_option autoImplicit false

namespace Colloquy

variable {σ : Type}

theorem Library.Waits.flow? {node : Graph.Node} (waits : Library.Waits node) :
    node.activity.flow? = none := by
  rcases waits with asks | ⟨action, activity⟩
  · cases activity : node.activity <;> first | rfl | simp [activity, Graph.Activity.awaitsInput,
      Graph.Activity.prompt?] at asks
  · rw [activity]
    rfl

namespace Conversation

open Script

variable {c : Conversation σ} {call : Call} {d : Decision} {t₀ t : Turn σ}

theorem lined_of_goes (named : c.engine.registry.current.Named)
    (rests : c.engine.registry.current.Rests c.state)
    (above : c.state.stack.frames.IsChain (c.engine.registry.current.Above c.trail))
    (goes : c.session.Goes c.engine c.world call d t₀ t) :
    t.Lined c.engine.registry.current c.trail := by
  have stack : t₀.stack = c.state.stack := goes.stack
  refine Turn.Lined.moves named ⟨?_, ?_, ?_⟩ ?_ goes.moves
  · rw [stack]
    exact rests.upright
  · rw [stack, goes.begun, List.append_nil]
    exact above
  · rw [goes.begun]
    exact .nil
  · -- the step at which the session waits is not one that calls
    intro node stands
    rw [stack] at stands
    rcases rests.waits with vacant | ⟨node', stands', waits⟩
    · simp [Library.topNode?, Stack.top?, vacant] at stands
    · rw [stands, Option.some.injEq] at stands'
      subst stands'
      exact waits.flow?

-- The stack and the log of a conversation belong together: a call that fails changes neither.
theorem next_cases (goes : c.session.Goes c.engine c.world call d t₀ t) :
    (c.next call).state.stack = c.state.stack ∧ (c.next call).trail = c.trail ∨
      (c.next call).state.stack = t.stack ∧ (c.next call).trail = c.trail ++ t.trail := by
  have closes := goes.closes
  have trail : (c.next call).trail = if (c.session.call c.engine c.world call).result.isOk
      then c.trail ++ t.trail else c.trail := by
    rw [← goes.trail]
    rfl
  rw [trail]
  cases result : (c.session.call c.engine c.world call).result with
  | error e =>
    rw [result] at closes
    cases closes with
    | failed _ _ stack | refused _ stack => exact .inl ⟨stack, rfl⟩
  | ok outcome =>
    rw [result] at closes
    cases closes with
    | done stack => exact .inr ⟨stack, rfl⟩

theorem next_above (named : c.engine.registry.current.Named)
    (rests : c.engine.registry.current.Rests c.state)
    (above : c.state.stack.frames.IsChain (c.engine.registry.current.Above c.trail)) (call : Call) :
    (c.next call).state.stack.frames.IsChain
      (c.engine.registry.current.Above (c.next call).trail) := by
  obtain ⟨d, t₀, t, goes⟩ := Session.exists_goes named rests c.world call
  rcases next_cases goes with ⟨stack, trail⟩ | ⟨stack, trail⟩ <;> rw [stack, trail]
  · exact above
  · exact (lined_of_goes named rests above goes).above

theorem after_above (named : c.engine.registry.current.Named)
    (rests : c.engine.registry.current.Rests c.state)
    (above : c.state.stack.frames.IsChain (c.engine.registry.current.Above c.trail))
    (calls : List Call) :
    (c.after calls).state.stack.frames.IsChain
      (c.engine.registry.current.Above (c.after calls).trail) := by
  induction calls generalizing c with
  | nil => exact above
  | cons call calls ih =>
    have rests' := next_rests named rests call
    exact ih (c := c.next call) named rests' (next_above named rests above call)

/-- When control leaves a step that calls, a flow has just come to its end that is the one called,
or has come in its place by links and by changes that the user has agreed to. -/
theorem call_passed {dialect : Dialect} {flows : List Flow} {engine : Engine σ}
    (compiled : dialect.compileAll flows = .ok engine.registry.current.graphs) (id : String)
    (world : σ) (calls : List Call) (call : Call) :
    let c := (opened id engine world).after calls
    Passed engine.registry.current c.trail (c.reply call).trail ∧
      ∀ old new, .changed old new ∈ (c.reply call).trail →
        ∃ text r, call = .turn text ∧ c.session.Reads engine c.world text r ∧
          r.kind = .confirmation ∧ r.polarity? = some true ∧ c.state.pending = some new.flow := by
  intro c
  obtain ⟨named, rests⟩ := sound_of_calls compiled id world calls
  have same : c.engine = engine := after_engine calls
  have above : c.state.stack.frames.IsChain (c.engine.registry.current.Above c.trail) := by
    rw [same]
    exact after_above (c := opened id engine world) (Library.named_of_compileAll compiled)
      (opened_rests id engine world) .nil calls
  obtain ⟨d, t₀, t, goes⟩ := Session.exists_goes named rests c.world call
  have traced := Turn.traced_of_moves goes.begun goes.moves
  rw [← same, show (c.reply call).trail = t.trail from goes.trail]
  refine ⟨(lined_of_goes named rests above goes).passed, ?_⟩
  intro old new member
  obtain ⟨-, agreed, pending⟩ := traced.changed old new member
  obtain ⟨text, r, called, reads, kind, polarity⟩ := goes.answers true agreed
  exact ⟨text, r, called, reads, kind, polarity, goes.pending.symm.trans pending⟩

def interrupted : Conversation (List Reading) :=
  (scripted [paying, identifying, greeting] [wants "greet", agrees]).after
    [.start "pay" .empty, .turn "hello"]

theorem call_passed_interrupted :
    (Dialect.standard .lenient).compileAll [paying, identifying, greeting] =
        .ok interrupted.engine.registry.current.graphs ∧
      Passed interrupted.engine.registry.current interrupted.trail
        (interrupted.reply (.turn "yes")).trail ∧
      ∀ old new, .changed old new ∈ (interrupted.reply (.turn "yes")).trail →
        ∃ text r, Call.turn "yes" = .turn text ∧
          interrupted.session.Reads interrupted.engine interrupted.world text r ∧
          r.kind = .confirmation ∧ r.polarity? = some true ∧
          interrupted.state.pending = some new.flow := by
  have compiled : (Dialect.standard .lenient).compileAll [paying, identifying, greeting] =
      .ok (Engine.scripted [paying, identifying, greeting]).registry.current.graphs := rfl
  exact ⟨compiled, call_passed compiled "script" _ _ (.turn "yes")⟩

/-- The payment is made although the user has not been identified: what has come to its end is no
flow that the one called leads to by links. -/
theorem call_passed_without_identity :
    ∃ earlier later, (interrupted.reply (.turn "yes")).trail =
        earlier ++ .returned ⟨"greet", 2⟩ ⟨"pay", 0⟩ :: .left ⟨"pay", 0⟩ "verify" :: later ∧
      interrupted.engine.registry.current.Calls "pay" "verify" "identity" ∧
      ¬ ∃ first : Invocation, .called ⟨"pay", 0⟩ first ∈ interrupted.trail ++ earlier ∧
        first.flow = "identity" ∧
        Relation.ReflTransGen
          (interrupted.engine.registry.current.LinkedTo (interrupted.trail ++ earlier)) first
          ⟨"greet", 2⟩ := by
  let earlier : List Event := [.changed ⟨"identity", 1⟩ ⟨"greet", 2⟩,
    .entered ⟨"greet", 2⟩ "hello", .left ⟨"greet", 2⟩ "hello"]
  refine ⟨earlier, _, rfl, ⟨_, _, rfl, rfl, rfl⟩, ?_⟩
  have log : interrupted.trail ++ earlier =
      [.began ⟨"pay", 0⟩, .entered ⟨"pay", 0⟩ "verify", .called ⟨"pay", 0⟩ ⟨"identity", 1⟩,
        .entered ⟨"identity", 1⟩ "pin"] ++ earlier := rfl
  have unlinked (old new : Invocation) : .linked old new ∉ interrupted.trail ++ earlier := by
    simp [log, earlier]
  rintro ⟨first, -, named, steps⟩
  cases steps with
  | refl => exact absurd named (by decide)
  | tail _ last => exact unlinked _ _ last.1

end Conversation

end Colloquy
