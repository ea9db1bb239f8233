import Colloquy.Proofs.Session.Invariant
import Colloquy.Proofs.Turn.Sources

/-!
Values that the user gives, and the rules of the steps that collect them. A value that its step
refuses does not get into a slot, unless a message begins a flow with it or answers a question with
it.
-/

set_option autoImplicit false

namespace Colloquy

open Colloquy.Graph (Activity Node)

variable {σ : Type}

namespace Session

variable {s : Session} {engine : Engine σ} {world : σ} {call : Call} {d : Decision} {t₀ t : Turn σ}
  {text : String}

theorem reads_of_given {slot : String} {value : Value}
    (gives : (s.given engine world (.turn text)).get? slot = some value) :
    ∃ r, s.Reads engine world text r ∧ (slot, value) ∈ r.slots := by
  unfold given at gives
  dsimp only at gives
  split at gives
  · next r reads => exact ⟨r, reads, Table.mem_of_get?_ofList gives⟩
  · cases gives

theorem Goes.stack_cases (goes : s.Goes engine world call d t₀ t) :
    (s.call engine world call).session.state.stack = t₀.stack ∨
      (s.call engine world call).session.state.stack = t.stack := by
  have closes := goes.closes
  generalize (s.call engine world call).result = result at closes
  cases closes with
  | failed _ _ stack | refused _ stack => exact .inl (stack.trans goes.stack.symm)
  | done stack => exact .inr stack

theorem Goes.source (goes : s.Goes engine world call d t₀ t) {flow : Invocation} {slot : String}
    {value : Value}
    (holds : (s.call engine world call).session.state.stack.Holds flow slot value) :
    Turn.Source engine.registry.current (s.given engine world call) d t₀ t.trail flow slot
      value := by
  rcases goes.stack_cases with stack | stack <;> rw [stack] at holds
  · exact .kept holds
  · obtain ⟨f, member, rfl, stored⟩ := holds
    exact Turn.backed_of_moves goes.moves f member slot value stored

theorem Goes.equipped (goes : s.Goes engine world call d t₀ t) :
    ∀ f ∈ (s.call engine world call).session.state.stack.frames,
      Turn.Equipped (s.given engine world call) t.trail f := by
  rcases goes.stack_cases with stack | stack <;> rw [stack]
  · intro f member began
    simp [Turn.vacant_of_began goes.moves goes.begun began] at member
  · exact (Turn.furnished_of_moves goes.moves goes.begun).equipped

end Session

namespace Conversation

open Script

/-- How a value that its step refuses may get into a slot in a turn: the flow held it before, an
action has given it, the message has begun the flow with it, or it is the yes or no with which the
message answers a question that keeps the answer in the slot. -/
theorem refused_values {dialect : Dialect} {flows : List Flow} {engine : Engine σ}
    (compiled : dialect.compileAll flows = .ok engine.registry.current.graphs)
    (governed : engine.registry.current.Governed) (id : String) (world : σ) (calls : List Call)
    (text : String) :
    let c := (opened id engine world).after calls
    let trail := (c.reply (.turn text)).trail
    (∀ flow slot value, (c.next (.turn text)).state.stack.Holds flow slot value →
      engine.registry.current.Refuses flow.flow slot value →
      c.state.stack.Holds flow slot value ∨ Fetched trail flow slot value ∨
        ∃ r, c.session.Reads engine c.world text r ∧
          (.began flow ∈ trail ∧ (slot, value) ∈ r.slots ∨
            r.kind = .confirmation ∧ (∃ b, r.polarity? = some b ∧ value = .truth b) ∧
              engine.registry.current.Asks c.state.stack flow slot)) ∧
    ∀ f ∈ (c.next (.turn text)).state.stack.frames, .began f.invocation ∈ trail →
      ∀ r, c.session.Reads engine c.world text r →
        ∀ slot value, (Table.ofList r.slots).get? slot = some value →
          f.slots.get? slot = some value ∨ ∃ other, Fetched trail f.invocation slot other := by
  intro c trail
  obtain ⟨named, rests⟩ := sound_of_calls compiled id world calls
  have same : c.engine = engine := after_engine calls
  obtain ⟨d, t₀, t, goes⟩ := Session.exists_goes named rests c.world (.turn text)
  rw [show trail = t.trail from goes.trail, ← same]
  rw [← same] at governed
  constructor
  · intro flow slot value holds refuses
    cases goes.source holds with
    | kept held => exact .inl (goes.stack ▸ held)
    | admits admits => exact absurd admits (governed.not_admits refuses)
    | fetched fetched => exact .inr (.inl fetched)
    | brought began gives =>
      obtain ⟨r, reads, member⟩ := Session.reads_of_given gives
      exact .inr (.inr ⟨r, reads, .inl ⟨began, member⟩⟩)
    | @answered affirmed decided truth asks =>
      obtain ⟨text', r, called, reads, kind, polarity⟩ := goes.confirms affirmed decided
      cases called
      exact .inr (.inr ⟨r, reads, .inr ⟨kind, ⟨affirmed, polarity, truth⟩, goes.stack ▸ asks⟩⟩)
  · intro f member began r reads slot value gives
    rw [← Session.given_of_reads reads] at gives
    exact goes.equipped f member began slot value gives

def measuring : Flow :=
  ⟨"measure", "", [{ Flow.Step.collect "width" "x" with validation := some "x > 0" },
    .collect "height" "y"]⟩

def positive : Predicate := ⟨"x > 0", .compare .greater (.slot "x") (.literal (.integer 0))⟩

def measure : Graph :=
  ⟨"measure", "",
    [⟨"width", .collect "x" "ask_x" "invalid_x" (some positive) false, [⟨.always, .step 1⟩]⟩,
      ⟨"height", .collect "y" "ask_y" "invalid_y" none false, [⟨.always, .finish⟩]⟩]⟩

def hasty : Conversation (List Reading) :=
  opened "script" ⟨⟨.standard .lenient, ⟨.ofList [("measure", measure)], 0⟩⟩, .scripted, {}⟩
    [.certain .intentChange (some "measure") [("x", .integer (-5))]]

theorem hasty_compiled :
    (Dialect.standard .lenient).compileAll [measuring] =
      .ok hasty.engine.registry.current.graphs := by
  apply eq_ok_of_toOption
  decide +kernel

theorem hasty_governed : hasty.engine.registry.current.Governed := by
  have only {flow : String} {graph : Graph}
      (found : hasty.engine.registry.current.get? flow = some graph) : graph = measure := by
    cases List.mem_singleton.1 (Table.mem_of_get?_ofList found)
    rfl
  constructor
  · intro flow graph found node member other member' slot asks asks'
    cases only found
    have agree := asks.trans asks'.symm
    simp only [measure, List.mem_cons, List.not_mem_nil, or_false] at member member'
    rcases member with rfl | rfl <;> rcases member' with rfl | rfl
    all_goals first | rfl | exact absurd agree (by decide)
  · intro flow graph found node member slot asks rule
    cases only found
    simp only [measure, List.mem_cons, List.not_mem_nil, or_false] at member
    rcases member with rfl | rfl
    · cases asks
      rintro ⟨⟩
      simp [positive, Condition.slotNames, Operand.slotNames]
    · rintro ⟨⟩

theorem hasty_refuses :
    hasty.engine.registry.current.Refuses "measure" "x" (.integer (-5)) := by
  refine ⟨measure, rfl, _, List.mem_cons_self, rfl, positive, rfl, ?_⟩
  decide +kernel

theorem hasty_holds :
    (hasty.next (.turn "minus five")).state.stack.Holds ⟨"measure", 0⟩ "x" (.integer (-5)) :=
  ⟨_, List.mem_cons_self, rfl, rfl⟩

theorem refused_values_hasty :
    (Dialect.standard .lenient).compileAll [measuring] = .ok hasty.engine.registry.current.graphs ∧
      hasty.engine.registry.current.Governed ∧
      (hasty.next (.turn "minus five")).state.stack.Holds ⟨"measure", 0⟩ "x" (.integer (-5)) ∧
      hasty.engine.registry.current.Refuses "measure" "x" (.integer (-5)) ∧
      (hasty.state.stack.Holds ⟨"measure", 0⟩ "x" (.integer (-5)) ∨
        Fetched (hasty.reply (.turn "minus five")).trail ⟨"measure", 0⟩ "x" (.integer (-5)) ∨
        ∃ r, hasty.session.Reads hasty.engine hasty.world "minus five" r ∧
          (.began ⟨"measure", 0⟩ ∈ (hasty.reply (.turn "minus five")).trail ∧
              ("x", .integer (-5)) ∈ r.slots ∨
            r.kind = .confirmation ∧ (∃ b, r.polarity? = some b ∧ Value.integer (-5) = .truth b) ∧
              hasty.engine.registry.current.Asks hasty.state.stack ⟨"measure", 0⟩ "x")) := by
  have sources := refused_values hasty_compiled hasty_governed "script" hasty.world [] "minus five"
  exact ⟨hasty_compiled, hasty_governed, hasty_holds, hasty_refuses,
    sources.1 _ _ _ hasty_holds hasty_refuses⟩

/-- A width that is not positive is kept nevertheless, and so the width is not even asked for. -/
theorem refused_value_stored :
    (Dialect.standard .lenient).compileAll [measuring] = .ok hasty.engine.registry.current.graphs ∧
      hasty.engine.registry.current.Governed ∧
      hasty.session.Reads hasty.engine hasty.world "minus five"
        (.certain .intentChange (some "measure") [("x", .integer (-5))]) ∧
      hasty.engine.registry.current.Refuses "measure" "x" (.integer (-5)) ∧
      ¬ hasty.state.stack.Holds ⟨"measure", 0⟩ "x" (.integer (-5)) ∧
      ¬ Fetched (hasty.reply (.turn "minus five")).trail ⟨"measure", 0⟩ "x" (.integer (-5)) ∧
      (hasty.next (.turn "minus five")).state.stack.Holds ⟨"measure", 0⟩ "x" (.integer (-5)) ∧
      (hasty.next (.turn "minus five")).state.waiting = some "y" := by
  have trail : (hasty.reply (.turn "minus five")).trail =
      [.began ⟨"measure", 0⟩, .entered ⟨"measure", 0⟩ "width", .left ⟨"measure", 0⟩ "width",
        .entered ⟨"measure", 0⟩ "height"] := rfl
  refine ⟨hasty_compiled, hasty_governed, rfl, hasty_refuses, ?_, ?_, hasty_holds, rfl⟩
  · rintro ⟨f, member, -⟩
    cases member
  · simp [Fetched, trail]

end Conversation

end Colloquy
