import Colloquy.Proofs.Session.Progress
import Colloquy.Proofs.Session.Transcript

/-!
Messages that are not answered. A turn that stays in its flow shows something, unless the flow has
stopped at an action that has failed: there the questions have nothing to repeat.
-/

set_option autoImplicit false

namespace Colloquy

variable {σ : Type} {l : Library} {backend : Backend σ} {t t' : Turn σ}

/-- A flow is begun, or control goes on from a step. -/
def Event.departs : Event → Bool
  | began _ | changed .. | left .. => true
  | _ => false

theorem Course.tells_of_action {top : Frame} {below : List Frame} {graph : Graph} {index : Nat}
    {node : Graph.Node} {action : String} (course : Course l backend t (.step index) t')
    (place : t.Stands l top below graph index node) (activity : node.activity = .action action)
    (stays : ∀ e ∈ t'.trail, e.departs = false) : t'.messages ≠ [] := by
  have same {top' : Frame} {below' : List Frame} {graph' : Graph} {node' : Graph.Node}
      (frames' : t.stack.frames = top' :: below') (known' : l.get? top'.flow = some graph')
      (member' : graph'.nodes[index]? = some node') : node' = node :=
    (Turn.same_node place.frames place.known place.member frames' known' member').2.2
  cases course with
  | stops round =>
    cases round with
    | idle empty => cases empty.symm.trans place.frames
    | asked _ frames' known' member' asks =>
      obtain rfl := same frames' known' member'
      simp [activity, Graph.Activity.awaitsInput, Graph.Activity.prompt?] at asks
    | failed => simp
  | goesOn round course =>
    obtain ⟨events, trail, -⟩ := course.marks
    cases round with
    | left | acted =>
      have departs := stays _ (trail ▸ List.mem_append_left _ (List.mem_append_right _
        (List.mem_singleton_self _)))
      cases departs
    | called frames' known' member' activity' | linked frames' known' member' activity' =>
      obtain rfl := same frames' known' member'
      cases activity.symm.trans activity'

namespace Upshot

variable {s : Stage σ} {r : Reading} {text : String} {d : Decision}

theorem silent_iff_mute (upshot : Upshot s r text d t t') (fresh : t.messages = [])
    (stays : ∀ e ∈ t'.trail, e.departs = false) :
    t'.messages = [] ↔ s.library.Mute t.stack d := by
  cases upshot with
  | stayed shown here unfilled silent =>
    rw [here.messages, fresh]
    exact silent
  | cancelled cancels _ _ _ _ told =>
    subst cancels
    exact iff_of_false told (not_mute (by simp) (by simp))
  | @went t₁ _ target outset _ walked =>
    have course := Course.of_walk walked
    obtain ⟨events, trail, -⟩ := course.marks
    have early (e : Event) (member : e ∈ t₁.trail) : e.departs = false :=
      stays e (trail ▸ List.mem_append_left _ member)
    cases outset with
    | retried place activity =>
      exact iff_of_false (course.tells_of_action place activity stays)
        (not_mute (by simp) (by simp))
    | filled | answered | began | changed =>
      have departs := early _ (List.mem_append_right _ (List.mem_singleton_self _))
      cases departs

end Upshot

theorem Session.tells_of_undecided {s : Session} {engine : Engine σ} {world : σ} {text : String}
    {outcome : Outcome} (rests : engine.registry.current.Rests s.state)
    (done : (s.call engine world (.turn text)).result = .ok outcome)
    (undecided : outcome.decision = none) : outcome.messages ≠ [] := by
  cases reads : (engine.backend.classify
    (request (s.machine.after (hearing text)).state text) world).1 with
  | error failure =>
    obtain ⟨outcome', message, done', -, messages⟩ := call_misread rests.settled reads
    cases done.symm.trans done'
    simp [messages]
  | ok r =>
    obtain ⟨t, -, comes⟩ := (carries_of_reads rests reads).comes done
    cases undecided.symm.trans comes.decision

namespace Conversation

open Script

/-- A turn that neither begins a flow nor goes on from a step shows something, with one exception:
it shows nothing just if the flow has stopped at an action that has failed, and the message corrects
values of which none is refused, or declines to change the flow. -/
theorem unanswered_iff {dialect : Dialect} {flows : List Flow} {engine : Engine σ}
    (compiled : dialect.compileAll flows = .ok engine.registry.current.graphs) (id : String)
    (world : σ) (calls : List Call) (text : String) {outcome : Outcome} :
    let c := (opened id engine world).after calls
    (c.reply (.turn text)).result = .ok outcome →
      (∀ e ∈ (c.reply (.turn text)).trail, e.departs = false) →
      (outcome.messages = [] ↔
        ∃ d ∈ outcome.decision, engine.registry.current.Mute c.state.stack d) := by
  intro c done stays
  obtain ⟨-, rests⟩ := sound_of_calls compiled id world calls
  have same : c.engine = engine := after_engine calls
  rw [← same]
  cases decided : outcome.decision with
  | none =>
    have told := Session.tells_of_undecided rests done decided
    simp [told]
  | some d =>
    obtain ⟨r, text', m, world', carries⟩ := Session.exists_carries rests done decided
    obtain ⟨t, upshot, comes⟩ := carries.comes done
    have begins : (Turn.start m world').stack = c.state.stack := carries.stack
    have trail : (c.reply (.turn text)).trail = t.trail := comes.trail
    have silent := upshot.silent_iff_mute rfl (trail ▸ stays)
    rw [begins] at silent
    simpa [comes.messages] using silent

def stalled (r : Reading) : Conversation (List Reading) :=
  (faltering [ordering] [continues, r]).after [.start "order" .empty, .turn "milk"]

theorem unanswered_iff_hesitant :
    let c := stalled (.certain .correction none [])
    (Dialect.standard .lenient).compileAll [ordering] = .ok c.engine.registry.current.graphs ∧
      ∃ outcome, (c.reply (.turn "wait")).result = .ok outcome ∧
        (∀ e ∈ (c.reply (.turn "wait")).trail, e.departs = false) ∧ outcome.messages ≠ [] := by
  intro c
  have compiled : (Dialect.standard .lenient).compileAll [ordering] =
      .ok c.engine.registry.current.graphs := rfl
  have done : (c.reply (.turn "wait")).result = .ok _ := rfl
  have stays : ∀ e ∈ (c.reply (.turn "wait")).trail, e.departs = false := by decide
  have loud : ¬ c.engine.registry.current.Mute c.state.stack .reprompt :=
    Upshot.not_mute (by simp) (by simp)
  have iff := unanswered_iff compiled "script" [continues, .certain .correction none []]
    [.start "order" .empty, .turn "milk"] "wait" done stays
  refine ⟨compiled, _, done, stays, fun silent => ?_⟩
  obtain ⟨d, decided, mute⟩ := iff.1 silent
  cases decided
  exact loud mute

/-- A correction that is accepted is not. -/
theorem correction_unanswered :
    let c := stalled (corrects "item" "tea")
    (Dialect.standard .lenient).compileAll [ordering] = .ok c.engine.registry.current.graphs ∧
      ∃ outcome, (c.reply (.turn "tea")).result = .ok outcome ∧
        (c.reply (.turn "tea")).trail = [] ∧ outcome.messages = [] := by
  intro c
  have done : (c.reply (.turn "tea")).result = .ok _ := rfl
  exact ⟨rfl, _, done, rfl, rfl⟩

end Conversation

end Colloquy
