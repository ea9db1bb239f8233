import Colloquy.Proofs.Session.Script
import Colloquy.Proofs.Session.Settling

/-!
Cancelling. It gets the user out of everything, provided that the running flow is still among those
that the session runs; a new set of flows need not have it.
-/

set_option autoImplicit false

namespace Colloquy

variable {σ : Type}

namespace Session

variable {s : Session} {engine : Engine σ} {world : σ} {m : Machine} {r : Reading} {text : String}

theorem dispatch_cancel (engine : Engine σ) (world : σ) (r : Reading) (text : String)
    (heard : m.Heard) (before : State) :
    (∃ outcome, (dispatch engine before m world .cancel r text).result = .ok outcome) ∧
      (dispatch engine before m world .cancel r text).machine.state.Cleared := by
  let l := engine.registry.current
  let t₀ : Turn σ := .start m world
  let t := (t₀.run TurnM.cancel).2
  have chosen : t.resting l before .cancel = .ok (.idle, none) := rfl
  have ready : t.failure = none := rfl
  obtain ⟨brought, phases⟩ := Turn.update_effects (t := t) (l := l) before r .cancel none heard
    (.begun rfl rfl) Library.upright_nil (by simp)
  have cleared (responses : List String) :
      ((t.machine.after (t.effects before r .cancel none)).after
        (Turn.settlement responses .idle)).state.Cleared := ⟨rfl, rfl, rfl, rfl⟩
  have settled (responses : List String) := Turn.update_settlement
    (Library.rests_of_cleared (l := l) (cleared responses))
    (.inl (phases.resolve_right (by simp [ready])))
  have committed : ∃ outcome responses, t.commit l engine.backend.render before r .cancel =
      (.ok outcome, (t.machine.after (t.effects before r .cancel none)).after
        (Turn.settlement responses .idle)) := by
    simp only [Turn.commit, chosen, brought, settled]
    exact ⟨_, _, rfl⟩
  obtain ⟨outcome, responses, committed⟩ := committed
  have dispatched : dispatch engine before m world .cancel r text =
      ⟨(t.commit l engine.backend.render before r .cancel).1,
        (t.commit l engine.backend.render before r .cancel).2, t.world, t.trail⟩ := rfl
  rw [dispatched, committed]
  exact ⟨⟨outcome, rfl⟩, cleared responses⟩

theorem call_cancel (settled : s.state.Settled) (reads : s.Reads engine world text r)
    (kind : r.kind = .cancellation)
    (known : ∀ f ∈ s.state.stack.top?, engine.registry.current.contains f.flow = true) :
    (∃ outcome, (s.call engine world (.turn text)).result = .ok outcome) ∧
      (s.call engine world (.turn text)).session.state.Cleared := by
  obtain ⟨heard, same⟩ := call_of_reads settled reads
  rw [Library.currentNode_eq known] at same
  simp only [Decision.route, kind] at same
  obtain ⟨⟨outcome, done⟩, cleared⟩ :=
    dispatch_cancel engine _ r text heard s.state
  rw [same]
  unfold conclude
  rw [done]
  exact ⟨⟨outcome, rfl⟩, cleared⟩

theorem call_cancel_unknown (settled : s.state.Settled) (reads : s.Reads engine world text r)
    {f : Frame} (top : s.state.stack.top? = some f)
    (unknown : engine.registry.current.contains f.flow = false) :
    (s.call engine world (.turn text)).result = .error (.unknownFlow f.flow) ∧
      (s.call engine world (.turn text)).session.state.phase = .error ∧
      (s.call engine world (.turn text)).session.state.stack = s.state.stack := by
  obtain ⟨heard, same⟩ := call_of_reads settled reads
  have missing :
      engine.registry.current.currentNode s.state.stack = .error (.unknownFlow f.flow) := by
    have absent : engine.registry.current.get? f.flow = none := by
      simpa [Library.contains, Table.contains, Library.get?] using unknown
    simp only [Library.currentNode, top, Library.graph, absent]
    rfl
  rw [missing] at same
  rw [same]
  obtain ⟨recovered, -⟩ := recover_eq settled.consistent (s.machine.after (hearing text))
  simp only [conclude, recovered]
  exact ⟨trivial, rfl, rfl⟩

end Session

namespace Conversation

open Script

variable {c : Conversation σ}

theorem Reached.after (reached : c.Reached) (calls : List Call) : (c.after calls).Reached := by
  induction calls generalizing c with
  | nil => exact reached
  | cons call calls ih => exact ih (c := c.next call) (.called call reached)

theorem Reached.settled (reached : c.Reached) : c.state.Settled := by
  induction reached with
  | opened => exact State.initial_settled
  | called call _ ih => exact Session.call_settled ih call
  | reloaded _ _ ih => exact ih

/-- A cancellation is heeded just when the running flow, if there is one, is known. Otherwise the
turn fails and changes nothing but the phase. -/
theorem cancels_iff {text : String} {r : Reading} (reached : c.Reached)
    (reads : c.session.Reads c.engine c.world text r) (kind : r.kind = .cancellation) :
    ((∃ outcome, (c.reply (.turn text)).result = .ok outcome) ∧ (c.next (.turn text)).state.Cleared ↔
      ∀ f ∈ c.state.stack.top?, c.engine.registry.current.contains f.flow = true) ∧
    ∀ f ∈ c.state.stack.top?, c.engine.registry.current.contains f.flow = false →
      (c.reply (.turn text)).result = .error (.unknownFlow f.flow) ∧
        (c.next (.turn text)).state.phase = .error ∧
        (c.next (.turn text)).state.stack = c.state.stack := by
  have settled := reached.settled
  constructor
  · constructor
    · rintro ⟨⟨outcome, done⟩, -⟩ f top
      by_contra unknown
      rw [Bool.not_eq_true] at unknown
      have fails := (Session.call_cancel_unknown settled reads top unknown).1
      cases done.symm.trans fails
    · exact Session.call_cancel settled reads kind
  · intro f top unknown
    exact Session.call_cancel_unknown settled reads top unknown

def outdated : Conversation (List Reading) :=
  let c := (scripted [asking] [cancels]).next (.start "ask" .empty)
  { c with engine := { c.engine with registry := ⟨.standard .lenient, Library.of [greeting] 1⟩ } }

theorem outdated_reached : outdated.Reached := by
  have began : ((scripted [asking] [cancels]).next (.start "ask" .empty)).Reached :=
    .called _ (.opened ..)
  have reloads : ((scripted [asking] [cancels]).next (.start "ask" .empty)).engine.registry.reload
      [greeting] = .ok ⟨.standard .lenient, .of [greeting] 1⟩ := rfl
  exact .reloaded reloads began

theorem cancels_iff_outdated :
    outdated.Reached ∧ outdated.session.Reads outdated.engine outdated.world "stop" cancels ∧
      ((∃ outcome, (outdated.reply (.turn "stop")).result = .ok outcome) ∧
          (outdated.next (.turn "stop")).state.Cleared ↔
        ∀ f ∈ outdated.state.stack.top?, outdated.engine.registry.current.contains f.flow = true) :=
  ⟨outdated_reached, rfl, (cancels_iff outdated_reached (r := cancels) rfl rfl).1⟩

/-- The user who asks to leave a removed flow stays in it. -/
theorem cancel_fails_outdated :
    outdated.Reached ∧ outdated.session.Reads outdated.engine outdated.world "stop" cancels ∧
      cancels.kind = .cancellation ∧
      (outdated.reply (.turn "stop")).result = .error (.unknownFlow "ask") ∧
      (outdated.next (.turn "stop")).state.stack.depth = 1 :=
  ⟨outdated_reached, rfl, rfl, rfl, rfl⟩

end Conversation

end Colloquy
