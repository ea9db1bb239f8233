import Colloquy.Proofs.Turn.Blindness

/-!
The question whether to change to another flow, and what else a turn shows. Going through flows
shows words of the flows, and neither heeds the question nor changes it.
-/

set_option autoImplicit false

namespace Colloquy

variable {σ α β : Type} {t : Turn σ} {l : Library} {backend : Backend σ} {s : Stage σ}
  {flow : String}

namespace TurnM

def Worded (l : Library) (steps : TurnM σ α) : Prop :=
  ∀ t : Turn σ, ∃ shown, (t.run steps).2.messages = t.messages ++ shown ∧
    ∀ m ∈ shown, l.Shows m.template

namespace Worded

theorem silent {steps : TurnM σ α} (same : ∀ t : Turn σ, (t.run steps).2.messages = t.messages) :
    Worded l steps :=
  fun t => ⟨[], by rw [same, List.append_nil], by simp⟩

theorem say {template : String} (shown : l.Shows template) :
    Worded l (say template : TurnM σ Unit) :=
  fun t => ⟨[t.message template], rfl, by simpa [Turn.message] using shown⟩

theorem bind {first : TurnM σ α} {rest : α → TurnM σ β} (begins : Worded l first)
    (goesOn : ∀ a, first.Gives a → Worded l (rest a)) : Worded l (first >>= rest) := by
  intro t
  rw [Turn.run_bind]
  obtain ⟨shown, messages, worded⟩ := begins t
  cases ran : t.run first with
  | mk result t' =>
    rw [ran] at messages
    cases result with
    | ok a =>
      obtain ⟨shown', messages', worded'⟩ := goesOn a ⟨t, t', ran⟩ t'
      refine ⟨shown ++ shown', ?_, ?_⟩
      · rw [messages', messages, List.append_assoc]
      · exact List.forall_mem_append.2 ⟨worded, worded'⟩
    | error e => exact ⟨shown, messages, worded⟩

end Worded

theorem worded_update (u : Update) : Worded l (update u : TurnM σ Unit) := by
  refine .silent fun t => ?_
  simp only [update, Turn.run_bind_ok Turn.run_get]
  cases t.machine.update u <;> rfl

theorem Inherited.of_worded : Inherited l backend fun _ => Worded l where
  pure _ := .silent fun _ => rfl
  throw _ := .silent fun _ => rfl
  throws _ := .silent fun _ => rfl
  bind := .bind
  get _ goesOn t := goesOn t t
  say := .say
  restack _ := .silent fun _ => rfl
  note _ := .silent fun _ => rfl
  notes _ := .silent fun _ => rfl
  advanced := .silent fun _ => rfl
  update _ _ := worded_update _
  invoke _ := .silent fun _ => rfl
  fails _ := .silent fun _ => rfl

end TurnM

structure Message.Asks (m : Message) (flow : String) : Prop where
  template : m.template = "confirm_intent_change"
  slots : m.slots.get? "target_flow" = some (.text flow)

namespace Turn

def question (t : Turn σ) (flow : String) : Message :=
  let m := t.message "confirm_intent_change"
  { m with slots := m.slots.insert "target_flow" (.text flow) }

theorem asks_question (t : Turn σ) (flow : String) : (t.question flow).Asks flow :=
  ⟨rfl, Table.get?_insert_self ..⟩

theorem run_reprompt (open' : t.pending = some flow) :
    t.run (TurnM.reprompt l) = (.ok (), { t with messages := t.messages ++ [t.question flow] }) := by
  rw [TurnM.reprompt, run_bind_ok run_get]
  split
  · next found =>
    cases found.symm.trans open'
    rfl
  · next none => cases none.symm.trans open'

theorem run_proposeChange (known : s.library.contains flow = true) :
    t.run (TurnM.proposeChange s flow) = (.ok (), { t with
      pending := some flow
      messages := t.messages ++ [t.question flow] }) := by
  rw [TurnM.proposeChange, if_pos known]
  rfl

theorem run_proposeChange_unknown (unknown : s.library.contains flow = false) :
    t.run (TurnM.proposeChange s flow) =
      (.ok (), { t with messages := t.messages ++ [t.message "fallback"] }) := by
  rw [TurnM.proposeChange, if_neg (by simp [unknown])]
  rfl

/-- An answer withdraws the question, and nothing that follows opens it again. -/
theorem pending_of_answerChange (open' : t.pending = some flow) (accepted : Bool) :
    (t.run (TurnM.answerChange s accepted)).2.pending = none := by
  have inherited : TurnM.Inherited s.library s.backend fun _ => TurnM.Unseen id id fun _ => none :=
    .of_unseen (fun _ _ _ => (congrFun Except.map_id _).symm) (Backend.blind_id _)
  rw [TurnM.run_answerChange accepted open']
  exact congrArg (·.2.pending) ((inherited.guided s.maxSteps).settle flow accepted t)

end Turn

end Colloquy
