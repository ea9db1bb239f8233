import Colloquy.Proofs.Session.Asking
import Colloquy.Proofs.Turn.Course

/-!
How carrying out a decision sets out in a session at rest. The turn stays where it is and shows
something, or cancels everything, or begins to go through the flows from somewhere.
-/

set_option autoImplicit false

namespace Colloquy

open Colloquy.Graph (Activity Target Node)

variable {σ : Type} {l : Library} {t t' : Turn σ} {top : Frame} {below : List Frame}
  {graph : Graph} {node : Node} {values : List (String × Value)}

namespace Turn

/-- The turn stays where it is, and no more than shows something, fills slots, or opens or withdraws
a question. -/
structure Stays (t t' : Turn σ) (shown : List Message) : Prop where
  place : t'.stack.place = t.stack.place
  trail : t'.trail = t.trail
  advanced : t'.advanced = t.advanced
  failure : t'.failure = t.failure
  messages : t'.messages = t.messages ++ shown

theorem stays_filling (frames : t.stack.frames = top :: below) (slots : Slots)
    (shown more : List Message) :
    t.Stays { t.filling top below slots shown with
      messages := (t.filling top below slots shown).messages ++ more } (shown ++ more) where
  place := by simp [filling, Stack.place, Stack.top?, Stack.depth, frames]
  trail := rfl
  advanced := rfl
  failure := rfl
  messages := List.append_assoc ..

structure Ready (l : Library) (d : Decision) (t : Turn σ) : Prop where
  waits : t.stack.frames = [] ∨ ∃ node, l.topNode? t.stack = some node ∧ Library.Waits node
  begins : ∀ flow, d = .startFlow flow → t.stack.frames = []
  answers : ∀ accepted, d = .answerChange accepted → t.pending.isSome ∧ t.stack.frames ≠ []

end Turn

/-- From where a turn begins to go through the flows: one case for each way to begin. -/
inductive Outset (s : Stage σ) (r : Reading) (text : String) (t : Turn σ) :
    Decision → Turn σ → Target → Prop where
  | filled {d : Decision} {top : Frame} {below : List Frame} {graph : Graph} {index : Nat}
      {node : Node} {target : Target} (slots : Slots) (messages : List Message) :
      t.Stands s.library top below graph index node → s.library.Fills t.stack d r text →
      Outset s r text t d { t with
        stack := ⟨{ top with slots } :: below, t.stack.nextId⟩
        messages
        trail := t.trail ++ [.left top.invocation node.name]
        advanced := true } target
  | answered {top : Frame} {below : List Frame} {graph : Graph} {index : Nat} {node : Node}
      {slot : Option String} {prompt : String} {affirmed : Bool} {target : Target} (slots : Slots) :
      t.Stands s.library top below graph index node → node.activity = .confirm slot prompt →
      graph.answered node.name affirmed = some target →
      Outset s r text t (.answer affirmed)
        (t.onto ⟨{ top with slots } :: below, t.stack.nextId⟩ [.left top.invocation node.name])
        target
  /-- The action that has failed is run again. -/
  | retried {top : Frame} {below : List Frame} {graph : Graph} {index : Nat} {node : Node}
      {action : String} :
      t.Stands s.library top below graph index node → node.activity = .action action →
      Outset s r text t .proceed t (.step index)
  | began {flow : String} {graph : Graph} :
      t.stack.frames = [] → s.library.get? flow = some graph →
      Outset s r text t (.startFlow flow)
        (t.onto (t.stack.push flow (.ofList r.slots) []) [.began ⟨flow, t.stack.nextId⟩])
        graph.entry
  | changed {top : Frame} {below : List Frame} {flow : String} {graph : Graph} :
      t.stack.frames = top :: below → s.library.get? flow = some graph →
      Outset s r text t (.answerChange true)
        { t.onto (t.stack.push flow .empty below)
            [.changed top.invocation ⟨flow, t.stack.nextId⟩] with
          pending := none }
        graph.entry

theorem Outset.failure_eq {s : Stage σ} {r : Reading} {text : String} {d : Decision} {t₁ : Turn σ}
    {target : Target} (outset : Outset s r text t d t₁ target) : t₁.failure = t.failure := by
  cases outset <;> rfl

inductive Upshot (s : Stage σ) (r : Reading) (text : String) (d : Decision) (t : Turn σ) :
    Turn σ → Prop where
  | stayed {t' : Turn σ} (shown : List Message) :
      t.Stays t' shown → ¬ s.library.Fills t.stack d r text →
      (shown = [] ↔ s.library.Mute t.stack d) → Upshot s r text d t t'
  | cancelled {t' : Turn σ} : d = .cancel → t'.stack.frames = [] → t'.advanced = t.advanced →
      t'.failure = t.failure → t'.trail = t.trail ++
        (t.stack.top?.map fun f => Event.cancelled f.invocation).toList →
      t'.messages ≠ [] → Upshot s r text d t t'
  | went {t₁ t' : Turn σ} {target : Target} :
      Outset s r text t d t₁ target →
      t.run (TurnM.perform s r text d) = t₁.run (TurnM.walkFrom s target) →
      t₁.run (TurnM.walkFrom s target) = (.ok (), t') → Upshot s r text d t t'

namespace Upshot

variable {s : Stage σ} {r : Reading} {text : String} {d : Decision} {index : Nat}

open Turn

theorem fills_iff {slot prompt rejection : String} {rule : Option Predicate} {askAlways : Bool}
    (place : t.Stands l top below graph index node)
    (activity : node.activity = .collect slot prompt rejection rule askAlways) :
    l.Fills t.stack d r text ↔ ∃ value others, d.offer? r text slot = some (value, others) ∧
      passes rule (top.slots.merge (l.kept t.stack others)) slot value = .ok true := by
  have stands : l.topNode? t.stack = some node := (topNode?_eq place.frames).trans place.node
  have slots : t.stack.slots = top.slots := by simp [Stack.slots, top?_eq place.frames]
  simp [Library.Fills, stands, slots, activity, Activity.asked?, Activity.rule?]

theorem not_fills_of_nil (empty : t.stack.frames = []) : ¬ l.Fills t.stack d r text := by
  rintro ⟨node, _, _, _, stands, -⟩
  simp [Library.topNode?, Stack.top?, empty] at stands

theorem not_fills_of_asked (place : t.Stands l top below graph index node)
    (asks : node.activity.asked? = none) : ¬ l.Fills t.stack d r text := by
  have stands : l.topNode? t.stack = some node := (topNode?_eq place.frames).trans place.node
  rintro ⟨node', slot, _, _, stands', asks', -⟩
  rw [stands] at stands'
  cases stands'
  rw [asks] at asks'
  cases asks'

theorem not_fills_of_offer {stack : Stack} (other : ∀ slot, d.offer? r text slot = none) :
    ¬ l.Fills stack d r text := by
  rintro ⟨_, slot, _, _, -, -, offered, -⟩
  rw [other] at offered
  cases offered

theorem not_broken {slot prompt rejection : String} {rule : Option Predicate} {askAlways : Bool}
    (place : t.Stands l top below graph index node)
    (activity : node.activity = .collect slot prompt rejection rule askAlways) :
    ¬ l.Broken t.stack := by
  rintro ⟨node', action, stands, activity'⟩
  rw [topNode?_eq place.frames, place.node, Option.some.injEq] at stands
  rw [← stands, activity] at activity'
  cases activity'

theorem not_mute {stack : Stack} (answers : d ≠ .answerChange false)
    (revises : ∀ values, d ≠ .revise values) : ¬ l.Mute stack d := by
  rintro ⟨-, same | ⟨values, same, -⟩⟩
  · exact answers same
  · exact revises values same

/-- A value is offered to the step that asks for it: it is accepted, and the flow goes on from the
step, or the step asks again. -/
theorem of_offer {slot prompt rejection : String} {rule : Option Predicate} {askAlways : Bool}
    {value : Value} {others : List (String × Value)}
    (place : t.Stands s.library top below graph index node)
    (activity : node.activity = .collect slot prompt rejection rule askAlways)
    (offered : d.offer? r text slot = some (value, others))
    (lead : t.run (TurnM.perform s r text d) = t.run (do
      TurnM.fill (← TurnM.accepted graph others)
      TurnM.offer s node value))
    (ran : t.run (TurnM.perform s r text d) = (.ok (), t')) : Upshot s r text d t t' := by
  have fills : s.library.Fills t.stack d r text ↔
      passes rule (top.slots.merge (s.library.kept t.stack others)) slot value = .ok true := by
    simp [fills_iff place activity, offered]
  obtain ⟨shown, -, filled⟩ := run_fill (l := s.library) place.frames place.known others
    (TurnM.offer s node value)
  rw [filled] at lead
  cases passed : passes rule (top.slots.merge (s.library.kept t.stack others)) slot value with
  | error e => exact absurd passed passes_ne_error
  | ok accepts =>
    cases accepts with
    | true =>
      rw [run_offer_accepted rfl activity passed] at lead
      rw [lead] at ran
      obtain ⟨next, t₁, went, walked⟩ := run_bind_eq_ok ran
      have lead := lead.trans (run_bind_ok went _)
      obtain ⟨goesOn, rfl⟩ := goFrom_eq_ok rfl went
      obtain ⟨target, rfl⟩ := Option.isSome_iff_exists.1 goesOn
      exact .went (.filled _ _ place (fills.2 passed)) lead walked
    | false =>
      obtain ⟨answered, told, refused⟩ := run_offer_refused (s := s)
        (t := t.filling top below (top.slots.merge (s.library.kept t.stack others)) shown) rfl
        activity passed
      rw [lead, refused] at ran
      cases ran
      refine .stayed _ (stays_filling place.frames _ shown answered) ?_ ?_
      · rw [fills, passed]
        simp
      · simp [Library.Mute, not_broken place activity, told]

/-- Values that answer nothing are filled in, and the step asks again. -/
theorem of_fill (place : t.Stands s.library top below graph index node)
    (waits : Library.Waits node) (unfilled : ¬ s.library.Fills t.stack d r text)
    (mute : s.library.Mute t.stack d ↔
      s.library.Broken t.stack ∧ s.library.kept t.stack values = values)
    (lead : t.run (TurnM.perform s r text d) = t.run (do
      TurnM.fill (← TurnM.accepted graph values)
      let _ ← TurnM.ask s.library))
    (ran : t.run (TurnM.perform s r text d) = (.ok (), t')) : Upshot s r text d t t' := by
  obtain ⟨shown, silent, filled⟩ := run_fill (l := s.library) place.frames place.known values
    (TurnM.ask s.library >>= fun _ => pure ())
  let t₁ := t.filling top below (top.slots.merge (s.library.kept t.stack values)) shown
  obtain ⟨asked, broken, asks⟩ := run_ask_of_waits (t := t₁) (l := s.library) place.node waits
  have broken : asked = [] ↔ s.library.Broken t.stack := by
    rw [broken, Library.Broken, Library.Broken, topNode?_eq place.frames]
    rfl
  rw [lead, filled, run_bind_ok asks] at ran
  cases ran
  refine .stayed _ (stays_filling place.frames _ shown asked) unfilled ?_
  rw [List.append_eq_nil_iff, silent, broken, mute, and_comm]

theorem of_shown {shown : List Message} (told : shown ≠ [])
    (unfilled : ¬ s.library.Fills t.stack d r text) (mute : ¬ s.library.Mute t.stack d) :
    Upshot s r text d t { t with messages := t.messages ++ shown } :=
  .stayed shown ⟨rfl, rfl, rfl, rfl, rfl⟩ unfilled (iff_of_false told mute)

theorem of_proceed (ready : t.Ready s.library .proceed)
    (ran : t.run (TurnM.perform s r text .proceed) = (.ok (), t')) :
    Upshot s r text .proceed t t' := by
  have mute : ¬ s.library.Mute t.stack .proceed := not_mute (by simp) (by simp)
  rcases ready.waits with empty | ⟨node, stands, waits⟩
  · rw [show t.run (TurnM.perform s r text .proceed) = _ from run_position_nil empty _] at ran
    cases ran
    exact of_shown (by simp) (not_fills_of_nil empty) mute
  · obtain ⟨top, below, graph, index, place, found⟩ := exists_stands stands
    have lead : t.run (TurnM.perform s r text .proceed) = _ :=
      (run_position found _).trans (run_nodeAt place.member _)
    cases activity : node.activity with
    | collect slot prompt rejection rule askAlways =>
      simp only [activity] at lead
      split at lead
      next value given =>
        exact of_offer place activity (by simp [Decision.offer?, given]) lead ran
      next given =>
        split at lead
        next none =>
          have offered : Decision.proceed.offer? r text slot = some (.infer text, []) := by
            simp [Decision.offer?, given, none]
          apply of_offer place activity offered _ ran
          exact lead.trans (run_fill_nil place.frames graph _).symm
        next some =>
          refine of_fill place waits ?_ ?_ lead ran
          · rw [fills_iff place activity]
            simp [Decision.offer?, given, some]
          · simp [mute, not_broken place activity]
    | confirm slot prompt =>
      simp only [activity] at lead
      obtain ⟨shown, -, filled⟩ := run_fill (l := s.library) place.frames place.known r.slots
        (TurnM.say prompt)
      rw [lead, filled] at ran
      cases ran
      refine .stayed _ (stays_filling place.frames _ shown [_]) ?_ (by simp [mute])
      exact not_fills_of_asked place (by rw [activity]; rfl)
    | action name =>
      simp only [activity] at lead
      exact .went (.retried place activity) lead (lead.symm.trans ran)
    | _ => simp [Library.Waits, activity, Activity.awaitsInput, Activity.prompt?] at waits

theorem of_revise {slots : List (String × Value)} (ready : t.Ready s.library (.revise slots))
    (ran : t.run (TurnM.perform s r text (.revise slots)) = (.ok (), t')) :
    Upshot s r text (.revise slots) t t' := by
  rcases ready.waits with empty | ⟨node, stands, waits⟩
  · have lead : t.run (TurnM.perform s r text (.revise slots)) = _ := run_position_nil empty _
    have still : t.run (TurnM.fill slots) = (.ok (), t) := by
      simp [TurnM.fill, TurnM.onTop, Stack.onTop, empty]
    obtain ⟨shown, told, asks⟩ := run_reprompt_of_waits ready.waits
    rw [lead, run_bind_ok still, asks] at ran
    cases ran
    refine of_shown told (not_fills_of_nil empty) ?_
    rintro ⟨⟨node, action, stands, -⟩, -⟩
    simp [Library.topNode?, Stack.top?, empty] at stands
  · obtain ⟨top, below, graph, index, place, found⟩ := exists_stands stands
    have lead : t.run (TurnM.perform s r text (.revise slots)) = _ :=
      (run_position found _).trans (run_nodeAt place.member _)
    have mute : s.library.Mute t.stack (.revise slots) ↔
        s.library.Broken t.stack ∧ s.library.kept t.stack slots = slots := by
      simp [Library.Mute]
    cases activity : node.activity with
    | collect slot prompt rejection rule askAlways =>
      simp only [activity] at lead
      cases given : slots.find? (·.1 = slot) with
      | some pair =>
        obtain rfl : pair.1 = slot := by simpa using List.find?_some given
        simp only [given] at lead
        exact of_offer place activity (by simp [Decision.offer?, given]) lead ran
      | none =>
        simp only [given] at lead
        refine of_fill place waits ?_ mute lead ran
        rw [fills_iff place activity]
        simp [Decision.offer?, given]
    | _ =>
      simp only [activity] at lead
      exact of_fill place waits (not_fills_of_asked place (by rw [activity]; rfl)) mute lead ran

theorem of_reprompt (ready : t.Ready s.library d) (lead : t.run (TurnM.perform s r text d) =
      t.run (TurnM.reprompt s.library))
    (unfilled : ¬ s.library.Fills t.stack d r text) (mute : ¬ s.library.Mute t.stack d)
    (ran : t.run (TurnM.perform s r text d) = (.ok (), t')) : Upshot s r text d t t' := by
  obtain ⟨shown, told, asks⟩ := run_reprompt_of_waits ready.waits
  rw [lead, asks] at ran
  cases ran
  exact of_shown told unfilled mute

theorem of_answer {affirmed : Bool} (ready : t.Ready s.library (.answer affirmed))
    (ran : t.run (TurnM.perform s r text (.answer affirmed)) = (.ok (), t')) :
    Upshot s r text (.answer affirmed) t t' := by
  have unfilled : ¬ s.library.Fills t.stack (.answer affirmed) r text :=
    not_fills_of_offer fun _ => rfl
  have mute : ¬ s.library.Mute t.stack (.answer affirmed) := not_mute (by simp) (by simp)
  rcases ready.waits with empty | ⟨node, stands, waits⟩
  · exact of_reprompt ready (run_position_nil empty _) unfilled mute ran
  · obtain ⟨top, below, graph, index, place, found⟩ := exists_stands stands
    have lead : t.run (TurnM.perform s r text (.answer affirmed)) = _ :=
      (run_position found _).trans (run_nodeAt place.member _)
    cases activity : node.activity with
    | confirm slot prompt =>
      have went {t₁ : Turn σ} (slots : Slots)
          (same : t₁ = { t with stack := ⟨{ top with slots } :: below, t.stack.nextId⟩ })
          (lead : t.run (TurnM.perform s r text (.answer affirmed)) =
            t₁.run (TurnM.leaveAnswered s graph node.name affirmed)) :
          Upshot s r text (.answer affirmed) t t' := by
        subst same
        unfold TurnM.leaveAnswered at lead
        split at lead
        · next target answered =>
          rw [run_bind_ok (run_note (by exact rfl) _)] at lead
          exact .went (.answered slots place activity answered) lead (lead.symm.trans ran)
        · rw [ran] at lead
          cases lead
      simp only [activity] at lead
      cases slot with
      | none =>
        refine went top.slots ?_ lead
        rw [← place.frames]
      | some slot =>
        dsimp only at lead
        rw [run_bind_ok (run_onTop place.frames _)] at lead
        exact went (top.slots.insert slot (.truth affirmed)) rfl lead
    | _ =>
      simp only [activity] at lead
      exact of_reprompt ready lead unfilled mute ran

theorem of_answerChange {accepted : Bool} (ready : t.Ready s.library (.answerChange accepted))
    (ran : t.run (TurnM.perform s r text (.answerChange accepted)) = (.ok (), t')) :
    Upshot s r text (.answerChange accepted) t t' := by
  have unfilled : ¬ s.library.Fills t.stack (.answerChange accepted) r text :=
    not_fills_of_offer fun _ => rfl
  obtain ⟨asked, remain⟩ := ready.answers accepted rfl
  obtain ⟨node, stands, waits⟩ := ready.waits.resolve_left remain
  obtain ⟨flow, asked⟩ := Option.isSome_iff_exists.1 asked
  let t₁ : Turn σ := { t with pending := none }
  have lead : t.run (TurnM.perform s r text (.answerChange accepted)) =
      t₁.run (TurnM.settle s flow accepted) := TurnM.run_answerChange accepted asked
  cases accepted with
  | false =>
    obtain ⟨shown, broken, asks⟩ := run_ask_of_waits (t := t₁) (l := s.library) stands waits
    rw [lead, TurnM.settle, if_pos (by simp), run_bind_ok asks] at ran
    cases ran
    refine .stayed shown ⟨rfl, rfl, rfl, rfl, rfl⟩ unfilled ?_
    simpa [Library.Mute] using broken
  | true =>
    obtain ⟨top, below, frames⟩ := List.exists_cons_of_ne_nil remain
    rw [TurnM.settle, if_neg (by simp), run_bind_ok run_get,
      if_neg (by simp [t₁, Stack.isEmpty, frames])] at lead
    rw [lead] at ran
    obtain ⟨target, t₂, handed, walked⟩ := run_bind_eq_ok ran
    have lead := lead.trans (run_bind_ok handed _)
    obtain ⟨graph, stack, known, pushed, rfl, rfl⟩ := handOver_eq_ok (t := t₁) frames handed
    obtain ⟨-, rfl⟩ := Stack.link_eq_ok (s := t₁.stack) frames pushed
    exact .went (.changed frames known) lead walked

theorem of_aside (ready : t.Ready s.library d) {template : String}
    (lead : t.run (TurnM.perform s r text d) = t.run (do
      TurnM.say template
      let _ ← TurnM.ask s.library))
    (unfilled : ¬ s.library.Fills t.stack d r text) (mute : ¬ s.library.Mute t.stack d)
    (ran : t.run (TurnM.perform s r text d) = (.ok (), t')) : Upshot s r text d t t' := by
  let t₁ : Turn σ := { t with messages := t.messages ++ [t.message template] }
  have asks : ∃ shown, t₁.run (TurnM.ask s.library >>= fun _ => pure ()) =
      (.ok (), { t₁ with messages := t₁.messages ++ shown }) := by
    rcases ready.waits with empty | ⟨node, stands, waits⟩
    · have nothing : t₁.run (TurnM.ask s.library) = _ := run_position_nil (t := t₁) empty _
      exact ⟨[], (run_bind_ok nothing _).trans (by simp)⟩
    · obtain ⟨shown, -, asks⟩ := run_ask_of_waits (t := t₁) (l := s.library) stands waits
      exact ⟨shown, run_bind_ok asks _⟩
  obtain ⟨shown, asks⟩ := asks
  rw [lead, TurnM.say, run_bind_ok (run_modify _), asks] at ran
  cases ran
  rw [show t₁.messages ++ shown = t.messages ++ ([t.message template] ++ shown) from
    List.append_assoc ..]
  exact of_shown (by simp) unfilled mute

theorem of_begin {flow : String} (ready : t.Ready s.library (.startFlow flow))
    (ran : t.run (TurnM.perform s r text (.startFlow flow)) = (.ok (), t')) :
    Upshot s r text (.startFlow flow) t t' := by
  have empty := ready.begins flow rfl
  have lead : t.run (TurnM.perform s r text (.startFlow flow)) =
      t.run (TurnM.begin s flow (.ofList r.slots)) := rfl
  unfold TurnM.begin at lead
  split at lead
  next unknown =>
    rw [lead] at ran
    cases ran
    exact of_shown (by simp) (not_fills_of_nil empty) (not_mute (by simp) (by simp))
  next graph known =>
    have started : t.stack.start flow (.ofList r.slots) =
        .ok (t.stack.push flow (.ofList r.slots) []) := by
      simp only [Stack.start, empty]
    rw [run_bind_ok run_get, started, run_bind_ok (run_ofExcept_ok _ _), TurnM.setStack,
      run_bind_ok (run_modify _), run_bind_ok (run_note (by exact rfl) _)] at lead
    exact .went (.began empty known) lead (lead.symm.trans ran)

/-- Carrying out a decision in a session at rest comes to one of the upshots, unless it fails. -/
theorem of_perform (ready : t.Ready s.library d)
    (ran : t.run (TurnM.perform s r text d) = (.ok (), t')) : Upshot s r text d t t' := by
  have unfilled (other : ∀ slot, d.offer? r text slot = none) :
      ¬ s.library.Fills t.stack d r text := not_fills_of_offer other
  cases d with
  | proceed => exact of_proceed ready ran
  | revise slots => exact of_revise ready ran
  | answer affirmed => exact of_answer ready ran
  | answerChange accepted => exact of_answerChange ready ran
  | reprompt =>
    exact of_reprompt ready rfl (unfilled fun _ => rfl) (not_mute (by simp) (by simp)) ran
  | digress | digressionLimit =>
    exact of_aside ready rfl (unfilled fun _ => rfl) (not_mute (by simp) (by simp)) ran
  | proposeChange flow =>
    have mute : ¬ s.library.Mute t.stack (.proposeChange flow) := not_mute (by simp) (by simp)
    have lead : t.run (TurnM.perform s r text (.proposeChange flow)) =
      t.run (TurnM.proposeChange s flow) := rfl
    rw [lead] at ran
    cases known : s.library.contains flow with
    | true =>
      rw [run_proposeChange known] at ran
      cases ran
      exact .stayed [_] ⟨rfl, rfl, rfl, rfl, rfl⟩ (unfilled fun _ => rfl) (by simp [mute])
    | false =>
      rw [run_proposeChange_unknown known] at ran
      cases ran
      exact of_shown (by simp) (unfilled fun _ => rfl) mute
  | startFlow flow => exact of_begin ready ran
  | cancel =>
    cases ran
    exact .cancelled rfl rfl rfl rfl rfl (by simp)

end Upshot

end Colloquy
