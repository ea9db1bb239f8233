import Colloquy.Proofs.Session.Resting
import Colloquy.Proofs.Turn.Question

/-!
What a message is answered where the running flow waits. Values are kept or refused, the one asked
for is accepted or asked for again, and a question is repeated; only at an action that has failed is
there nothing to ask.
-/

set_option autoImplicit false

namespace Colloquy

open Colloquy.Graph (Activity Node Target)

namespace Graph

def keeps (g : Graph) (slots : Slots) (slot : String) (value : Value) : Bool :=
  match g.owner? slot with
  | none => true
  | some (_, rule) => passes rule slots slot value matches .ok true

def kept (g : Graph) (slots : Slots) (values : List (String × Value)) : List (String × Value) :=
  values.filter fun pair => g.keeps slots pair.1 pair.2

end Graph

/-- The value that a decision gives for the slot asked for, and the values beside it. -/
def Decision.offer? (d : Decision) (r : Reading) (text slot : String) :
    Option (Value × List (String × Value)) :=
  match d with
  | proceed =>
    match r.slot? slot with
    | some value => some (value, r.slots.filter (·.1 ≠ slot))
    | none => if r.slots.isEmpty then some (.infer text, []) else none
  | revise slots =>
    (slots.find? (·.1 = slot)).map fun pair => (pair.2, slots.filter (·.1 ≠ slot))
  | _ => none

namespace Library

variable (l : Library) (stack : Stack) (d : Decision)

def kept (values : List (String × Value)) : List (String × Value) :=
  (stack.top?.bind (l.get? ·.flow)).elim [] (·.kept stack.slots values)

/-- The decision gives a value for the slot that the running flow asks for, and that is accepted. -/
def Fills (r : Reading) (text : String) : Prop :=
  ∃ node slot value others, l.topNode? stack = some node ∧ node.activity.asked? = some slot ∧
    d.offer? r text slot = some (value, others) ∧
    passes node.activity.rule? (stack.slots.merge (l.kept stack others)) slot value = .ok true

/-- The running flow has stopped at an action, where there is nothing to ask for. -/
def Broken : Prop :=
  ∃ node action, l.topNode? stack = some node ∧ node.activity = .action action

/-- There is nothing to ask for, and the decision gives nothing to refuse either. -/
def Mute : Prop :=
  l.Broken stack ∧
    (d = .answerChange false ∨ ∃ values, d = .revise values ∧ l.kept stack values = values)

end Library

variable {σ α : Type} {l : Library} {t t' : Turn σ} {top : Frame} {below : List Frame}
  {graph : Graph} {node : Node} {values : List (String × Value)}

namespace Turn

theorem kept_eq (frames : t.stack.frames = top :: below) (known : l.get? top.flow = some graph)
    (values : List (String × Value)) : l.kept t.stack values = graph.kept top.slots values := by
  simp [Library.kept, Stack.slots, top?_eq frames, known]

theorem topNode?_eq (frames : t.stack.frames = top :: below) :
    l.topNode? t.stack = l.node? top := by
  simp [Library.topNode?, top?_eq frames]

/-- Each value that is refused is answered. -/
theorem run_accepted (t : Turn σ) (graph : Graph) (values : List (String × Value)) :
    ∃ shown, (shown = [] ↔ graph.kept t.stack.slots values = values) ∧
      t.run (TurnM.accepted graph values) = (.ok (graph.kept t.stack.slots values),
        { t with messages := t.messages ++ shown }) := by
  induction values generalizing t with
  | nil => exact ⟨[], by simp [Graph.kept], by simp [Graph.kept, TurnM.accepted]⟩
  | cons pair values ih =>
    have keeps (accepts : graph.keeps t.stack.slots pair.1 pair.2 = true) :
        ∃ shown, (shown = [] ↔
            graph.kept t.stack.slots (pair :: values) = pair :: values) ∧
          t.run (do return pair :: (← TurnM.accepted graph values)) =
            (.ok (graph.kept t.stack.slots (pair :: values)),
              { t with messages := t.messages ++ shown }) := by
      obtain ⟨shown, silent, ran⟩ := ih t
      have kept : graph.kept t.stack.slots (pair :: values) =
          pair :: graph.kept t.stack.slots values := List.filter_cons_of_pos accepts
      refine ⟨shown, by simpa [kept] using silent, ?_⟩
      rw [run_bind_ok ran, kept]
      rfl
    unfold TurnM.accepted
    split
    · next free => exact keeps (by simp [Graph.keeps, free])
    · next rejection rule owner =>
      rw [run_bind_ok run_get]
      cases passed : passes rule t.stack.slots pair.1 pair.2 with
      | error e => exact absurd passed passes_ne_error
      | ok accepts =>
        rw [run_bind_ok (run_ofExcept_ok id accepts)]
        cases accepts with
        | true => exact keeps (by simp [Graph.keeps, owner, passed])
        | false =>
          have refused : ¬ graph.keeps t.stack.slots pair.1 pair.2 = true := by
            simp [Graph.keeps, owner, passed]
          have kept : graph.kept t.stack.slots (pair :: values) =
              graph.kept t.stack.slots values := List.filter_cons_of_neg refused
          let told : Turn σ := { t with messages := t.messages ++ [t.message rejection] }
          obtain ⟨shown, -, ran⟩ := ih told
          refine ⟨t.message rejection :: shown, ?_, ?_⟩
          · have less := List.length_filter_le (fun p => graph.keeps t.stack.slots p.1 p.2) values
            refine iff_of_false (by simp) fun all => ?_
            rw [kept] at all
            have counts := congrArg List.length all
            simp only [List.length_cons] at counts
            unfold Graph.kept at counts
            omega
          · rw [kept, TurnM.say]
            simp only [Bool.false_eq_true, if_false]
            rw [run_bind_ok (run_modify _)]
            exact ran.trans (by simp [told])

def filling (t : Turn σ) (top : Frame) (below : List Frame) (slots : Slots)
    (shown : List Message) : Turn σ :=
  { t with
    stack := ⟨{ top with slots } :: below, t.stack.nextId⟩
    messages := t.messages ++ shown }

theorem run_fill (frames : t.stack.frames = top :: below) (known : l.get? top.flow = some graph)
    (values : List (String × Value)) (rest : TurnM σ α) :
    ∃ shown, (shown = [] ↔ l.kept t.stack values = values) ∧
      t.run (TurnM.accepted graph values >>= fun values => do
        TurnM.fill values
        rest) =
      (t.filling top below (top.slots.merge (l.kept t.stack values)) shown).run rest := by
  have slots : t.stack.slots = top.slots := by simp [Stack.slots, top?_eq frames]
  obtain ⟨shown, silent, ran⟩ := run_accepted t graph values
  rw [kept_eq frames known]
  rw [slots] at silent ran
  refine ⟨shown, silent, ?_⟩
  rw [run_bind_ok ran, TurnM.fill, run_bind_ok (run_onTop (by exact frames) _)]
  rfl

theorem run_fill_nil (frames : t.stack.frames = top :: below) (graph : Graph) (rest : TurnM σ α) :
    t.run (TurnM.accepted graph [] >>= fun values => do
      TurnM.fill values
      rest) = t.run rest := by
  have still : t.run (TurnM.fill []) = (.ok (), t) := by
    rw [TurnM.fill, run_onTop frames]
    simp only [Table.merge, List.foldl_nil, ← frames]
  exact run_bind_ok still fun _ => rest

theorem run_position {place : Option Position} (found : l.position t.stack = .ok place)
    (rest : Option Position → TurnM σ α) :
    t.run (TurnM.position l >>= rest) = t.run (rest place) := by
  have placed : t.run (TurnM.position l) = (.ok place, t) := by
    rw [TurnM.position, run_bind_ok run_get, found, run_ofExcept_ok]
  rw [run_bind_ok placed]

theorem run_position_nil (empty : t.stack.frames = []) (rest : Option Position → TurnM σ α) :
    t.run (TurnM.position l >>= rest) = t.run (rest none) :=
  run_position (by simp [Library.position, Stack.top?, empty]) rest

structure Stands (l : Library) (t : Turn σ) (top : Frame) (below : List Frame) (graph : Graph)
    (index : Nat) (node : Node) : Prop where
  frames : t.stack.frames = top :: below
  known : l.get? top.flow = some graph
  member : graph.nodes[index]? = some node
  node : l.node? top = some node

theorem exists_stands (stands : l.topNode? t.stack = some node) :
    ∃ top below graph index, t.Stands l top below graph index node ∧
      l.position t.stack = .ok (some ⟨graph, some index⟩) := by
  obtain ⟨graph, index, found⟩ := Library.position_of_topNode? stands
  have placed := Library.position_eq_ok found
  cases placed with
  | @«at» top below _ _ node' frames known member node'' =>
    rw [topNode?_eq frames, node''] at stands
    cases stands
    exact ⟨top, below, graph, index, ⟨frames, known, member, node''⟩, found⟩

theorem run_nodeAt {index : Nat} (member : graph.nodes[index]? = some node)
    (rest : Node → TurnM σ α) :
    t.run (TurnM.ofExcept id (graph.nodeAt index) >>= rest) = t.run (rest node) := by
  have found : graph.nodeAt index = .ok node := by simp only [Graph.nodeAt, member]
  rw [found, run_bind_ok (run_ofExcept_ok id node)]

theorem prompt?_isSome_iff (waits : Library.Waits node) :
    node.activity.prompt?.isSome ↔ ¬ ∃ action, node.activity = .action action := by
  rcases waits with asks | ⟨action, activity⟩
  · refine iff_of_true asks ?_
    rintro ⟨action, activity⟩
    simp [activity, Activity.awaitsInput, Activity.prompt?] at asks
  · simp [activity, Activity.prompt?]

/-- Asking again shows something, unless the flow has stopped at an action. -/
theorem run_ask_of_waits (stands : l.topNode? t.stack = some node) (waits : Library.Waits node) :
    ∃ shown, (shown = [] ↔ l.Broken t.stack) ∧
      t.run (TurnM.ask l) =
        (.ok !shown.isEmpty, { t with messages := t.messages ++ shown }) := by
  obtain ⟨top, below, graph, index, place, found⟩ := exists_stands stands
  have broken : l.Broken t.stack ↔ ¬ node.activity.prompt?.isSome := by
    rw [prompt?_isSome_iff waits, not_not]
    simp [Library.Broken, stands]
  have asks : t.run (TurnM.ask l) = _ := run_position found _
  simp only [place.member, Option.bind_some] at asks
  cases prompt : node.activity.prompt? with
  | some prompt' =>
    simp only [prompt] at asks
    exact ⟨[t.message prompt'], by simp [broken, prompt], asks⟩
  | none =>
    simp only [prompt] at asks
    exact ⟨[], by simp [broken, prompt], by simpa using asks⟩

theorem run_reprompt_of_waits
    (waits : t.stack.frames = [] ∨ ∃ node, l.topNode? t.stack = some node ∧ Library.Waits node) :
    ∃ shown, shown ≠ [] ∧
      t.run (TurnM.reprompt l) = (.ok (), { t with messages := t.messages ++ shown }) := by
  obtain pending | ⟨flow, pending⟩ := Option.eq_none_or_eq_some t.pending
  · have asks {asked : Bool} {shown : List Message}
        (ran : t.run (TurnM.ask l) = (.ok asked, { t with messages := t.messages ++ shown })) :
        t.run (TurnM.reprompt l) = Turn.run { t with messages := t.messages ++ shown }
          (if asked then pure () else TurnM.say "fallback") := by
      rw [TurnM.reprompt, run_bind_ok run_get]
      split
      · next found => cases pending.symm.trans found
      · rw [run_bind_ok ran]
    rcases waits with empty | ⟨node, stands, waits⟩
    · have nothing : t.run (TurnM.ask l) = (.ok false, { t with messages := t.messages ++ [] }) :=
        (run_position_nil empty _).trans (by simp)
      exact ⟨[t.message "fallback"], by simp, (asks nothing).trans (by simp [TurnM.say, message])⟩
    · obtain ⟨shown, -, ran⟩ := run_ask_of_waits stands waits
      cases shown with
      | nil =>
        exact ⟨[t.message "fallback"], by simp, (asks ran).trans (by simp [TurnM.say, message])⟩
      | cons m shown => exact ⟨m :: shown, by simp, asks ran⟩
  · exact ⟨[t.question flow], by simp, run_reprompt pending⟩

section

variable {s : Stage σ} {slot prompt rejection : String} {rule : Option Predicate}
  {askAlways : Bool} {value : Value}

theorem run_offer_accepted (frames : t.stack.frames = top :: below)
    (activity : node.activity = .collect slot prompt rejection rule askAlways)
    (passed : passes rule top.slots slot value = .ok true) :
    t.run (TurnM.offer s node value) = Turn.run { t with
      stack := ⟨{ top with slots := top.slots.insert slot value } :: below, t.stack.nextId⟩
      advanced := true } (TurnM.goOn s node.name) := by
  have slots : t.stack.slots = top.slots := by simp [Stack.slots, top?_eq frames]
  unfold TurnM.offer
  simp only [activity]
  rw [run_bind_ok run_get, slots, passed, run_bind_ok (run_ofExcept_ok id true), if_pos rfl,
    run_bind_ok (run_onTop frames _), TurnM.advanced, run_bind_ok (run_modify _)]

theorem run_offer_refused (frames : t.stack.frames = top :: below)
    (activity : node.activity = .collect slot prompt rejection rule askAlways)
    (passed : passes rule top.slots slot value = .ok false) :
    ∃ shown, shown ≠ [] ∧ t.run (TurnM.offer s node value) =
      (.ok (), { t with messages := t.messages ++ shown }) := by
  have slots : t.stack.slots = top.slots := by simp [Stack.slots, top?_eq frames]
  refine ⟨[t.message rejection, t.message prompt], by simp, ?_⟩
  unfold TurnM.offer
  simp only [activity]
  rw [run_bind_ok run_get, slots, passed, run_bind_ok (run_ofExcept_ok id false), if_neg (by simp),
    TurnM.say, run_bind_ok (run_modify _), TurnM.say, run_modify]
  simp [message]

end

end Turn

end Colloquy
