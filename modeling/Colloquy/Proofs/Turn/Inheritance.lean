import Colloquy.Proofs.Turn.Responding

/-!
Properties that the steps of a turn inherit from their parts. `TurnM.Steady` and `TurnM.Inherited`
say what such a property has to be closed under; going through the program once then gives it of all
that goes through flows. `TurnM.Guided` and `TurnM.Carried` do the same for what is done with a
decision, which may be looked at for all budgets at once.
-/

set_option autoImplicit false

namespace Colloquy

open Colloquy.Graph (Activity Node Target)

def Graph.Activity.templates : Activity → List String
  | .collect _ prompt rejection _ _ => [prompt, rejection]
  | .confirm _ prompt => [prompt]
  | .say template => [template]
  | _ => []

namespace Graph

variable {g : Graph} {node : Node} {template : String}

theorem Activity.mem_templates_of_prompt? {activity : Activity}
    (asks : activity.prompt? = some template) : template ∈ activity.templates := by
  cases activity <;> simp_all [Activity.prompt?, Activity.templates]

theorem mem_of_nodeAt {index : Nat} (found : g.nodeAt index = .ok node) : node ∈ g.nodes := by
  unfold nodeAt at found
  split at found
  · next at' =>
    cases found
    exact List.mem_of_getElem? at'
  · cases found

end Graph

namespace Library

variable {l : Library} {graph : Graph} {template : String}

def Words (l : Library) (template : String) : Prop :=
  ∃ flow graph node, l.get? flow = some graph ∧ node ∈ graph.nodes ∧
    template ∈ node.activity.templates

/-- What the flows show, and what may be shown for them while they run. -/
def Shows (l : Library) (template : String) : Prop :=
  template ∈ ["action_failed", "fallback", "digression", "digression_limit"] ∨ l.Words template

def Holds (l : Library) (graph : Graph) : Prop := ∃ flow, l.get? flow = some graph

theorem Holds.shows {node : Node} (holds : l.Holds graph) (member : node ∈ graph.nodes)
    (shown : template ∈ node.activity.templates) : l.Shows template := by
  obtain ⟨flow, found⟩ := holds
  exact .inr ⟨flow, graph, node, found, member, shown⟩

theorem holds_of_position {stack : Stack} {step : Option Nat}
    (placed : l.position stack = .ok (some ⟨graph, step⟩)) : l.Holds graph := by
  cases position_eq_ok placed with
  | before _ known => exact ⟨_, known⟩
  | «at» _ known => exact ⟨_, known⟩

end Library

def TurnError.isLimit : TurnError → Bool
  | .stepLimit .. => true
  | _ => false

def Event.isWork : Event → Bool
  | .entered .. | .acted .. => true
  | _ => false

namespace Library

variable {l : Library} {e : TurnError}

theorem isLimit_of_graph {flow : String} (fails : l.graph flow = .error e) : e.isLimit = false := by
  obtain ⟨-, rfl⟩ := graph_eq_error.1 fails
  rfl

theorem isLimit_of_leave {frame : Frame} {step : String} (fails : l.leave frame step = .error e) :
    e.isLimit = false := by
  rcases bind_eq_error.1 fails with unknown | ⟨graph, -, rest⟩
  · exact isLimit_of_graph unknown
  · split at rest <;> cases rest <;> rfl

theorem isLimit_of_position {stack : Stack} (fails : l.position stack = .error e) :
    e.isLimit = false := by
  obtain ⟨top, below, -, ⟨-, rfl⟩ | ⟨step, -, rfl⟩⟩ := position_eq_error fails <;> rfl

end Library

theorem Graph.isLimit_of_nodeAt {graph : Graph} {index : Nat} {e : TurnError}
    (fails : graph.nodeAt index = .error e) : e.isLimit = false := by
  unfold nodeAt at fails
  split at fails <;> cases fails
  rfl

variable {σ α β : Type}

namespace TurnM

def Gives (steps : TurnM σ α) (a : α) : Prop := ∃ t t' : Turn σ, t.run steps = (.ok a, t')

namespace Gives

theorem of_pure {a b : α} (gives : Gives (pure a : TurnM σ α) b) : b = a := by
  obtain ⟨t, t', ran⟩ := gives
  cases ran
  rfl

theorem of_bind {first : TurnM σ α} {rest : α → TurnM σ β} {b : β}
    (gives : Gives (first >>= rest) b) : ∃ a, first.Gives a ∧ (rest a).Gives b := by
  obtain ⟨t, t', ran⟩ := gives
  rw [Turn.run_bind] at ran
  cases begun : t.run first with
  | mk result t₁ =>
    rw [begun] at ran
    cases result with
    | ok a => exact ⟨a, ⟨t, t₁, begun⟩, ⟨t₁, t', ran⟩⟩
    | error e => cases ran

theorem of_ofExcept {ε : Type} {wrap : ε → TurnError} {x : Except ε α} {a : α}
    (gives : Gives (ofExcept wrap x : TurnM σ α) a) : x = .ok a := by
  cases x with
  | ok b => rw [of_pure gives]
  | error e =>
    obtain ⟨t, t', ran⟩ := gives
    cases ran

end Gives

theorem holds_of_position {l : Library} {graph : Graph} {step : Option Nat}
    (gives : Gives (position l : TurnM σ _) (some ⟨graph, step⟩)) : l.Holds graph := by
  obtain ⟨t, -, placed⟩ := gives.of_bind
  exact Library.holds_of_position placed.of_ofExcept

theorem holds_of_arrive {l : Library} {target : Target} {flow : String} {graph : Graph}
    {index : Nat} (gives : Gives (arrive l target : TurnM σ _) (some (flow, graph, index))) :
    l.Holds graph := by
  obtain ⟨t, -, gives⟩ := gives.of_bind
  split at gives
  · cases gives.of_pure
  · obtain ⟨next, -, gives⟩ := gives.of_bind
    split at gives
    · cases gives.of_pure
    · obtain ⟨t', -, gives⟩ := gives.of_bind
      obtain ⟨graph', found, gives⟩ := gives.of_bind
      cases gives.of_pure
      exact ⟨_, Library.graph_eq_ok.1 found.of_ofExcept⟩

def invoke (backend : Backend σ) (action : String) :
    TurnM σ (Except BackendError (List (String × Value)) × Slots) := do
  let t ← get
  let (result, world) := backend.act action t.stack.slots t.world
  set { t with world }
  return (result, t.stack.slots)

theorem act_eq (backend : Backend σ) (action : String) :
    act backend action = do
      update { phase := some .executingAction, waiting := some none }
      let (result, slots) ← invoke backend action
      note (.acted · action slots result.toOption)
      match result with
      | .ok values =>
        fill values
        advanced
        return true
      | .error failure =>
        update { phase := some .error }
        say "action_failed"
        modify fun t => { t with failure := some failure }
        return false :=
  rfl

def reviseAt (s : Stage σ) (graph : Graph) (index : Nat) (slots : List (String × Value)) :
    TurnM σ Unit := do
  let node ← ofExcept id (graph.nodeAt index)
  let solicited :=
    match node.activity with
    | .collect slot .. => slots.find? (·.1 = slot)
    | _ => none
  match solicited with
  | some (slot, value) =>
    fill (← accepted graph (slots.filter (·.1 ≠ slot)))
    offer s node value
  | none =>
    fill (← accepted graph slots)
    let _ ← ask s.library

def settle (s : Stage σ) (flow : String) (accepted : Bool) : TurnM σ Unit := do
  if !accepted then
    let _ ← ask s.library
  else if (← get).stack.isEmpty then begin s flow .empty
  else walkFrom s (← handOver s.library flow Stack.link .changed)

variable {t : Turn σ}

theorem run_revise {s : Stage σ} {graph : Graph} {index : Nat} (slots : List (String × Value))
    (placed : s.library.position t.stack = .ok (some ⟨graph, some index⟩)) :
    t.run (revise s slots) = t.run (reviseAt s graph index slots) := by
  have found : t.run (position s.library) = (.ok (some ⟨graph, some index⟩), t) := by
    rw [position, Turn.run_bind_ok Turn.run_get, placed, Turn.run_ofExcept_ok]
  rw [revise, Turn.run_bind_ok found]
  rfl

theorem run_answerChange {s : Stage σ} {flow : String} (accepted : Bool)
    (open' : t.pending = some flow) :
    t.run (answerChange s accepted) = { t with pending := none }.run (settle s flow accepted) := by
  rw [answerChange, Turn.run_bind_ok Turn.run_get, open']
  rfl

/-- The property is closed under all that carrying out a decision is made of, but for entering steps
and running actions. Of the turn only the stack is looked at, but for the updates of the machine and
for what the backend runs. -/
structure Steady (l : Library) (backend : Backend σ) (P : (α : Type) → TurnM σ α → Prop) :
    Prop where
  pure {α : Type} (a : α) : P α (pure a)
  throw {α : Type} {e : TurnError} : e.isLimit = false → P α (throw e)
  bind {α β : Type} {first : TurnM σ α} {rest : α → TurnM σ β} :
    P α first → (∀ a, first.Gives a → P β (rest a)) → P β (first >>= rest)
  get {α : Type} {rest : Turn σ → TurnM σ α} :
    (∀ t t', t.stack = t'.stack → rest t = rest t') → (∀ t, P α (rest t)) → P α (get >>= rest)
  say {template : String} : l.Shows template → P Unit (say template)
  restack (change : Stack → Stack) : P Unit (modify fun t => { t with stack := change t.stack })
  note {event : Invocation → Event} : (∀ flow, (event flow).isWork = false) → P Unit (note event)
  advanced : P Unit advanced
  update {phase : Phase} (free : phase.isFree = true) (waiting : Option (Option String)) :
    P Unit (update { phase := some phase, waiting })
  invoke (action : String) : P _ (invoke backend action)
  fails (failure : BackendError) : P Unit (modify fun t => { t with failure := some failure })

/-- The property is closed under all that going through flows is made of. -/
structure Inherited (l : Library) (backend : Backend σ) (P : (α : Type) → TurnM σ α → Prop) : Prop
    extends Steady l backend P where
  throws {α : Type} (e : TurnError) : P α (MonadExcept.throw e)
  notes (event : Invocation → Event) : P Unit (TurnM.note event)

namespace Steady

variable {l : Library} {backend : Backend σ} {P : (α : Type) → TurnM σ α → Prop}
  (steady : Steady l backend P)

include steady

theorem ofExcept {ε : Type} {wrap : ε → TurnError} {x : Except ε α} {rest : α → TurnM σ β}
    (fails : ∀ e, x = .error e → (wrap e).isLimit = false)
    (goesOn : ∀ a, x = .ok a → P β (rest a)) : P β (TurnM.ofExcept wrap x >>= rest) := by
  refine steady.bind ?_ fun a gives => goesOn a gives.of_ofExcept
  cases x with
  | ok a => exact steady.pure a
  | error e => exact steady.throw (fails e rfl)

theorem next {first : TurnM σ Unit} {rest : TurnM σ α} (begins : P Unit first) (goesOn : P α rest) :
    P α (first >>= fun _ => rest) :=
  steady.bind begins fun _ _ => goesOn

theorem onTop (change : Frame → Frame) : P Unit (TurnM.onTop change) :=
  steady.restack (·.onTop change)

theorem setFrames (frames : List Frame) : P Unit (TurnM.setFrames frames) :=
  steady.restack fun stack => { stack with frames }

theorem setStack (stack : Stack) : P Unit (TurnM.setStack stack) := steady.restack fun _ => stack

theorem leave (top : Frame) (step : String) : P Target (TurnM.leave l top step) :=
  steady.ofExcept (fun _ => Library.isLimit_of_leave) fun target _ =>
    steady.next steady.advanced (steady.next (steady.note fun _ => rfl) (steady.pure target))

theorem goFrom (step : String) : P (Option Target) (TurnM.goFrom l step) := by
  refine steady.get (fun _ _ same => by rw [same]) fun t => ?_
  split
  · exact steady.pure _
  · exact steady.bind (steady.leave _ _) fun _ _ => steady.pure _

theorem checkEnd (top : Frame) : P Unit (TurnM.checkEnd l top) := by
  refine steady.ofExcept (fun _ => Library.isLimit_of_graph) fun _ _ => ?_
  split
  · exact steady.pure _
  · exact steady.throw rfl

theorem land (top : Frame) (below : List Frame) (target : Target) :
    P (Option Nat) (TurnM.land l top below target) := by
  induction below generalizing top target with
  | nil =>
    cases target with
    | step index => exact steady.pure _
    | finish =>
      exact steady.next (steady.checkEnd top) (steady.next (steady.note fun _ => rfl)
        (steady.next (steady.setFrames _) (steady.pure _)))
  | cons caller below ih =>
    cases target with
    | step index => exact steady.pure _
    | finish =>
      unfold TurnM.land
      refine steady.next (steady.checkEnd top) (steady.next (steady.note fun _ => rfl)
        (steady.next (steady.setFrames _) ?_))
      split
      · exact steady.bind (steady.leave _ _) fun _ _ => ih _ _
      · exact steady.ofExcept (fun _ => Library.isLimit_of_graph) fun _ _ => ih _ _

theorem handOver (flow : String) (push : Stack → String → Except StackError Stack)
    {event : Invocation → Invocation → Event} (quiet : ∀ old new, (event old new).isWork = false) :
    P Target (TurnM.handOver l flow push event) := by
  refine steady.ofExcept (fun _ => Library.isLimit_of_graph) fun graph _ =>
    steady.get (fun _ _ same => by rw [same]) fun t => ?_
  exact steady.ofExcept (fun _ _ => rfl) fun _ _ => steady.next (steady.note fun _ => quiet _ _)
    (steady.next (steady.setStack _) (steady.pure _))

theorem arrive (target : Target) : P _ (TurnM.arrive l target) := by
  refine steady.get (fun _ _ same => by rw [same]) fun t => ?_
  split
  · exact steady.pure _
  · refine steady.bind (steady.land _ _ _) fun index _ => ?_
    split
    · exact steady.pure _
    · exact steady.get (fun _ _ same => by rw [same]) fun _ =>
        steady.ofExcept (fun _ => Library.isLimit_of_graph) fun _ _ => steady.pure _

theorem position : P _ (TurnM.position l) := by
  refine steady.get (fun _ _ same => by rw [same]) fun t => ?_
  cases found : l.position t.stack with
  | ok place => exact steady.pure _
  | error e => exact steady.throw (Library.isLimit_of_position found)

theorem ask : P Bool (TurnM.ask l) := by
  refine steady.bind steady.position fun place placed => ?_
  split
  · split
    · next asks =>
      obtain ⟨node, found, asks⟩ := Option.bind_eq_some_iff.1 asks
      have shown := (holds_of_position placed).shows (List.mem_of_getElem? found)
        (Activity.mem_templates_of_prompt? asks)
      exact steady.next (steady.say shown) (steady.pure _)
    · exact steady.pure _
  · exact steady.pure _

theorem asking : P Unit (do let _ ← TurnM.ask l) :=
  steady.bind steady.ask fun _ _ => steady.pure _

theorem accepted {graph : Graph} (holds : l.Holds graph) (values : List (String × Value)) :
    P _ (TurnM.accepted graph values) := by
  induction values with
  | nil => exact steady.pure _
  | cons pair values ih =>
    unfold TurnM.accepted
    split
    · exact steady.bind ih fun _ _ => steady.pure _
    · next owned =>
      refine steady.get (fun _ _ same => by rw [same]) fun t =>
        steady.ofExcept (fun _ fails => absurd fails Turn.passes_ne_error) fun passed _ => ?_
      split
      · exact steady.bind ih fun _ _ => steady.pure _
      · obtain ⟨node, member, prompt, askAlways, activity⟩ := Graph.collects_of_owner? owned
        exact steady.next (steady.say (holds.shows member
          (by simp [activity, Activity.templates]))) ih

theorem aside {template : String} (shown : l.Shows template) :
    P Unit (do
      TurnM.say template
      let _ ← TurnM.ask l) :=
  steady.next (steady.say shown) steady.asking

end Steady

namespace Inherited

variable {l : Library} {backend : Backend σ} {P : (α : Type) → TurnM σ α → Prop}
  {graph : Graph} {node : Node} (inherited : Inherited l backend P)

include inherited

theorem act (action : String) : P Bool (TurnM.act backend action) := by
  rw [act_eq]
  refine inherited.next (inherited.update rfl _) (inherited.bind (inherited.invoke action) ?_)
  rintro ⟨result, slots⟩ -
  refine inherited.next (inherited.notes _) ?_
  cases result with
  | ok values =>
    exact inherited.next (inherited.onTop _) (inherited.next inherited.advanced (inherited.pure _))
  | error failure =>
    exact inherited.next (inherited.update rfl none) (inherited.next (inherited.say (.inl (by simp)))
      (inherited.next (inherited.fails failure) (inherited.pure _)))

theorem execute (holds : l.Holds graph) (member : node ∈ graph.nodes) :
    P (Option Target) (TurnM.execute l backend node) := by
  have shown (template : String) (shows' : template ∈ node.activity.templates) :
      P Unit (TurnM.say template) :=
    inherited.say (holds.shows member shows')
  unfold TurnM.execute
  split
  next activity =>
    refine inherited.get (fun _ _ same => by rw [same]) fun t => ?_
    split
    · exact inherited.goFrom _
    · exact inherited.next (shown _ (by simp [activity, Activity.templates])) (inherited.pure _)
  next activity =>
    exact inherited.next (shown _ (by simp [activity, Activity.templates])) (inherited.pure _)
  next activity =>
    exact inherited.next (shown _ (by simp [activity, Activity.templates])) (inherited.goFrom _)
  next =>
    refine inherited.bind (inherited.act _) fun succeeded _ => ?_
    split
    · exact inherited.goFrom _
    · exact inherited.pure _
  next => exact inherited.goFrom _
  next => exact inherited.goFrom _
  next => exact inherited.bind (inherited.handOver _ _ fun _ _ => rfl) fun _ _ => inherited.pure _
  next => exact inherited.bind (inherited.handOver _ _ fun _ _ => rfl) fun _ _ => inherited.pure _

theorem enter (holds : l.Holds graph) (member : node ∈ graph.nodes) :
    P (Option Target) (TurnM.enter l backend node) :=
  inherited.next (inherited.onTop _)
    (inherited.next (inherited.notes _) (inherited.execute holds member))

theorem walk (limit budget : Nat) (target : Target) :
    P Unit (TurnM.walk l backend limit budget target) := by
  induction budget generalizing target with
  | zero =>
    refine inherited.bind (inherited.arrive target) fun next _ => ?_
    split
    · exact inherited.pure _
    · exact inherited.throws _
  | succ budget ih =>
    refine inherited.bind (inherited.arrive target) fun next arrives => ?_
    split
    · exact inherited.pure _
    · split
      · exact inherited.throws _
      · next found =>
        have member := List.mem_of_getElem? found
        refine inherited.bind (inherited.enter (holds_of_arrive arrives) member) fun next _ => ?_
        split
        · exact inherited.pure _
        · exact ih _

end Inherited

/-- Two properties, one of the steps that a decision begins with and one of all that it does within
any budget. The latter is closed under going on, at last, through the flows. -/
structure Guided (l : Library) (backend : Backend σ) (P : (α : Type) → TurnM σ α → Prop)
    (Q : (Nat → TurnM σ Unit) → Prop) : Prop extends Steady l backend P where
  still {steps : TurnM σ Unit} : P Unit steps → Q fun _ => steps
  goesOn {α : Type} {first : TurnM σ α} {rest : α → Nat → TurnM σ Unit} :
    P α first → (∀ a, first.Gives a → Q (rest a)) → Q fun limit => first >>= fun a => rest a limit
  look {rest : Turn σ → Nat → TurnM σ Unit} :
    (∀ t t', t.stack = t'.stack → rest t = rest t') → (∀ t, Q (rest t)) →
      Q fun limit => MonadState.get >>= fun t => rest t limit
  walk (target : Target) : Q fun limit => walk l backend limit limit target

structure Carried (l : Library) (backend : Backend σ) (P : (α : Type) → TurnM σ α → Prop)
    (Q : (Nat → TurnM σ Unit) → Prop) : Prop extends Guided l backend P Q where
  heed {rest : Turn σ → Nat → TurnM σ Unit} :
    (∀ t t', t.pending = t'.pending → rest t = rest t') → (∀ t, Q (rest t)) →
      Q fun limit => MonadState.get >>= fun t => rest t limit
  reopen (pending : Option String) : P Unit (modify fun t => { t with pending })
  propose (flow : String) : P Unit (propose flow)
  cancel : P Unit cancel

theorem Inherited.guided {l : Library} {backend : Backend σ} {P : (α : Type) → TurnM σ α → Prop}
    (inherited : Inherited l backend P) (limit : Nat) :
    Guided l backend P fun steps => P Unit (steps limit) where
  toSteady := inherited.toSteady
  still begins := begins
  goesOn := inherited.bind
  look same goesOn := inherited.get (fun t t' stack => congrFun (same t t' stack) limit) goesOn
  walk := inherited.walk limit limit

namespace Guided

variable {l : Library} {backend : Backend σ} {P : (α : Type) → TurnM σ α → Prop}
  {Q : (Nat → TurnM σ Unit) → Prop} {graph : Graph} {node : Node} (guided : Guided l backend P Q)

include guided

theorem next {first : TurnM σ Unit} {rest : Nat → TurnM σ Unit} (begins : P Unit first)
    (goesOn : Q rest) : Q fun limit => first >>= fun _ => rest limit :=
  guided.goesOn begins fun _ _ => goesOn

theorem ofExcept {ε : Type} {wrap : ε → TurnError} {x : Except ε α} {rest : α → Nat → TurnM σ Unit}
    (fails : ∀ e, x = .error e → (wrap e).isLimit = false)
    (goesOn : ∀ a, x = .ok a → Q (rest a)) :
    Q fun limit => TurnM.ofExcept wrap x >>= fun a => rest a limit := by
  refine guided.goesOn ?_ fun a gives => goesOn a gives.of_ofExcept
  cases x with
  | ok a => exact guided.pure a
  | error e => exact guided.throw (fails e rfl)

theorem fill {rest : Nat → TurnM σ Unit} (holds : l.Holds graph) (values : List (String × Value))
    (goesOn : Q rest) :
    Q (fun limit => TurnM.accepted graph values >>= fun values => do
      TurnM.fill values
      rest limit) :=
  guided.goesOn (guided.accepted holds values) fun _ _ => guided.next (guided.onTop _) goesOn

theorem goOn (step : String) : Q fun limit => TurnM.goOn ⟨l, backend, limit⟩ step := by
  refine guided.goesOn (guided.goFrom step) fun target _ => ?_
  cases target with
  | some target => exact guided.walk target
  | none => exact guided.still (guided.pure ())

theorem offer (holds : l.Holds graph) (member : node ∈ graph.nodes) (value : Value) :
    Q fun limit => TurnM.offer ⟨l, backend, limit⟩ node value := by
  unfold TurnM.offer
  cases activity : node.activity with
  | collect slot prompt rejection rule askAlways =>
    have shown (template : String) (shows' : template ∈ node.activity.templates) :
        P Unit (TurnM.say template) :=
      guided.say (holds.shows member shows')
    refine guided.look (fun _ _ same => by rw [same]) fun t =>
      guided.ofExcept (fun _ fails => absurd fails Turn.passes_ne_error) fun passed _ => ?_
    cases passed with
    | true =>
      exact guided.next (guided.onTop _) (guided.next guided.advanced (guided.goOn _))
    | false =>
      exact guided.still (guided.toSteady.next (shown _ (by simp [activity, Activity.templates]))
        (shown _ (by simp [activity, Activity.templates])))
  | _ => exact guided.still (guided.pure ())

theorem proceed (r : Reading) (text : String) :
    Q fun limit => TurnM.proceed ⟨l, backend, limit⟩ r text := by
  refine guided.goesOn guided.position fun place placed => ?_
  rcases place with _ | ⟨graph, _ | index⟩
  · exact guided.still (guided.say (.inl (by simp)))
  · exact guided.walk _
  · have holds := holds_of_position placed
    refine guided.ofExcept (fun _ => Graph.isLimit_of_nodeAt) fun node found => ?_
    have member := Graph.mem_of_nodeAt found
    cases activity : node.activity with
    | collect slot prompt rejection rule askAlways =>
      dsimp only
      cases r.slot? slot with
      | some value => exact guided.fill holds _ (guided.offer holds member _)
      | none =>
        cases r.slots.isEmpty with
        | true => exact guided.offer holds member _
        | false => exact guided.fill holds _ (guided.still guided.asking)
    | confirm slot prompt =>
      exact guided.fill holds _ (guided.still (guided.say (holds.shows member
        (by simp [activity, Activity.templates]))))
    | action name => exact guided.walk _
    | _ => exact guided.goOn _

theorem reviseAt {index : Nat} (holds : l.Holds graph) (slots : List (String × Value)) :
    Q fun limit => TurnM.reviseAt ⟨l, backend, limit⟩ graph index slots := by
  refine guided.ofExcept (fun _ => Graph.isLimit_of_nodeAt) fun node found => ?_
  have member := Graph.mem_of_nodeAt found
  cases node.activity with
  | collect slot prompt rejection rule askAlways =>
    dsimp only
    cases slots.find? (·.1 = slot) with
    | some pair => exact guided.fill holds _ (guided.offer holds member _)
    | none => exact guided.fill holds _ (guided.still guided.asking)
  | _ => exact guided.fill holds _ (guided.still guided.asking)

theorem leaveAnswered (step : String) (affirmed : Bool) :
    Q fun limit => TurnM.leaveAnswered ⟨l, backend, limit⟩ graph step affirmed := by
  unfold TurnM.leaveAnswered
  cases graph.answered step affirmed with
  | some target => exact guided.next (guided.note fun _ => rfl) (guided.walk _)
  | none => exact guided.still (guided.throw rfl)

theorem begin (flow : String) (slots : Slots) :
    Q fun limit => TurnM.begin ⟨l, backend, limit⟩ flow slots := by
  unfold TurnM.begin
  dsimp only
  cases l.get? flow with
  | none => exact guided.still (guided.say (.inl (by simp)))
  | some graph =>
    exact guided.look (fun _ _ same => by rw [same]) fun _ => guided.ofExcept (fun _ _ => rfl)
      fun _ _ => guided.next (guided.setStack _) (guided.next (guided.note fun _ => rfl)
        (guided.walk _))

theorem settle (flow : String) (accepted : Bool) :
    Q fun limit => TurnM.settle ⟨l, backend, limit⟩ flow accepted := by
  cases accepted with
  | false => exact guided.still guided.asking
  | true =>
    refine guided.look (fun _ _ same => by rw [same]) fun t => ?_
    cases t.stack.isEmpty with
    | true => exact guided.begin _ _
    | false => exact guided.goesOn (guided.handOver _ _ fun _ _ => rfl) fun _ _ => guided.walk _

end Guided

namespace Carried

variable {l : Library} {backend : Backend σ} {P : (α : Type) → TurnM σ α → Prop}
  {Q : (Nat → TurnM σ Unit) → Prop} (carried : Carried l backend P Q)

include carried

theorem reprompt : Q fun _ => TurnM.reprompt l := by
  refine carried.heed (fun _ _ same => by rw [same]) fun t => ?_
  cases t.pending with
  | some flow => exact carried.still (carried.propose flow)
  | none =>
    refine carried.goesOn carried.ask fun asked _ => ?_
    cases asked with
    | true => exact carried.still (carried.pure ())
    | false => exact carried.still (carried.say (.inl (by simp)))

theorem revise (slots : List (String × Value)) :
    Q fun limit => TurnM.revise ⟨l, backend, limit⟩ slots := by
  refine carried.goesOn carried.position fun place placed => ?_
  rcases place with _ | ⟨graph, _ | index⟩
  · exact carried.toGuided.next (carried.onTop _) carried.reprompt
  · exact carried.fill (holds_of_position placed) _ carried.reprompt
  · exact carried.reviseAt (holds_of_position placed) slots

theorem answer (affirmed : Bool) :
    Q fun limit => TurnM.answer ⟨l, backend, limit⟩ affirmed := by
  refine carried.goesOn carried.position fun place placed => ?_
  rcases place with _ | ⟨graph, _ | index⟩
  · exact carried.reprompt
  · exact carried.reprompt
  · refine carried.toGuided.ofExcept (fun _ => Graph.isLimit_of_nodeAt) fun node _ => ?_
    cases node.activity with
    | confirm slot prompt =>
      cases slot with
      | some slot => exact carried.toGuided.next (carried.onTop _) (carried.leaveAnswered _ _)
      | none => exact carried.leaveAnswered _ _
    | _ => exact carried.reprompt

theorem answerChange (accepted : Bool) :
    Q fun limit => TurnM.answerChange ⟨l, backend, limit⟩ accepted := by
  refine carried.heed (fun _ _ same => by rw [same]) fun t => ?_
  cases t.pending with
  | none => exact carried.reprompt
  | some flow => exact carried.toGuided.next (carried.reopen none) (carried.settle flow accepted)

theorem proposeChange (flow : String) :
    Q fun limit => TurnM.proposeChange ⟨l, backend, limit⟩ flow := by
  unfold TurnM.proposeChange
  by_cases known : l.contains flow = true
  · simp only [if_pos known]
    exact carried.still (carried.toSteady.next (carried.reopen _) (carried.propose flow))
  · simp only [if_neg known]
    exact carried.still (carried.say (.inl (by simp)))

theorem perform (r : Reading) (text : String) (d : Decision) :
    Q fun limit => TurnM.perform ⟨l, backend, limit⟩ r text d := by
  cases d with
  | proceed => exact carried.proceed r text
  | revise slots => exact carried.revise slots
  | answer affirmed => exact carried.answer affirmed
  | answerChange accepted => exact carried.answerChange accepted
  | reprompt => exact carried.reprompt
  | digress depth => exact carried.still (carried.aside (.inl (by simp)))
  | digressionLimit depth => exact carried.still (carried.aside (.inl (by simp)))
  | proposeChange flow => exact carried.proposeChange flow
  | startFlow flow => exact carried.begin flow _
  | cancel => exact carried.still carried.cancel

end Carried

end TurnM

end Colloquy
