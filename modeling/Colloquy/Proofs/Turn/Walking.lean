import Colloquy.Proofs.Turn.Strides

/-!
Going through flows is made of strides, and unless it fails it halts: no flow is left, or the
running flow stands at a step that asks for something, or at one whose action has failed.
-/

set_option autoImplicit false

namespace Colloquy

open Colloquy.Graph (Activity Node Target)

variable {σ : Type} {l : Library} {backend : Backend σ} {t : Turn σ} {m : Machine}

/-- A graph leads somewhere: by its entry, by an edge, or to one of its steps. -/
inductive Graph.Has (g : Graph) : Target → Prop where
  | entry : Has g g.entry
  | edge {node : Node} {edge : Graph.Edge} : node ∈ g.nodes → edge ∈ node.edges → Has g edge.target
  | position {index : Nat} {node : Node} : g.nodes[index]? = some node → Has g (.step index)

def Library.Leads (l : Library) (stack : Stack) (target : Target) : Prop :=
  ∀ top ∈ stack.top?, ∀ graph, l.get? top.flow = some graph → graph.Has target

theorem Graph.Has.of_answered {g : Graph} {step : String} {affirmed : Bool} {target : Target}
    (answered : g.answered step affirmed = some target) : g.Has target := by
  obtain ⟨node, found, rest⟩ := Option.bind_eq_some_iff.1 answered
  obtain ⟨edge, chosen, same⟩ := Option.bind_eq_some_iff.1 rest
  cases same
  obtain ⟨index, -, place⟩ := Option.bind_eq_some_iff.1 found
  exact .edge (List.mem_of_getElem? place) (List.mem_of_find?_eq_some chosen)

theorem Library.Leads.of_has {stack : Stack} {top : Frame} {below : List Frame} {graph : Graph}
    {target : Target} (frames : stack.frames = top :: below) (found : l.get? top.flow = some graph)
    (has : graph.Has target) : l.Leads stack target := by
  intro top' found' graph' known
  simp only [Stack.top?, frames, List.head?_cons, Option.mem_def, Option.some.injEq] at found'
  subst found'
  cases known.symm.trans found
  exact has

/-- How a turn fails that began with the question open whether to change to the flow `asked`: with
which error, and what is then the case with the running flow. -/
inductive Turn.Stuck (l : Library) (asked : Option String) : TurnError → Turn σ → Prop where
  | unregistered {t : Turn σ} {top : Frame} {below : List Frame} : t.stack.frames = top :: below →
      l.get? top.flow = none → Stuck l asked (.unknownFlow top.flow) t
  | inactive {t : Turn σ} {top : Frame} {below : List Frame} : t.stack.frames = top :: below →
      top.status ≠ .active → Stuck l asked (.stack (.notActive top.flow)) t
  | unplaced {t : Turn σ} {top : Frame} {below : List Frame} {step : String} :
      t.stack.frames = top :: below → t.trail = [] → l.node? top = none →
      Stuck l asked (.missingStep top.flow step) t
  /-- Control does not go on from the step at which the flow stands. -/
  | stalled {t : Turn σ} {top : Frame} {below : List Frame} {node : Node} {e : TurnError} :
      t.stack.frames = top :: below → l.node? top = some node →
      node.activity.isQuestion = false → l.leave top node.name = .error e → Stuck l asked e t
  /-- Control does not go on in a caller that has just been woken. -/
  | lost {t : Turn σ} {top : Frame} {below : List Frame} {step : String} {e : TurnError}
      {earlier : List Event} {callee : Invocation} :
      t.stack.frames = top :: below → t.trail = earlier ++ [.returned callee top.invocation] →
      top.step = some step → l.leave top step = .error e → Stuck l asked e t
  | unanswered {t : Turn σ} {top : Frame} {below : List Frame} {node : Node} {graph : Graph}
      {slot : Option String} {prompt : String} {affirmed : Bool} :
      t.stack.frames = top :: below → l.node? top = some node →
      node.activity = .confirm slot prompt → l.get? top.flow = some graph →
      graph.answered node.name affirmed = none → Stuck l asked (.noEdge graph.flow node.name) t
  /-- The flow that a step hands over to does not exist. -/
  | uncalled {t : Turn σ} {top : Frame} {below : List Frame} {node : Node} {flow : String} :
      t.stack.frames = top :: below → l.node? top = some node → node.activity.flow? = some flow →
      l.get? flow = none → Stuck l asked (.unknownFlow flow) t
  /-- The flow that the user has agreed to does not exist. -/
  | unoffered {t : Turn σ} {top : Frame} {below : List Frame} {flow : String} :
      t.stack.frames = top :: below → asked = some flow → l.get? flow = none →
      Stuck l asked (.unknownFlow flow) t
  | missing {t : Turn σ} {top : Frame} {below : List Frame} {graph : Graph} {index : Nat} :
      t.stack.frames = top :: below → l.get? top.flow = some graph → graph.Has (.step index) →
      graph.nodes[index]? = none → Stuck l asked (.missingStep top.flow (toString index)) t
  | limited {t : Turn σ} {top : Frame} {below : List Frame} {limit : Nat} :
      t.stack.frames = top :: below → Stuck l asked (.stepLimit top.flow limit) t

/-- Where going through flows comes to a halt. -/
inductive Library.Halts (l : Library) (t : Turn σ) : Prop where
  | finished : t.stack.frames = [] → t.failure = none → Halts l t
  | asks {top : Frame} {below : List Frame} {node : Node} : t.stack.frames = top :: below →
      l.node? top = some node → node.activity.awaitsInput = true → t.failure = none → Halts l t
  | fails {top : Frame} {below : List Frame} {node : Node} {action : String} :
      t.stack.frames = top :: below → l.node? top = some node → node.activity = .action action →
      t.failure.isSome → Halts l t

/-- Where carrying out a step ends: control goes on to a target, or it halts. -/
def Library.Continues (l : Library) : Option Target → Turn σ → Prop
  | some target, t => t.failure = none ∧ l.Leads t.stack target
  | none, t => l.Halts t

theorem Library.leave_ne_state {frame : Frame} {step : String} {e : TurnError}
    (fails : l.leave frame step = .error e) (cause : StateError) : e ≠ .state cause := by
  rcases bind_eq_error.1 fails with unknown | ⟨graph, -, rest⟩
  · exact graph_ne_state unknown cause
  · rintro rfl
    split at rest <;> cases rest

theorem Library.leave_eq_ok {top : Frame} {step : String} {target : Target}
    (leaves : l.leave top step = .ok target) :
    ∃ graph node, l.get? top.flow = some graph ∧ graph.node? step = some node ∧
      Graph.firstTarget top.slots node.edges = .ok (some target) := by
  obtain ⟨graph, known, rest⟩ := bind_eq_ok.1 leaves
  refine ⟨graph, ?_⟩
  split at rest
  · cases rest
  · cases rest
  · next next =>
    cases rest
    unfold Graph.next at next
    split at next
    · next node found => exact ⟨node, graph_eq_ok.1 known, found, next⟩
    · cases next

theorem Library.leads_of_leave {stack : Stack} {top : Frame} {step : String} {target : Target}
    (found : stack.top? = some top) (leaves : l.leave top step = .ok target) :
    l.Leads stack target := by
  obtain ⟨graph, node, known, at', first⟩ := leave_eq_ok leaves
  obtain ⟨edge, member, rfl⟩ := Graph.mem_of_firstTarget first
  obtain ⟨index, -, place⟩ := Option.bind_eq_some_iff.1 at'
  intro top' found' graph' known'
  cases found.symm.trans found'
  cases known.symm.trans known'
  exact .edge (List.mem_of_getElem? place) member

namespace Turn

variable {asked : Option String} {e : TurnError} {top : Frame} {below : List Frame}

theorem Stuck.notState (stuck : t.Stuck l asked e) (cause : StateError) : e ≠ .state cause := by
  cases stuck with
  | stalled _ _ _ fails | lost _ _ _ fails => exact Library.leave_ne_state fails cause
  | _ => simp

theorem Stuck.frames (stuck : t.Stuck l asked e) : t.stack.frames ≠ [] := by
  cases stuck
  all_goals simp [*]

theorem top?_eq (frames : t.stack.frames = top :: below) : t.stack.top? = some top := by
  simp [Stack.top?, frames]

theorem run_note (frames : t.stack.frames = top :: below) (event : Invocation → Event) :
    t.run (TurnM.note event) = (.ok (), t.onto t.stack [event top.invocation]) := by
  simp [TurnM.note, top?_eq frames, onto]

theorem run_leave {step : String} {target : Target} (frames : t.stack.frames = top :: below)
    (leaves : l.leave top step = .ok target) :
    t.run (TurnM.leave l top step) =
      (.ok target, { t.onto t.stack [.left top.invocation step] with advanced := true }) := by
  simp only [TurnM.leave, leaves, run_bind, run_ofExcept_ok, TurnM.advanced, run_modify]
  rw [run_note (t := { t with advanced := true }) frames]
  rfl

theorem run_leave_error {step : String} {e : TurnError} (fails : l.leave top step = .error e) :
    t.run (TurnM.leave l top step) = (.error e, t) := by
  simp [TurnM.leave, fails, run_bind]

theorem run_onTop (frames : t.stack.frames = top :: below) (change : Frame → Frame) :
    t.run (TurnM.onTop change) =
      (.ok (), { t with stack := ⟨change top :: below, t.stack.nextId⟩ }) := by
  simp [TurnM.onTop, Stack.onTop, frames]

theorem run_checkEnd (asked : Option String) (frames : t.stack.frames = top :: below) :
    (top.status = .active ∧ t.run (TurnM.checkEnd l top) = (.ok (), t)) ∨
      ∃ e, t.Stuck l asked e ∧ t.run (TurnM.checkEnd l top) = (.error e, t) := by
  unfold TurnM.checkEnd
  cases found : l.graph top.flow with
  | error e =>
    obtain ⟨unknown, rfl⟩ := Library.graph_eq_error.1 found
    exact .inr ⟨_, .unregistered frames unknown, run_bind_error (run_ofExcept_error id _) _⟩
  | ok graph =>
    rw [run_bind_ok (run_ofExcept_ok id graph)]
    by_cases active : top.status = .active
    · exact .inl ⟨active, by simp [Frame.isActive, active]⟩
    · exact .inr ⟨_, .inactive frames active, by simp [Frame.isActive, active]⟩

theorem run_setFrames (frames : List Frame) :
    t.run (TurnM.setFrames frames) = (.ok (), { t with stack := ⟨frames, t.stack.nextId⟩ }) := rfl

theorem run_end {caller : Frame} {α : Type} (frames : t.stack.frames = top :: caller :: below)
    (ends : t.run (TurnM.checkEnd l top) = (.ok (), t)) (rest : TurnM σ α) :
    t.run (do
      TurnM.checkEnd l top
      TurnM.note (.returned · caller.invocation)
      TurnM.setFrames (caller.wake :: below)
      rest) =
    (t.onto ⟨caller.wake :: below, t.stack.nextId⟩
      [.returned top.invocation caller.invocation]).run rest := by
  rw [run_bind_ok ends, run_bind_ok (run_note frames _), run_bind_ok (run_setFrames _)]
  rfl

theorem run_land_resumed {caller : Frame} {step : String} {target : Target}
    (frames : t.stack.frames = top :: caller :: below)
    (ends : t.run (TurnM.checkEnd l top) = (.ok (), t)) (resume : caller.wake.step = some step)
    (leaves : l.leave caller.wake step = .ok target) :
    t.run (TurnM.land l top (caller :: below) .finish) =
      Turn.run { t.onto ⟨caller.wake :: below, t.stack.nextId⟩
        [.returned top.invocation caller.invocation, .left caller.invocation step] with
        advanced := true } (TurnM.land l caller.wake below target) := by
  rw [TurnM.land, run_end frames ends]
  simp only [resume]
  rw [run_bind_ok (run_leave rfl leaves)]
  simp [onto]

-- The induction is on the frames below: each flow that ends leaves one fewer.
theorem along_land {target : Target} (frames : t.stack.frames = top :: below)
    (leads : l.Leads t.stack target) :
    t.Along (Stride l backend) (TurnM.land l top below target)
      (fun index t' => t'.failure = t.failure ∧ (index = none ↔ t'.stack.frames = []) ∧
        ∀ place, index = some place → l.Leads t'.stack (.step place)) (Stuck l asked) := by
  induction below generalizing t top target with
  | nil =>
    cases target with
    | step index =>
      exact .pure ⟨rfl, by simp [frames], by rintro _ ⟨⟩; exact leads⟩
    | finish =>
      rcases run_checkEnd (l := l) asked frames with ⟨active, ends⟩ | ⟨e, stuck, fails⟩
      case inr => exact .of_error (run_bind_error fails _) .refl stuck
      have ran : t.run (TurnM.land l top [] .finish) =
          (.ok none, t.onto ⟨[], t.stack.nextId⟩ [.ended top.invocation]) := by
        rw [TurnM.land, run_bind_ok ends, run_bind_ok (run_note frames _)]
        rfl
      exact .of_ok ran (.single (.ended frames active)) ⟨rfl, by simp [onto], by simp⟩
  | cons caller below ih =>
    cases target with
    | step index =>
      exact .pure ⟨rfl, by simp [frames], by rintro _ ⟨⟩; exact leads⟩
    | finish =>
      rcases run_checkEnd (l := l) asked frames with ⟨active, ends⟩ | ⟨e, stuck, fails⟩
      case inr => exact .of_error (run_bind_error fails _) .refl stuck
      have returned : Stride l backend t _ := .returned frames active
      cases resume : caller.wake.step with
      | none =>
        refine .of_run_eq (run_end frames ends _) (.single returned) ?_
        simp only [resume]
        refine .ofExcept (fun graph found => ih rfl ?_) ?_
        · exact .of_has rfl (Library.graph_eq_ok.1 found) .entry
        · intro e fails
          obtain ⟨unknown, rfl⟩ := Library.graph_eq_error.1 fails
          exact .unregistered rfl unknown
      | some step =>
        cases leaves : l.leave caller.wake step with
        | error e =>
          refine .of_error ?_ (.single returned) (.lost rfl rfl resume leaves)
          rw [TurnM.land, run_end frames ends]
          simp only [resume]
          exact run_bind_error (run_leave_error leaves) _
        | ok target' =>
          exact .of_run_eq (run_land_resumed frames ends resume leaves)
            (.single (.resumed frames active resume leaves))
            (ih rfl (Library.leads_of_leave rfl leaves))

theorem run_update {u : Update} {machine : Machine} (accepted : t.machine.update u = .ok machine) :
    t.run (TurnM.update u) = (.ok (), { t with machine }) := by
  rw [TurnM.update, run_bind_ok run_get]
  simp only [accepted]
  rfl

theorem Kept.update_acting (heard : m.Heard) (kept : t.Kept m) (ready : t.failure = none) :
    t.machine.update { phase := some .executingAction, waiting := some none } =
        .ok t.machine.acting ∧
      t.machine.acting.update { phase := some .error } = .ok t.machine.broken := by
  rcases kept with ⟨-, machine⟩ | ⟨-, machine⟩ | ⟨failed, -⟩
  · rw [machine]
    exact ⟨heard.update_acting, Machine.update_broken heard.consistent heard.trimmed⟩
  · rw [machine]
    exact ⟨heard.update_acting_again, Machine.update_broken (m := m) heard.consistent heard.trimmed⟩
  · simp [ready] at failed

section

variable {action : String} {world : σ}

theorem run_act_ok {values : List (String × Value)}
    (begins : t.machine.update { phase := some .executingAction, waiting := some none } =
      .ok t.machine.acting)
    (frames : t.stack.frames = top :: below)
    (ran : backend.act action top.slots t.world = (.ok values, world)) :
    t.run (TurnM.act backend action) = (.ok true, { t with
      machine := t.machine.acting
      world
      stack := ⟨{ top with slots := top.slots.merge values } :: below, t.stack.nextId⟩
      trail := t.trail ++ [.acted top.invocation action top.slots (some values)]
      advanced := true }) := by
  have slots : t.stack.slots = top.slots := by simp [Stack.slots, top?_eq frames]
  let t₁ : Turn σ := { t with machine := t.machine.acting, world }
  have noted : t₁.run (TurnM.note (.acted · action top.slots (some values))) = (.ok (), _) :=
    run_note (t := t₁) frames _
  rw [TurnM.act, run_bind_ok (run_update begins), run_bind_ok run_get]
  simp only [slots, ran, Except.toOption]
  rw [run_bind_ok (run_set t₁), run_bind_ok noted]
  simp only [TurnM.fill, TurnM.advanced]
  rw [run_bind_ok (run_onTop (by exact frames) _), run_bind_ok (run_modify _)]
  rfl

theorem run_act_error {failure : BackendError}
    (begins : t.machine.update { phase := some .executingAction, waiting := some none } =
      .ok t.machine.acting)
    (breaks : t.machine.acting.update { phase := some .error } = .ok t.machine.broken)
    (frames : t.stack.frames = top :: below)
    (ran : backend.act action top.slots t.world = (.error failure, world)) :
    t.run (TurnM.act backend action) = (.ok false, { t with
      machine := t.machine.broken
      world
      messages := t.messages ++ [t.message "action_failed"]
      trail := t.trail ++ [.acted top.invocation action top.slots none]
      failure := some failure }) := by
  have slots : t.stack.slots = top.slots := by simp [Stack.slots, top?_eq frames]
  let t₁ : Turn σ := { t with machine := t.machine.acting, world }
  have noted : t₁.run (TurnM.note (.acted · action top.slots none)) = (.ok (), _) :=
    run_note (t := t₁) frames _
  rw [TurnM.act, run_bind_ok (run_update begins), run_bind_ok run_get]
  simp only [slots, ran, Except.toOption]
  rw [run_bind_ok (run_set t₁), run_bind_ok noted, run_bind_ok (run_update (by exact breaks)),
    TurnM.say, run_bind_ok (run_modify _), run_bind_ok (run_modify _)]
  rfl

end

theorem along_act {node : Node} {action : String} (heard : m.Heard) (kept : t.Kept m)
    (ready : t.failure = none) (frames : t.stack.frames = top :: below)
    (stands : l.node? top = some node) (activity : node.activity = .action action) :
    t.Along (Stride l backend) (TurnM.act backend action)
      (fun succeeded t' => if succeeded then
          t'.failure = none ∧ ∃ slots, t'.stack.frames = { top with slots } :: below
        else l.Halts t') (Stuck l asked) := by
  obtain ⟨begins, breaks⟩ := kept.update_acting heard ready
  cases ran : backend.act action top.slots t.world with
  | mk result world =>
    cases result with
    | ok values =>
      refine .of_ok (run_act_ok begins frames ran) (.single ?_) ⟨ready, _, rfl⟩
      exact .acted frames stands activity ready ran
    | error failure =>
      refine .of_ok (run_act_error begins breaks frames ran) (.single ?_) ?_
      · exact .failed frames stands activity ready ran
      · exact .fails frames stands activity rfl

theorem along_goFrom {node : Node} (frames : t.stack.frames = top :: below)
    (stands : l.node? top = some node) (statement : node.activity.isQuestion = false)
    (here : node.activity.flow? = none ∨ t.trail = []) :
    t.Along (Stride l backend) (TurnM.goFrom l node.name)
      (fun next t' => ∃ target, next = some target ∧ l.Leads t'.stack target ∧
        t'.failure = t.failure) (Stuck l asked) := by
  unfold TurnM.goFrom
  refine .get ?_
  simp only [top?_eq frames]
  cases leaves : l.leave top node.name with
  | error e =>
    exact .of_error (run_bind_error (run_leave_error leaves) _) .refl
      (.stalled frames stands statement leaves)
  | ok target =>
    exact .bind_ok (run_leave frames leaves) (.single (.left frames stands here leaves))
      (.pure ⟨target, rfl, Library.leads_of_leave (top?_eq frames) leaves, rfl⟩)

-- Calls, links and changes of flow differ only in what they do to the stack and in what is noted.
theorem along_handOver {move : Turn σ → Turn σ → Prop} {flow : String}
    {push : Stack → String → Except StackError Stack} {event : Invocation → Invocation → Event}
    (frames : t.stack.frames = top :: below)
    (unknown : l.get? flow = none → t.Stuck l asked (.unknownFlow flow))
    (refused : ∀ cause, push t.stack flow = .error cause → t.Stuck l asked (.stack cause))
    (moves : ∀ stack, push t.stack flow = .ok stack → (l.get? flow).isSome →
      move t (t.onto stack [event top.invocation ⟨flow, t.stack.nextId⟩]) ∧
        ∃ new, stack.top? = some new ∧ new.flow = flow) :
    t.Along move (TurnM.handOver l flow push event)
      (fun target t' => t'.failure = t.failure ∧ l.Leads t'.stack target ∧ t'.trail ≠ [])
      (Stuck l asked) := by
  unfold TurnM.handOver
  refine .ofExcept (fun graph found => .get (.ofExcept ?_ refused)) ?_
  · intro stack pushed
    have found := Library.graph_eq_ok.1 found
    obtain ⟨moved, new, top, rfl⟩ := moves stack pushed (by simp [found])
    have leads : l.Leads stack graph.entry := by
      intro new' top' graph' known
      cases top.symm.trans top'
      cases known.symm.trans found
      exact .entry
    refine .of_ok (a := graph.entry) ?_ (.single moved) ⟨rfl, leads, by simp [onto]⟩
    rw [run_bind_ok (run_note frames _)]
    rfl
  · intro e fails
    obtain ⟨missing, rfl⟩ := Library.graph_eq_error.1 fails
    exact unknown missing

end Turn

namespace Stack

variable {s s' : Stack} {top : Frame} {below : List Frame} {flow : String}

theorem activeTop_eq (frames : s.frames = top :: below) :
    top.status = .active ∧ s.activeTop = .ok (top, below) ∨
      top.status ≠ .active ∧ s.activeTop = .error (.notActive top.flow) := by
  by_cases active : top.status = .active
  · exact .inl ⟨active, by simp [activeTop, frames, Frame.isActive, active]⟩
  · exact .inr ⟨active, by simp [activeTop, frames, Frame.isActive, active]⟩

theorem call_eq_ok (frames : s.frames = top :: below) (called : s.call flow = .ok s') :
    top.status = .active ∧ s' = s.push flow .empty (top.suspend :: below) := by
  rcases activeTop_eq frames with ⟨active, found⟩ | ⟨-, fails⟩
  · rw [call, found] at called
    cases called
    exact ⟨active, rfl⟩
  · rw [call, fails] at called
    cases called

theorem call_eq_error {cause : StackError} (frames : s.frames = top :: below)
    (refused : s.call flow = .error cause) :
    top.status ≠ .active ∧ cause = .notActive top.flow := by
  rcases activeTop_eq frames with ⟨-, found⟩ | ⟨inactive, fails⟩
  · rw [call, found] at refused
    cases refused
  · rw [call, fails] at refused
    cases refused
    exact ⟨inactive, rfl⟩

theorem link_eq_ok (frames : s.frames = top :: below) (linked : s.link flow = .ok s') :
    top.status = .active ∧ s' = s.push flow .empty below := by
  rcases activeTop_eq frames with ⟨active, found⟩ | ⟨-, fails⟩
  · rw [link, found] at linked
    cases linked
    exact ⟨active, rfl⟩
  · rw [link, fails] at linked
    cases linked

theorem link_eq_error {cause : StackError} (frames : s.frames = top :: below)
    (refused : s.link flow = .error cause) :
    top.status ≠ .active ∧ cause = .notActive top.flow := by
  rcases activeTop_eq frames with ⟨-, found⟩ | ⟨inactive, fails⟩
  · rw [link, found] at refused
    cases refused
  · rw [link, fails] at refused
    cases refused
    exact ⟨inactive, rfl⟩

end Stack

namespace Turn

variable {asked : Option String} {top : Frame} {below : List Frame}

theorem along_goOnFrom {node : Node} (ready : t.failure = none)
    (frames : t.stack.frames = top :: below) (stands : l.node? top = some node)
    (statement : node.activity.isQuestion = false) (quiet : node.activity.flow? = none) :
    t.Along (Stride l backend) (TurnM.goFrom l node.name) (fun next t' => l.Continues next t')
      (Stuck l asked) := by
  refine (along_goFrom frames stands statement (.inl quiet)).mono ?_ fun _ _ _ stuck => stuck
  rintro next t' - ⟨target, rfl, leads, same⟩
  exact ⟨same.trans ready, leads⟩

theorem along_execute {node : Node} (heard : m.Heard) (kept : t.Kept m) (ready : t.failure = none)
    (frames : t.stack.frames = top :: below) (stands : l.node? top = some node) :
    t.Along (Stride l backend) (TurnM.execute l backend node) (fun next t' => l.Continues next t')
      (Stuck l asked) := by
  have unknown {flow : String} (hands : node.activity.flow? = some flow)
      (unknown : l.get? flow = none) : t.Stuck l asked (.unknownFlow flow) :=
    .uncalled frames stands hands unknown
  unfold TurnM.execute
  cases activity : node.activity with
  | collect slot prompt rejection rule askAlways =>
    refine .get ?_
    split
    · exact along_goOnFrom ready frames stands (by rw [activity]; rfl) (by rw [activity]; rfl)
    · refine .bind_ok (run_modify _) (.single (.shown _)) (.pure ?_)
      exact .asks frames stands (by simp [activity, Activity.awaitsInput, Activity.prompt?]) ready
  | confirm slot prompt =>
    refine .bind_ok (run_modify _) (.single (.shown _)) (.pure ?_)
    exact .asks frames stands (by simp [activity, Activity.awaitsInput, Activity.prompt?]) ready
  | say template =>
    refine .bind_ok (run_modify _) (.single (.shown _)) ?_
    exact along_goOnFrom ready frames stands (by rw [activity]; rfl) (by rw [activity]; rfl)
  | action name =>
    apply (along_act heard kept ready frames stands activity).bind
    intro succeeded t' _ ends
    cases succeeded with
    | true =>
      -- the frame has other slots now, but stands where it stood
      obtain ⟨ready', slots, frames'⟩ := ends
      exact along_goOnFrom ready' frames' stands (by rw [activity]; rfl) (by rw [activity]; rfl)
    | false => exact .pure ends
  | branch =>
    exact along_goOnFrom ready frames stands (by rw [activity]; rfl) (by rw [activity]; rfl)
  | loop condition body =>
    exact along_goOnFrom ready frames stands (by rw [activity]; rfl) (by rw [activity]; rfl)
  | call flow =>
    refine (along_handOver frames (unknown (by rw [activity]; rfl)) ?_ ?_).bind ?_
    · intro cause refused
      obtain ⟨inactive, rfl⟩ := Stack.call_eq_error frames refused
      exact .inactive frames inactive
    · intro stack pushed known
      obtain ⟨active, rfl⟩ := Stack.call_eq_ok frames pushed
      exact ⟨.called frames active stands activity known, _, rfl, rfl⟩
    · intro target t' _ ends
      exact .pure ⟨ends.1.trans ready, ends.2.1⟩
  | link flow =>
    refine (along_handOver frames (unknown (by rw [activity]; rfl)) ?_ ?_).bind ?_
    · intro cause refused
      obtain ⟨inactive, rfl⟩ := Stack.link_eq_error frames refused
      exact .inactive frames inactive
    · intro stack pushed known
      obtain ⟨active, rfl⟩ := Stack.link_eq_ok frames pushed
      exact ⟨.linked frames active stands activity known, _, rfl, rfl⟩
    · intro target t' _ ends
      exact .pure ⟨ends.1.trans ready, ends.2.1⟩

theorem run_enter (frames : t.stack.frames = top :: below) (node : Node) :
    t.run (TurnM.enter l backend node) =
      (t.onto ⟨{ top with step := some node.name } :: below, t.stack.nextId⟩
        [.entered top.invocation node.name]).run (TurnM.execute l backend node) := by
  let here : Frame := { top with step := some node.name }
  have noted : Turn.run { t with stack := ⟨here :: below, t.stack.nextId⟩ }
      (TurnM.note (.entered · node.name)) = _ := run_note rfl _
  rw [TurnM.enter, run_bind_ok (run_onTop frames _), run_bind_ok noted]
  rfl

theorem along_enter {graph : Graph} {node : Node} (named : l.Named) (heard : m.Heard)
    (kept : t.Kept m) (ready : t.failure = none) (frames : t.stack.frames = top :: below)
    (found : l.get? top.flow = some graph) (member : node ∈ graph.nodes) :
    t.Along (Stride l backend) (TurnM.enter l backend node) (fun next t' => l.Continues next t')
      (Stuck l asked) := by
  let here : Frame := { top with step := some node.name }
  let entered : Turn σ :=
    t.onto ⟨here :: below, t.stack.nextId⟩ [.entered here.invocation node.name]
  have stride : Stride l backend t entered := .entered frames found member
  have stands : l.node? here = some node := named.node?_eq_some found rfl member
  exact .of_run_eq (run_enter frames node) (.single stride)
    (along_execute (t := entered) heard (kept.stride stride) ready rfl stands)

theorem along_arrive {target : Target} (ready : t.failure = none) (leads : l.Leads t.stack target) :
    t.Along (Stride l backend) (TurnM.arrive l target)
      (fun next t' => t'.failure = none ∧
        match next with
        | none => t'.stack.frames = []
        | some (flow, graph, index) => l.get? flow = some graph ∧ graph.Has (.step index) ∧
            ∃ top below, t'.stack.frames = top :: below ∧ top.flow = flow) (Stuck l asked) := by
  unfold TurnM.arrive
  refine .get ?_
  cases frames : t.stack.frames with
  | nil => exact .pure ⟨ready, frames⟩
  | cons top below =>
    apply (along_land frames leads).bind
    intro index t' _ ends
    obtain ⟨same, remaining, leads'⟩ := ends
    cases index with
    | none => exact .pure ⟨same.trans ready, remaining.1 rfl⟩
    | some index =>
      cases frames' : t'.stack.frames with
      | nil => simp [frames'] at remaining
      | cons top' below' =>
        refine .get ?_
        simp only [top?_eq frames', Option.elim_some]
        refine .ofExcept (fun graph found => .pure ?_) ?_
        · have known := Library.graph_eq_ok.1 found
          exact ⟨same.trans ready, known, leads' index rfl _ (top?_eq frames') graph known,
            _, _, frames', rfl⟩
        · intro e fails
          obtain ⟨unknown, rfl⟩ := Library.graph_eq_error.1 fails
          exact .unregistered frames' unknown

-- The induction is on the budget. What has to be carried along is that the machine still takes the
-- updates of an action, and that no action has failed so far.
theorem along_walk (named : l.Named) (heard : m.Heard) {limit budget : Nat} {target : Target}
    (kept : t.Kept m) (ready : t.failure = none) (leads : l.Leads t.stack target) :
    t.Along (Stride l backend) (TurnM.walk l backend limit budget target)
      (fun _ t' => l.Halts t') (Stuck l asked) := by
  induction budget generalizing t target with
  | zero =>
    apply (along_arrive ready leads).bind
    intro next t₁ _ ends
    obtain ⟨ready₁, ends⟩ := ends
    cases next with
    | none => exact .pure (.finished ends ready₁)
    | some next =>
      obtain ⟨-, -, top, below, frames, same⟩ := ends
      dsimp only at same ⊢
      rw [← same]
      exact .throw (.limited frames)
  | succ budget ih =>
    apply (along_arrive ready leads).bind
    intro next t₁ moves ends
    obtain ⟨ready₁, ends⟩ := ends
    cases next with
    | none => exact .pure (.finished ends ready₁)
    | some next =>
      obtain ⟨flow, graph, index⟩ := next
      obtain ⟨found, has, top, below, frames, rfl⟩ := ends
      simp only
      cases member : graph.nodes[index]? with
      | none => exact .throw (.missing frames found has member)
      | some node =>
        have kept₁ := kept.strides moves
        have mem := List.mem_of_getElem? member
        apply (along_enter named heard kept₁ ready₁ frames found mem).bind
        intro next t₂ moves₂ ends
        cases next with
        | none => exact .pure ends
        | some next => exact ih (kept₁.strides moves₂) ends.1 ends.2

end Turn

end Colloquy
