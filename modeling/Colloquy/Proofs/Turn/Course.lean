import Colloquy.Proofs.Turn.Rounds

/-!
What a walk through the flows has done if it has not failed: a course of rounds, of which each does
one of a few things. From the course it is read off how the walk has come to where it stops.
-/

set_option autoImplicit false

namespace Colloquy

open Colloquy.Graph (Activity Node Target)

variable {σ : Type}

def Turn.entering (t : Turn σ) (top : Frame) (below : List Frame) (node : Node) : Turn σ :=
  t.onto ⟨{ top with step := some node.name } :: below, t.stack.nextId⟩
    [.entered top.invocation node.name]

/-- What a round does that comes to a target and does not fail: one case for each thing that can
happen. It gives what comes next, none if the turn stops. -/
inductive Round (l : Library) (backend : Backend σ) (t : Turn σ) :
    Target → Option Target → Turn σ → Prop where
  | idle {target : Target} : t.stack.frames = [] → Round l backend t target none t
  | ended {top : Frame} : t.stack.frames = [top] →
      Round l backend t .finish none (t.onto ⟨[], t.stack.nextId⟩ [.ended top.invocation])
  | resumed {top caller : Frame} {below : List Frame} {step : String} {target : Target} :
      t.stack.frames = top :: caller :: below → caller.resume = some step →
      Round l backend t .finish (some target)
        { t.onto ⟨caller.wake :: below, t.stack.nextId⟩
            [.returned top.invocation caller.invocation, .left caller.invocation step] with
          advanced := true }
  /-- A caller that was at no step begins anew. -/
  | restarted {top caller : Frame} {below : List Frame} {graph : Graph} :
      t.stack.frames = top :: caller :: below → caller.resume = none →
      l.get? caller.flow = some graph →
      Round l backend t .finish (some graph.entry)
        (t.onto ⟨caller.wake :: below, t.stack.nextId⟩
          [.returned top.invocation caller.invocation])
  | asked {top : Frame} {below : List Frame} {graph : Graph} {index : Nat} {node : Node}
      (messages : List Message) :
      t.stack.frames = top :: below → l.get? top.flow = some graph →
      graph.nodes[index]? = some node → node.activity.awaitsInput = true →
      Round l backend t (.step index) none { t.entering top below node with messages }
  /-- A step that runs no action is done with. -/
  | left {top : Frame} {below : List Frame} {graph : Graph} {index : Nat} {node : Node}
      {target : Target} (messages : List Message) :
      t.stack.frames = top :: below → l.get? top.flow = some graph →
      graph.nodes[index]? = some node → node.activity.isQuestion = false →
      Round l backend t (.step index) (some target)
        { t.entering top below node with
          messages
          trail := (t.entering top below node).trail ++ [.left top.invocation node.name]
          advanced := true }
  | acted {top : Frame} {below : List Frame} {graph : Graph} {index : Nat} {node : Node}
      {action : String} {slots : Slots} {values : List (String × Value)} {target : Target}
      (machine : Machine) (world : σ) :
      t.stack.frames = top :: below → l.get? top.flow = some graph →
      graph.nodes[index]? = some node → node.activity = .action action →
      Round l backend t (.step index) (some target)
        { t.entering top below node with
          machine
          world
          stack := ⟨{ top with step := some node.name, slots } :: below, t.stack.nextId⟩
          trail := (t.entering top below node).trail ++
            [.acted top.invocation action top.slots (some values)] ++
            [.left top.invocation node.name]
          advanced := true }
  /-- An action fails, and the turn stops at it. -/
  | failed {top : Frame} {below : List Frame} {graph : Graph} {index : Nat} {node : Node}
      {action : String} {failure : BackendError} (machine : Machine) (world : σ)
      (message : Message) :
      t.stack.frames = top :: below → l.get? top.flow = some graph →
      graph.nodes[index]? = some node → node.activity = .action action →
      backend.act action top.slots t.world = (.error failure, world) →
      Round l backend t (.step index) none
        { t.entering top below node with
          machine
          world
          messages := t.messages ++ [message]
          trail := (t.entering top below node).trail ++
            [.acted top.invocation action top.slots none]
          failure := some failure }
  | called {top : Frame} {below : List Frame} {graph callee : Graph} {index : Nat} {node : Node}
      {flow : String} :
      t.stack.frames = top :: below → l.get? top.flow = some graph →
      graph.nodes[index]? = some node → node.activity = .call flow → l.get? flow = some callee →
      Round l backend t (.step index) (some callee.entry)
        ((t.entering top below node).onto
          (t.stack.push flow .empty (Frame.suspend { top with step := some node.name } :: below))
          [.called top.invocation ⟨flow, t.stack.nextId⟩])
  | linked {top : Frame} {below : List Frame} {graph next : Graph} {index : Nat} {node : Node}
      {flow : String} :
      t.stack.frames = top :: below → l.get? top.flow = some graph →
      graph.nodes[index]? = some node → node.activity = .link flow → l.get? flow = some next →
      Round l backend t (.step index) (some next.entry)
        ((t.entering top below node).onto (t.stack.push flow .empty below)
          [.linked top.invocation ⟨flow, t.stack.nextId⟩])

/-- Rounds one after the other, from a target to where the turn stops. -/
inductive Course (l : Library) (backend : Backend σ) : Turn σ → Target → Turn σ → Prop where
  | stops {t t' : Turn σ} {target : Target} :
      Round l backend t target none t' → Course l backend t target t'
  | goesOn {t t₁ t' : Turn σ} {target next : Target} :
      Round l backend t target (some next) t₁ → Course l backend t₁ next t' →
      Course l backend t target t'

namespace Turn

variable {l : Library} {backend : Backend σ} {t t' : Turn σ} {top caller : Frame}
  {below : List Frame} {node : Node} {action step : String} {target : Target}
  {next : Option Target}

theorem goFrom_eq_ok (frames : t.stack.frames = top :: below)
    (ran : t.run (TurnM.goFrom l step) = (.ok next, t')) :
    next.isSome ∧ t' = { t with
      trail := t.trail ++ [.left top.invocation step]
      advanced := true } := by
  rw [TurnM.goFrom, run_bind_ok run_get] at ran
  simp only [top?_eq frames] at ran
  cases leaves : l.leave top step with
  | error e =>
    rw [run_bind_error (run_leave_error leaves)] at ran
    cases ran
  | ok target =>
    rw [run_bind_ok (run_leave frames leaves)] at ran
    cases ran
    exact ⟨rfl, rfl⟩

theorem same_node {top' : Frame} {below' : List Frame} {graph graph' : Graph} {index : Nat}
    {node' : Node} (frames : t.stack.frames = top :: below) (known : l.get? top.flow = some graph)
    (member : graph.nodes[index]? = some node) (frames' : t.stack.frames = top' :: below')
    (known' : l.get? top'.flow = some graph') (member' : graph'.nodes[index]? = some node') :
    top' = top ∧ below' = below ∧ node' = node := by
  obtain ⟨rfl, rfl⟩ := List.cons.inj (frames'.symm.trans frames)
  obtain rfl := Option.some.inj (known'.symm.trans known)
  exact ⟨rfl, rfl, Option.some.inj (member'.symm.trans member)⟩

theorem update_eq_ok {u : Update} (ran : t.run (TurnM.update u) = (.ok (), t')) :
    ∃ machine, t' = { t with machine } := by
  rw [TurnM.update, run_bind_ok run_get] at ran
  cases updated : t.machine.update u with
  | ok machine =>
    simp only [updated] at ran
    cases ran
    exact ⟨machine, rfl⟩
  | error e =>
    simp only [updated] at ran
    cases ran

/-- What running an action comes to. It has the backend run the action on the slots of the running
flow, and whether that succeeds or fails is seen on the turn. -/
inductive Acts (backend : Backend σ) (t : Turn σ) (top : Frame) (below : List Frame)
    (action : String) : Bool → Turn σ → Prop where
  | succeeded {values : List (String × Value)} {world : σ} (machine : Machine) :
      backend.act action top.slots t.world = (.ok values, world) →
      Acts backend t top below action true { t with
        machine
        world
        stack := ⟨{ top with slots := top.slots.merge values } :: below, t.stack.nextId⟩
        trail := t.trail ++ [.acted top.invocation action top.slots (some values)]
        advanced := true }
  | failed {failure : BackendError} {world : σ} (machine : Machine) :
      backend.act action top.slots t.world = (.error failure, world) →
      Acts backend t top below action false { t with
        machine
        world
        messages := t.messages ++ [t.message "action_failed"]
        trail := t.trail ++ [.acted top.invocation action top.slots none]
        failure := some failure }

theorem acts_of_run {succeeded : Bool} (frames : t.stack.frames = top :: below)
    (ran : t.run (TurnM.act backend action) = (.ok succeeded, t')) :
    Acts backend t top below action succeeded t' := by
  have slots : t.stack.slots = top.slots := by simp [Stack.slots, top?_eq frames]
  obtain ⟨_, _, updated, ran⟩ := run_bind_eq_ok ran
  obtain ⟨machine, rfl⟩ := update_eq_ok updated
  rw [run_bind_ok run_get] at ran
  simp only [slots] at ran
  cases acted : backend.act action top.slots t.world with
  | mk result world =>
    simp only [acted] at ran
    rw [run_bind_ok (run_set _),
      run_bind_ok (run_note (t := { t with machine, world }) frames _)] at ran
    cases result with
    | ok values =>
      simp only [TurnM.fill, TurnM.advanced] at ran
      rw [run_bind_ok (run_onTop (by exact frames) _), run_bind_ok (run_modify _)] at ran
      cases ran
      exact .succeeded machine acted
    | error failure =>
      obtain ⟨_, _, updated, ran⟩ := run_bind_eq_ok ran
      obtain ⟨machine, rfl⟩ := update_eq_ok updated
      cases ran
      exact .failed machine acted

theorem handOver_eq_ok {flow : String} {push : Stack → String → Except StackError Stack}
    {event : Invocation → Invocation → Event} (frames : t.stack.frames = top :: below)
    (ran : t.run (TurnM.handOver l flow push event) = (.ok target, t')) :
    ∃ graph stack, l.get? flow = some graph ∧ push t.stack flow = .ok stack ∧
      target = graph.entry ∧
      t' = t.onto stack [event top.invocation ⟨flow, t.stack.nextId⟩] := by
  obtain ⟨graph, t₁, looked, ran₁⟩ := run_bind_eq_ok ran
  obtain ⟨found, rfl⟩ := run_ofExcept_eq_ok looked
  rw [run_bind_ok run_get] at ran₁
  obtain ⟨stack, t₂, given, ran₂⟩ := run_bind_eq_ok ran₁
  obtain ⟨pushed, rfl⟩ := run_ofExcept_eq_ok given
  rw [run_bind_ok (run_note frames _)] at ran₂
  cases ran₂
  exact ⟨graph, stack, Library.graph_eq_ok.1 found, pushed, rfl, rfl⟩

end Turn

namespace Round

variable {l : Library} {backend : Backend σ} {t t' : Turn σ} {top : Frame} {below : List Frame}
  {graph : Graph} {index : Nat} {node : Node} {target : Target} {next : Option Target}

theorem of_finish (frames : t.stack.frames = top :: below)
    (ran : t.run (TurnM.finish l top below) = (.ok next, t')) :
    Round l backend t .finish next t' := by
  have ends {α : Type} {rest : TurnM σ α} {a : α}
      (ran : t.run (TurnM.checkEnd l top >>= fun _ => rest) = (.ok a, t')) :
      t.run rest = (.ok a, t') := by
    rcases Turn.run_checkEnd (l := l) none frames with ⟨-, ends⟩ | ⟨e, -, fails⟩
    · rwa [Turn.run_bind_ok ends] at ran
    · rw [Turn.run_bind_error fails] at ran
      cases ran
  cases below with
  | nil =>
    have ran := ends ran
    rw [Turn.run_bind_ok (Turn.run_note frames _)] at ran
    cases ran
    exact .ended frames
  | cons caller below =>
    have ran := ends ran
    rw [Turn.run_bind_ok (Turn.run_note frames _), Turn.run_bind_ok (Turn.run_setFrames _)] at ran
    cases resume : caller.wake.step with
    | none =>
      simp only [resume] at ran
      obtain ⟨graph, t₁, looked, ran⟩ := Turn.run_bind_eq_ok ran
      obtain ⟨found, rfl⟩ := Turn.run_ofExcept_eq_ok looked
      cases ran
      exact .restarted frames resume (Library.graph_eq_ok.1 found)
    | some step =>
      simp only [resume] at ran
      cases leaves : l.leave caller.wake step with
      | error e =>
        rw [Turn.run_bind_error (Turn.run_leave_error leaves)] at ran
        cases ran
      | ok target =>
        rw [Turn.run_bind_ok (Turn.run_leave rfl leaves)] at ran
        cases ran
        have resumed : Round l backend t .finish (some target) _ := .resumed frames resume
        simpa [Turn.onto] using resumed

theorem of_execute (frames : t.stack.frames = top :: below) (found : l.get? top.flow = some graph)
    (at' : graph.nodes[index]? = some node)
    (ran : (t.entering top below node).run (TurnM.execute l backend node) = (.ok next, t')) :
    Round l backend t (.step index) next t' := by
  let here : Frame := { top with step := some node.name }
  have here' : (t.entering top below node).stack.frames = here :: below := rfl
  have left {messages : List Message} (statement : node.activity.isQuestion = false)
      (ran : Turn.run { t.entering top below node with messages }
        (TurnM.goFrom l node.name) = (.ok next, t')) :
      Round l backend t (.step index) next t' := by
    obtain ⟨goesOn, rfl⟩ := Turn.goFrom_eq_ok (by exact here') ran
    obtain ⟨target, rfl⟩ := Option.isSome_iff_exists.1 goesOn
    exact .left messages frames found at' statement
  have asked {prompt : String} (asks : node.activity.prompt? = some prompt)
      (ran : (t.entering top below node).run (do
        TurnM.say prompt
        return (none : Option Target)) = (.ok next, t')) :
      Round l backend t (.step index) next t' := by
    cases ran
    exact .asked _ frames found at' (by simp [Activity.awaitsInput, asks])
  unfold TurnM.execute at ran
  cases activity : node.activity with
  | collect slot prompt rejection rule askAlways =>
    simp only [activity] at ran
    rw [Turn.run_bind_ok Turn.run_get] at ran
    split at ran
    · exact left (by rw [activity]; rfl) ran
    · exact asked (by rw [activity]; rfl) ran
  | confirm slot prompt =>
    simp only [activity] at ran
    exact asked (by rw [activity]; rfl) ran
  | say template =>
    simp only [activity] at ran
    rw [TurnM.say, Turn.run_bind_ok (Turn.run_modify _)] at ran
    exact left (by rw [activity]; rfl) ran
  | action name =>
    simp only [activity] at ran
    obtain ⟨succeeded, _, acted, ran⟩ := Turn.run_bind_eq_ok ran
    cases Turn.acts_of_run here' acted with
    | succeeded machine acted =>
      obtain ⟨goesOn, rfl⟩ := Turn.goFrom_eq_ok (by exact rfl) ran
      obtain ⟨target, rfl⟩ := Option.isSome_iff_exists.1 goesOn
      exact @Round.acted _ _ _ _ top _ _ _ _ _ _ _ _ machine _ frames found at' activity
    | failed machine fails =>
      cases ran
      exact .failed machine _ _ frames found at' activity fails
  | branch =>
    simp only [activity] at ran
    exact left (by rw [activity]; rfl) ran
  | loop condition body =>
    simp only [activity] at ran
    exact left (by rw [activity]; rfl) ran
  | call flow =>
    simp only [activity] at ran
    obtain ⟨target, _, handed, ran⟩ := Turn.run_bind_eq_ok ran
    obtain ⟨callee, stack, known, pushed, rfl, rfl⟩ := Turn.handOver_eq_ok here' handed
    obtain ⟨-, rfl⟩ := Stack.call_eq_ok here' pushed
    cases ran
    exact .called frames found at' activity known
  | link flow =>
    simp only [activity] at ran
    obtain ⟨target, _, handed, ran⟩ := Turn.run_bind_eq_ok ran
    obtain ⟨callee, stack, known, pushed, rfl, rfl⟩ := Turn.handOver_eq_ok here' handed
    obtain ⟨-, rfl⟩ := Stack.link_eq_ok here' pushed
    cases ran
    exact .linked frames found at' activity known

theorem of_run (ran : t.run (TurnM.round l backend target) = (.ok next, t')) :
    Round l backend t target next t' := by
  cases frames : t.stack.frames with
  | nil =>
    rw [TurnM.round, Turn.run_bind_ok Turn.run_get, frames] at ran
    cases ran
    exact .idle frames
  | cons top below =>
    cases target with
    | finish =>
      rw [TurnM.round, Turn.run_bind_ok Turn.run_get, frames] at ran
      exact .of_finish frames ran
    | step index =>
      rw [Turn.run_round_step frames] at ran
      split at ran
      · next graph found =>
        split at ran
        · next node at' =>
          rw [Turn.run_enter frames] at ran
          exact .of_execute frames found at' ran
        · cases ran
      · cases ran

end Round

theorem Stand.advance_eq_inr_ok {l : Library} {backend : Backend σ} {limit : Nat} {s : Stand σ}
    {t : Turn σ} (ends : s.advance l backend limit = .inr (.ok (), t)) :
    Round l backend s.turn s.target none t ∧
      ∀ flow, s.upcoming? l = some flow → s.entered < limit := by
  unfold advance at ends
  split at ends
  · cases ends
  · next unspent =>
    split at ends
    · cases ends
    · next ran =>
      cases ends
      refine ⟨.of_run ran, fun flow upcoming => ?_⟩
      simpa [upcoming] using unspent
    · cases ends

theorem Course.of_advances {l : Library} {backend : Backend σ} {limit : Nat} {s last : Stand σ}
    {t : Turn σ}
    (rounds : Relation.ReflTransGen (fun s next => s.advance l backend limit = .inl next) s last)
    (ends : last.advance l backend limit = .inr (.ok (), t)) :
    Course l backend s.turn s.target t := by
  induction rounds using Relation.ReflTransGen.head_induction_on with
  | refl => exact .stops (Stand.advance_eq_inr_ok ends).1
  | head first _ ih =>
    obtain ⟨⟨ran, -⟩, -⟩ := Stand.advance_eq_inl.1 first
    exact .goesOn (.of_run ran) ih

/-- A walk that does not fail is a course of rounds. -/
theorem Course.of_walk {l : Library} {backend : Backend σ} {t t' : Turn σ} {limit : Nat}
    {target : Target} (ran : t.run (TurnM.walk l backend limit limit target) = (.ok (), t')) :
    Course l backend t target t' := by
  obtain ⟨last, rounds, ends, -⟩ :=
    Stand.exists_last l backend limit ⟨t, target, 0⟩ (Nat.zero_le limit)
  have same : Stand.walked l backend limit ⟨t, target, 0⟩ = (.ok (), t') := ran
  rw [same] at ends
  exact .of_advances rounds ends

end Colloquy
