import Colloquy.Proofs.Compile.Edges
import Colloquy.Proofs.State.Update
import Colloquy.Proofs.Turn.Steps
import Mathlib.Data.List.Chain

/-!
What a turn does while it goes through flows, as a relation: one case for each thing that can
happen. What holds of a turn throughout is shown by going through the cases once.
-/

set_option autoImplicit false

namespace Colloquy

open Colloquy.Graph (Activity Node Target)

namespace Library

variable {l : Library}

def node? (l : Library) (f : Frame) : Option Node :=
  (l.get? f.flow).bind fun graph => f.step.bind graph.node?

/-- In each flow a step's name leads back to it. -/
def Named (l : Library) : Prop := ∀ flow graph, l.get? flow = some graph → graph.Named

theorem named_of_compileAll {d : Dialect} {flows : List Flow} {generation : Nat}
    {graphs : Table Graph} (compiled : d.compileAll flows = .ok graphs) :
    Named ⟨graphs, generation⟩ :=
  fun _ _ found => Dialect.named_of_compileAll compiled found

theorem node?_eq_some {f : Frame} {node : Node} :
    l.node? f = some node ↔
      ∃ graph step, l.get? f.flow = some graph ∧ f.step = some step ∧
        graph.node? step = some node := by
  simp [node?, Option.bind_eq_some_iff]

theorem Named.node?_eq_some (named : l.Named) {f : Frame} {graph : Graph} {node : Node}
    (found : l.get? f.flow = some graph) (step : f.step = some node.name)
    (member : node ∈ graph.nodes) : l.node? f = some node :=
  Library.node?_eq_some.2 ⟨graph, _, found, step, Graph.node?_name (named _ _ found) member⟩

theorem step_of_node? {f : Frame} {node : Node} (stands : l.node? f = some node) :
    f.step = some node.name := by
  obtain ⟨graph, step, -, at', node'⟩ := node?_eq_some.1 stands
  obtain ⟨index, found, member⟩ := Option.bind_eq_some_iff.1 node'
  obtain ⟨named, member', name⟩ := Graph.name_of_index? found
  cases member.symm.trans member'
  rw [at', name]

theorem mem_of_node? {f : Frame} {node : Node} (stands : l.node? f = some node) :
    ∃ graph, l.get? f.flow = some graph ∧ node ∈ graph.nodes := by
  obtain ⟨graph, step, found, -, node'⟩ := node?_eq_some.1 stands
  obtain ⟨index, -, member⟩ := Option.bind_eq_some_iff.1 node'
  exact ⟨graph, found, List.mem_of_getElem? member⟩

theorem graph_eq_ok {flow : String} {graph : Graph} :
    l.graph flow = .ok graph ↔ l.get? flow = some graph := by
  unfold Library.graph
  cases l.get? flow <;> simp

theorem graph_eq_error {flow : String} {e : TurnError} :
    l.graph flow = .error e ↔ l.get? flow = none ∧ e = .unknownFlow flow := by
  unfold Library.graph
  cases l.get? flow <;> simp [eq_comm]

theorem graph_ne_state {flow : String} {e : TurnError} (fails : l.graph flow = .error e)
    (cause : StateError) : e ≠ .state cause := by
  obtain ⟨-, rfl⟩ := graph_eq_error.1 fails
  simp

end Library

theorem Graph.collects_of_owner? {g : Graph} {slot rejection : String} {rule : Option Predicate}
    (owner : g.owner? slot = some (rejection, rule)) :
    ∃ node ∈ g.nodes, ∃ prompt askAlways,
      node.activity = .collect slot prompt rejection rule askAlways := by
  obtain ⟨node, member, collects⟩ := List.exists_of_findSome?_eq_some owner
  split at collects
  · next activity =>
    split at collects
    · next same =>
      cases same
      cases collects
      exact ⟨node, member, _, _, activity⟩
    · cases collects
  · cases collects

/-- No step asks for the slot, or one that does accepts the value beside some other values. -/
def Graph.Admits (g : Graph) (slot : String) (value : Value) : Prop :=
  g.owner? slot = none ∨ ∃ node ∈ g.nodes, node.activity.asked? = some slot ∧
    ∃ slots, passes node.activity.rule? slots slot value = .ok true

def Library.Admits (l : Library) (flow slot : String) (value : Value) : Prop :=
  ∀ graph, l.get? flow = some graph → graph.Admits slot value

def Turn.onto {σ : Type} (t : Turn σ) (stack : Stack) (events : List Event) : Turn σ :=
  { t with stack, trail := t.trail ++ events }

@[simp] theorem Frame.wake_invocation (f : Frame) : f.wake.invocation = f.invocation := rfl

@[simp] theorem Frame.suspend_invocation (f : Frame) : f.suspend.invocation = f.invocation := rfl

variable {σ : Type}

/-- One thing that can happen while a turn goes through the flows of `l`. -/
inductive Stride (l : Library) (backend : Backend σ) : Turn σ → Turn σ → Prop where
  | shown {t : Turn σ} (messages : List Message) :
      Stride l backend t { t with messages := t.messages ++ messages }
  /-- Slots are filled with values that the flow accepts, before anything else happens. -/
  | filled {t : Turn σ} {top : Frame} {below : List Frame} (slots : Slots) :
      t.stack.frames = top :: below → t.trail = [] →
      (∀ slot value, slots.get? slot = some value →
        top.slots.get? slot = some value ∨ l.Admits top.flow slot value) →
      Stride l backend t { t with stack := ⟨{ top with slots } :: below, t.stack.nextId⟩ }
  | advanced {t : Turn σ} : Stride l backend t { t with advanced := true }
  | entered {t : Turn σ} {top : Frame} {below : List Frame} {graph : Graph} {node : Node} :
      t.stack.frames = top :: below → l.get? top.flow = some graph → node ∈ graph.nodes →
      Stride l backend t
        (t.onto ⟨{ top with step := some node.name } :: below, t.stack.nextId⟩
          [.entered top.invocation node.name])
  /-- An action succeeds. -/
  | acted {t : Turn σ} {top : Frame} {below : List Frame} {node : Node} {action : String}
      {values : List (String × Value)} {world : σ} :
      t.stack.frames = top :: below → l.node? top = some node → node.activity = .action action →
      t.failure = none → backend.act action top.slots t.world = (.ok values, world) →
      Stride l backend t
        { t.onto ⟨{ top with slots := top.slots.merge values } :: below, t.stack.nextId⟩
            [.acted top.invocation action top.slots (some values)] with
          machine := t.machine.acting
          world
          advanced := true }
  /-- An action fails, and the turn stops at it. -/
  | failed {t : Turn σ} {top : Frame} {below : List Frame} {node : Node} {action : String}
      {failure : BackendError} {world : σ} {message : Message} :
      t.stack.frames = top :: below → l.node? top = some node → node.activity = .action action →
      t.failure = none → backend.act action top.slots t.world = (.error failure, world) →
      Stride l backend t
        { t.onto t.stack [.acted top.invocation action top.slots none] with
          machine := t.machine.broken
          world
          messages := t.messages ++ [message]
          failure := some failure }
  /-- Control goes on from a step that does not hand over to another flow, unless the turn begins
  with it. -/
  | left {t : Turn σ} {top : Frame} {below : List Frame} {node : Node} {target : Target} :
      t.stack.frames = top :: below → l.node? top = some node →
      node.activity.flow? = none ∨ t.trail = [] → l.leave top node.name = .ok target →
      Stride l backend t { t.onto t.stack [.left top.invocation node.name] with advanced := true }
  | answered {t : Turn σ} {top : Frame} {below : List Frame} {node : Node}
      {slot : Option String} {prompt : String} :
      t.stack.frames = top :: below → l.node? top = some node →
      node.activity = .confirm slot prompt →
      Stride l backend t (t.onto t.stack [.left top.invocation node.name])
  | called {t : Turn σ} {top : Frame} {below : List Frame} {node : Node} {flow : String} :
      t.stack.frames = top :: below → top.status = .active → l.node? top = some node →
      node.activity = .call flow → (l.get? flow).isSome →
      Stride l backend t
        (t.onto (t.stack.push flow .empty (top.suspend :: below))
          [.called top.invocation ⟨flow, t.stack.nextId⟩])
  | linked {t : Turn σ} {top : Frame} {below : List Frame} {node : Node} {flow : String} :
      t.stack.frames = top :: below → top.status = .active → l.node? top = some node →
      node.activity = .link flow → (l.get? flow).isSome →
      Stride l backend t
        (t.onto (t.stack.push flow .empty below) [.linked top.invocation ⟨flow, t.stack.nextId⟩])
  | returned {t : Turn σ} {top caller : Frame} {below : List Frame} :
      t.stack.frames = top :: caller :: below → top.status = .active →
      Stride l backend t
        (t.onto ⟨caller.wake :: below, t.stack.nextId⟩
          [.returned top.invocation caller.invocation])
  /-- The woken caller goes on from its step at once. -/
  | resumed {t : Turn σ} {top caller : Frame} {below : List Frame} {step : String}
      {target : Target} :
      t.stack.frames = top :: caller :: below → top.status = .active → caller.resume = some step →
      l.leave caller.wake step = .ok target →
      Stride l backend t
        { t.onto ⟨caller.wake :: below, t.stack.nextId⟩
            [.returned top.invocation caller.invocation, .left caller.invocation step] with
          advanced := true }
  | ended {t : Turn σ} {top : Frame} :
      t.stack.frames = [top] → top.status = .active →
      Stride l backend t (t.onto ⟨[], t.stack.nextId⟩ [.ended top.invocation])

abbrev Strides (l : Library) (backend : Backend σ) : Turn σ → Turn σ → Prop :=
  Relation.ReflTransGen (Stride l backend)

namespace Turn

/-- How far the machine of a turn is from that with which it began. -/
inductive Kept (m : Machine) (t : Turn σ) : Prop where
  | begun : t.failure = none → t.machine = m → Kept m t
  | acting : t.failure = none → t.machine = m.acting → Kept m t
  | broken : t.failure.isSome → t.machine = m.broken → Kept m t

theorem Kept.of_eq {m : Machine} {t t' : Turn σ} (kept : t.Kept m)
    (machine : t'.machine = t.machine) (failure : t'.failure = t.failure) : t'.Kept m := by
  cases kept with
  | begun ready same => exact .begun (failure.trans ready) (machine.trans same)
  | acting ready same => exact .acting (failure.trans ready) (machine.trans same)
  | broken failed same => exact .broken (by rw [failure]; exact failed) (machine.trans same)

theorem Kept.stride {l : Library} {backend : Backend σ} {m : Machine} {t t' : Turn σ}
    (kept : t.Kept m) (stride : Stride l backend t t') : t'.Kept m := by
  cases stride with
  | acted =>
    rcases kept with ⟨ready, machine⟩ | ⟨ready, machine⟩ | ⟨failed, -⟩
    · exact .acting ready (by simp [machine])
    · exact .acting ready (by simp [machine])
    · simp_all
  | failed =>
    rcases kept with ⟨-, machine⟩ | ⟨-, machine⟩ | ⟨failed, -⟩
    · exact .broken rfl (by simp [machine])
    · exact .broken rfl (by simp [machine])
    · simp_all
  | _ => exact kept.of_eq rfl rfl

theorem Kept.strides {l : Library} {backend : Backend σ} {m : Machine} {t t' : Turn σ}
    (kept : t.Kept m) (strides : Strides l backend t t') : t'.Kept m := by
  induction strides with
  | refl => exact kept
  | tail _ stride ih => exact ih.stride stride

theorem trail_ne_nil {l : Library} {backend : Backend σ} {t t' : Turn σ}
    (stride : Stride l backend t t') (begun : t.trail ≠ []) : t'.trail ≠ [] := by
  cases stride with
  | shown | filled | advanced => exact begun
  | _ => exact List.append_ne_nil_of_right_ne_nil _ (List.cons_ne_nil _ _)

end Turn

end Colloquy
