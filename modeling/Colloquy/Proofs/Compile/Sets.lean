import Colloquy.Proofs.Compile.Branches

/-!
Sets of flows. What makes a set acceptable can be said without an order: different ids, flows that
compile each by itself, and no call out of the set. The graphs are then those of the flows alone:
`Dialect.compileAll_closed`.
-/

set_option autoImplicit false

namespace Colloquy

open Colloquy.Flow (Step)
open Colloquy.Graph (Activity Node)

theorem Compile.require_eq_ok {field value : String} {given : Option String}
    (ok : require field given = .ok value) : given = some value := by
  cases given with
  | none => cases ok
  | some other => cases ok; rfl

namespace Dialect

variable {d : Dialect} {flow : Flow} {flows flows' : List Flow} {graph : Graph}
  {graphs : Table Graph}

def HandsOver (d : Dialect) (step : Step) : Prop :=
  d.type? step.tag = some .call ∨ d.type? step.tag = some .link

/-- The flows have different ids, compile each by itself, and hand over only to one another. -/
structure AcceptsAll (d : Dialect) (flows : List Flow) : Prop where
  distinct : (flows.map (·.id)).Nodup
  each : ∀ flow ∈ flows, ∃ graph, d.compile flow = .ok graph
  closed : ∀ flow ∈ flows, ∀ step ∈ flow.steps, d.HandsOver step →
    ∃ target ∈ flows.map (·.id), step.call = some target

/-- The table has the graph of each flow alone under its id, and no others. -/
def Lists (d : Dialect) (flows : List Flow) (graphs : Table Graph) : Prop :=
  ∀ id graph, graphs.get? id = some graph ↔
    ∃ flow ∈ flows, flow.id = id ∧ d.compile flow = .ok graph

/-! ## One flow and the others -/

theorem callee_of_activity {step : Step} {activity : Activity}
    (ok : d.activity step = .ok activity) :
    (d.HandsOver step ∧ ∃ target, step.call = some target ∧ activity.flow? = some target) ∨
      ¬d.HandsOver step ∧ activity.flow? = none := by
  have typed := (type?_of_activity ok).1
  unfold Dialect.activity at ok
  rw [typed] at ok
  cases activity with
  | call flow =>
    obtain ⟨_, named, same⟩ := bind_eq_ok.1 ok
    cases same
    exact .inl ⟨.inl typed, flow, Compile.require_eq_ok named, rfl⟩
  | link flow =>
    obtain ⟨_, named, same⟩ := bind_eq_ok.1 ok
    cases same
    exact .inl ⟨.inr typed, flow, Compile.require_eq_ok named, rfl⟩
  | _ => exact .inr ⟨by simp [HandsOver, typed, Activity.type], rfl⟩

/-- Whether a flow stays among some ids is seen from its steps as from its graph. -/
theorem checkFlows_iff (compiled : d.compile flow = .ok graph) (ids : List String) :
    Compile.checkFlows flow.id ids graph.nodes = .ok () ↔
      ∀ step ∈ flow.steps, d.HandsOver step → ∃ target ∈ ids, step.call = some target := by
  have executable := executable_of_compile compiled
  rw [Compile.checkFlows_eq_ok]
  constructor
  · intro inside step member handsOver
    obtain ⟨index, place⟩ := List.mem_iff_getElem?.1 member
    obtain ⟨node, there, -, activity⟩ := executable.node index step place
    rcases callee_of_activity activity with ⟨-, target, named, callee⟩ | ⟨stays, -⟩
    · exact ⟨target, inside node (List.mem_of_getElem? there) target callee, named⟩
    · exact absurd handsOver stays
  · intro inside node member target callee
    obtain ⟨index, there⟩ := List.mem_iff_getElem?.1 member
    obtain ⟨bound, -⟩ := List.getElem?_eq_some_iff.1 there
    have place := List.getElem?_eq_getElem (executable.length ▸ bound)
    obtain ⟨node', there', -, activity⟩ := executable.node index _ place
    cases there.symm.trans there'
    rcases callee_of_activity activity with ⟨handsOver, target', named, callee'⟩ | ⟨-, none⟩
    · cases callee.symm.trans callee'
      obtain ⟨known, among, named'⟩ := inside _ (List.mem_of_getElem? place) handsOver
      cases named.symm.trans named'
      exact among
    · cases callee.symm.trans none

/-! ## All flows -/

theorem compileAll_accepts (compiled : d.compileAll flows = .ok graphs) :
    d.AcceptsAll flows ∧ d.Lists flows graphs := by
  obtain ⟨distinct, entries, rfl, made⟩ := compileAll_eq_ok.1 compiled
  have names : entries.map (·.1) = flows.map (·.id) := by
    have heads := made.imp fun _ _ entry => entry.1
    clear made compiled distinct
    induction heads with
    | nil => rfl
    | cons first _ ih => simp [first, ih]
  constructor
  · refine ⟨distinct, fun flow member => ?_, fun flow member => ?_⟩
    all_goals obtain ⟨entry, -, -, compiled, checked⟩ := exists_of_forall₂ made.flip member
    · exact ⟨entry.2, compiled⟩
    · exact (checkFlows_iff compiled _).1 checked
  · intro id graph
    rw [Table.get?_ofList_eq_some (names ▸ distinct)]
    constructor
    · intro listed
      obtain ⟨flow, member, same, compiled, -⟩ := exists_of_forall₂ made listed
      exact ⟨flow, member, same.symm, compiled⟩
    · rintro ⟨flow, member, rfl, compiled⟩
      obtain ⟨⟨id, graph'⟩, listed, same, compiled', -⟩ := exists_of_forall₂ made.flip member
      cases compiled.symm.trans compiled'
      cases same
      exact listed

theorem exists_compileAll (accepted : d.AcceptsAll flows) :
    ∃ graphs, d.compileAll flows = .ok graphs := by
  have each : ∀ flow ∈ flows, ∃ entry : String × Graph, entry.1 = flow.id ∧
      d.compile flow = .ok entry.2 ∧
      Compile.checkFlows flow.id (flows.map (·.id)) entry.2.nodes = .ok () := by
    intro flow member
    obtain ⟨graph, compiled⟩ := accepted.each flow member
    exact ⟨(flow.id, graph), rfl, compiled,
      (checkFlows_iff compiled _).2 (accepted.closed flow member)⟩
  obtain ⟨entries, made⟩ := forall₂_of_exists each
  exact ⟨_, compileAll_eq_ok.2 ⟨accepted.distinct, entries, rfl, made⟩⟩

theorem Lists.unique {graphs' : Table Graph} (lists : d.Lists flows graphs)
    (lists' : d.Lists flows graphs') : graphs = graphs' :=
  Table.ext_get? fun id => Option.ext fun graph => (lists id graph).trans (lists' id graph).symm

theorem AcceptsAll.perm (accepted : d.AcceptsAll flows) (perm : flows.Perm flows') :
    d.AcceptsAll flows' := by
  have ids : (flows.map (·.id)).Perm (flows'.map (·.id)) := perm.map _
  refine ⟨ids.nodup accepted.distinct, fun flow member => ?_, fun flow member step inside => ?_⟩
  · exact accepted.each flow (perm.mem_iff.2 member)
  · intro handsOver
    obtain ⟨target, known, named⟩ :=
      accepted.closed flow (perm.mem_iff.2 member) step inside handsOver
    exact ⟨target, ids.mem_iff.1 known, named⟩

theorem Lists.perm (lists : d.Lists flows graphs) (perm : flows.Perm flows') :
    d.Lists flows' graphs := by
  intro id graph
  simp only [lists id graph, perm.mem_iff]

/-- The order of the flows does not matter, but to which fault is reported. -/
theorem compileAll_perm (perm : flows.Perm flows') (compiled : d.compileAll flows = .ok graphs) :
    d.compileAll flows' = .ok graphs := by
  obtain ⟨accepted, lists⟩ := compileAll_accepts compiled
  obtain ⟨graphs', compiled'⟩ := exists_compileAll (accepted.perm perm)
  have same := (lists.perm perm).unique (compileAll_accepts compiled').2
  rw [same, compiled']

end Dialect

namespace Registry

/-- A reload in place comes to the same as a reload, and a failure comes before all changes. -/
theorem replace_eq (r : Registry) (flows : List Flow) : r.replace flows =
    match r.reload flows with
    | .ok r' => (.ok r'.current.generation, r')
    | .error e => (.error e, r) := by
  have inPlace : r.replace flows =
      (ExceptT.run (liftM (r.dialect.compileAll flows) >>= fun graphs => do
        set { r with current := ⟨graphs, r.current.generation + 1⟩ }
        (return r.current.generation + 1 : ExceptT Compile.Error (StateM Registry) Nat))).run r :=
    rfl
  rw [inPlace, reload]
  cases r.dialect.compileAll flows <;> rfl

theorem reload_of_compileAll {d : Dialect} {flows : List Flow} {graphs : Table Graph}
    (compiled : d.compileAll flows = .ok graphs) (current : Library) :
    (Registry.mk d current).reload flows = .ok ⟨d, ⟨graphs, current.generation + 1⟩⟩ := by
  rw [reload, compiled]
  rfl

theorem reload_of_error {d : Dialect} {flows : List Flow} {e : Compile.Error}
    (fails : d.compileAll flows = .error e) (current : Library) :
    (Registry.mk d current).reload flows = .error e := by
  rw [reload, fails]
  rfl

end Registry

namespace Dialect

/-- A set of flows compiles just if it is acceptable, which does not depend on the order of the
flows. Then its table has the graph of each flow alone, and is the same in every order; a reload
puts it in place as the next generation. A reload with any other set changes nothing. -/
theorem compileAll_closed (d : Dialect) (flows : List Flow) :
    ((∃ graphs, d.compileAll flows = .ok graphs) ↔ d.AcceptsAll flows) ∧
    (∀ graphs, d.compileAll flows = .ok graphs → d.Lists flows graphs ∧
      (∀ flows', flows.Perm flows' → d.compileAll flows' = .ok graphs) ∧
      ∀ current : Library,
        (Registry.mk d current).reload flows = .ok ⟨d, ⟨graphs, current.generation + 1⟩⟩ ∧
        (Registry.mk d current).replace flows =
          (.ok (current.generation + 1), ⟨d, ⟨graphs, current.generation + 1⟩⟩)) ∧
    (¬d.AcceptsAll flows → ∃ e, ∀ current : Library,
      (Registry.mk d current).reload flows = .error e ∧
      (Registry.mk d current).replace flows = (.error e, ⟨d, current⟩)) := by
  refine ⟨⟨?_, exists_compileAll⟩, ?_, ?_⟩
  · rintro ⟨graphs, compiled⟩
    exact (compileAll_accepts compiled).1
  · intro graphs compiled
    refine ⟨(compileAll_accepts compiled).2, fun flows' perm => compileAll_perm perm compiled, ?_⟩
    intro current
    have reloads := Registry.reload_of_compileAll compiled current
    exact ⟨reloads, by rw [Registry.replace_eq, reloads]⟩
  · intro refused
    cases compiled : d.compileAll flows with
    | ok graphs => exact absurd (compileAll_accepts compiled).1 refused
    | error e =>
      refine ⟨e, fun current => ?_⟩
      have fails := Registry.reload_of_error compiled current
      exact ⟨fails, by rw [Registry.replace_eq, fails]⟩

def ping : Flow := ⟨"ping", "", [.callFlow "serve" "pong", .say "done" "bye"]⟩

def pong : Flow := ⟨"pong", "", [.linkFlow "back" "ping"]⟩

theorem compileAll_closed_rally :
    ∃ graphs, (standard .strict).compileAll [pong, ping] = .ok graphs ∧
      (standard .strict).Lists [ping, pong] graphs ∧
      (Registry.mk (standard .strict) ⟨.empty, 3⟩).replace [ping, pong] =
        (.ok 4, ⟨standard .strict, ⟨graphs, 4⟩⟩) ∧
      ∃ e, (Registry.mk (standard .strict) ⟨graphs, 4⟩).replace [ping] =
        (.error e, ⟨standard .strict, ⟨graphs, 4⟩⟩) := by
  have accepted : ((standard .strict).compileAll [ping, pong]).toOption.isSome := by
    decide +kernel
  have refused : ((standard .strict).compileAll [ping]).toOption.isSome = false := by
    decide +kernel
  obtain ⟨graphs, made⟩ := Option.isSome_iff_exists.1 accepted
  obtain ⟨-, closed, -⟩ := compileAll_closed (standard .strict) [ping, pong]
  obtain ⟨lists, perm, reloads⟩ := closed graphs (eq_ok_of_toOption made)
  obtain ⟨accepts, -, fails⟩ := compileAll_closed (standard .strict) [ping]
  have open' : ¬(standard .strict).AcceptsAll [ping] := by
    intro closes
    obtain ⟨alone, compiled⟩ := accepts.2 closes
    rw [compiled] at refused
    cases refused
  obtain ⟨e, unchanged⟩ := fails open'
  exact ⟨graphs, perm _ (.swap ..), lists, (reloads _).2, e, (unchanged _).2⟩

end Dialect

end Colloquy
