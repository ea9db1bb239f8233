import Mathlib.Data.List.Forall2
import Mathlib.Data.List.Nodup
import Colloquy.Proofs.Table
import Colloquy.Session.Library

/-!
The names in compiled flows. A flow is compiled only if its steps have different names, so that a
name leads back to the step it is the name of: `Graph.node?_name`.
-/

set_option autoImplicit false

namespace Colloquy

section
variable {ε α β : Type}

theorem bind_eq_ok {x : Except ε α} {f : α → Except ε β} {b : β} :
    (x >>= f) = .ok b ↔ ∃ a, x = .ok a ∧ f a = .ok b := by
  cases x <;> simp [bind, Except.bind]

theorem bind_eq_error {x : Except ε α} {f : α → Except ε β} {e : ε} :
    (x >>= f) = .error e ↔ x = .error e ∨ ∃ a, x = .ok a ∧ f a = .error e := by
  cases x <;> simp [bind, Except.bind]

theorem eq_ok_of_toOption {x : Except ε α} {a : α} (made : x.toOption = some a) : x = .ok a := by
  cases x with
  | ok b => exact congrArg Except.ok (Option.some.inj made)
  | error e => cases made

theorem mapM_eq_ok {f : α → Except ε β} {as : List α} {bs : List β} :
    as.mapM f = .ok bs ↔ List.Forall₂ (fun a b => f a = .ok b) as bs := by
  induction as generalizing bs with
  | nil => cases bs <;> simp [pure, Except.pure]
  | cons a as ih =>
    rw [List.mapM_cons, bind_eq_ok]
    constructor
    · rintro ⟨b, first, rest⟩
      obtain ⟨bs', others, same⟩ := bind_eq_ok.1 rest
      cases same
      exact .cons first (ih.1 others)
    · intro all
      cases all with
      | cons first others => exact ⟨_, first, bind_eq_ok.2 ⟨_, ih.2 others, rfl⟩⟩

theorem exists_of_forall₂ {r : α → β → Prop} {as : List α} {bs : List β}
    (pairs : List.Forall₂ r as bs) {b : β} (member : b ∈ bs) : ∃ a ∈ as, r a b := by
  induction pairs with
  | nil => cases member
  | cons first _ ih =>
    rcases List.mem_cons.1 member with rfl | member
    · exact ⟨_, List.mem_cons_self, first⟩
    · obtain ⟨a, found, made⟩ := ih member
      exact ⟨a, List.mem_cons_of_mem _ found, made⟩

theorem forall₂_of_exists {r : α → β → Prop} {as : List α} (each : ∀ a ∈ as, ∃ b, r a b) :
    ∃ bs, List.Forall₂ r as bs := by
  induction as with
  | nil => exact ⟨[], .nil⟩
  | cons a as ih =>
    obtain ⟨⟨b, related⟩, others⟩ := List.forall_mem_cons.1 each
    obtain ⟨bs, rest⟩ := ih others
    exact ⟨b :: bs, .cons related rest⟩

end

namespace Graph

def Named (g : Graph) : Prop := (g.nodes.map (·.name)).Nodup

theorem index?_name {g : Graph} (named : g.Named) {index : Nat} {node : Node}
    (found : g.nodes[index]? = some node) : g.index? node.name = some index := by
  obtain ⟨bound, rfl⟩ := List.getElem?_eq_some_iff.1 found
  refine List.findIdx?_eq_some_iff_getElem.2 ⟨bound, by simp, ?_⟩
  intro earlier before same
  have names : (g.nodes.map (·.name))[earlier]? = (g.nodes.map (·.name))[index]? := by
    have first : earlier < g.nodes.length := Nat.lt_trans before bound
    simpa [List.getElem?_map, List.getElem?_eq_getElem, first, bound] using same
  have := (List.getElem?_inj (by simpa using Nat.lt_trans before bound) named).1 names
  omega

theorem node?_name {g : Graph} (named : g.Named) {node : Node} (member : node ∈ g.nodes) :
    g.node? node.name = some node := by
  obtain ⟨index, found⟩ := List.mem_iff_getElem?.1 member
  simp only [node?, index?_name named found, Option.bind_some, found]

theorem name_of_index? {g : Graph} {name : String} {index : Nat}
    (found : g.index? name = some index) :
    ∃ node, g.nodes[index]? = some node ∧ node.name = name := by
  obtain ⟨bound, same, -⟩ := List.findIdx?_eq_some_iff_getElem.1 found
  exact ⟨g.nodes[index], List.getElem?_eq_getElem bound, by simpa using same⟩

end Graph

namespace Compile

theorem inStep_eq_ok {α : Type} {flow step : String} {x : Except Fault α} {a : α} :
    inStep flow step x = .ok a ↔ x = .ok a := by
  cases x <;> simp [inStep]

theorem nodup_of_checkNames {flow : String} {seen : List String} {steps : List Flow.Step}
    (checked : checkNames flow seen steps = .ok ()) :
    (steps.map (·.name)).Nodup ∧ ∀ step ∈ steps, step.name ∉ seen := by
  induction steps generalizing seen with
  | nil => simp
  | cons step steps ih =>
    simp only [checkNames] at checked
    split at checked
    · cases checked
    · split at checked
      · cases checked
      · next fresh =>
        obtain ⟨others, apart⟩ := ih checked
        simp only [List.mem_cons, not_or] at apart
        refine ⟨?_, by simpa using ⟨fresh, fun other member => (apart other member).2⟩⟩
        simpa using ⟨fun other member => (apart other member).1, others⟩

theorem duplicate?_seen_eq_none {seen ids : List String} :
    duplicate? seen ids = none ↔ ids.Nodup ∧ ∀ id ∈ ids, id ∉ seen := by
  induction ids generalizing seen with
  | nil => simp [duplicate?]
  | cons id ids ih =>
    rw [duplicate?]
    split
    · next known => simpa using fun _ _ fresh => absurd known fresh
    · next fresh =>
      rw [ih, List.nodup_cons, List.forall_mem_cons]
      constructor
      · rintro ⟨distinct, apart⟩
        refine ⟨⟨fun member => apart id member List.mem_cons_self, distinct⟩, fresh, ?_⟩
        exact fun other member known => apart other member (List.mem_cons_of_mem _ known)
      · rintro ⟨⟨single, distinct⟩, -, apart⟩
        refine ⟨distinct, fun other member known => ?_⟩
        rcases List.mem_cons.1 known with rfl | known
        · exact single member
        · exact apart other member known

theorem duplicate?_eq_none {ids : List String} : duplicate? [] ids = none ↔ ids.Nodup := by
  simp [duplicate?_seen_eq_none]

theorem names_of_nodes {plan : Plan} {index : Nat} {steps : List (Flow.Step × Graph.Activity)}
    {made : List Graph.Node} (ok : nodes plan index steps = .ok made) :
    made.map (·.name) = steps.map (·.1.name) := by
  induction steps generalizing index made with
  | nil => cases ok; rfl
  | cons step steps ih =>
    obtain ⟨edges, -, rest⟩ := bind_eq_ok.1 ok
    obtain ⟨others, tail, same⟩ := bind_eq_ok.1 rest
    cases same
    simp [ih tail]

end Compile

namespace Dialect

variable {d : Dialect}

theorem compile_cases {flow : Flow} {graph : Graph} (compiled : d.compile flow = .ok graph) :
    Compile.checkNames flow.id [] flow.steps = .ok () ∧
      ∃ activities backEdges,
        List.Forall₂ (fun step activity =>
          Compile.inStep flow.id step.name (d.activity step) = .ok activity)
          flow.steps activities ∧
        Compile.backEdges flow [] 0 activities = .ok backEdges ∧
        Compile.nodes ⟨flow, d.policy, backEdges⟩ 0 (flow.steps.zip activities) = .ok graph.nodes ∧
        graph.flow = flow.id ∧ graph.description = flow.description := by
  obtain ⟨⟨⟩, checked, rest⟩ := bind_eq_ok.1 compiled
  obtain ⟨activities, steps, rest⟩ := bind_eq_ok.1 rest
  dsimp only at rest
  split at rest
  case h_2 => cases rest
  next backEdges loops =>
    obtain ⟨_, same, rest⟩ := bind_eq_ok.1 rest
    cases same
    obtain ⟨nodes, made, same⟩ := bind_eq_ok.1 rest
    cases same
    exact ⟨checked, activities, backEdges, mapM_eq_ok.1 steps, loops, made, rfl, rfl⟩

theorem names_of_compile {flow : Flow} {graph : Graph} (compiled : d.compile flow = .ok graph) :
    graph.nodes.map (·.name) = flow.steps.map (·.name) := by
  obtain ⟨-, activities, backEdges, steps, -, made, -⟩ := compile_cases compiled
  calc graph.nodes.map (·.name)
      = (flow.steps.zip activities).map (·.1.name) := Compile.names_of_nodes made
    _ = ((flow.steps.zip activities).map Prod.fst).map (·.name) := (List.map_map ..).symm
    _ = flow.steps.map (·.name) := by rw [List.map_fst_zip (Nat.le_of_eq steps.length_eq)]

theorem named_of_compile {flow : Flow} {graph : Graph} (compiled : d.compile flow = .ok graph) :
    graph.Named := by
  have checked := (compile_cases compiled).1
  simpa only [Graph.Named, names_of_compile compiled] using
    (Compile.nodup_of_checkNames checked).1

/-- A set is compiled flow by flow, each with the ids of all at hand. -/
theorem compileAll_eq_ok {flows : List Flow} {graphs : Table Graph} :
    d.compileAll flows = .ok graphs ↔ (flows.map (·.id)).Nodup ∧
      ∃ entries, graphs = .ofList entries ∧ List.Forall₂ (fun flow entry => entry.1 = flow.id ∧
        d.compile flow = .ok entry.2 ∧
        Compile.checkFlows flow.id (flows.map (·.id)) entry.2.nodes = .ok ()) flows entries := by
  have one {flow : Flow} {entry : String × Graph} {ids : List String} :
      ((d.compile flow >>= fun graph => Compile.checkFlows flow.id ids graph.nodes >>= fun _ =>
        pure (flow.id, graph)) = Except.ok entry) ↔ entry.1 = flow.id ∧
          d.compile flow = .ok entry.2 ∧ Compile.checkFlows flow.id ids entry.2.nodes = .ok () := by
    simp only [bind_eq_ok]
    constructor
    · rintro ⟨graph, compiled, ⟨⟩, checked, same⟩
      cases same
      exact ⟨rfl, compiled, checked⟩
    · rintro ⟨same, compiled, checked⟩
      exact ⟨entry.2, compiled, (), checked, congrArg Except.ok (Prod.ext same.symm rfl)⟩
  unfold compileAll
  dsimp only
  rw [← Compile.duplicate?_eq_none]
  cases Compile.duplicate? [] (flows.map (·.id)) with
  | some id => simp [throw, throwThe, MonadExceptOf.throw, bind, Except.bind]
  | none =>
    refine ⟨fun ok => ⟨rfl, ?_⟩, ?_⟩
    · obtain ⟨entries, made, same⟩ := bind_eq_ok.1 ok
      cases same
      exact ⟨entries, rfl, (mapM_eq_ok.1 made).imp fun _ _ => one.1⟩
    · rintro ⟨-, entries, rfl, made⟩
      exact bind_eq_ok.2 ⟨entries, mapM_eq_ok.2 (made.imp fun _ _ => one.2), rfl⟩

theorem entries_of_compileAll {flows : List Flow} {graphs : Table Graph}
    (compiled : d.compileAll flows = .ok graphs) :
    ∃ entries, graphs = .ofList entries ∧ List.Forall₂ (fun flow entry => entry.1 = flow.id ∧
      d.compile flow = .ok entry.2 ∧
      Compile.checkFlows flow.id (flows.map (·.id)) entry.2.nodes = .ok ()) flows entries :=
  (compileAll_eq_ok.1 compiled).2

theorem compile_of_compileAll {flows : List Flow} {graphs : Table Graph}
    (compiled : d.compileAll flows = .ok graphs) {id : String} {graph : Graph}
    (found : graphs.get? id = some graph) :
    ∃ flow ∈ flows, flow.id = id ∧ d.compile flow = .ok graph ∧
      Compile.checkFlows flow.id (flows.map (·.id)) graph.nodes = .ok () := by
  obtain ⟨entries, rfl, made⟩ := entries_of_compileAll compiled
  obtain ⟨flow, member, same, compiled, checked⟩ :=
    exists_of_forall₂ made (Table.mem_of_get?_ofList found)
  exact ⟨flow, member, same.symm, compiled, checked⟩

theorem isSome_of_compileAll {flows : List Flow} {graphs : Table Graph}
    (compiled : d.compileAll flows = .ok graphs) {id : String} (member : id ∈ flows.map (·.id)) :
    (graphs.get? id).isSome := by
  obtain ⟨entries, rfl, made⟩ := entries_of_compileAll compiled
  apply Table.isSome_get?_ofList
  have heads : List.Forall₂ (fun flow entry => entry.1 = flow.id) flows entries :=
    made.imp fun _ _ entry => entry.1
  have names : entries.map (·.1) = flows.map (·.id) := by
    clear compiled member made
    induction heads with
    | nil => rfl
    | cons first _ ih => simp [first, ih]
  rwa [names]

theorem named_of_compileAll {flows : List Flow} {graphs : Table Graph}
    (compiled : d.compileAll flows = .ok graphs) {id : String} {graph : Graph}
    (found : graphs.get? id = some graph) : graph.Named := by
  obtain ⟨flow, -, -, made, -⟩ := compile_of_compileAll compiled found
  exact named_of_compile made

end Dialect

end Colloquy
