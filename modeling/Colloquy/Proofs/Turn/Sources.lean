import Colloquy.Proofs.Turn.Standing
import Colloquy.Proofs.Turn.Traces

/-!
Where the values come from that flows hold in their slots. A value that the step which collects its
slot refuses is held only if it was held before, if an action has given it, if the flow was begun
with it, or if it is the answer to a question.
-/

set_option autoImplicit false

namespace Colloquy

open Colloquy.Graph (Activity Node)

theorem eval_of_passes {rule : Predicate} {slots : Slots} {slot : String} {value : Value}
    (passed : passes (some rule) slots slot value = .ok true) :
    rule.eval (slots.insert slot value) = .ok true := by
  unfold passes at passed
  dsimp only at passed
  split at passed
  · next evaluated => cases passed; exact evaluated
  · cases passed
  · cases passed

theorem Graph.asked?_of_owner? {graph : Graph} {slot : String} (free : graph.owner? slot = none)
    {node : Node} (member : node ∈ graph.nodes) : node.activity.asked? ≠ some slot := by
  intro asks
  have none := List.findSome?_eq_none_iff.1 free node member
  cases activity : node.activity <;> simp_all [Activity.asked?]

namespace Library

variable {l : Library} {flow slot : String} {value : Value}

/-- Each slot is collected by one step of a flow at most, and its rule reads no other slot. -/
structure Governed (l : Library) : Prop where
  one : ∀ flow graph, l.get? flow = some graph → ∀ node ∈ graph.nodes, ∀ other ∈ graph.nodes,
    ∀ slot, node.activity.asked? = some slot → other.activity.asked? = some slot → node = other
  own : ∀ flow graph, l.get? flow = some graph → ∀ node ∈ graph.nodes,
    ∀ slot, node.activity.asked? = some slot →
      ∀ rule ∈ node.activity.rule?, ∀ name ∈ rule.condition.slotNames, name = slot

def Refuses (l : Library) (flow slot : String) (value : Value) : Prop :=
  ∃ graph, l.get? flow = some graph ∧ ∃ node ∈ graph.nodes, node.activity.asked? = some slot ∧
    ∃ rule ∈ node.activity.rule?, rule.eval (Table.empty.insert slot value) ≠ .ok true

theorem Governed.eval_eq (governed : l.Governed) {graph : Graph} (found : l.get? flow = some graph)
    {node : Node} (member : node ∈ graph.nodes) (asks : node.activity.asked? = some slot)
    {rule : Predicate} (rules : rule ∈ node.activity.rule?) (value : Value) (slots slots' : Slots) :
    rule.eval (slots.insert slot value) = rule.eval (slots'.insert slot value) := by
  apply Condition.eval_congr
  intro name read
  rw [governed.own flow graph found node member slot asks rule rules name read,
    Table.get?_insert_self, Table.get?_insert_self]

theorem Governed.not_admits (governed : l.Governed) (refuses : l.Refuses flow slot value) :
    ¬ l.Admits flow slot value := by
  intro admits
  obtain ⟨graph, found, node, member, asks, rule, rules, fails⟩ := refuses
  rcases admits graph found with free | ⟨other, member', asks', slots, passed⟩
  · exact Graph.asked?_of_owner? free member asks
  · obtain rfl := governed.one flow graph found node member other member' slot asks asks'
    rw [show node.activity.rule? = some rule from rules] at passed
    apply fails
    rw [governed.eval_eq found member asks rules value .empty slots]
    exact eval_of_passes passed

end Library

def Fetched (trail : List Event) (flow : Invocation) (slot : String) (value : Value) : Prop :=
  ∃ action slots values, .acted flow action slots (some values) ∈ trail ∧ (slot, value) ∈ values

theorem Fetched.mono {trail trail' : List Event} {flow : Invocation} {slot : String} {value : Value}
    (more : trail ⊆ trail') (fetched : Fetched trail flow slot value) :
    Fetched trail' flow slot value := by
  obtain ⟨action, slots, values, acted, member⟩ := fetched
  exact ⟨action, slots, values, more acted, member⟩

def Stack.Holds (s : Stack) (flow : Invocation) (slot : String) (value : Value) : Prop :=
  ∃ f ∈ s.frames, f.invocation = flow ∧ f.slots.get? slot = some value

/-- The running flow stands at a question whose answer goes into the slot. -/
def Library.Asks (l : Library) (s : Stack) (flow : Invocation) (slot : String) : Prop :=
  ∃ top ∈ s.top?, top.invocation = flow ∧
    ∃ node prompt, l.node? top = some node ∧ node.activity = .confirm (some slot) prompt

namespace Turn

variable {σ : Type} {l : Library} {backend : Backend σ} {t₀ t t' : Turn σ} {asked : Option String}
  {given : Slots} {d : Decision} {trail trail' : List Event} {flow : Invocation} {slot : String}
  {value : Value}

/-- What a stride makes of frames: each is a new one or an old one. A slot of an old one holds
something else only if the flow accepts it, before anything has happened, or an action gives it. -/
inductive Came (l : Library) (t t' : Turn σ) (f : Frame) : Prop where
  | new {flow : String} : f = .new flow t.stack.nextId .empty → Came l t t' f
  | old {old : Frame} : old ∈ t.stack.frames → old.invocation = f.invocation →
      (∀ slot value, f.slots.get? slot = some value → old.slots.get? slot = some value ∨
        l.Admits f.flow slot value ∨ Fetched t'.trail f.invocation slot value) →
      (t.trail ≠ [] → ∀ slot value, old.slots.get? slot = some value →
        f.slots.get? slot = some value ∨ ∃ other, Fetched t'.trail f.invocation slot other) →
      Came l t t' f

theorem Came.same {old f : Frame} (member : old ∈ t.stack.frames)
    (same : old.invocation = f.invocation) (slots : f.slots = old.slots) : Came l t t' f :=
  .old member same (fun _ _ holds => .inl (slots ▸ holds)) fun _ _ _ holds => .inl (slots ▸ holds)

theorem came_of_stride (stride : Stride l backend t t') : ∀ f ∈ t'.stack.frames, Came l t t' f := by
  have kept (f : Frame) (member : f ∈ t.stack.frames) : Came l t t' f := .same member rfl rfl
  have first {top : Frame} {below : List Frame} (frames : t.stack.frames = top :: below) :
      top ∈ t.stack.frames := by simp [frames]
  cases stride with
  | shown | advanced | failed | left | answered => exact kept
  | ended => simp [onto]
  | filled slots frames begun admitted =>
    rw [frames] at kept
    refine List.forall_mem_cons.2 ⟨?_, (List.forall_mem_cons.1 kept).2⟩
    refine .old (first frames) rfl ?_ fun other => absurd begun other
    exact fun slot value holds => (admitted slot value holds).imp_right .inl
  | entered frames =>
    rw [frames] at kept
    exact List.forall_mem_cons.2
      ⟨.same (first frames) rfl rfl, (List.forall_mem_cons.1 kept).2⟩
  | @acted top below node action values world frames =>
    rw [frames] at kept
    refine List.forall_mem_cons.2 ⟨?_, (List.forall_mem_cons.1 kept).2⟩
    have fetched {slot : String} {value : Value} (member : (slot, value) ∈ values) :
        Fetched (t.trail ++ [.acted top.invocation action top.slots (some values)]) top.invocation
          slot value :=
      ⟨action, top.slots, values, List.mem_append_right _ List.mem_cons_self, member⟩
    refine .old (first frames) rfl ?_ ?_
    · intro slot value holds
      exact (Table.get?_merge holds).symm.imp_right fun member => .inr (fetched member)
    · intro _ slot value holds
      rcases Table.get?_merge_eq top.slots values slot with still | ⟨other, member⟩
      · exact .inl (still.trans holds)
      · exact .inr ⟨other, fetched member⟩
  | called frames =>
    rw [frames] at kept
    refine List.forall_mem_cons.2 ⟨.new rfl, List.forall_mem_cons.2 ⟨?_, ?_⟩⟩
    · exact .same (first frames) rfl rfl
    · exact (List.forall_mem_cons.1 kept).2
  | linked frames =>
    rw [frames] at kept
    exact List.forall_mem_cons.2 ⟨.new rfl, (List.forall_mem_cons.1 kept).2⟩
  | @returned top caller _ frames | @resumed top caller _ _ _ frames =>
    have second : caller ∈ t.stack.frames := by simp [frames]
    rw [frames] at kept
    obtain ⟨-, below⟩ := List.forall_mem_cons.1 kept
    exact List.forall_mem_cons.2 ⟨.same second rfl rfl, (List.forall_mem_cons.1 below).2⟩

/-- Where a value comes from that a flow holds in a slot, after some events of a turn that began at
`t₀` to carry out a decision. -/
inductive Source (l : Library) (given : Slots) (d : Decision) (t₀ : Turn σ) (trail : List Event)
    (flow : Invocation) (slot : String) (value : Value) : Prop where
  | kept : t₀.stack.Holds flow slot value → Source l given d t₀ trail flow slot value
  | admits : l.Admits flow.flow slot value → Source l given d t₀ trail flow slot value
  | fetched : Fetched trail flow slot value → Source l given d t₀ trail flow slot value
  | brought : .began flow ∈ trail → given.get? slot = some value →
      Source l given d t₀ trail flow slot value
  | answered {affirmed : Bool} : d = .answer affirmed → value = .truth affirmed →
      l.Asks t₀.stack flow slot → Source l given d t₀ trail flow slot value

theorem Source.mono (more : trail ⊆ trail') (source : Source l given d t₀ trail flow slot value) :
    Source l given d t₀ trail' flow slot value := by
  cases source with
  | kept held => exact .kept held
  | admits admits => exact .admits admits
  | fetched fetched => exact .fetched (fetched.mono more)
  | brought began gives => exact .brought (more began) gives
  | answered decided truth asks => exact .answered decided truth asks

def Backed (l : Library) (given : Slots) (d : Decision) (t₀ : Turn σ) (trail : List Event)
    (f : Frame) : Prop :=
  ∀ slot value, f.slots.get? slot = some value →
    Source l given d t₀ trail f.invocation slot value

theorem Backed.mono {f : Frame} (more : trail ⊆ trail') (backed : Backed l given d t₀ trail f) :
    Backed l given d t₀ trail' f :=
  fun slot value holds => (backed slot value holds).mono more

theorem Backed.new (flow : String) (id : Nat) :
    Backed l given d t₀ trail (.new flow id .empty) := by
  intro slot value holds
  cases holds

theorem backed_of_stride (stride : Stride l backend t t')
    (backed : ∀ f ∈ t.stack.frames, Backed l given d t₀ t.trail f) :
    ∀ f ∈ t'.stack.frames, Backed l given d t₀ t'.trail f := by
  obtain ⟨events, brings⟩ := brings_of_stride stride
  intro f member slot value holds
  cases came_of_stride stride f member with
  | new new =>
    subst new
    cases holds
  | @old old member' same more =>
    rcases more slot value holds with held | admits | fetched
    · rw [← same, brings.trail]
      exact (backed old member' slot value held).mono (List.subset_append_left _ _)
    · exact .admits admits
    · exact .fetched fetched

theorem backed_of_moves (moves : Moves l backend asked given d t₀ t) :
    ∀ f ∈ t.stack.frames, Backed l given d t₀ t.trail f := by
  induction moves with
  | refl => exact fun f member slot value holds => .kept ⟨f, member, rfl, holds⟩
  | @tail t₁ _ earlier move ih =>
    cases move with
    | shown shows' => cases shows'; exact ih
    | stride _ stride => exact backed_of_stride stride ih
    | @recorded _ top below node slot prompt affirmed frames quiet stands activity =>
      have bare := bare_of_moves earlier quiet
      rw [frames] at ih bare
      obtain ⟨old, belowOld, frames₀, same, -⟩ := List.map_eq_cons_iff.1 bare.symm
      have asks : l.Asks t₀.stack top.invocation slot := by
        have invocation : old.bare.invocation = top.bare.invocation := by rw [same]
        have stands' : l.node? old.bare = some node := by rw [same]; exact stands
        exact ⟨old, by simp [Stack.top?, frames₀], invocation, node, prompt, stands', activity⟩
      obtain ⟨held, below'⟩ := List.forall_mem_cons.1 ih
      refine List.forall_mem_cons.2 ⟨fun slot' value holds => ?_, below'⟩
      rw [Table.get?_insert] at holds
      split at holds
      · next here =>
        cases here
        cases holds
        exact .answered rfl rfl asks
      · exact held slot' value holds
    | began empty quiet known =>
      refine List.forall_mem_cons.2 ⟨fun slot value holds => ?_, by simp⟩
      exact .brought (List.mem_append_right _ (List.mem_singleton_self _)) holds
    | proposed | withdrawn => exact ih
    | changed frames =>
      rw [frames] at ih
      refine List.forall_mem_cons.2 ⟨.new _ _, fun f member => ?_⟩
      exact ((List.forall_mem_cons.1 ih).2 f member).mono (List.subset_append_left _ _)
    | cancelled => simp [onto]

/-- A flow that has begun in the turn holds what it was given, unless an action has given something
for the slot. -/
def Equipped (given : Slots) (trail : List Event) (f : Frame) : Prop :=
  .began f.invocation ∈ trail → ∀ slot value, given.get? slot = some value →
    f.slots.get? slot = some value ∨ ∃ other, Fetched trail f.invocation slot other

structure Furnished (given : Slots) (t : Turn σ) : Prop where
  equipped : ∀ f ∈ t.stack.frames, Equipped given t.trail f
  young : ∀ flow, .began flow ∈ t.trail → flow.id < t.stack.nextId

theorem Furnished.of_begun (begun : t.trail = []) : t.Furnished given :=
  ⟨fun _ _ began => by simp [begun] at began, fun _ began => by simp [begun] at began⟩

theorem Furnished.stride (furnished : t.Furnished given) (stride : Stride l backend t t') :
    t'.Furnished given := by
  obtain ⟨events, brings⟩ := brings_of_stride stride
  have earlier (flow : Invocation) (began : .began flow ∈ t'.trail) : .began flow ∈ t.trail := by
    rw [brings.trail, List.mem_append] at began
    exact began.resolve_right (brings.unbegun flow)
  constructor
  case young =>
    intro flow began
    exact Nat.lt_of_lt_of_le (furnished.young flow (earlier flow began)) brings.grows
  case equipped =>
    intro f member began slot value gives
    have began := earlier _ began
    cases came_of_stride stride f member with
    | new new =>
      subst new
      exact absurd (furnished.young _ began) (Nat.lt_irrefl _)
    | old member' same _ fewer =>
      have equipped := furnished.equipped _ member' (same ▸ began) slot value gives
      rcases equipped with held | ⟨other, fetched⟩
      · exact fewer (List.ne_nil_of_mem began) slot value held
      · rw [same] at fetched
        refine .inr ⟨other, fetched.mono ?_⟩
        rw [brings.trail]
        exact List.subset_append_left _ _

theorem furnished_of_moves (moves : Moves l backend asked given d t₀ t) (begun : t₀.trail = []) :
    t.Furnished given := by
  induction moves with
  | refl => exact .of_begun begun
  | @tail t₁ _ _ move ih =>
    cases move with
    | shown shows' => cases shows'; exact ⟨ih.equipped, ih.young⟩
    | stride _ stride => exact ih.stride stride
    | recorded _ quiet | proposed quiet | withdrawn quiet => exact .of_begun quiet
    | began empty quiet known =>
      refine ⟨List.forall_mem_cons.2 ⟨fun _ slot value gives => .inl gives, by simp⟩, ?_⟩
      intro flow began
      simp only [onto, quiet, List.nil_append, List.mem_singleton, Event.began.injEq] at began
      subst began
      exact Nat.lt_succ_self _
    | changed frames active withdrawn quiet =>
      constructor <;> simp [onto, quiet, Equipped]
    | cancelled quiet =>
      constructor <;> simp [onto, quiet]

/-- A flow begins only where none runs. -/
theorem vacant_of_began (moves : Moves l backend asked given d t₀ t) (begun : t₀.trail = [])
    (began : .began flow ∈ t.trail) : t₀.stack.frames = [] := by
  induction moves with
  | refl => simp [begun] at began
  | @tail t₁ _ earlier move ih =>
    cases move with
    | shown shows' => cases shows'; exact ih began
    | stride _ stride =>
      obtain ⟨events, brings⟩ := brings_of_stride stride
      rw [brings.trail] at began
      exact ih ((List.mem_append.1 began).resolve_right (brings.unbegun flow))
    | began empty quiet =>
      have bare := bare_of_moves earlier quiet
      rw [empty] at bare
      exact List.map_eq_nil_iff.1 bare.symm
    | recorded _ quiet | proposed quiet | withdrawn quiet => simp [quiet] at began
    | changed _ _ _ quiet | cancelled quiet => simp [onto, quiet] at began

end Turn

end Colloquy
