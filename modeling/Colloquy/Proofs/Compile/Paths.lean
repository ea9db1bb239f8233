import Mathlib.Data.Finset.Card
import Mathlib.Data.List.Range
import Mathlib.Logic.Relation
import Colloquy.Proofs.Compile.Shape

/-!
Paths through a graph. The path of a graph is found by a search that goes from step to step, along
edges that are always taken, and gives up where it has been before. Since each round sees a step
more, the search ends; it gives the steps that the flow passes with any slots, or it has come to a
step that it cannot leave or has passed.
-/

set_option autoImplicit false

namespace Colloquy

open Colloquy.Graph (Leaving Node Target)

namespace Graph

/-- From one target to another along edges that are always taken, past the steps at some
positions. -/
inductive Reaches (g : Graph) : Target → List Nat → Target → Prop where
  | here {target : Target} : Reaches g target [] target
  | onward {index : Nat} {node : Node} {next last : Target} {passed : List Nat} :
      g.nodes[index]? = some node → node.single? = some next → Reaches g next passed last →
      Reaches g (.step index) (index :: passed) last

/-- There is no edge that is always taken, and alone, out of the step. -/
def Blocks (g : Graph) (index : Nat) : Prop :=
  ∀ node, g.nodes[index]? = some node → node.single? = none

def names (g : Graph) (passed : List Nat) : List String :=
  passed.map fun index => g.targetName (.step index)

/-- Follows a flow from a target on, each step with slots of its own, as long as there are slots.
Gives the names of the steps that are left behind, and where the flow has come to; that is nowhere
if no edge of a step applies. -/
def follow (g : Graph) : Target → List Slots → Except ConditionError (List String × Option Target)
  | .step index, slots :: later => do
    let name := g.targetName (.step index)
    match ← g.next name slots with
    | none => return ([name], none)
    | some target =>
      let (names, last) ← g.follow target later
      return (name :: names, last)
  | target, _ => return ([], some target)

structure Search where
  seen : List Nat
  path : List String
  target : Target

namespace Search

def start (g : Graph) : Search := ⟨[], [], g.entry⟩

/-- A round of the search: where it stands then, or what it ends with. -/
def advance (g : Graph) (s : Search) : Search ⊕ Option (List String) :=
  match s.target with
  | .finish => .inr (some s.path)
  | .step index =>
    if index ∈ s.seen then .inr none
    else
      match g.nodes[index]? with
      | none => .inr none
      | some node =>
        match node.single? with
        | some next => .inl ⟨s.seen ++ [index], s.path ++ [node.name], next⟩
        | none => .inr none

end Search

variable {g : Graph} {index : Nat} {first middle last target : Target} {passed others : List Nat}
  {path : List String}

/-! ## Walks -/

theorem targetName_step {node : Node} (place : g.nodes[index]? = some node) :
    g.targetName (.step index) = node.name := by
  rw [targetName, place]
  rfl

theorem names_cons {node : Node} (place : g.nodes[index]? = some node) :
    g.names (index :: passed) = node.name :: g.names passed := by
  rw [names, List.map_cons, targetName_step place, names]

theorem Reaches.trans (walk : g.Reaches first passed middle)
    (further : g.Reaches middle others last) : g.Reaches first (passed ++ others) last := by
  induction walk with
  | here => exact further
  | onward place single _ ih => exact .onward place single (ih further)

theorem Reaches.lt_length (walk : g.Reaches first passed last) :
    ∀ index ∈ passed, index < g.nodes.length := by
  induction walk with
  | here => simp
  | onward place _ _ ih =>
    exact List.forall_mem_cons.2 ⟨(List.getElem?_eq_some_iff.1 place).1, ih⟩

/-- A step that a walk has passed was come to on the way, and from there the walk went on. -/
theorem Reaches.split (walk : g.Reaches first passed last) (member : index ∈ passed) :
    ∃ before after, g.Reaches first before (.step index) ∧
      g.Reaches (.step index) (index :: after) last := by
  induction walk with
  | here => cases member
  | onward place single walk ih =>
    rcases List.mem_cons.1 member with rfl | member
    · exact ⟨[], _, .here, .onward place single walk⟩
    · obtain ⟨before, after, come, rest⟩ := ih member
      exact ⟨_ :: before, after, .onward place single come, rest⟩

theorem Reaches.length_le (walk : g.Reaches first passed last) (distinct : passed.Nodup) :
    passed.length ≤ g.nodes.length := by
  have among : passed ⊆ List.range g.nodes.length :=
    fun index member => List.mem_range.2 (walk.lt_length index member)
  simpa using (List.subperm_of_subset distinct among).length_le

theorem Reaches.nodup_names (named : g.Named) (walk : g.Reaches first passed last)
    (distinct : passed.Nodup) : (g.names passed).Nodup := by
  refine distinct.map_on fun i here j there same => ?_
  have left := List.getElem?_eq_getElem (walk.lt_length i here)
  have right := List.getElem?_eq_getElem (walk.lt_length j there)
  rw [targetName_step left, targetName_step right] at same
  exact Option.some.inj ((index?_name named left).symm.trans (same ▸ index?_name named right))

theorem follow_finish (slots : List Slots) : g.follow .finish slots = .ok ([], some .finish) := by
  cases slots <;> rfl

theorem Reaches.follow (named : g.Named) (walk : g.Reaches first passed .finish)
    {slots : List Slots} (enough : passed.length ≤ slots.length) :
    g.follow first slots = .ok (g.names passed, some .finish) := by
  generalize finish : Target.finish = last at walk
  induction walk generalizing slots with
  | here =>
    subst finish
    exact follow_finish slots
  | @onward index node next last passed place single walk ih =>
    cases slots with
    | nil => simp at enough
    | cons here later =>
      have leads : g.next (g.targetName (.step index)) here = .ok (some next) := by
        rw [targetName_step place, next_name named (List.mem_of_getElem? place),
          single?_eq_some.1 single]
        rfl
      have rest := ih (Nat.le_of_succ_le_succ enough) finish
      rw [names_cons place, ← targetName_step place]
      simp only [Graph.follow, leads, rest, bind, Except.bind]
      rfl

/-! ## The path within a bound -/

theorem straight_finish (bound : Nat) : g.straight bound .finish = some [] := by
  cases bound <;> rfl

theorem straight_mono {bound : Nat} (found : g.straight bound target = some path) (more : Nat) :
    g.straight (bound + more) target = some path := by
  induction bound generalizing target path with
  | zero =>
    cases target with
    | finish => rwa [straight_finish] at found ⊢
    | step index => cases found
  | succ bound ih =>
    cases target with
    | finish => rwa [straight_finish] at found ⊢
    | step index =>
      cases place : g.nodes[index]? with
      | none => simp [straight, place] at found
      | some node =>
        rw [straight_step place] at found
        rw [Nat.add_right_comm, straight_step place]
        obtain ⟨next, single, found⟩ := Option.bind_eq_some_iff.1 found
        obtain ⟨later, further, rfl⟩ := Option.map_eq_some_iff.1 found
        rw [single, Option.bind_some, ih further, Option.map_some]

theorem Reaches.straight (walk : g.Reaches first passed last) (bound : Nat) :
    g.straight (passed.length + bound) first =
      (g.straight bound last).map (g.names passed ++ ·) := by
  induction walk with
  | here => simp [names]
  | onward place single _ ih =>
    rw [List.length_cons, Nat.add_right_comm, straight_step place, single, Option.bind_some, ih,
      Option.map_map, names_cons place]
    rfl

theorem Blocks.straight (blocked : g.Blocks index) (bound : Nat) :
    g.straight bound (.step index) = none := by
  cases bound with
  | zero => rfl
  | succ bound =>
    cases place : g.nodes[index]? with
    | none => simp [Graph.straight, place]
    | some node => rw [straight_step place, blocked node place, Option.bind_none]

/-- No bound is enough for a walk that comes back. -/
theorem straight_of_return (walk : g.Reaches (.step index) (index :: passed) (.step index))
    (bound : Nat) : g.straight bound (.step index) = none := by
  rw [Option.eq_none_iff_forall_ne_some]
  intro path found
  have again := walk.straight bound
  rw [Nat.add_comm, straight_mono found, found, Option.map_some] at again
  have lengths := congrArg List.length (Option.some.inj again)
  simp [names] at lengths
  omega

theorem linearPath?_eq_none (walk : g.Reaches g.entry passed (.step index))
    (stuck : ∀ bound, g.straight bound (.step index) = none) : g.linearPath? = none := by
  rw [Option.eq_none_iff_forall_ne_some]
  intro path found
  have further := straight_mono found passed.length
  rw [Nat.add_comm, walk.straight, stuck] at further
  cases further

theorem linearPath?_eq_none_of_return (walk : g.Reaches g.entry passed (.step index))
    (seen : index ∈ passed) : g.linearPath? = none := by
  obtain ⟨before, after, come, back⟩ := walk.split seen
  exact linearPath?_eq_none come (straight_of_return back)

theorem linearPath?_eq_some (walk : g.Reaches g.entry passed .finish)
    (short : passed.length ≤ g.nodes.length) : g.linearPath? = some (g.names passed) := by
  obtain ⟨bound, enough⟩ := Nat.exists_eq_add_of_le short
  rw [linearPath?, enough, walk.straight, straight_finish]
  simp

/-! ## The search -/

namespace Search

variable {s next : Search} {found : Option (List String)}

/-- The search has walked from the entry past the steps that it has seen, each of them once. -/
structure Holds (g : Graph) (s : Search) : Prop where
  walk : g.Reaches g.entry s.seen s.target
  distinct : s.seen.Nodup
  path : s.path = g.names s.seen

theorem advance_eq_inl : s.advance g = .inl next ↔ ∃ index node, s.target = .step index ∧
    index ∉ s.seen ∧ g.nodes[index]? = some node ∧ node.single? = some next.target ∧
    next.seen = s.seen ++ [index] ∧ next.path = s.path ++ [node.name] := by
  constructor
  · intro goesOn
    unfold advance at goesOn
    split at goesOn
    · cases goesOn
    · next index target =>
      split at goesOn
      · cases goesOn
      · next fresh =>
        split at goesOn
        · cases goesOn
        · next node place =>
          split at goesOn
          · next single =>
            cases goesOn
            exact ⟨index, node, target, fresh, place, single, rfl, rfl⟩
          · cases goesOn
  · rintro ⟨index, node, target, fresh, place, single, seen, path⟩
    simp only [advance, target, if_neg fresh, place, single, ← seen, ← path]

theorem advance_eq_inr (ends : s.advance g = .inr found) :
    s.target = .finish ∧ found = some s.path ∨
      ∃ index, s.target = .step index ∧ found = none ∧ (index ∈ s.seen ∨ g.Blocks index) := by
  unfold advance at ends
  split at ends
  · next target =>
    cases ends
    exact .inl ⟨target, rfl⟩
  · next index target =>
    refine .inr ⟨index, target, ?_⟩
    split at ends
    · next seen =>
      cases ends
      exact ⟨rfl, .inl seen⟩
    · split at ends
      · next nowhere =>
        cases ends
        refine ⟨rfl, .inr fun node place => ?_⟩
        cases nowhere.symm.trans place
      · next node place =>
        split at ends
        · cases ends
        · next single =>
          cases ends
          refine ⟨rfl, .inr fun other place' => ?_⟩
          cases place.symm.trans place'
          exact single

theorem wellFounded_advance (g : Graph) :
    WellFounded fun next s : Search => s.advance g = .inl next := by
  let unseen (s : Search) : Finset Nat := Finset.range g.nodes.length \ s.seen.toFinset
  refine Subrelation.wf ?_ (InvImage.wf (fun s => (unseen s).card) Nat.lt_wfRel.wf)
  intro next s goesOn
  obtain ⟨index, node, -, fresh, place, -, seen, -⟩ := advance_eq_inl.1 goesOn
  refine Finset.card_lt_card (Finset.ssubset_iff_of_subset ?_ |>.2 ⟨index, ?_, ?_⟩)
  · intro other member
    simp only [unseen, seen, Finset.mem_sdiff, List.mem_toFinset, List.mem_append] at member ⊢
    exact ⟨member.1, fun earlier => member.2 (.inl earlier)⟩
  · simpa [unseen, fresh] using (List.getElem?_eq_some_iff.1 place).1
  · simp [unseen, seen]

theorem exists_last (g : Graph) (s : Search) : ∃ last found,
    Relation.ReflTransGen (fun s next => s.advance g = .inl next) s last ∧
      last.advance g = .inr found := by
  induction s using (wellFounded_advance g).induction with
  | _ s ih =>
    cases advanced : s.advance g with
    | inl next =>
      obtain ⟨last, found, rounds, ends⟩ := ih next advanced
      exact ⟨last, found, .head advanced rounds, ends⟩
    | inr found => exact ⟨s, found, .refl, advanced⟩

theorem holds_start (g : Graph) : (start g).Holds g := ⟨.here, .nil, rfl⟩

theorem Holds.advance (holds : s.Holds g) (goesOn : s.advance g = .inl next) : next.Holds g := by
  obtain ⟨index, node, target, fresh, place, single, seen, path⟩ := advance_eq_inl.1 goesOn
  have walk := holds.walk
  rw [target] at walk
  constructor
  · rw [seen]
    exact walk.trans (.onward place single .here)
  · rw [seen, List.nodup_append_comm]
    exact List.nodup_cons.2 ⟨fresh, holds.distinct⟩
  · rw [path, seen, holds.path, names, names, List.map_append, List.map_singleton,
      targetName_step place]

theorem Holds.rounds (holds : s.Holds g)
    (rounds : Relation.ReflTransGen (fun s next => s.advance g = .inl next) s next) :
    next.Holds g := by
  induction rounds with
  | refl => exact holds
  | tail _ goesOn ih => exact ih.advance goesOn

theorem Holds.eq_linearPath? (holds : s.Holds g) (ends : s.advance g = .inr found) :
    found = g.linearPath? := by
  have walk := holds.walk
  rcases advance_eq_inr ends with ⟨target, rfl⟩ | ⟨index, target, rfl, seen | blocked⟩
  · rw [target] at walk
    rw [linearPath?_eq_some walk (walk.length_le holds.distinct), holds.path]
  · rw [target] at walk
    exact (linearPath?_eq_none_of_return walk seen).symm
  · rw [target] at walk
    exact (linearPath?_eq_none walk blocked.straight).symm

theorem exists_end (g : Graph) : ∃ last : Search,
    Relation.ReflTransGen (fun s next => s.advance g = .inl next) (start g) last ∧
      last.Holds g ∧ last.advance g = .inr g.linearPath? := by
  obtain ⟨last, found, rounds, ends⟩ := exists_last g (start g)
  have holds := (holds_start g).rounds rounds
  exact ⟨last, rounds, holds, holds.eq_linearPath? ends ▸ ends⟩

end Search

theorem reaches_of_linearPath? (found : g.linearPath? = some path) :
    ∃ passed, g.Reaches g.entry passed .finish ∧ passed.Nodup ∧ path = g.names passed := by
  obtain ⟨last, -, holds, ends⟩ := Search.exists_end g
  rw [found] at ends
  rcases Search.advance_eq_inr ends with ⟨target, same⟩ | ⟨index, -, same, -⟩
  · cases same
    exact ⟨last.seen, target ▸ holds.walk, holds.distinct, holds.path⟩
  · cases same

/-- There is no path just if the walk from the entry comes to a step that it cannot leave, or that
it has passed before. -/
theorem linearPath?_eq_none_iff : g.linearPath? = none ↔
    ∃ passed index, g.Reaches g.entry passed (.step index) ∧
      (g.Blocks index ∨ index ∈ passed) := by
  constructor
  · intro none
    obtain ⟨last, -, holds, ends⟩ := Search.exists_end g
    rw [none] at ends
    rcases Search.advance_eq_inr ends with ⟨-, same⟩ | ⟨index, target, -, seen | blocked⟩
    · cases same
    · exact ⟨last.seen, index, target ▸ holds.walk, .inr seen⟩
    · exact ⟨last.seen, index, target ▸ holds.walk, .inl blocked⟩
  · rintro ⟨passed, index, walk, blocked | seen⟩
    · exact linearPath?_eq_none walk blocked.straight
    · exact linearPath?_eq_none_of_return walk seen

theorem Leaving.single?_eq_none {size : Nat} {node : Node}
    (leaving : Leaving size node.activity node.edges) :
    node.single? = none ↔ node.activity.isPlain = false := by
  unfold Node.single?
  generalize node.activity = activity at leaving
  generalize node.edges = edges at leaving
  cases leaving with
  | plain plain => simp [plain]
  | loop | question => simp [Activity.isPlain]
  | @branch cases' target =>
    rcases cases' with _ | ⟨edge, _ | ⟨other, more⟩⟩ <;> simp [Activity.isPlain]

end Graph

end Colloquy
