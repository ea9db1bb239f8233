import Colloquy.Proofs.Turn.Walking

/-!
What a turn does with a message for the step at which the running flow stands. It shows something,
fills slots, and goes on through the flows; in the end it is at rest, unless it fails.
-/

set_option autoImplicit false

namespace Colloquy

open Colloquy.Graph (Activity Node Target)

namespace Turn

variable {σ α : Type} {t t' : Turn σ}

inductive Shows (t : Turn σ) : Turn σ → Prop where
  | shown (messages : List Message) : Shows t { t with messages := t.messages ++ messages }

theorem eq_of_shows (shows' : Relation.ReflTransGen Shows t t') :
    t' = { t with messages := t'.messages } := by
  induction shows' with
  | refl => rfl
  | tail _ last ih =>
    cases last
    rw [ih]

theorem Shows.stride {l : Library} {backend : Backend σ} (shows' : t.Shows t') :
    Stride l backend t t' := by
  obtain ⟨messages⟩ := shows'
  exact .shown messages

end Turn

/-- Where a stack stands in its flows. -/
inductive Library.Placed (l : Library) (stack : Stack) : Option Position → Prop where
  | nowhere : stack.frames = [] → Placed l stack none
  | before {top : Frame} {below : List Frame} {graph : Graph} :
      stack.frames = top :: below → l.get? top.flow = some graph → top.step = none →
      Placed l stack (some ⟨graph, none⟩)
  | at {top : Frame} {below : List Frame} {graph : Graph} {index : Nat} {node : Node} :
      stack.frames = top :: below → l.get? top.flow = some graph →
      graph.nodes[index]? = some node → l.node? top = some node →
      Placed l stack (some ⟨graph, some index⟩)

variable {σ α : Type} {l : Library} {t t' : Turn σ}

theorem Library.position_eq_ok {stack : Stack} {place : Option Position}
    (found : l.position stack = .ok place) : l.Placed stack place := by
  unfold Library.position at found
  cases frames : stack.frames with
  | nil =>
    simp only [Stack.top?, frames, List.head?_nil, Except.ok.injEq] at found
    exact found ▸ .nowhere frames
  | cons top below =>
    simp only [Stack.top?, frames, List.head?_cons] at found
    obtain ⟨graph, known, rest⟩ := bind_eq_ok.1 found
    have known := Library.graph_eq_ok.1 known
    cases step : top.step with
    | none =>
      simp only [step] at rest
      cases rest
      exact .before frames known step
    | some name =>
      simp only [step] at rest
      cases place : graph.index? name with
      | none => simp [place] at rest
      | some index =>
        simp only [place] at rest
        cases rest
        obtain ⟨node, member, -⟩ := Graph.name_of_index? place
        refine .at frames known member (Library.node?_eq_some.2 ⟨graph, name, known, step, ?_⟩)
        simp only [Graph.node?, place, Option.bind_some, member]

theorem Library.position_eq_error {stack : Stack} {e : TurnError}
    (fails : l.position stack = .error e) :
    ∃ top below, stack.frames = top :: below ∧
      (l.get? top.flow = none ∧ e = .unknownFlow top.flow ∨
        ∃ step, l.node? top = none ∧ e = .missingStep top.flow step) := by
  unfold Library.position at fails
  cases frames : stack.frames with
  | nil => simp [Stack.top?, frames] at fails
  | cons top below =>
    refine ⟨top, below, rfl, ?_⟩
    simp only [Stack.top?, frames, List.head?_cons] at fails
    rcases bind_eq_error.1 fails with unknown | ⟨graph, known, rest⟩
    · exact .inl (Library.graph_eq_error.1 unknown)
    · split at rest
      · cases rest
      · next step at' =>
        split at rest
        · cases rest
        · next absent =>
          cases rest
          refine .inr ⟨step, ?_, rfl⟩
          simp [Library.node?, Library.graph_eq_ok.1 known, at', Graph.node?, absent]

namespace Turn

variable {asked : Option String}

theorem along_position {move : Turn σ → Turn σ → Prop} (begun : t.trail = []) :
    t.Along move (TurnM.position l) (fun place t' => t' = t ∧ l.Placed t.stack place)
      (Stuck l asked) := by
  cases found : l.position t.stack with
  | ok place =>
    refine .of_ok ?_ .refl ⟨rfl, Library.position_eq_ok found⟩
    rw [TurnM.position, run_bind_ok run_get, found, run_ofExcept_ok]
  | error e =>
    have ran : t.run (TurnM.position l) = (.error e, t) := by
      rw [TurnM.position, run_bind_ok run_get, found, run_ofExcept_error]
      rfl
    obtain ⟨top, below, frames, ⟨unknown, rfl⟩ | ⟨step, nowhere, rfl⟩⟩ :=
      Library.position_eq_error found
    · exact .of_error ran .refl (.unregistered frames unknown)
    · exact .of_error ran .refl (.unplaced frames begun nowhere)

theorem along_say {failed : TurnError → Turn σ → Prop}
    (template : String) : t.Along Shows (TurnM.say template) (fun _ _ => True) failed :=
  .of_ok (run_modify _) (.single (.shown [_])) trivial

theorem along_ask (begun : t.trail = []) :
    t.Along Shows (TurnM.ask l) (fun _ _ => True) (Stuck l asked) := by
  unfold TurnM.ask
  apply (along_position begun).bind
  intro place t' _ ends
  obtain ⟨rfl, -⟩ := ends
  split
  · split
    · exact (along_say _).bind fun _ _ _ _ => .pure trivial
    · exact .pure trivial
  · exact .pure trivial

theorem along_askAgain (begun : t.trail = []) :
    t.Along Shows (TurnM.ask l >>= fun _ => pure ()) (fun _ _ => True) (Stuck l asked) :=
  (along_ask begun).bind fun _ _ _ _ => .pure trivial

theorem along_reprompt (begun : t.trail = []) :
    t.Along Shows (TurnM.reprompt l) (fun _ _ => True) (Stuck l asked) := by
  unfold TurnM.reprompt
  refine .get ?_
  split
  · exact .of_ok (run_modify _) (.single (.shown [_])) trivial
  · apply (along_ask begun).bind
    intro asked t' _ _
    split
    · exact .pure trivial
    · exact along_say _

/-- A rule that cannot be applied to a value is not satisfied, and nothing else can go wrong. -/
theorem passes_ne_error {rule : Option Predicate} {slots : Slots} {slot : String} {value : Value}
    {e : TurnError} : passes rule slots slot value ≠ .error e := by
  intro fails
  unfold passes at fails
  split at fails
  · cases fails
  · split at fails
    · cases fails
    · cases fails
    · next cause other evaluated =>
      obtain ⟨op, left, right, rfl⟩ := Predicate.isClash_of_eval evaluated
      exact other op left right rfl

theorem admits_of_owner? {graph : Graph} {slot rejection : String} {rule : Option Predicate}
    {value : Value} {slots : Slots} (owner : graph.owner? slot = some (rejection, rule))
    (passed : passes rule slots slot value = .ok true) : graph.Admits slot value := by
  obtain ⟨node, member, prompt, askAlways, activity⟩ := Graph.collects_of_owner? owner
  exact .inr ⟨node, member, by rw [activity]; rfl, slots, by rw [activity]; exact passed⟩

theorem along_accepted {graph : Graph} {values : List (String × Value)} :
    t.Along Shows (TurnM.accepted graph values)
      (fun kept _ => ∀ pair ∈ kept, graph.Admits pair.1 pair.2) (Stuck l asked) := by
  induction values generalizing t with
  | nil => exact .pure (by simp)
  | cons pair values ih =>
    have keeps (admits : graph.Admits pair.1 pair.2) :
        t.Along Shows (do return pair :: (← TurnM.accepted graph values))
          (fun kept _ => ∀ pair ∈ kept, graph.Admits pair.1 pair.2) (Stuck l asked) :=
      ih.bind fun kept _ _ admitted => .pure (List.forall_mem_cons.2 ⟨admits, admitted⟩)
    unfold TurnM.accepted
    split
    · next free => exact keeps (.inl free)
    · next rejection rule owner =>
      refine .get (.ofExcept ?_ fun e fails => absurd fails passes_ne_error)
      intro passed ok
      cases passed with
      | true => exact keeps (admits_of_owner? owner ok)
      | false => exact (along_say _).bind fun _ _ _ _ => ih

-- What is shown first changes nothing that comes after, so that it may be left out of account.
theorem Along.after_shows {backend : Backend σ} {β : Type} {first : TurnM σ α}
    {rest : α → TurnM σ β} {between : α → Prop} {done : β → Turn σ → Prop}
    {failed : TurnError → Turn σ → Prop}
    (begins : t.Along Shows first (fun a _ => between a) failed)
    (goesOn : ∀ a messages, between a →
      Along { t with messages } (Stride l backend) (rest a) done failed) :
    t.Along (Stride l backend) (first >>= rest) done failed := by
  obtain ⟨shown, ends⟩ := begins
  have strides : Strides l backend t (t.run first).2 :=
    Relation.ReflTransGen.mono (fun _ _ => Shows.stride) _ _ shown
  cases ran : t.run first with
  | mk result t' =>
    rw [ran] at shown strides ends
    cases result with
    | ok a =>
      have same : t' = { t with messages := t'.messages } := eq_of_shows shown
      exact .bind_ok ran strides (same ▸ goesOn a t'.messages ends)
    | error e => exact .of_error (run_bind_error ran rest) strides ends

end Turn

/-- Where carrying out a decision ends, unless it fails: going through flows has come to a halt, or
they have not been gone through. -/
def Library.Rested (l : Library) (t : Turn σ) : Prop :=
  l.Halts t ∨ t.trail = [] ∧ t.failure = none

namespace Turn

structure Fresh (m : Machine) (t : Turn σ) : Prop where
  kept : t.Kept m
  ready : t.failure = none
  begun : t.trail = []

theorem Fresh.of_eq {m : Machine} (fresh : t.Fresh m) (machine : t'.machine = t.machine)
    (failure : t'.failure = t.failure) (trail : t'.trail = t.trail) : t'.Fresh m :=
  ⟨fresh.kept.of_eq machine failure, failure.trans fresh.ready, trail.trans fresh.begun⟩

variable {backend : Backend σ} {s : Stage σ} {m : Machine} {top : Frame} {below : List Frame}
  {node : Node} {asked : Option String}

theorem Along.shown {steps : TurnM σ α} {move : Turn σ → Turn σ → Prop}
    (along : t.Along Shows steps (fun _ _ => True) (Stuck l asked))
    (finer : ∀ t₁ t₂, t₁.Shows t₂ → move t₁ t₂) (begun : t.trail = []) (ready : t.failure = none) :
    t.Along move steps (fun _ t' => l.Rested t') (Stuck l asked) := by
  refine (along.mono ?_ fun _ _ _ stuck => stuck).lift finer
  intro a t' shown _
  rw [eq_of_shows shown]
  exact .inr ⟨begun, ready⟩

theorem along_shows {steps : TurnM σ α}
    (shows' : t.Along Shows steps (fun _ _ => True) (Stuck l asked)) (begun : t.trail = [])
    (ready : t.failure = none) :
    t.Along (Stride l backend) steps (fun _ t' => l.Rested t') (Stuck l asked) :=
  shows'.shown (fun _ _ => Shows.stride) begun ready

theorem along_walkFrom {target : Target} (named : s.library.Named) (heard : m.Heard)
    (kept : t.Kept m) (ready : t.failure = none) (leads : s.library.Leads t.stack target) :
    t.Along (Stride s.library s.backend) (TurnM.walkFrom s target)
      (fun _ t' => s.library.Rested t') (Stuck s.library asked) :=
  (along_walk named heard kept ready leads).mono (fun _ _ _ halts => .inl halts)
    fun _ _ _ stuck => stuck

theorem along_nodeAt {graph : Graph} {index : Nat} {move : Turn σ → Turn σ → Prop}
    {rest : Node → TurnM σ α} {done : α → Turn σ → Prop} {failed : TurnError → Turn σ → Prop}
    (member : graph.nodes[index]? = some node) (goesOn : t.Along move (rest node) done failed) :
    t.Along move (TurnM.ofExcept id (graph.nodeAt index) >>= rest) done failed := by
  have found : graph.nodeAt index = .ok node := by simp only [Graph.nodeAt, member]
  rw [found]
  exact .bind_ok (run_ofExcept_ok id node) .refl goesOn

theorem along_goOn (named : s.library.Named) (heard : m.Heard) (fresh : t.Fresh m)
    (frames : t.stack.frames = top :: below) (stands : s.library.node? top = some node)
    (statement : node.activity.isQuestion = false) :
    t.Along (Stride s.library s.backend) (TurnM.goOn s node.name)
      (fun _ t' => s.library.Rested t') (Stuck s.library asked) := by
  apply (along_goFrom frames stands statement (.inr fresh.begun)).bind
  rintro _ t' moves ⟨target, rfl, leads, same⟩
  have kept := fresh.kept.strides moves
  exact along_walkFrom named heard kept (same.trans fresh.ready) leads

theorem along_offer {value : Value} (named : s.library.Named) (heard : m.Heard) (fresh : t.Fresh m)
    (frames : t.stack.frames = top :: below) (stands : s.library.node? top = some node) :
    t.Along (Stride s.library s.backend) (TurnM.offer s node value)
      (fun _ t' => s.library.Rested t') (Stuck s.library asked) := by
  unfold TurnM.offer
  split
  next slot prompt rejection rule askAlways activity =>
    refine .get (.ofExcept ?_ fun e fails => absurd fails passes_ne_error)
    intro passed ok
    cases passed with
    | true =>
      have admits : s.library.Admits top.flow slot value := by
        obtain ⟨graph, found, member⟩ := Library.mem_of_node? stands
        intro graph' found'
        cases found.symm.trans found'
        exact .inr ⟨node, member, by rw [activity]; rfl, _, by rw [activity]; exact ok⟩
      have filled (slot' : String) (value' : Value)
          (stored : (top.slots.insert slot value).get? slot' = some value') :
          top.slots.get? slot' = some value' ∨ s.library.Admits top.flow slot' value' := by
        rw [Table.get?_insert] at stored
        split at stored
        · next same =>
          cases same
          cases stored
          exact .inr admits
        · exact .inl stored
      refine .bind_ok (run_onTop frames _) (.single (.filled _ frames fresh.begun filled)) ?_
      refine .bind_ok (run_modify _) (.single .advanced) ?_
      exact along_goOn named heard (fresh.of_eq rfl rfl rfl) rfl stands (by rw [activity]; rfl)
    | false =>
      exact along_shows ((along_say _).bind fun _ _ _ _ => along_say _) fresh.begun fresh.ready
  next => exact .pure (.inr ⟨fresh.begun, fresh.ready⟩)

theorem along_fill {graph : Graph} {values : List (String × Value)} {rest : TurnM σ α}
    {done : α → Turn σ → Prop} (begun : t.trail = []) (frames : t.stack.frames = top :: below)
    (found : l.get? top.flow = some graph)
    (goesOn : ∀ slots messages,
      Along { t with stack := ⟨{ top with slots } :: below, t.stack.nextId⟩, messages }
        (Stride l backend) rest done (Stuck l asked)) :
    t.Along (Stride l backend) (TurnM.accepted graph values >>= fun values => do
      TurnM.fill values
      rest) done (Stuck l asked) := by
  apply along_accepted.after_shows
  intro values messages admitted
  have filled (slot : String) (value : Value)
      (stored : (top.slots.merge values).get? slot = some value) :
      top.slots.get? slot = some value ∨ l.Admits top.flow slot value := by
    rcases Table.get?_merge stored with member | before
    · right
      intro graph' found'
      cases found.symm.trans found'
      exact admitted _ member
    · exact .inl before
  exact .bind_ok (run_onTop (t := { t with messages }) frames _)
    (.single (.filled _ frames begun filled)) (goesOn _ messages)

theorem along_proceed {r : Reading} {text : String} (named : s.library.Named) (heard : m.Heard)
    (fresh : t.Fresh m) :
    t.Along (Stride s.library s.backend) (TurnM.proceed s r text)
      (fun _ t' => s.library.Rested t') (Stuck s.library asked) := by
  unfold TurnM.proceed
  apply (along_position fresh.begun).bind
  intro place t' _ ends
  obtain ⟨rfl, placed⟩ := ends
  cases placed with
  | nowhere frames => exact along_shows (along_say _) fresh.begun fresh.ready
  | before frames found step =>
    exact along_walkFrom named heard fresh.kept fresh.ready (.of_has frames found .entry)
  | @«at» top below graph index node frames found member stands =>
    apply along_nodeAt member
    cases activity : node.activity with
    | collect slot prompt rejection rule askAlways =>
      dsimp only
      split
      next value given =>
        apply along_fill fresh.begun frames found
        intro slots messages
        exact along_offer named heard (fresh.of_eq rfl rfl rfl) rfl stands
      next given =>
        split
        · exact along_offer named heard fresh frames stands
        · apply along_fill fresh.begun frames found
          intro slots messages
          exact along_shows (along_askAgain fresh.begun) fresh.begun fresh.ready
    | confirm slot prompt =>
      apply along_fill fresh.begun frames found
      intro slots messages
      exact along_shows (along_say _) fresh.begun fresh.ready
    | action name =>
      exact along_walkFrom named heard fresh.kept fresh.ready
        (.of_has frames found (.position member))
    | _ => exact along_goOn named heard fresh frames stands (by rw [activity]; rfl)

theorem along_revise {slots : List (String × Value)} (named : s.library.Named) (heard : m.Heard)
    (fresh : t.Fresh m) :
    t.Along (Stride s.library s.backend) (TurnM.revise s slots)
      (fun _ t' => s.library.Rested t') (Stuck s.library asked) := by
  unfold TurnM.revise
  apply (along_position fresh.begun).bind
  intro place t' _ ends
  obtain ⟨rfl, placed⟩ := ends
  cases placed with
  | nowhere frames =>
    have empty : t'.run (TurnM.fill slots) = (.ok (), t') := by
      simp [TurnM.fill, TurnM.onTop, Stack.onTop, frames]
    exact .bind_ok empty .refl (along_shows (along_reprompt fresh.begun) fresh.begun fresh.ready)
  | before frames found step =>
    apply along_fill fresh.begun frames found
    intro slots messages
    exact along_shows (along_reprompt fresh.begun) fresh.begun fresh.ready
  | @«at» top below graph index node frames found member stands =>
    apply along_nodeAt member
    dsimp only
    split
    · apply along_fill fresh.begun frames found
      intro slots messages
      exact along_offer named heard (fresh.of_eq rfl rfl rfl) rfl stands
    · apply along_fill fresh.begun frames found
      intro slots messages
      exact along_shows (along_askAgain fresh.begun) fresh.begun fresh.ready

theorem along_leaveAnswered {graph : Graph} {affirmed : Bool} {slot : Option String}
    {prompt : String} (named : s.library.Named) (heard : m.Heard) (fresh : t.Fresh m)
    (frames : t.stack.frames = top :: below) (found : s.library.get? top.flow = some graph)
    (stands : s.library.node? top = some node) (activity : node.activity = .confirm slot prompt) :
    t.Along (Stride s.library s.backend) (TurnM.leaveAnswered s graph node.name affirmed)
      (fun _ t' => s.library.Rested t') (Stuck s.library asked) := by
  unfold TurnM.leaveAnswered
  split
  · next target answered =>
    refine .bind_ok (run_note frames _) (.single (.answered frames stands activity)) ?_
    exact along_walkFrom named heard (fresh.kept.of_eq rfl rfl) fresh.ready
      (.of_has frames found (.of_answered answered))
  · next nowhere => exact .throw (.unanswered frames stands activity found nowhere)

end Turn

end Colloquy
