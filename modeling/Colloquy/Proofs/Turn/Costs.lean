import Colloquy.Proofs.Turn.Inheritance

/-!
What a turn costs. Entering a step runs at most one action, and nothing else that a turn does enters
a step or runs an action. So a turn, whatever was decided, first gets ready at no cost, and then goes
through the flows once or not at all.
-/

set_option autoImplicit false

namespace Colloquy

open Colloquy.Graph (Activity Node Target)

variable {σ α β : Type}

def Event.isEntered : Event → Bool
  | .entered .. => true
  | _ => false

def Event.isActed : Event → Bool
  | .acted .. => true
  | _ => false

theorem Event.isWork_of_isEntered {e : Event} (entered : e.isEntered = true) : e.isWork = true := by
  cases e <;> simp_all [isEntered, isWork]

theorem Event.isWork_of_isActed {e : Event} (acted : e.isActed = true) : e.isWork = true := by
  cases e <;> simp_all [isActed, isWork]

namespace TurnM

/-- The steps add at most `n` events of a kind to the trail. -/
def Adds (p : Event → Bool) (n : Nat) (steps : TurnM σ α) : Prop :=
  ∀ t : Turn σ, ∃ events, (t.run steps).2.trail = t.trail ++ events ∧ events.countP p ≤ n

theorem Adds.bind {p : Event → Bool} {m n : Nat} {first : TurnM σ α} {rest : α → TurnM σ β}
    (begins : Adds p m first) (goesOn : ∀ a, first.Gives a → Adds p n (rest a)) :
    Adds p (m + n) (first >>= rest) := by
  intro t
  obtain ⟨events, trail, count⟩ := begins t
  cases ran : t.run first with
  | mk result t' =>
    rw [ran] at trail
    cases result with
    | error e =>
      rw [Turn.run_bind_error ran]
      exact ⟨events, trail, count.trans (Nat.le_add_right m n)⟩
    | ok a =>
      obtain ⟨events', trail', count'⟩ := goesOn a ⟨t, t', ran⟩ t'
      rw [Turn.run_bind_ok ran]
      refine ⟨events ++ events', ?_, ?_⟩
      · rw [trail', trail, List.append_assoc]
      · rw [List.countP_append]
        omega

theorem Adds.mono {p : Event → Bool} {m n : Nat} {steps : TurnM σ α} (adds : Adds p m steps)
    (le : m ≤ n) : Adds p n steps := by
  intro t
  obtain ⟨events, trail, count⟩ := adds t
  exact ⟨events, trail, count.trans le⟩

theorem Adds.count_eq {p : Event → Bool} {steps : TurnM σ α} (adds : Adds p 0 steps) (t : Turn σ) :
    (t.run steps).2.trail.countP p = t.trail.countP p := by
  obtain ⟨events, trail, count⟩ := adds t
  rw [trail, List.countP_append, Nat.le_zero.1 count, Nat.add_zero]

theorem Adds.throw {p : Event → Bool} (e : TurnError) : Adds p 0 (throw e : TurnM σ α) :=
  fun _ => ⟨[], (List.append_nil _).symm, Nat.le_refl 0⟩

structure Costs (p : Event → Bool) (n : Nat) (steps : TurnM σ α) : Prop where
  adds : Adds p n steps
  free (t : Turn σ) (e : TurnError) : (t.run steps).1 = .error e → e.isLimit = false

namespace Costs

variable {p : Event → Bool} {m n : Nat} {l : Library} {backend : Backend σ}

theorem silent {steps : TurnM σ α}
    (same : ∀ t : Turn σ, ∃ a, (t.run steps).1 = .ok a ∧ (t.run steps).2.trail = t.trail) :
    Costs p 0 steps := by
  refine ⟨fun t => ?_, fun t e fails => ?_⟩
  · obtain ⟨a, -, trail⟩ := same t
    exact ⟨[], by rw [trail, List.append_nil], Nat.le_refl 0⟩
  · obtain ⟨a, succeeds, -⟩ := same t
    cases succeeds.symm.trans fails

theorem pure (a : α) : Costs p 0 (pure a : TurnM σ α) := silent fun _ => ⟨a, rfl, rfl⟩

theorem modify {change : Turn σ → Turn σ} (same : ∀ t, (change t).trail = t.trail) :
    Costs p 0 (modify change) :=
  silent fun t => ⟨(), rfl, same t⟩

theorem throw {e : TurnError} (free : e.isLimit = false) : Costs p 0 (throw e : TurnM σ α) := by
  refine ⟨.throw e, ?_⟩
  rintro t _ ⟨⟩
  exact free

theorem get {rest : Turn σ → TurnM σ α} (goesOn : ∀ t, Costs p n (rest t)) :
    Costs p n (get >>= rest) :=
  ⟨fun t => (goesOn t).adds t, fun t => (goesOn t).free t⟩

theorem ofExcept {ε : Type} {wrap : ε → TurnError} {x : Except ε α}
    (fails : ∀ e, x = .error e → (wrap e).isLimit = false) :
    Costs p 0 (ofExcept wrap x : TurnM σ α) := by
  cases x with
  | ok a => exact .pure a
  | error e => exact .throw (fails e rfl)

theorem mono {steps : TurnM σ α} (costs : Costs p m steps) (le : m ≤ n) : Costs p n steps :=
  ⟨costs.adds.mono le, costs.free⟩

theorem bind {first : TurnM σ α} {rest : α → TurnM σ β} (begins : Costs p m first)
    (goesOn : ∀ a, first.Gives a → Costs p n (rest a)) : Costs p (m + n) (first >>= rest) := by
  refine ⟨begins.adds.bind fun a gives => (goesOn a gives).adds, fun t e fails => ?_⟩
  cases ran : t.run first with
  | mk result t' =>
    cases result with
    | error cause =>
      rw [Turn.run_bind_error ran] at fails
      cases fails
      exact begins.free t e (by rw [ran])
    | ok a =>
      rw [Turn.run_bind_ok ran] at fails
      exact (goesOn a ⟨t, t', ran⟩).free t' e fails

theorem after {first : TurnM σ α} {rest : α → TurnM σ β} (begins : Costs p 0 first)
    (goesOn : ∀ a, Costs p n (rest a)) : Costs p n (first >>= rest) :=
  (begins.bind fun a _ => goesOn a).mono (Nat.zero_add n).le

theorem before {first : TurnM σ α} {rest : α → TurnM σ β} (begins : Costs p n first)
    (goesOn : ∀ a, Costs p 0 (rest a)) : Costs p n (first >>= rest) :=
  begins.bind fun a _ => goesOn a

theorem note (event : Invocation → Event) (weight : ∀ flow, [event flow].countP p ≤ n) :
    Costs p n (note event : TurnM σ Unit) := by
  refine ⟨fun t => ⟨_, rfl, ?_⟩, ?_⟩
  · cases t.stack.top? with
    | none => exact Nat.zero_le n
    | some top => exact weight top.invocation
  · rintro t e ⟨⟩

theorem update (u : Update) : Costs p 0 (update u : TurnM σ Unit) := by
  have ran (t : Turn σ) : (t.run (TurnM.update u)).2.trail = t.trail ∧
      ∀ e, (t.run (TurnM.update u)).1 = .error e → e.isLimit = false := by
    simp only [TurnM.update, Turn.run_bind_ok Turn.run_get]
    cases t.machine.update u with
    | ok machine =>
      refine ⟨rfl, ?_⟩
      rintro _ ⟨⟩
    | error cause =>
      refine ⟨rfl, ?_⟩
      rintro _ ⟨⟩
      rfl
  exact ⟨fun t => ⟨[], by rw [(ran t).1, List.append_nil], Nat.le_refl 0⟩, fun t => (ran t).2⟩

theorem invoke (action : String) : Costs p 0 (invoke backend action) :=
  silent fun _ => ⟨_, rfl, rfl⟩

end Costs

variable {p : Event → Bool} {l : Library} {backend : Backend σ}

theorem Steady.of_costs (l : Library) (backend : Backend σ)
    (work : ∀ e, p e = true → e.isWork = true) : Steady l backend fun _ => Costs p 0 where
  pure := .pure
  throw := .throw
  bind := .bind
  get _ goesOn := .get goesOn
  say _ := .modify fun _ => rfl
  restack _ := .modify fun _ => rfl
  note {event} quiet := .note event fun flow => by
    have free : p (event flow) = false := by
      refine Bool.eq_false_iff.2 fun weighs => ?_
      simpa [quiet flow] using work _ weighs
    simp [free]
  advanced := .modify fun _ => rfl
  update _ _ := .update _
  invoke := .invoke
  fails _ := .modify fun _ => rfl

namespace Costs

variable {m n : Nat}

theorem act (action : String)
    (acted : ∀ flow slots given, [Event.acted flow action slots given].countP p ≤ n) :
    Costs p n (act backend action) := by
  rw [act_eq]
  refine .after (.update _) fun _ => .after (.invoke action) fun given => ?_
  refine .before (.note _ fun flow => acted flow _ _) fun _ => ?_
  cases given.1 with
  | ok values => exact .after (.modify fun _ => rfl) fun _ => .after (.modify fun _ => rfl) fun _ => .pure _
  | error failure =>
    exact .after (.update _) fun _ => .after (.modify fun _ => rfl) fun _ =>
      .after (.modify fun _ => rfl) fun _ => .pure _

theorem execute (work : ∀ e, p e = true → e.isWork = true) (node : Node)
    (acted : ∀ flow action slots given, [Event.acted flow action slots given].countP p ≤ n) :
    Costs p n (execute l backend node) := by
  have steady : Steady l backend fun _ => Costs p 0 := .of_costs l backend work
  have shown (template : String) : Costs p 0 (TurnM.say template : TurnM σ Unit) :=
    .modify fun _ => rfl
  unfold TurnM.execute
  split
  next => 
    refine Costs.mono (steady.get (fun _ _ same => by rw [same]) fun t => ?_) (Nat.zero_le n)
    split
    · exact steady.goFrom _
    · exact steady.next (shown _) (.pure _)
  next => exact (steady.next (shown _) (.pure _)).mono (Nat.zero_le n)
  next => exact (steady.next (shown _) (steady.goFrom _)).mono (Nat.zero_le n)
  next =>
    refine .before (.act _ fun flow => acted flow _) fun succeeded => ?_
    split
    · exact steady.goFrom _
    · exact .pure _
  next => exact (steady.goFrom _).mono (Nat.zero_le n)
  next => exact (steady.goFrom _).mono (Nat.zero_le n)
  next =>
    exact (Costs.after (steady.handOver _ _ fun _ _ => rfl) fun _ => .pure _).mono (Nat.zero_le n)
  next =>
    exact (Costs.after (steady.handOver _ _ fun _ _ => rfl) fun _ => .pure _).mono (Nat.zero_le n)

theorem enter (work : ∀ e, p e = true → e.isWork = true) (node : Node)
    (entered : ∀ flow step, [Event.entered flow step].countP p ≤ m)
    (acted : ∀ flow action slots given, [Event.acted flow action slots given].countP p ≤ n) :
    Costs p (m + n) (enter l backend node) :=
  .after (.modify fun _ => rfl) fun _ =>
    (Costs.note _ fun flow => entered flow _).bind fun _ _ => .execute work node acted

end Costs

theorem costs_entered (node : Node) : Costs Event.isEntered 1 (enter l backend node) :=
  .enter (m := 1) (n := 0) (fun _ => Event.isWork_of_isEntered) node (fun _ _ => Nat.le_refl 1)
    fun _ _ _ _ => Nat.le_refl 0

theorem costs_acted (node : Node) : Costs Event.isActed 1 (enter l backend node) :=
  .enter (m := 0) (n := 1) (fun _ => Event.isWork_of_isActed) node (fun _ _ => Nat.le_refl 0)
    fun _ _ _ _ => Nat.le_refl 1

/-- A budget bounds both how many steps are entered and how many actions are run. -/
theorem adds_walk (work : ∀ e, p e = true → e.isWork = true)
    (entering : ∀ node, Costs p 1 (enter l backend node)) (limit budget : Nat) (target : Target) :
    Adds p budget (walk l backend limit budget target) := by
  have arriving (target : Target) : Costs p 0 (arrive l target : TurnM σ _) :=
    (Steady.of_costs l backend work).arrive target
  induction budget generalizing target with
  | zero =>
    refine (arriving target).adds.bind (n := 0) fun next _ => ?_
    cases next with
    | none => exact (Costs.pure ()).adds
    | some next => exact .throw _
  | succ budget ih =>
    have steps : Adds p (0 + (1 + budget)) (walk l backend limit (budget + 1) target) := by
      refine (arriving target).adds.bind fun next _ => ?_
      cases next with
      | none => exact (Costs.pure ()).adds.mono (Nat.zero_le _)
      | some next =>
        obtain ⟨flow, graph, index⟩ := next
        dsimp only
        cases graph.nodes[index]? with
        | none => exact (Adds.throw _).mono (Nat.zero_le _)
        | some node =>
          refine (entering node).adds.bind fun next _ => ?_
          cases next with
          | none => exact (Costs.pure ()).adds.mono (Nat.zero_le _)
          | some next => exact ih next
    exact steps.mono (by omega)

def follow (l : Library) (backend : Backend σ) (limit : Nat) : Option Target → TurnM σ Unit
  | none => return
  | some target => walk l backend limit limit target

/-- The steps get ready without entering a step or running an action, whatever the budget is, and
then follow what there is to follow. -/
def Once (l : Library) (backend : Backend σ) (steps : Nat → TurnM σ Unit) : Prop :=
  ∃ lead : TurnM σ (Option Target), Costs Event.isWork 0 lead ∧
    ∀ (limit : Nat) (t : Turn σ), t.run (steps limit) = t.run (lead >>= follow l backend limit)

theorem Once.bind {first : TurnM σ α} {rest : α → Nat → TurnM σ Unit}
    (begins : Costs Event.isWork 0 first) (goesOn : ∀ a, first.Gives a → Once l backend (rest a)) :
    Once l backend fun limit => first >>= fun a => rest a limit := by
  classical
  let lead (a : α) : TurnM σ (Option Target) :=
    if gives : first.Gives a then (goesOn a gives).choose else pure none
  refine ⟨first >>= lead, begins.bind (n := 0) fun a gives => ?_, fun limit t => ?_⟩
  · simp only [lead, dif_pos gives]
    exact (goesOn a gives).choose_spec.1
  · rw [bind_assoc, Turn.run_bind, Turn.run_bind]
    cases ran : t.run first with
    | mk result t' =>
      cases result with
      | error e => rfl
      | ok a =>
        have gives : first.Gives a := ⟨t, t', ran⟩
        simp only [lead, dif_pos gives]
        exact (goesOn a gives).choose_spec.2 limit t'

theorem Once.get {rest : Turn σ → Nat → TurnM σ Unit} (goesOn : ∀ t, Once l backend (rest t)) :
    Once l backend fun limit => MonadState.get >>= fun t => rest t limit := by
  choose lead costs same using goesOn
  refine ⟨MonadState.get >>= lead, .get costs, fun limit t => ?_⟩
  rw [bind_assoc, Turn.run_bind_ok Turn.run_get, Turn.run_bind_ok Turn.run_get]
  exact same t limit t

theorem Carried.of_once (l : Library) (backend : Backend σ) :
    Carried l backend (fun _ => Costs Event.isWork 0) (Once l backend) where
  toSteady := .of_costs l backend fun _ work => work
  still {steps} begins := by
    refine ⟨steps >>= fun _ => pure none, begins.before fun _ => .pure none, fun limit t => ?_⟩
    rw [bind_assoc]
    simp only [pure_bind]
    exact congrArg t.run (bind_pure steps).symm
  goesOn := .bind
  look _ goesOn := .get goesOn
  walk target := by
    refine ⟨pure (some target), .pure _, fun limit t => ?_⟩
    rw [pure_bind]
    rfl
  heed _ goesOn := .get goesOn
  reopen _ := .modify fun _ => rfl
  propose _ := .modify fun _ => rfl
  cancel := by
    refine .after (.note _ fun flow => ?_) fun _ =>
      .after (.modify fun _ => rfl) fun _ => .modify fun _ => rfl
    rfl

end TurnM

end Colloquy
