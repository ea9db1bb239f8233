import Colloquy.Proofs.State.Coherence
import Colloquy.Stack.Operation

/-!
Stacks as they come about by operations. Every caller sleeps below the flow it has called, ids rise
from the bottom to the top, and an id is never handed out again. An operation that fails has not
touched the stack.
-/

set_option autoImplicit false

namespace Colloquy

namespace Stack

/-- What the operations do: one case for each way in which one succeeds. -/
inductive Step : Stack → Operation → List Frame → Stack → Prop where
  | started {nextId : Nat} (flow : String) (slots : Slots) :
      Step ⟨[], nextId⟩ (.start flow slots) [.new flow nextId slots]
        ⟨[.new flow nextId slots], nextId + 1⟩
  | called {top : Frame} {below : List Frame} {nextId : Nat} (flow : String) :
      top.status = .active →
      Step ⟨top :: below, nextId⟩ (.call flow) [.new flow nextId .empty]
        ⟨.new flow nextId .empty :: top.suspend :: below, nextId + 1⟩
  | linked {top : Frame} {below : List Frame} {nextId : Nat} (flow : String) :
      top.status = .active →
      Step ⟨top :: below, nextId⟩ (.link flow) [.new flow nextId .empty]
        ⟨.new flow nextId .empty :: below, nextId + 1⟩
  | completed {top : Frame} {below : List Frame} {nextId : Nat} : top.status = .active →
      Step ⟨top :: below, nextId⟩ .complete [] ⟨{ top with status := .completed } :: below, nextId⟩
  | returned {top caller : Frame} {below : List Frame} {nextId : Nat} : top.status = .completed →
      Step ⟨top :: caller :: below, nextId⟩ .returnToCaller [top] ⟨caller.wake :: below, nextId⟩
  | finished {top : Frame} {nextId : Nat} : top.status = .completed →
      Step ⟨[top], nextId⟩ .finish [top] ⟨[], nextId⟩
  | cancelled {s : Stack} : Step s .cancel s.cancel.1 ⟨[], s.nextId⟩
  | placed {s : Stack} (step : Option String) :
      Step s (.place step) [] (s.onTop fun f => { f with step })
  | filled {s : Stack} (slot : String) (value : Value) :
      Step s (.fill slot value) [] (s.onTop fun f => { f with slots := f.slots.insert slot value })
  | merged {s : Stack} (values : List (String × Value)) :
      Step s (.merge values) [] (s.onTop fun f => { f with slots := f.slots.merge values })

variable {s s' : Stack} {top : Frame} {below given : List Frame} {op : Operation} {nextId : Nat}

theorem step_of_apply (applied : s.apply op = .ok (given, s')) : Step s op given s' := by
  obtain ⟨_ | ⟨⟨flow, id, status, step, resume, slots⟩, below⟩, nextId⟩ := s
  · cases op with
    | start | cancel | place | fill | merge =>
      cases applied
      constructor
    | call | link | complete | returnToCaller | finish => cases applied
  · cases op with
    | start => cases applied
    | cancel | place | fill | merge =>
      cases applied
      constructor
    | call | link | complete =>
      -- only an active flow does these
      cases status <;> cases applied
      constructor
      rfl
    | returnToCaller | finish =>
      cases status <;> cases below <;> cases applied
      constructor
      rfl

/-- Changes in place come to the same as the operations, and a failure comes before all changes. -/
theorem perform_eq (s : Stack) (op : Operation) :
    s.perform op = match s.apply op with
      | .ok (given, s') => (.ok given, s')
      | .error e => (.error e, s) := by
  obtain ⟨_ | ⟨⟨flow, id, status, step, resume, slots⟩, below⟩, nextId⟩ := s
  · cases op <;> rfl
  · cases op with
    | start | cancel | place | fill | merge => rfl
    | call | link | complete => cases status <;> rfl
    | returnToCaller | finish => cases status <;> cases below <;> rfl

theorem after_cases (s : Stack) (op : Operation) :
    s.after op = s ∧ s.handed op = [] ∨
      ∃ given, Step s op given (s.after op) ∧
        s.handed op = if op.begins then given.map (·.id) else [] := by
  simp only [after, handed, perform_eq]
  cases applied : s.apply op with
  | error e => exact .inl ⟨rfl, rfl⟩
  | ok result => exact .inr ⟨result.1, step_of_apply applied, rfl⟩

structure Ordered (s : Stack) : Prop where
  top : ∀ frame, s.top? = some frame → frame.status = .active ∨ frame.status = .completed
  below : ∀ frame ∈ s.frames.tail, frame.status = .suspended
  rising : s.frames.Pairwise fun upper lower => lower.id < upper.id
  fresh : ∀ frame ∈ s.frames, frame.id < s.nextId

theorem ordered_nil : Ordered ⟨[], nextId⟩ := ⟨by simp [top?], by simp, .nil, by simp⟩

theorem ordered_cons :
    Ordered ⟨top :: below, nextId⟩ ↔ (top.status = .active ∨ top.status = .completed) ∧
      (∀ frame ∈ below, frame.status = .suspended ∧ frame.id < top.id) ∧
      below.Pairwise (fun upper lower => lower.id < upper.id) ∧ top.id < nextId := by
  constructor
  · rintro ⟨awake, asleep, rising, fresh⟩
    obtain ⟨above, rising⟩ := List.pairwise_cons.1 rising
    exact ⟨awake top rfl, fun frame member => ⟨asleep frame member, above frame member⟩, rising,
      fresh top List.mem_cons_self⟩
  · rintro ⟨awake, lower, rising, fresh⟩
    refine ⟨?_, fun frame member => (lower frame member).1,
      .cons (fun frame member => (lower frame member).2) rising, ?_⟩
    · rintro frame ⟨⟩
      exact awake
    · rintro frame (_ | ⟨_, member⟩)
      · exact fresh
      · exact Nat.lt_trans (lower frame member).2 fresh

theorem ordered_push (flow : String) (slots : Slots)
    (lower : ∀ frame ∈ below, frame.status = .suspended ∧ frame.id < nextId)
    (rising : below.Pairwise fun upper lower => lower.id < upper.id) :
    Ordered ⟨.new flow nextId slots :: below, nextId + 1⟩ :=
  ordered_cons.2 ⟨.inl rfl, lower, rising, Nat.lt_succ_self nextId⟩

theorem Ordered.onTop (ordered : s.Ordered) {change : Frame → Frame}
    (id : ∀ f, (change f).id = f.id) (status : ∀ f, (change f).status = f.status) :
    (s.onTop change).Ordered := by
  obtain ⟨_ | ⟨top, below⟩, nextId⟩ := s
  · exact ordered
  · have kept := ordered_cons.1 ordered
    rw [← id top, ← status top] at kept
    exact ordered_cons.2 kept

theorem Ordered.step (ordered : s.Ordered) (step : Step s op given s') : s'.Ordered := by
  cases step with
  | started flow slots => exact ordered_push flow slots (by simp) .nil
  | called flow active =>
    obtain ⟨-, lower, rising, fresh⟩ := ordered_cons.1 ordered
    refine ordered_push flow .empty ?_ (.cons (fun frame member => (lower frame member).2) rising)
    rintro frame (_ | ⟨_, member⟩)
    · exact ⟨rfl, fresh⟩
    · exact ⟨(lower frame member).1, Nat.lt_trans (lower frame member).2 fresh⟩
  | linked flow active =>
    obtain ⟨-, lower, rising, fresh⟩ := ordered_cons.1 ordered
    exact ordered_push flow .empty
      (fun frame member => ⟨(lower frame member).1, Nat.lt_trans (lower frame member).2 fresh⟩)
      rising
  | completed active =>
    obtain ⟨-, kept⟩ := ordered_cons.1 ordered
    exact ordered_cons.2 ⟨.inr rfl, kept⟩
  | @returned top caller below nextId completed =>
    obtain ⟨-, lower, rising, fresh⟩ := ordered_cons.1 ordered
    obtain ⟨above, rising⟩ := List.pairwise_cons.1 rising
    have older : caller.id < nextId := Nat.lt_trans (lower caller List.mem_cons_self).2 fresh
    exact ordered_cons.2 ⟨.inl rfl,
      fun frame member => ⟨(lower frame (.tail _ member)).1, above frame member⟩, rising, older⟩
  | finished | cancelled => exact ordered_nil
  | placed | filled | merged => exact ordered.onTop (fun _ => rfl) (fun _ => rfl)

theorem Ordered.fault? (ordered : s.Ordered) : s.fault? = none := by
  refine fault?_eq_none ordered.below ?_
  intro frame found
  rcases ordered.top frame found with active | completed
  · simp [active]
  · simp [completed]

theorem Ordered.afterAll (ordered : s.Ordered) (ops : List Operation) :
    (s.afterAll ops).Ordered := by
  induction ops generalizing s with
  | nil => exact ordered
  | cons op ops ih =>
    apply ih
    rcases s.after_cases op with ⟨same, -⟩ | ⟨given, step, -⟩
    · rw [same]
      exact ordered
    · exact ordered.step step

@[simp] theorem nextId_onTop (change : Frame → Frame) : (s.onTop change).nextId = s.nextId := by
  unfold onTop
  split <;> rfl

-- The next id goes up just when an id is handed out, and it is that id.
theorem handed_cases (s : Stack) (op : Operation) :
    s.handed op = [] ∧ (s.after op).nextId = s.nextId ∨
      s.handed op = [s.nextId] ∧ (s.after op).nextId = s.nextId + 1 := by
  rcases s.after_cases op with ⟨same, none⟩ | ⟨given, step, handed⟩
  · exact .inl ⟨none, by rw [same]⟩
  · rw [handed]
    generalize s.after op = s' at step
    cases step with
    | started | called | linked => exact .inr ⟨rfl, rfl⟩
    | completed | returned | finished | cancelled => exact .inl ⟨rfl, rfl⟩
    | placed | filled | merged => exact .inl ⟨rfl, nextId_onTop _⟩

theorem handedAll_eq (s : Stack) (ops : List Operation) :
    ∃ count, s.handedAll ops = List.range' s.nextId count ∧
      (s.afterAll ops).nextId = s.nextId + count := by
  induction ops generalizing s with
  | nil => exact ⟨0, rfl, rfl⟩
  | cons op ops ih =>
    obtain ⟨count, handed, nextId⟩ := ih (s.after op)
    have last : (s.afterAll (op :: ops)).nextId = (s.after op).nextId + count := nextId
    rcases s.handed_cases op with ⟨none, same⟩ | ⟨one, raised⟩
    · exact ⟨count, by rw [handedAll, none, handed, same]; rfl, by rw [last, same]⟩
    · refine ⟨count + 1, ?_, by rw [last, raised]; omega⟩
      rw [handedAll, one, handed, raised, List.range'_succ]
      rfl

/-- Whatever is done to a stack that was empty, its frames stand in order, which the check accepts;
its ids are among those handed out, of which no two are the same; and an operation that fails leaves
all as it was. -/
theorem ordered_of_operations (ops : List Operation) :
    let s := empty.afterAll ops
    s.Ordered ∧ s.fault? = none ∧ (empty.handedAll ops).Nodup ∧
      (∀ frame ∈ s.frames, frame.id ∈ empty.handedAll ops) ∧
      (∀ id ∈ empty.handedAll ops, id < s.nextId) ∧
      ∀ op e, (s.perform op).1 = .error e → (s.perform op).2 = s := by
  intro s
  have ordered : s.Ordered := Ordered.afterAll ordered_nil ops
  obtain ⟨count, handed, nextId⟩ := handedAll_eq empty ops
  have among (id : Nat) : id ∈ empty.handedAll ops ↔ id < s.nextId := by
    rw [handed, nextId]
    simp [List.mem_range', empty]
  refine ⟨ordered, ordered.fault?, ?_, ?_, fun id => (among id).1, ?_⟩
  · rw [handed]
    exact List.nodup_range'
  · intro frame member
    exact (among frame.id).2 (ordered.fresh frame member)
  · intro op e fails
    rw [perform_eq] at fails ⊢
    cases applied : s.apply op with
    | ok result => simp [applied] at fails
    | error e => rfl

theorem ordered_of_operations_refused :
    let s := empty.afterAll [.start "a" .empty, .call "b", .link "c", .cancel, .start "a" .empty,
      .call "b", .complete]
    s.Ordered ∧ s.depth = 2 ∧ (s.perform (.link "c")).1 = .error (.notActive "b") ∧
      (s.perform (.link "c")).2 = s := by
  intro s
  have refused : (s.perform (.link "c")).1 = .error (.notActive "b") := rfl
  obtain ⟨ordered, -, -, -, -, untouched⟩ := ordered_of_operations _
  exact ⟨ordered, rfl, refused, untouched _ _ refused⟩

end Stack

end Colloquy
