import Mathlib.Data.List.DropRight
import Colloquy.Proofs.State.Coherence

/-!
A machine under any updates. An update is rejected just when the table does not list its change of
phase or the state that it would make breaks a rule; and what the machine holds of the lines, the
messages and the counters is what a ledger of the accepted updates says.
-/

set_option autoImplicit false

namespace Colloquy

theorem rtake_append_rtake {α : Type} (window : Nat) (first last : List α) :
    (first.rtake window ++ last).rtake window = (first ++ last).rtake window := by
  have joined : first.rtake window ++ last = (first ++ last).drop (first.length - window) :=
    (List.drop_append_of_le_length (by omega)).symm
  rw [List.rtake, joined, List.drop_drop, List.rtake]
  congr 1
  simp only [List.length_drop, List.length_append]
  omega

theorem rtake_of_length_le {α : Type} {window : Nat} {items : List α}
    (fits : items.length ≤ window) : items.rtake window = items := by
  rw [List.rtake, Nat.sub_eq_zero_of_le fits, List.drop_zero]

def Phase.Lists (source target : Phase) : Prop :=
  ∃ targets, (source, targets) ∈ transitions ∧ target ∈ targets

theorem Phase.leadsTo_iff {source target : Phase} :
    source.leadsTo target = true ↔ source.Lists target := by
  simp only [leadsTo, Lists, List.any_eq_true, Bool.and_eq_true, beq_iff_eq, decide_eq_true_eq]
  constructor
  · rintro ⟨⟨_, targets⟩, row, rfl, listed⟩
    exact ⟨targets, row, listed⟩
  · rintro ⟨targets, row, listed⟩
    exact ⟨(source, targets), row, rfl, listed⟩

namespace Table

def tally (t : Table Nat) (name : String) : Nat := (t.get? name).getD 0

theorem tally_count (t : Table Nat) (name other : String) :
    (t.count name).tally other = t.tally other + [name].count other := by
  by_cases same : name = other
  · subst same
    simp [tally, count]
  · simp [tally, count, get?_insert_ne, same]

theorem tally_foldl_count (t : Table Nat) (names : List String) (name : String) :
    (names.foldl count t).tally name = t.tally name + names.count name := by
  induction names generalizing t with
  | nil => rfl
  | cons head names ih =>
    have split : (head :: names).count name = [head].count name + names.count name := by
      rw [← List.count_append, List.singleton_append]
    rw [List.foldl_cons, ih, tally_count, split, Nat.add_assoc]

end Table

namespace Update

/-- The update asks for another phase, which the table does not list. -/
def Strays (u : Update) (s : State) : Prop :=
  ∃ phase, u.phase = some phase ∧ phase ≠ s.phase ∧ ¬ s.phase.Lists phase

structure Adds (u : Update) : Prop where
  turns : u.turns = none
  counts : u.counts = none
  history : u.history = none

end Update

/-- All that was ever said, how many messages came in, and how often each counter went up. -/
structure Ledger where
  lines : List Line
  turns : Nat
  counts : String → Nat

namespace Ledger

def empty : Ledger := ⟨[], 0, fun _ => 0⟩

/-- Enters an update. One that replaces something begins it anew. -/
def enter (l : Ledger) (u : Update) : Ledger where
  lines := u.history.getD l.lines ++ u.lines
  turns := u.turns.getD l.turns + u.countsTurn.toNat
  counts name := (u.counts.map Table.tally).getD l.counts name + u.counters.count name

theorem enterAll_of_adds (l : Ledger) {us : List Update} (adds : ∀ u ∈ us, u.Adds) :
    us.foldl enter l = ⟨l.lines ++ us.flatMap (·.lines), l.turns + us.countP (·.countsTurn),
      fun name => l.counts name + (us.flatMap (·.counters)).count name⟩ := by
  induction us generalizing l with
  | nil => simp
  | cons u us ih =>
    obtain ⟨turns, counts, history⟩ := adds u List.mem_cons_self
    have entered : l.enter u = ⟨l.lines ++ u.lines, l.turns + u.countsTurn.toNat,
        fun name => l.counts name + u.counters.count name⟩ := by
      simp only [enter, turns, counts, history, Option.getD_none, Option.map_none]
    rw [List.foldl_cons, ih _ fun u member => adds u (.tail _ member), entered, List.countP_cons]
    cases u.countsTurn <;> simp [Nat.add_assoc, Nat.add_comm 1]

end Ledger

/-- The state holds what the ledger says, and of the lines as many as the window does. -/
structure State.Holds (s : State) (window : Nat) (l : Ledger) : Prop where
  history : s.history = l.lines.rtake window
  turns : s.turns = l.turns
  counts : ∀ name, s.counters.tally name = l.counts name

theorem State.Holds.apply {s : State} {window : Nat} {l : Ledger} (holds : s.Holds window l)
    (u : Update) : (u.apply window s).Holds window (l.enter u) := by
  refine ⟨?_, ?_, ?_⟩
  · have cut : (u.apply window s).history = (u.history.getD s.history ++ u.lines).rtake window := rfl
    rw [cut, holds.history]
    cases replaced : u.history with
    | none => simp only [Ledger.enter, replaced, Option.getD_none, rtake_append_rtake]
    | some lines => simp only [Ledger.enter, replaced, Option.getD_some]
  · simp only [Update.apply, State.trim, Ledger.enter, holds.turns]
    cases u.countsTurn <;> rfl
  · intro name
    have raised : (u.apply window s).counters.tally name =
        (u.counts.getD s.counters).tally name + u.counters.count name :=
      Table.tally_foldl_count ..
    rw [raised]
    cases replaced : u.counts with
    | none => simp only [Ledger.enter, replaced, Option.getD_none, Option.map_none, holds.counts]
    | some counts => simp only [Ledger.enter, replaced, Option.getD_some, Option.map_some]

namespace Machine

variable {m m' : Machine} {u : Update}

theorem permits_eq_false : m.permits u = false ↔ u.Strays m.state := by
  unfold permits Update.Strays
  cases u.phase with
  | none => simp
  | some phase => simp [← Phase.leadsTo_iff, Bool.or_eq_false_iff]

theorem update_rejected_iff :
    (∃ e, m.update u = .error e) ↔ u.Strays m.state ∨ ¬ (m.after u).state.Coherent := by
  rw [← permits_eq_false, ← State.consistent_iff_coherent]
  cases permitted : m.permits u with
  | false => simp [update, permitted]
  | true =>
    cases found : (m.after u).state.fault? with
    | none => simp [update_eq_ok permitted found, State.Consistent, found]
    | some fault => simp [update_eq_error permitted found, State.Consistent, found]

theorem lists_of_update (accepted : m.update u = .ok m') :
    m'.state.phase = m.state.phase ∨ m.state.phase.Lists m'.state.phase := by
  have lawful : ¬ u.Strays m.state := by
    intro strays
    obtain ⟨e, rejected⟩ := update_rejected_iff.2 (.inl strays)
    cases accepted.symm.trans rejected
  obtain ⟨rfl, -⟩ := update_cases accepted
  cases phase : u.phase with
  | none => exact .inl (by simp [after, phase])
  | some target =>
    have reached : (m.after u).state.phase = target := by simp [after, phase]
    rw [reached]
    by_contra neither
    rw [not_or] at neither
    exact lawful ⟨target, phase, neither⟩

def tried (m : Machine) (u : Update) : Machine :=
  match m.update u with
  | .ok m' => m'
  | .error _ => m

def triedAll (m : Machine) (us : List Update) : Machine := us.foldl tried m

def accepted (m : Machine) : List Update → List Update
  | [] => []
  | u :: us => if (m.update u).isOk then u :: (m.tried u).accepted us else (m.tried u).accepted us

theorem tried_cases (m : Machine) (u : Update) (us : List Update) :
    m.tried u = m ∧ m.accepted (u :: us) = m.accepted us ∨
      m.tried u = m.after u ∧ m.update u = .ok (m.after u) ∧
        m.accepted (u :: us) = u :: (m.after u).accepted us := by
  cases updated : m.update u with
  | error e =>
    have same : m.tried u = m := by simp [tried, updated]
    refine .inl ⟨same, ?_⟩
    rw [accepted, updated, same]
    rfl
  | ok m' =>
    obtain ⟨rfl, -⟩ := update_cases updated
    have same : m.tried u = m.after u := by simp [tried, updated]
    refine .inr ⟨same, rfl, ?_⟩
    rw [accepted, updated, same]
    rfl

theorem accepted_subset (us : List Update) : ∀ u ∈ m.accepted us, u ∈ us := by
  induction us generalizing m with
  | nil => simp [accepted]
  | cons u us ih =>
    intro v member
    rcases m.tried_cases u us with ⟨-, rest⟩ | ⟨-, -, rest⟩
    · rw [rest] at member
      exact .tail _ (ih v member)
    · rw [rest] at member
      rcases List.mem_cons.1 member with rfl | later
      · exact List.mem_cons_self
      · exact .tail _ (ih v later)

theorem triedAll_sound (sound : m.Sound) (us : List Update) : (m.triedAll us).Sound := by
  induction us generalizing m with
  | nil => exact sound
  | cons u us ih =>
    apply ih
    rcases m.tried_cases u us with ⟨same, -⟩ | ⟨same, updated, -⟩
    · rw [same]
      exact sound
    · rw [same]
      exact sound_of_update updated

theorem triedAll_holds {l : Ledger} (holds : m.state.Holds m.window l) (us : List Update) :
    (m.triedAll us).window = m.window ∧
      (m.triedAll us).state.Holds m.window ((m.accepted us).foldl Ledger.enter l) := by
  induction us generalizing m l with
  | nil => exact ⟨rfl, holds⟩
  | cons u us ih =>
    have first : m.triedAll (u :: us) = (m.tried u).triedAll us := rfl
    rcases m.tried_cases u us with ⟨same, rest⟩ | ⟨same, -, rest⟩
    · rw [first, same, rest]
      exact ih holds
    · rw [first, same, rest]
      exact ih (m := m.after u) (holds.apply u)

/-- Whatever updates are tried, one is rejected just when it strays from the table or its state
would break a rule. So the state never breaks a rule and its phase goes by the table; and it holds
what the ledger of the accepted updates says, which is all that they add, if they only add. -/
theorem guarded_throughout (window : Nat) (us : List Update) :
    let m := (Machine.new window).triedAll us
    let accepted := (Machine.new window).accepted us
    (∀ u, (∃ e, m.update u = .error e) ↔ u.Strays m.state ∨ ¬ (u.apply window m.state).Coherent) ∧
    (∀ u m', m.update u = .ok m' → m'.state = u.apply window m.state ∧
      (m'.state.phase = m.state.phase ∨ m.state.phase.Lists m'.state.phase)) ∧
    m.state.Coherent ∧ m.state.Holds window (accepted.foldl Ledger.enter .empty) ∧
    ((∀ u ∈ us, u.Adds) → m.state.history = (accepted.flatMap (·.lines)).rtake window ∧
      m.state.turns = accepted.countP (·.countsTurn) ∧
      ∀ name, m.state.counters.tally name = (accepted.flatMap (·.counters)).count name) := by
  intro m accepted
  have fresh : (Machine.new window).state.Holds window .empty :=
    ⟨(rtake_of_length_le (Nat.zero_le window)).symm, rfl, fun _ => rfl⟩
  obtain ⟨same, holds⟩ := triedAll_holds (m := .new window) fresh us
  have same : m.window = window := same
  have after (u : Update) : (m.after u).state = u.apply window m.state := by rw [Machine.after, same]
  refine ⟨?_, ?_, ?_, holds, ?_⟩
  · intro u
    rw [← after]
    exact update_rejected_iff
  · intro u m' updated
    refine ⟨?_, lists_of_update updated⟩
    rw [(update_cases updated).1, after]
  · exact State.consistent_iff_coherent.1 (triedAll_sound (new_sound window) us).consistent
  · intro adds
    have adds' : ∀ u ∈ accepted, u.Adds := fun u member => adds u (accepted_subset us u member)
    have holds : m.state.Holds window (accepted.foldl Ledger.enter .empty) := holds
    rw [Ledger.enterAll_of_adds .empty adds'] at holds
    simpa [Ledger.empty] using And.intro holds.history (And.intro holds.turns holds.counts)

theorem guarded_throughout_short :
    let hearing : Update :=
      { phase := some .understanding, countsTurn := true, lines := [⟨.user, "hi"⟩] }
    let unfounded : Update := { phase := some .confirming, counters := ["asked"] }
    let settling : Update :=
      { phase := some .idle, counters := ["told"], lines := [⟨.assistant, "bye"⟩] }
    let m := (Machine.new 1).triedAll [hearing, unfounded, settling]
    (∀ u ∈ [hearing, unfounded, settling], u.Adds) ∧ unfounded.Strays m.state ∧
      (∃ e, m.update unfounded = .error e) ∧ m.state.history = [⟨.assistant, "bye"⟩] ∧
      m.state.turns = 1 ∧ m.state.counters.tally "told" = 1 ∧
      m.state.counters.tally "asked" = 0 := by
  intro hearing unfounded settling m
  obtain ⟨rejected, -, -, -, sums⟩ := guarded_throughout 1 [hearing, unfounded, settling]
  have adds : ∀ u ∈ [hearing, unfounded, settling], u.Adds := by
    rintro u (_ | ⟨_, _ | ⟨_, _ | ⟨_, ⟨⟩⟩⟩⟩) <;> exact ⟨rfl, rfl, rfl⟩
  have strays : unfounded.Strays m.state := permits_eq_false.1 rfl
  obtain ⟨history, turns, counts⟩ := sums adds
  exact ⟨adds, strays, (rejected unfounded).2 (.inl strays), history, turns, counts "told",
    counts "asked"⟩

end Machine

end Colloquy
