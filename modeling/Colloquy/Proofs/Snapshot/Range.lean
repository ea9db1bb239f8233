import Colloquy.Snapshot.Basic

/-!
What both notations of snapshots ask of a state: that its numbers are such as a machine word can
hold.
-/

set_option autoImplicit false

namespace Colloquy

/-- Everything that is counted or numbered fits the word it is counted with. -/
structure State.InRange (s : State) : Prop where
  ids : ∀ f ∈ s.stack.frames, f.id < UInt64.size
  nextId : s.stack.nextId < UInt64.size
  turns : s.turns < UInt64.size
  digressions : s.digressions < UInt32.size
  counters : ∀ entry ∈ s.counters.toList, entry.2 < UInt64.size

instance (s : State) : Decidable s.InRange :=
  decidable_of_iff
    ((∀ f ∈ s.stack.frames, f.id < UInt64.size) ∧ s.stack.nextId < UInt64.size ∧
      s.turns < UInt64.size ∧ s.digressions < UInt32.size ∧
      ∀ entry ∈ s.counters.toList, entry.2 < UInt64.size)
    ⟨fun ⟨ids, nextId, turns, digressions, counters⟩ =>
      ⟨ids, nextId, turns, digressions, counters⟩,
      fun h => ⟨h.ids, h.nextId, h.turns, h.digressions, h.counters⟩⟩

namespace Script

def parked (x : Number.Double) : Snapshot where
  id := "naïve \"id\""
  state := {
    phase := .waitingForSlot
    stack := {
      frames := [
        ⟨"pay", 1, .active, some "amount", none,
          .ofList [("x", .real x), ("n", .integer Int64.minValue), ("s", .text "null\n"),
            ("b", .truth true), ("", .null)]⟩,
        ⟨"ask", 0, .suspended, some "value", some "value", .empty⟩]
      nextId := UInt64.size - 1 }
    waiting := some "amount"
    turns := 300
    digressions := 2
    pending := none
    counters := .ofList [("digressions", 70000), ("corrections", 1)]
    reading := some ⟨.unrecognized, none, [("x", .real x), ("x", .null)], .ofRatio false 1 2⟩
    response := some "amount?"
    history := [⟨.user, "\t€"⟩, ⟨.assistant, "amount?"⟩] }

end Script

end Colloquy
