import Colloquy.Proofs.Json.Decode
import Colloquy.Proofs.Snapshot.Range
import Colloquy.Snapshot.Document

/-!
Snapshots in JSON are read back as they were, in whatever order the entries of their tables are
listed, if each of their numbers with a fraction is read back from its own text.
-/

set_option autoImplicit false

namespace Colloquy

open Json

/-! What comes back: the numbers that are read back from the text that prints them. One that is not
finite is printed as null and does not come back. -/

def Value.Exact : Value → Prop
  | .real x => ReadsBack double toDouble? x
  | .text _ | .integer _ | .truth _ | .null => True

structure State.Exact (s : State) : Prop where
  frames : ∀ f ∈ s.stack.frames, ∀ slot ∈ f.slots.toList, slot.2.Exact
  slots : ∀ r ∈ s.reading, ∀ slot ∈ r.slots, slot.2.Exact
  confidence : ∀ r ∈ s.reading, ReadsBack single toSingle? r.confidence

/-! The documents of a snapshot, with the entries of tables in any order. -/

def Frame.DescribedBy (f : Frame) (j : Json) : Prop :=
  ∃ slots, slots.Perm f.slots.toList ∧ j = f.toJsonAs slots

def Stack.DescribedBy (s : Stack) (j : Json) : Prop :=
  ∃ frames, List.Forall₂ Frame.DescribedBy s.frames.reverse frames ∧ j = s.toJsonAs frames

def State.DescribedBy (s : State) (j : Json) : Prop :=
  ∃ stack counters, s.stack.DescribedBy stack ∧ counters.Perm s.counters.toList ∧
    j = s.toJsonAs stack counters

def Snapshot.DescribedBy (s : Snapshot) (j : Json) : Prop :=
  ∃ state, s.state.DescribedBy state ∧ j = s.toJsonAs state

theorem Frame.describedBy_toJson (f : Frame) : f.DescribedBy f.toJson := ⟨_, .refl _, rfl⟩

theorem Stack.describedBy_toJson (s : Stack) : s.DescribedBy s.toJson := by
  refine ⟨_, ?_, rfl⟩
  rw [List.forall₂_map_right_iff, List.forall₂_same]
  exact fun f _ => f.describedBy_toJson

theorem Snapshot.describedBy_toJson (s : Snapshot) : s.DescribedBy s.toJson :=
  ⟨_, ⟨_, _, s.state.stack.describedBy_toJson, .refl _, rfl⟩, rfl⟩

theorem means_value {v : Value} (exact : v.Exact) : Means Value.ofJson? v v.toJson := by
  cases v with
  | text s => exact ⟨legible_record (by simp [(means_text s).legible]), rfl⟩
  | integer n =>
    have low := n.le_toInt
    have high := n.toInt_lt
    have means : Means (toInt? Int64.minValue.toInt Int64.maxValue.toInt) n.toInt (int n.toInt) :=
      means_int low (Int.le_of_lt_add_one high) low (Int.lt_of_lt_of_le high (by decide))
    refine ⟨legible_record (by simp [means.legible]), ?_⟩
    change (toInt? Int64.minValue.toInt Int64.maxValue.toInt (int n.toInt)).bind
      (fun i => some (Value.integer (.ofInt i))) = _
    rw [means.decoded, Option.bind_some, Int64.ofInt_toInt]
  | real x =>
    have means := means_of_readsBack (legible_double x) exact
    refine ⟨legible_record (by simp [means.legible]), ?_⟩
    change (toDouble? (double x)).bind (fun x => some (Value.real x)) = _
    rw [means.decoded, Option.bind_some]
  | truth b => exact ⟨legible_record (by simp [(means_bool b).legible]), rfl⟩
  | null => exact ⟨.string _, rfl⟩

theorem means_texts (text? : Option String) :
    Means (toOption? toText?) text? (.optional .text text?) :=
  means_optional rfl fun s _ => means_text s

theorem means_status (s : Status) : Means Status.ofJson? s (.text s.name) :=
  ⟨.string _, by cases s <;> rfl⟩

theorem means_frame {f : Frame} {j : Json} (exact : ∀ slot ∈ f.slots.toList, slot.2.Exact)
    (id : f.id < UInt64.size) (described : f.DescribedBy j) : Means Frame.ofJson? f j := by
  obtain ⟨slots, order, rfl⟩ := described
  have flow := means_text f.flow
  have id := means_nat id (Nat.le_refl _)
  have status := means_status f.status
  have step := means_texts f.step
  have resume := means_texts f.resume
  have slots := means_entries order fun slot member => means_value (exact slot member)
  refine means_record rfl (by decide) ?_ ?_
  · simp [flow.legible, id.legible, status.legible, step.legible, resume.legible, slots.legible]
  · simp [Fields.required, Fields.optional, flow.decoded, id.decoded,
      status.decoded, step.decoded, resume.decoded, slots.decoded]

theorem means_stack {s : Stack} {j : Json}
    (exact : ∀ f ∈ s.frames, ∀ slot ∈ f.slots.toList, slot.2.Exact)
    (ids : ∀ f ∈ s.frames, f.id < UInt64.size) (nextId : s.nextId < UInt64.size)
    (described : s.DescribedBy j) : Means Stack.ofJson? s j := by
  obtain ⟨frames, each, rfl⟩ := described
  have known : List.Forall₂ (fun f j => f ∈ s.frames ∧ f.DescribedBy j) s.frames.reverse frames :=
    (List.forall₂_and_left _ _).2 ⟨fun f member => List.mem_reverse.1 member, each⟩
  have frames := means_array (known.imp fun f j ⟨member, described⟩ =>
    means_frame (exact f member) (ids f member) described)
  have nextId := means_nat nextId (Nat.le_refl _)
  refine means_record rfl (by decide) ?_ ?_
  · simp [frames.legible, nextId.legible]
  · simp [Fields.required, frames.decoded, nextId.decoded]

theorem means_phase (p : Phase) : Means Phase.ofJson? p (.text p.name) :=
  ⟨.string _, Phase.ofName?_name p⟩

theorem means_kind (k : MessageKind) : Means MessageKind.ofJson? k (.text k.name) :=
  ⟨.string _, congrArg some (MessageKind.ofName_name k)⟩

theorem means_reading {r : Reading} (slots : ∀ slot ∈ r.slots, slot.2.Exact)
    (confidence : ReadsBack single toSingle? r.confidence) :
    Means Reading.ofJson? r r.toJson := by
  have kind := means_kind r.kind
  have command := means_texts r.command
  have slots := means_list fun slot member =>
    means_pair (means_text slot.1) (means_value (slots slot member))
  have confidence := means_of_readsBack (legible_single r.confidence) confidence
  refine means_record rfl (by decide) ?_ ?_
  · simp [kind.legible, command.legible, slots.legible, confidence.legible]
  · simp [Fields.required, Fields.optional, kind.decoded, command.decoded,
      slots.decoded, confidence.decoded]

theorem means_line (line : Line) : Means Line.ofJson? line line.toJson := by
  have speaker : Means Speaker.ofJson? line.speaker (.text line.speaker.name) :=
    ⟨.string _, by cases line.speaker <;> rfl⟩
  have text := means_text line.text
  refine means_record rfl (by decide) ?_ ?_
  · simp [speaker.legible, text.legible]
  · simp [Fields.required, speaker.decoded, text.decoded]

theorem means_bookkeeping {b : Bookkeeping} {counters : List (String × Nat)}
    (digressions : b.digressions < UInt32.size) (order : counters.Perm b.counters.toList)
    (counts : ∀ entry ∈ b.counters.toList, entry.2 < UInt64.size) :
    Means Bookkeeping.ofJson? b (b.toJsonAs counters) := by
  have digressions := means_nat digressions (by decide)
  have pending := means_texts b.pending
  have counters := means_entries order fun entry member =>
    means_nat (counts entry member) (Nat.le_refl _)
  refine means_record rfl (by decide) ?_ ?_
  · simp [digressions.legible, pending.legible, counters.legible]
  · simp [Fields.required, Fields.optional, digressions.decoded,
      pending.decoded, counters.decoded]

theorem means_state {s : State} {j : Json} (inRange : s.InRange) (exact : s.Exact)
    (described : s.DescribedBy j) : Means State.ofJson? s j := by
  obtain ⟨stack, counters, stacked, order, rfl⟩ := described
  have phase := means_phase s.phase
  have stack := means_stack exact.frames inRange.ids inRange.nextId stacked
  have waiting := means_texts s.waiting
  have turns := means_nat inRange.turns (Nat.le_refl _)
  have bookkeeping : Means Bookkeeping.ofJson? s.bookkeeping (s.bookkeeping.toJsonAs counters) :=
    means_bookkeeping inRange.digressions order inRange.counters
  have reading : Means (toOption? Reading.ofJson?) s.reading (.optional Reading.toJson s.reading) :=
    means_optional rfl fun r member =>
      means_reading (exact.slots r member) (exact.confidence r member)
  have response := means_texts s.response
  have history := means_list fun line (_ : line ∈ s.history) => means_line line
  refine means_record rfl (by decide) ?_ ?_
  · simp [phase.legible, stack.legible, waiting.legible, turns.legible, bookkeeping.legible,
      reading.legible, response.legible, history.legible]
  · simp [Fields.required, Fields.optional, phase.decoded, stack.decoded,
      waiting.decoded, turns.decoded, bookkeeping.decoded, reading.decoded, response.decoded,
      history.decoded]
    rfl

namespace Snapshot

/-- A snapshot is read back as it was. -/
theorem read_of_described {s : Snapshot} (inRange : s.state.InRange) (exact : s.state.Exact) :
    parse? s.print = some s ∧ ∀ j, s.DescribedBy j → parse? j.print = some s := by
  have means (j : Json) (described : s.DescribedBy j) : Means ofJson? s j := by
    obtain ⟨state, described, rfl⟩ := described
    have id := means_text s.id
    have state := means_state inRange exact described
    refine means_record rfl (by decide) ?_ ?_
    · simp [id.legible, state.legible]
    · simp [Fields.required, id.decoded, state.decoded]
  exact ⟨(means _ s.describedBy_toJson).parsed, fun j described => (means j described).parsed⟩

theorem exact_parked {x : Number.Double} (back : ReadsBack double toDouble? x) :
    (Script.parked x).state.Exact where
  frames f member slot known := by
    rcases List.mem_pair.1 member with rfl | rfl
    · have each : ∀ slot ∈ ([("x", .real x), ("n", .integer Int64.minValue),
          ("s", .text "null\n"), ("b", .truth true), ("", .null)] : List (String × Value)),
          slot.2.Exact := by
        simp [Value.Exact, back]
      exact each slot (Table.mem_of_get?_ofList (Table.get?_of_mem known))
    · cases known
  slots := by
    rintro _ ⟨⟩
    simp [Value.Exact, back]
  confidence := by
    rintro _ ⟨⟩
    have half : toSingle? (single (.ofRatio false 1 2)) = some (.ofRatio false 1 2) := by
      decide +kernel
    exact Means.parsed ⟨legible_single _, half⟩

theorem read_of_described_parked :
    (Script.parked ⟨1⟩).state.InRange ∧ (Script.parked ⟨1⟩).state.Exact ∧
      parse? (Script.parked ⟨1⟩).print = some (Script.parked ⟨1⟩) := by
  have inRange : (Script.parked ⟨1⟩).state.InRange := by decide
  have back : ReadsBack double toDouble? ⟨1⟩ :=
    Means.parsed ⟨legible_double _, by decide +kernel⟩
  have exact := exact_parked back
  exact ⟨inRange, exact, (read_of_described inRange exact).1⟩

end Snapshot

end Colloquy
