import Colloquy.Proofs.Snapshot.Range
import Colloquy.Proofs.Snapshot.Wire
import Colloquy.Proofs.Table
import Colloquy.Snapshot.Binary

/-!
Snapshots in the binary notation read back as they were, whatever follows them and in whatever order
the entries of their tables are written.
-/

set_option autoImplicit false

namespace Colloquy

open Wire

/-! What can be written: all texts and lists are short enough for their lengths. -/

def Value.Short : Value → Prop
  | .text s => Wire.Short s
  | .integer _ | .real _ | .truth _ | .null => True

instance : (v : Value) → Decidable v.Short
  | .text s => inferInstanceAs (Decidable (Wire.Short s))
  | .integer _ | .real _ | .truth _ | .null => .isTrue trivial

def Wire.ShortEntries {α : Type} (each : α → Prop) (listed : List (String × α)) : Prop :=
  listed.length < UInt64.size ∧ ∀ entry ∈ listed, Wire.Short entry.1 ∧ each entry.2

instance {α : Type} (each : α → Prop) [DecidablePred each] (listed : List (String × α)) :
    Decidable (ShortEntries each listed) :=
  inferInstanceAs (Decidable (_ ∧ ∀ entry ∈ listed, Wire.Short entry.1 ∧ each entry.2))

structure Frame.Short (f : Frame) : Prop where
  flow : Wire.Short f.flow
  step : ∀ step ∈ f.step, Wire.Short step
  resume : ∀ step ∈ f.resume, Wire.Short step
  slots : ShortEntries Value.Short f.slots.toList

instance (f : Frame) : Decidable f.Short :=
  decidable_of_iff
    (Wire.Short f.flow ∧ (∀ step ∈ f.step, Wire.Short step) ∧ (∀ step ∈ f.resume, Wire.Short step) ∧
      ShortEntries Value.Short f.slots.toList)
    ⟨fun ⟨flow, step, resume, slots⟩ => ⟨flow, step, resume, slots⟩,
      fun h => ⟨h.flow, h.step, h.resume, h.slots⟩⟩

structure Reading.Short (r : Reading) : Prop where
  command : ∀ command ∈ r.command, Wire.Short command
  slots : ShortEntries Value.Short r.slots

instance (r : Reading) : Decidable r.Short :=
  decidable_of_iff ((∀ command ∈ r.command, Wire.Short command) ∧ ShortEntries Value.Short r.slots)
    ⟨fun ⟨command, slots⟩ => ⟨command, slots⟩, fun h => ⟨h.command, h.slots⟩⟩

structure State.Short (s : State) : Prop where
  deep : s.stack.frames.length < UInt64.size
  frames : ∀ f ∈ s.stack.frames, f.Short
  waiting : ∀ slot ∈ s.waiting, Wire.Short slot
  pending : ∀ flow ∈ s.pending, Wire.Short flow
  counters : ShortEntries (fun _ => True) s.counters.toList
  reading : ∀ r ∈ s.reading, r.Short
  response : ∀ text ∈ s.response, Wire.Short text
  long : s.history.length < UInt64.size
  history : ∀ line ∈ s.history, Wire.Short line.text

instance (s : State) : Decidable s.Short :=
  decidable_of_iff
    (s.stack.frames.length < UInt64.size ∧ (∀ f ∈ s.stack.frames, f.Short) ∧
      (∀ slot ∈ s.waiting, Wire.Short slot) ∧ (∀ flow ∈ s.pending, Wire.Short flow) ∧
      ShortEntries (fun _ => True) s.counters.toList ∧ (∀ r ∈ s.reading, r.Short) ∧
      (∀ text ∈ s.response, Wire.Short text) ∧ s.history.length < UInt64.size ∧
      ∀ line ∈ s.history, Wire.Short line.text)
    ⟨fun ⟨deep, frames, waiting, pending, counters, reading, response, long, history⟩ =>
      ⟨deep, frames, waiting, pending, counters, reading, response, long, history⟩,
      fun h => ⟨h.deep, h.frames, h.waiting, h.pending, h.counters, h.reading, h.response, h.long,
        h.history⟩⟩

/-! The bytes of a snapshot, with the entries of its tables in any order. -/

def Frame.Written (f : Frame) (bytes : Bytes) : Prop :=
  ∃ slots, slots.Perm f.slots.toList ∧ bytes = f.toBytesAs slots

def Stack.Written (s : Stack) (bytes : Bytes) : Prop :=
  ∃ frames, List.Forall₂ Frame.Written s.frames.reverse frames ∧ bytes = s.toBytesAs frames

def State.Written (s : State) (bytes : Bytes) : Prop :=
  ∃ stack counters, s.stack.Written stack ∧ counters.Perm s.counters.toList ∧
    bytes = s.toBytesAs stack counters

def Snapshot.Written (s : Snapshot) (bytes : Bytes) : Prop :=
  ∃ state, s.state.Written state ∧ bytes = s.toBytesAs state

theorem Frame.written_toBytes (f : Frame) : f.Written f.toBytes := ⟨_, .refl _, rfl⟩

theorem Stack.written_toBytes (s : Stack) : s.Written s.toBytes := by
  refine ⟨_, ?_, rfl⟩
  rw [List.forall₂_map_right_iff, List.forall₂_same]
  exact fun f _ => f.written_toBytes

theorem Snapshot.written_toBytes (s : Snapshot) : s.Written s.toBytes :=
  ⟨_, ⟨_, _, s.state.stack.written_toBytes, .refl _, rfl⟩, rfl⟩

theorem reads_float {f : Number.Format} (x : Number.Float f) (whole : 8 * (f.width / 8) = f.width) :
    Reads (Number.Float.readBytes f) x x.toBytes := by
  have fits : x.bits.toNat < 256 ^ (f.width / 8) := by
    have bound := x.bits.isLt
    have power : 256 ^ (f.width / 8) = 2 ^ f.width := by
      rw [← whole, Nat.pow_mul]
      simp
    rwa [power]
  have read : Reads (Number.Float.readBytes f) ⟨.ofNat f.width x.bits.toNat⟩ x.toBytes :=
    (reads_fixed fits).last
  rwa [BitVec.ofNat_toNat, BitVec.setWidth_eq] at read

theorem reads_value {v : Value} (short : v.Short) : Reads Value.readBytes v v.toBytes := by
  have tagged {tag : Nat} (known : tag < 256 ^ 4) : Reads (readNat 4) tag (nat tag) :=
    reads_nat (.inl rfl) known
  cases v with
  | text s => exact (tagged (by decide)).bind (reads_text short).last
  | integer n => exact (tagged (by decide)).bind (reads_int n).last
  | real x => exact (tagged (by decide)).bind (reads_float x rfl).last
  | truth b => exact (tagged (by decide)).bind (reads_bool b).last
  | null => exact (tagged (by decide)).decides (.pure _)

theorem reads_entries {α : Type} {read : Reader α} {write : α → Bytes} {each : α → Prop}
    {listed : List (String × α)} (short : ShortEntries each listed)
    (reads : ∀ entry ∈ listed, each entry.2 → Reads read entry.2 (write entry.2)) :
    Reads (readList (readPair readText read)) listed (entries write listed) := by
  refine reads_list (List.forall₂_same.2 fun entry member => ?_) short.1
  obtain ⟨name, fits⟩ := short.2 entry member
  exact reads_pair (reads_text name) (reads entry member fits)

theorem reads_table {α : Type} {read : Reader α} {write : α → Bytes} {each : α → Prop}
    {t : Table α} {listed : List (String × α)} (order : listed.Perm t.toList)
    (short : ShortEntries each t.toList)
    (reads : ∀ entry ∈ t.toList, each entry.2 → Reads read entry.2 (write entry.2)) :
    Reads (readTable read) t (entries write listed) := by
  have short' : ShortEntries each listed :=
    ⟨order.length_eq ▸ short.1, fun entry member => short.2 entry (order.subset member)⟩
  have read : Reads (readTable read) (.ofList listed) (entries write listed) :=
    (reads_entries short' fun entry member => reads entry (order.subset member)).last
  rwa [Table.ofList_of_perm order] at read

theorem reads_texts {text? : Option String} (short : ∀ s ∈ text?, Wire.Short s) :
    Reads (readOption readText) text? (option Wire.text text?) :=
  reads_option fun s member => reads_text (short s member)

theorem reads_frame {f : Frame} {bytes : Bytes} (short : f.Short) (id : f.id < UInt64.size)
    (written : f.Written bytes) : Reads Frame.readBytes f bytes := by
  obtain ⟨slots, order, rfl⟩ := written
  simp only [Frame.toBytesAs, List.append_assoc]
  refine (reads_text short.flow).bind ((reads_nat (.inr rfl) id).bind ?_)
  refine (reads_choice (by cases f.status <;> decide) (by decide)).bind ?_
  refine (reads_texts short.step).bind ((reads_texts short.resume).bind ?_)
  exact (reads_table order short.slots fun _ _ => reads_value).last

theorem reads_stack {s : Stack} {bytes : Bytes} (deep : s.frames.length < UInt64.size)
    (short : ∀ f ∈ s.frames, f.Short) (ids : ∀ f ∈ s.frames, f.id < UInt64.size)
    (nextId : s.nextId < UInt64.size) (written : s.Written bytes) :
    Reads Stack.readBytes s bytes := by
  obtain ⟨frames, each, rfl⟩ := written
  have counted : frames.length < UInt64.size := by
    rwa [← each.length_eq, List.length_reverse]
  have known : List.Forall₂ (fun f bytes => f ∈ s.frames ∧ f.Written bytes)
      s.frames.reverse frames :=
    (List.forall₂_and_left _ _).2 ⟨fun f member => List.mem_reverse.1 member, each⟩
  have reads : List.Forall₂ (fun f bytes => Reads Frame.readBytes f (id bytes))
      s.frames.reverse frames :=
    known.imp fun f bytes ⟨member, written⟩ => reads_frame (short f member) (ids f member) written
  refine (reads_list reads counted).bind ?_
  simp only [List.reverse_reverse]
  exact (reads_nat (.inr rfl) nextId).last

theorem reads_kind (k : MessageKind) :
    Reads MessageKind.readBytes k (choice MessageKind.all k) := by
  have within : MessageKind.all.idxOf k < 256 ^ 4 := by cases k <;> decide
  have read : Reads MessageKind.readBytes
      ((MessageKind.all[MessageKind.all.idxOf k]?).getD .unrecognized) (choice MessageKind.all k) :=
    (reads_nat (.inl rfl) within).last
  have back : (MessageKind.all[MessageKind.all.idxOf k]?).getD .unrecognized = k := by
    cases k <;> rfl
  rwa [back] at read

theorem reads_reading {r : Reading} (short : r.Short) : Reads Reading.readBytes r r.toBytes := by
  simp only [Reading.toBytes, List.append_assoc]
  refine (reads_kind r.kind).bind ((reads_texts short.command).bind ?_)
  refine (reads_entries short.slots fun _ _ => reads_value).bind ?_
  exact (reads_float r.confidence rfl).last

theorem reads_line {line : Line} (short : Wire.Short line.text) :
    Reads Line.readBytes line line.toBytes :=
  (reads_choice (by cases line.speaker <;> decide) (by decide)).bind (reads_text short).last

theorem reads_state {s : State} {bytes : Bytes} (inRange : s.InRange) (short : s.Short)
    (written : s.Written bytes) : Reads State.readBytes s bytes := by
  obtain ⟨stack, counters, stacked, order, rfl⟩ := written
  simp only [State.toBytesAs, List.append_assoc]
  refine (reads_choice (by cases s.phase <;> decide) (by decide)).bind ?_
  refine (reads_stack short.deep short.frames inRange.ids inRange.nextId stacked).bind ?_
  refine (reads_texts short.waiting).bind ((reads_nat (.inr rfl) inRange.turns).bind ?_)
  refine (reads_nat (.inl rfl) inRange.digressions).bind ((reads_texts short.pending).bind ?_)
  have counts (entry : String × Nat) (member : entry ∈ s.counters.toList) (_ : True) :
      Reads (readNat 8) entry.2 (nat entry.2) := reads_nat (.inr rfl) (inRange.counters entry member)
  refine (reads_table order short.counters counts).bind ?_
  refine (reads_option fun r member => reads_reading (short.reading r member)).bind ?_
  refine (reads_texts short.response).bind ?_
  have lines : List.Forall₂ (fun line line' => Reads Line.readBytes line (Line.toBytes line'))
      s.history s.history :=
    List.forall₂_same.2 fun line member => reads_line (short.history line member)
  exact (reads_list lines short.long).last

namespace Snapshot

structure Fits (s : Snapshot) : Prop where
  id : Wire.Short s.id
  inRange : s.state.InRange
  short : s.state.Short

/-- A snapshot is read back as it was, and what follows it is left. -/
theorem readBytes_of_written {s : Snapshot} (fits : s.Fits) :
    s.Written s.toBytes ∧ ∀ bytes, s.Written bytes → ∀ rest,
      readBytes (bytes ++ rest) = some (s, rest) ∧ ofBytes? (bytes ++ rest) = some s := by
  refine ⟨s.written_toBytes, ?_⟩
  rintro bytes ⟨state, written, rfl⟩ rest
  have read : Reads readBytes s (s.toBytesAs state) :=
    (reads_text fits.id).bind (reads_state fits.inRange fits.short written).last
  exact ⟨read rest, by rw [ofBytes?, read rest]; rfl⟩

theorem readBytes_of_written_parked :
    (Script.parked .nan).Fits ∧
      ofBytes? ((Script.parked .nan).toBytes ++ [7]) = some (Script.parked .nan) := by
  have fits : (Script.parked .nan).Fits := ⟨by decide, by decide, by decide⟩
  obtain ⟨written, reads⟩ := readBytes_of_written fits
  exact ⟨fits, (reads _ written [7]).2⟩

end Snapshot

end Colloquy
