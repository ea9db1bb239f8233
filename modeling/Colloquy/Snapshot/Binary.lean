import Colloquy.Snapshot.Document
import Colloquy.Snapshot.Wire

/-! Snapshots in the compact binary notation. Frames are listed from the bottom up. -/

set_option autoImplicit false

namespace Colloquy

open Wire

def Number.Float.toBytes {f : Number.Format} (x : Number.Float f) : Bytes :=
  littleEndian (f.width / 8) x.bits.toNat

def Number.Float.readBytes (f : Number.Format) : Reader (Number.Float f) := do
  return ⟨.ofNat f.width (← fixed (f.width / 8))⟩

def Value.toBytes : Value → Bytes
  | .text s => nat 0 ++ Wire.text s
  | .integer n => nat 1 ++ int n
  | .real x => nat 2 ++ x.toBytes
  | .truth b => nat 3 ++ bool b
  | .null => nat 4

def Value.readBytes : Reader Value := do
  match ← readNat 4 with
  | 0 => return .text (← readText)
  | 1 => return .integer (← readInt)
  | 2 => return .real (← Number.Float.readBytes .double)
  | 3 => return .truth (← readBool)
  | 4 => return .null
  | _ => failure

/-- A frame with its slots in the order in which they are listed. -/
def Frame.toBytesAs (f : Frame) (slots : List (String × Value)) : Bytes :=
  Wire.text f.flow ++ nat f.id ++ choice Status.all f.status ++ option Wire.text f.step ++
    option Wire.text f.resume ++ entries Value.toBytes slots

def Frame.toBytes (f : Frame) : Bytes := f.toBytesAs f.slots.toList

def Frame.readBytes : Reader Frame := do
  return {
    flow := ← readText
    id := ← readNat 8
    status := ← readChoice Status.all
    step := ← readOption readText
    resume := ← readOption readText
    slots := ← readTable Value.readBytes }

/-- A stack whose frames have been written, from the bottom up. -/
def Stack.toBytesAs (s : Stack) (frames : List Bytes) : Bytes :=
  list id frames ++ nat s.nextId

def Stack.toBytes (s : Stack) : Bytes := s.toBytesAs (s.frames.reverse.map Frame.toBytes)

def Stack.readBytes : Reader Stack := do
  return { frames := (← readList Frame.readBytes).reverse, nextId := ← readNat 8 }

-- A kind of message out of range is one that nothing here knows.
def MessageKind.readBytes : Reader MessageKind := do
  return (all[← readNat 4]?).getD unrecognized

def Reading.toBytes (r : Reading) : Bytes :=
  choice MessageKind.all r.kind ++ option Wire.text r.command ++
    list (pair Wire.text Value.toBytes) r.slots ++ r.confidence.toBytes

def Reading.readBytes : Reader Reading := do
  return {
    kind := ← MessageKind.readBytes
    command := ← readOption readText
    slots := ← readList (readPair readText Value.readBytes)
    confidence := ← Number.Float.readBytes .single }

def Speaker.all : List Speaker := [.user, .assistant]

def Line.toBytes (line : Line) : Bytes :=
  choice Speaker.all line.speaker ++ Wire.text line.text

def Line.readBytes : Reader Line := do
  return { speaker := ← readChoice Speaker.all, text := ← readText }

/-- A state whose stack has been written, with its counters in the order in which they are listed. -/
def State.toBytesAs (s : State) (stack : Bytes) (counters : List (String × Nat)) : Bytes :=
  choice Phase.all s.phase ++ stack ++ option Wire.text s.waiting ++ nat s.turns ++
    nat s.digressions ++ option Wire.text s.pending ++ entries nat counters ++
    option Reading.toBytes s.reading ++ option Wire.text s.response ++ list Line.toBytes s.history

def State.toBytes (s : State) : Bytes := s.toBytesAs s.stack.toBytes s.counters.toList

def State.readBytes : Reader State := do
  return {
    phase := ← readChoice Phase.all
    stack := ← Stack.readBytes
    waiting := ← readOption readText
    turns := ← readNat 8
    digressions := ← readNat 4
    pending := ← readOption readText
    counters := ← readTable (readNat 8)
    reading := ← readOption Reading.readBytes
    response := ← readOption readText
    history := ← readList Line.readBytes }

namespace Snapshot

def toBytesAs (s : Snapshot) (state : Bytes) : Bytes := Wire.text s.id ++ state

def toBytes (s : Snapshot) : Bytes := s.toBytesAs s.state.toBytes

def readBytes : Reader Snapshot := do
  return { id := ← readText, state := ← State.readBytes }

/-- Reads a snapshot from the front of some bytes, whatever follows. -/
def ofBytes? (bytes : Bytes) : Option Snapshot := (readBytes bytes).map (·.1)

end Snapshot

end Colloquy
