import Colloquy.Json.Decode
import Colloquy.Json.Printer
import Colloquy.Json.Reader
import Colloquy.Snapshot.Basic

/-! Snapshots as JSON. Frames are listed from the bottom up. -/

set_option autoImplicit false

namespace Colloquy

open Json (toText? toNat? toList? toPair? toTable? toOption? isBare)

def Value.toJson : Value → Json
  | .text s => .record [("str", .text s)]
  | .integer n => .record [("int", .int n.toInt)]
  | .real x => .record [("float", .double x)]
  | .truth b => .record [("bool", .bool b)]
  | .null => .text "null"

def Value.ofJson? (j : Json) : Option Value := do
  match ← j.toVariant? with
  | ("str", some j) => return .text (← j.toText?)
  | ("int", some j) =>
    return .integer (.ofInt (← j.toInt? Int64.minValue.toInt Int64.maxValue.toInt))
  | ("float", some j) => return .real (← j.toDouble?)
  | ("bool", some j) => return .truth (← j.toBool?)
  | ("null", content) => if isBare content then some .null else none
  | _ => none

def Status.all : List Status := [.active, .suspended, .completed, .cancelled]

def Status.name : Status → String
  | .active => "active"
  | .suspended => "suspended"
  | .completed => "completed"
  | .cancelled => "cancelled"

def bareName? (j : Json) : Option String := do
  let (name, content) ← j.toVariant?
  if isBare content then some name else none

def Status.ofJson? (j : Json) : Option Status := do
  let name ← bareName? j
  all.find? (·.name == name)

/-- A frame with its slots in the order in which they are listed. -/
def Frame.toJsonAs (f : Frame) (slots : List (String × Value)) : Json :=
  .record [
    ("flow_id", .text f.flow),
    ("instance_id", .nat f.id),
    ("state", .text f.status.name),
    ("current_step", .optional .text f.step),
    ("resume_step", .optional .text f.resume),
    ("slots", .entries Value.toJson slots)]

def Frame.toJson (f : Frame) : Json := f.toJsonAs f.slots.toList

def Frame.ofJson? (j : Json) : Option Frame := do
  let fields ← j.toFields?
    ["flow_id", "instance_id", "state", "current_step", "resume_step", "slots"]
  return {
    flow := ← fields.required "flow_id" toText?
    id := ← fields.required "instance_id" (toNat? UInt64.size)
    status := ← fields.required "state" Status.ofJson?
    step := ← fields.optional "current_step" toText?
    resume := ← fields.optional "resume_step" toText?
    slots := ← fields.required "slots" (toTable? Value.ofJson?) }

/-- A stack whose frames have been written, from the bottom up. -/
def Stack.toJsonAs (s : Stack) (frames : List Json) : Json :=
  .record [("frames", .array frames), ("next_instance_id", .nat s.nextId)]

def Stack.toJson (s : Stack) : Json := s.toJsonAs (s.frames.reverse.map Frame.toJson)

def Stack.ofJson? (j : Json) : Option Stack := do
  let fields ← j.toFields? ["frames", "next_instance_id"]
  return {
    frames := (← fields.required "frames" (toList? Frame.ofJson?)).reverse
    nextId := ← fields.required "next_instance_id" (toNat? UInt64.size) }

def Phase.ofJson? (j : Json) : Option Phase := do ofName? (← bareName? j)

def MessageKind.ofJson? (j : Json) : Option MessageKind := do return ofName (← bareName? j)

def Reading.toJson (r : Reading) : Json :=
  .record [
    ("message_type", .text r.kind.name),
    ("command", .optional .text r.command),
    ("slots", .list (fun (name, value) => .array [.text name, value.toJson]) r.slots),
    ("confidence", .single r.confidence)]

def Reading.ofJson? (j : Json) : Option Reading := do
  let fields ← j.toFields? ["message_type", "command", "slots", "confidence"]
  return {
    kind := ← fields.required "message_type" MessageKind.ofJson?
    command := ← fields.optional "command" toText?
    slots := ← fields.required "slots" (toList? (toPair? toText? Value.ofJson?))
    confidence := ← fields.required "confidence" Json.toSingle? }

def Speaker.ofJson? (j : Json) : Option Speaker := do
  let name ← bareName? j
  [Speaker.user, .assistant].find? (·.name == name)

def Line.toJson (line : Line) : Json :=
  .record [("speaker", .text line.speaker.name), ("text", .text line.text)]

def Line.ofJson? (j : Json) : Option Line := do
  let fields ← j.toFields? ["speaker", "text"]
  return {
    speaker := ← fields.required "speaker" Speaker.ofJson?
    text := ← fields.required "text" toText? }

/-- What belongs to no flow in particular. -/
structure Bookkeeping where
  digressions : Nat
  pending : Option String
  counters : Table Nat

def Bookkeeping.toJsonAs (b : Bookkeeping) (counters : List (String × Nat)) : Json :=
  .record [
    ("digression_depth", .nat b.digressions),
    ("pending_intent_change", .optional .text b.pending),
    ("counters", .entries .nat counters)]

def Bookkeeping.ofJson? (j : Json) : Option Bookkeeping := do
  let fields ← j.toFields? ["digression_depth", "pending_intent_change", "counters"]
  return {
    digressions := ← fields.required "digression_depth" (toNat? UInt32.size)
    pending := ← fields.optional "pending_intent_change" toText?
    counters := ← fields.required "counters" (toTable? (toNat? UInt64.size)) }

def State.bookkeeping (s : State) : Bookkeeping := ⟨s.digressions, s.pending, s.counters⟩

/-- A state whose stack has been written, with its counters in the order in which they are listed. -/
def State.toJsonAs (s : State) (stack : Json) (counters : List (String × Nat)) : Json :=
  .record [
    ("conversation_state", .text s.phase.name),
    ("flow_stack", stack),
    ("waiting_for_slot", .optional .text s.waiting),
    ("turn_count", .nat s.turns),
    ("metadata", s.bookkeeping.toJsonAs counters),
    ("last_classification", .optional Reading.toJson s.reading),
    ("last_response", .optional .text s.response),
    ("history", .list Line.toJson s.history)]

def State.toJson (s : State) : Json := s.toJsonAs s.stack.toJson s.counters.toList

def State.ofJson? (j : Json) : Option State := do
  let fields ← j.toFields?
    ["conversation_state", "flow_stack", "waiting_for_slot", "turn_count", "metadata",
      "last_classification", "last_response", "history"]
  let phase ← fields.required "conversation_state" Phase.ofJson?
  let stack ← fields.required "flow_stack" Stack.ofJson?
  let waiting ← fields.optional "waiting_for_slot" toText?
  let turns ← fields.required "turn_count" (toNat? UInt64.size)
  let ⟨digressions, pending, counters⟩ ← fields.required "metadata" Bookkeeping.ofJson?
  let reading ← fields.optional "last_classification" Reading.ofJson?
  let response ← fields.optional "last_response" toText?
  let history ← fields.required "history" (toList? Line.ofJson?)
  return ⟨phase, stack, waiting, turns, digressions, pending, counters, reading, response, history⟩

namespace Snapshot

def toJsonAs (s : Snapshot) (state : Json) : Json :=
  .record [("session_id", .text s.id), ("state", state)]

def toJson (s : Snapshot) : Json := s.toJsonAs s.state.toJson

def ofJson? (j : Json) : Option Snapshot := do
  let fields ← j.toFields? ["session_id", "state"]
  return ⟨← fields.required "session_id" toText?, ← fields.required "state" State.ofJson?⟩

def print (s : Snapshot) : String := s.toJson.print

def parse? (text : String) : Option Snapshot := (Json.parse? text).bind ofJson?

end Snapshot

end Colloquy
