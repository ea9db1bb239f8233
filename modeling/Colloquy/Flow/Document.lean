import Colloquy.Flow.Basic
import Colloquy.Json.Decode

/-! Flows as JSON. Every field of a flow and of a step may be left out; a case needs both of its. -/

set_option autoImplicit false

namespace Colloquy.Flow

open Json (toText? toBool? toList?)

def Case.ofJson? (j : Json) : Option Case := do
  let fields ← j.toFields? ["label", "target"]
  return ⟨← fields.required "label" toText?, ← fields.required "target" toText?⟩

def Case.toJson (case : Case) : Json :=
  .record [("label", .text case.label), ("target", .text case.target)]

/-- The names of a step's fields, in the order of their declaration. -/
def Step.fieldNames : List String :=
  ["name", "type", "slot", "call", "message", "input", "cases", "condition", "body", "jump_to",
    "validation", "ask_before_filling"]

def Step.ofJson? (j : Json) : Option Step := do
  let fields ← j.toFields? fieldNames
  let text name := fields.default name "" toText?
  let optional name := fields.default name none (Json.toOption? toText?)
  return {
    name := ← text "name"
    tag := ← text "type"
    slot := ← optional "slot"
    call := ← optional "call"
    message := ← optional "message"
    rejection := ← optional "input"
    cases := ← fields.default "cases" [] (toList? Case.ofJson?)
    condition := ← optional "condition"
    body := ← fields.default "body" [] (toList? toText?)
    jump := ← optional "jump_to"
    validation := ← optional "validation"
    askAlways := ← fields.default "ask_before_filling" false toBool? }

def Step.toJson (step : Step) : Json :=
  let optional := Json.optional Json.text
  .record [
    ("name", .text step.name),
    ("type", .text step.tag),
    ("slot", optional step.slot),
    ("call", optional step.call),
    ("message", optional step.message),
    ("input", optional step.rejection),
    ("cases", .list Case.toJson step.cases),
    ("condition", optional step.condition),
    ("body", .list Json.text step.body),
    ("jump_to", optional step.jump),
    ("validation", optional step.validation),
    ("ask_before_filling", .bool step.askAlways)]

def ofJson? (j : Json) : Option Flow := do
  let fields ← j.toFields? ["id", "description", "steps"]
  return {
    id := ← fields.default "id" "" toText?
    description := ← fields.default "description" "" toText?
    steps := ← fields.default "steps" [] (toList? Step.ofJson?) }

def toJson (flow : Flow) : Json :=
  .record [
    ("id", .text flow.id),
    ("description", .text flow.description),
    ("steps", .list Step.toJson flow.steps)]

end Colloquy.Flow
