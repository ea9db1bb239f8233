import Colloquy.Flow.Basic
import Colloquy.Json.Decode
import Colloquy.Json.Reader
import Colloquy.Text.Lines

/-!
Bot files: flows and templates in one JSON document. Flows must have an id and steps, and steps a
name and a type.
-/

set_option autoImplicit false

namespace Colloquy

structure Bot where
  flows : List Flow
  templates : Table String
  deriving DecidableEq

namespace Bot

open Json (toText? toBool? toList? toTable?)

def case? (j : Json) : Option Flow.Case := do
  let fields ← j.toFields? ["when", "then"]
  return ⟨← fields.required "when" toText?, ← fields.required "then" toText?⟩

def stepFields : List String :=
  ["name", "type", "slot", "call", "message", "input", "cases", "condition", "do", "jump_to",
    "validation", "ask_before_filling"]

def step? (j : Json) : Option Flow.Step := do
  let fields ← j.toFields? stepFields
  return {
    name := ← fields.required "name" toText?
    tag := ← fields.required "type" toText?
    slot := ← fields.optional "slot" toText?
    call := ← fields.optional "call" toText?
    message := ← fields.optional "message" toText?
    rejection := ← fields.optional "input" toText?
    cases := ← fields.default "cases" [] (toList? case?)
    condition := ← fields.optional "condition" toText?
    body := ← fields.default "do" [] (toList? toText?)
    jump := ← fields.optional "jump_to" toText?
    validation := ← fields.optional "validation" toText?
    askAlways := ← fields.default "ask_before_filling" false toBool? }

def flow? (j : Json) : Option Flow := do
  let fields ← j.toFields? ["id", "description", "steps"]
  return {
    id := ← fields.required "id" toText?
    description := ← fields.default "description" "" toText?
    steps := ← fields.required "steps" (toList? step?) }

def ofJson? (j : Json) : Option Bot := do
  let fields ← j.toFields? ["flows", "templates"]
  return {
    flows := ← fields.required "flows" (toList? flow?)
    templates := ← fields.default "templates" .empty (toTable? toText?) }

def parse? (text : String) : Option Bot := (Json.parse? text).bind ofJson?

/-- Whether every flow has an id that shows. -/
def isNamed (b : Bot) : Bool := b.flows.all fun flow => Text.trim flow.id ≠ ""

end Bot

end Colloquy
