import Colloquy.Compile.Edges
import Colloquy.Json.Decode
import Colloquy.Json.Reader

/-! How sessions are run, and reading it from JSON, where every setting has a usual value. -/

set_option autoImplicit false

namespace Colloquy

structure Settings where
  /-- How many digressions in a row are put up with. -/
  maxDigressions : Nat := 3
  policy : JumpPolicy := .lenient
  /-- How many steps one turn may enter, lest a flow goes on for ever without asking. -/
  maxSteps : Nat := 64
  window : Nat := 10
  deriving DecidableEq, Repr

inductive SettingsError where
  | malformed
  | noSteps
  deriving DecidableEq, Repr

/-- Nothing is said about where a text stops being settings. -/
def SettingsError.message : SettingsError → String
  | malformed => "Invalid runtime settings:"
  | noSteps => "Invalid runtime settings: max_steps_per_turn must be at least 1"

def JumpPolicy.name : JumpPolicy → String
  | lenient => "lenient"
  | strict => "strict"

def JumpPolicy.ofName? : String → Option JumpPolicy
  | "lenient" => some lenient
  | "strict" => some strict
  | _ => none

def JumpPolicy.ofJson? (j : Json) : Option JumpPolicy := do
  let (name, content) ← j.toVariant?
  if Json.isBare content then ofName? name else none

namespace Settings

def ofJson? (j : Json) : Option Settings := do
  let fields ← j.toFields?
    ["max_digression_depth", "jump_policy", "max_steps_per_turn", "history_window"]
  return {
    maxDigressions := ← fields.default "max_digression_depth" 3 (Json.toNat? UInt32.size)
    policy := ← fields.default "jump_policy" .lenient JumpPolicy.ofJson?
    maxSteps := ← fields.default "max_steps_per_turn" 64 (Json.toNat? UInt64.size)
    window := ← fields.default "history_window" 10 (Json.toNat? UInt64.size) }

-- Reads settings; a turn must be allowed at least one step.
def parse (text : String) : Except SettingsError Settings :=
  match (Json.parse? text).bind ofJson? with
  | none => .error .malformed
  | some settings => if settings.maxSteps = 0 then .error .noSteps else .ok settings

end Settings

end Colloquy
