import Colloquy.Session.Conversation

/-! Conversations by a script, which lays down beforehand how each message is understood. -/

set_option autoImplicit false

namespace Colloquy

/-- The compiled flows; none if they do not compile. -/
def Library.of (flows : List Flow) (generation : Nat) : Library :=
  ⟨((Dialect.standard .lenient).compileAll flows).toOption.getD .empty, generation⟩

/-- Takes the next reading of the script for each message. Actions succeed and give nothing. -/
def Backend.scripted : Backend (List Reading) where
  classify _ script :=
    match script with
    | [] => (.error (.classification ""), [])
    | reading :: script => (.ok reading, script)
  act _ _ script := (.ok [], script)
  render message := message.template

/-- The same, but actions fail until the script is over. -/
def Backend.faltering : Backend (List Reading) :=
  { Backend.scripted with
    act := fun action _ script =>
      if script.isEmpty then (.ok [], script) else (.error (.action action "busy"), script) }

def Engine.scripted (flows : List Flow) : Engine (List Reading) :=
  ⟨⟨.standard .lenient, .of flows 0⟩, .scripted, {}⟩

def Conversation.scripted (flows : List Flow) (script : List Reading) :
    Conversation (List Reading) :=
  opened "script" (.scripted flows) script

def Conversation.faltering (flows : List Flow) (script : List Reading) :
    Conversation (List Reading) :=
  opened "script" { Engine.scripted flows with backend := .faltering } script

namespace Script

def asking : Flow := ⟨"ask", "", [.collect "value" "x"]⟩

def sizing : Flow := ⟨"size", "", [.collect "width" "w", .collect "height" "h"]⟩

def greeting : Flow := ⟨"greet", "", [.say "hello" "hi"]⟩

def identifying : Flow := ⟨"identity", "", [.collect "pin" "pin"]⟩

def paying : Flow := ⟨"pay", "", [.callFlow "verify" "identity", .say "done" "paid"]⟩

def ordering : Flow := ⟨"order", "", [.collect "item" "item", .action "place" "order"]⟩

def droning : Flow := ⟨"drone", "", [{ Flow.Step.say "again" "hi" with jump := some "again" }]⟩

def listing : Flow :=
  ⟨"list", "", [{ Flow.Step.collect "item" "x" with askAlways := true, jump := some "item" }]⟩

def insisting : Flow := ⟨"insist", "", [(Flow.Step.confirm "sure").withCase "no" "sure"]⟩

def wants (flow : String) : Reading := .certain .intentChange (some flow) []

def agrees : Reading := .certain .confirmation (some "yes") []

def denies : Reading := .certain .confirmation (some "no") []

def corrects (slot value : String) : Reading := .certain .correction none [(slot, .text value)]

def cancels : Reading := .certain .cancellation none []

def continues : Reading := .certain .continuation none []

def digresses : Reading := .certain .question none []

end Script

end Colloquy
