import Colloquy.Text.Lines
import Colloquy.Value.Basic

/-! How a message from the user has been understood. -/

set_option autoImplicit false

namespace Colloquy

/-- What a message does to the conversation. -/
inductive MessageKind where
  | continuation
  | correction
  | modification
  | confirmation
  | cancellation
  | digression
  | clarification
  | intentChange
  | question
  /-- A kind that nothing here knows. -/
  | unrecognized
  deriving DecidableEq, Repr

namespace MessageKind

def all : List MessageKind :=
  [continuation, correction, modification, confirmation, cancellation, digression, clarification,
    intentChange, question, unrecognized]

def name : MessageKind → String
  | continuation => "continuation"
  | correction => "correction"
  | modification => "modification"
  | confirmation => "confirmation"
  | cancellation => "cancellation"
  | digression => "digression"
  | clarification => "clarification"
  | intentChange => "intent_change"
  | question => "question"
  | unrecognized => "unrecognized"

def ofName (name : String) : MessageKind :=
  (all.find? (·.name == name)).getD unrecognized

theorem ofName_name (k : MessageKind) : ofName k.name = k := by
  cases k <;> decide

end MessageKind

/-- A message as it was understood: what it does, a flow or an answer that it names, and the values
that it gives for slots. -/
structure Reading where
  kind : MessageKind
  command : Option String
  slots : List (String × Value)
  confidence : Number.Single
  deriving DecidableEq, Repr

namespace Reading

/-- A reading of which there is no doubt. -/
def certain (kind : MessageKind) (command : Option String) (slots : List (String × Value)) :
    Reading :=
  ⟨kind, command, slots, .ofInt 1⟩

/-- The first value given for a slot. -/
def slot? (r : Reading) (name : String) : Option Value := Table.find name r.slots

def polarityOf? (command : String) : Option Bool :=
  let word := Text.trim command
  if ["affirm", "yes", "confirm", "true"].any (Text.spells word) then some true
  else if ["deny", "no", "reject", "false"].any (Text.spells word) then some false
  else none

/-- The first truth value among the values given. -/
def firstTruth? (slots : List (String × Value)) : Option Bool :=
  slots.findSome? fun (_, value) =>
    match value with
    | .truth b => some b
    | _ => none

/-- Yes or no: what the command says, or else the first truth value. -/
def polarity? (r : Reading) : Option Bool :=
  r.command.bind polarityOf? <|> firstTruth? r.slots

end Reading

end Colloquy
