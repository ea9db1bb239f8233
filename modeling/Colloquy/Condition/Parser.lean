import Colloquy.Condition.Basic

/-!
Reading conditions. The grammar over tokens:

    disjunction := conjunction ("or" conjunction)*
    conjunction := negation ("and" negation)*
    negation    := "not" negation | group
    group       := "(" disjunction ")" | word (comparison word)?

Both connectives lean to the left.
-/

set_option autoImplicit false

namespace Colloquy

namespace Condition

/-- A condition read from the front of `tokens`, and the tokens that follow it. -/
abbrev Front (tokens : List Token) :=
  { front : Condition × List Token // front.2.length < tokens.length }

/-- As `Front`, of tokens that may go on a condition already read. -/
abbrev Continued (tokens : List Token) :=
  { front : Condition × List Token // front.2.length ≤ tokens.length }

mutual

def disjunction (tokens : List Token) : Except ConditionError (Front tokens) := do
  let ⟨(left, rest), shorter⟩ ← conjunction tokens
  let ⟨front, shorter'⟩ ← disjuncts left rest
  return ⟨front, Nat.lt_of_le_of_lt shorter' shorter⟩
termination_by 5 * tokens.length + 3
decreasing_by all_goals simp_all; try omega

def disjuncts (left : Condition) (tokens : List Token) :
    Except ConditionError (Continued tokens) :=
  match tokens with
  | .disj :: tokens => do
    let ⟨(right, rest), shorter⟩ ← conjunction tokens
    let ⟨front, shorter'⟩ ← disjuncts (.or left right) rest
    return ⟨front, by simp only [List.length_cons] at *; omega⟩
  | tokens => .ok ⟨(left, tokens), Nat.le_refl _⟩
termination_by 5 * tokens.length
decreasing_by all_goals simp_all; try omega

def conjunction (tokens : List Token) : Except ConditionError (Front tokens) := do
  let ⟨(left, rest), shorter⟩ ← negation tokens
  let ⟨front, shorter'⟩ ← conjuncts left rest
  return ⟨front, Nat.lt_of_le_of_lt shorter' shorter⟩
termination_by 5 * tokens.length + 2
decreasing_by all_goals simp_all; try omega

def conjuncts (left : Condition) (tokens : List Token) :
    Except ConditionError (Continued tokens) :=
  match tokens with
  | .conj :: tokens => do
    let ⟨(right, rest), shorter⟩ ← negation tokens
    let ⟨front, shorter'⟩ ← conjuncts (.and left right) rest
    return ⟨front, by simp only [List.length_cons] at *; omega⟩
  | tokens => .ok ⟨(left, tokens), Nat.le_refl _⟩
termination_by 5 * tokens.length
decreasing_by all_goals simp_all; try omega

def negation (tokens : List Token) : Except ConditionError (Front tokens) :=
  match tokens with
  | .neg :: tokens => do
    let ⟨(c, rest), shorter⟩ ← negation tokens
    return ⟨(.not c, rest), Nat.lt_succ_of_lt shorter⟩
  | tokens => group tokens
termination_by 5 * tokens.length + 1
decreasing_by all_goals simp_all; try omega

def group (tokens : List Token) : Except ConditionError (Front tokens) :=
  match tokens with
  | .opening :: tokens => do
    let ⟨(c, rest), shorter⟩ ← disjunction tokens
    match rest, shorter with
    | .closing :: rest, shorter => return ⟨(c, rest), by simp only [List.length_cons] at *; omega⟩
    | other :: _, _ => throw (.unexpectedToken other .closing)
    | [], _ => throw (.unexpectedEnd .closing)
  | .word left :: .comparison op :: .word right :: tokens =>
    return ⟨(.compare op (.read left) (.read right), tokens), by simp only [List.length_cons]; omega⟩
  | .word _ :: .comparison _ :: other :: _ => throw (.unexpectedToken other .operand)
  | [.word _, .comparison _] => throw (.unexpectedEnd .operand)
  | .word word :: tokens => return ⟨(.operand (.read word), tokens), Nat.lt_succ_self _⟩
  | other :: _ => throw (.unexpectedToken other .operandOrGroup)
  | [] => throw (.unexpectedEnd .operandOrGroup)
termination_by 5 * tokens.length
decreasing_by all_goals simp_all; try omega

end

/-- Reads a condition from all of `tokens`, which are not none. -/
def ofTokens (tokens : List Token) : Except ConditionError Condition :=
  match disjunction tokens with
  | .ok ⟨(c, []), _⟩ => .ok c
  | .ok ⟨(_, other :: _), _⟩ => .error (.unexpectedToken other .theEnd)
  | .error e => .error e

def tokens (text : String) : Except ConditionError (List Token) :=
  match Token.split 0 text.toList with
  | .ok tokens => .ok tokens
  | .error (.unterminated, _, position) => .error (.unterminatedText position)
  | .error (.unexpected, c, position) => .error (.unexpectedCharacter c position)

def parse (text : String) : Except ConditionError Condition := do
  match ← tokens text with
  | [] => throw .empty
  | tokens => ofTokens tokens

end Condition

/-- A condition together with the text it was read from. -/
structure Predicate where
  source : String
  condition : Condition
  deriving DecidableEq, Repr

namespace Predicate

/-- Reads a condition and keeps its text without the white space around it. -/
def parse (text : String) : Except ConditionError Predicate :=
  (Condition.parse text).map (⟨Text.trim text, ·⟩)

def eval (p : Predicate) (slots : Slots) : Except ConditionError Bool :=
  p.condition.eval slots

end Predicate

end Colloquy
