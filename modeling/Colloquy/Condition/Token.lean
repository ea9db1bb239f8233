import Colloquy.Condition.Comparison

/-! The tokens of a condition's text. -/

set_option autoImplicit false

namespace Colloquy

inductive Token where
  | opening
  | closing
  | conj
  | disj
  | neg
  | comparison (op : Comparison)
  | word (text : String)
  deriving DecidableEq, Repr

namespace Token

/-- How a token is named in an error; keywords appear in small letters. -/
def text : Token → String
  | opening => "("
  | closing => ")"
  | conj => "and"
  | disj => "or"
  | neg => "not"
  | comparison op => op.symbol
  | word text => text

/-- The characters that end a word. -/
def isBoundary (c : Char) : Bool :=
  Text.isBlank c || c ∈ ['(', ')', '<', '>', '=', '!', '\'', '"']

/-- The token that a word is: a keyword in any letter case, or itself. -/
def ofWord (word : List Char) : Token :=
  let text := String.ofList word
  if Text.spells text "and" then conj
  else if Text.spells text "or" then disj
  else if Text.spells text "not" then neg
  else .word text

inductive Fault where
  | unterminated
  | unexpected
  deriving DecidableEq, Repr

-- The token that begins with `c`, which is not blank, and what follows it. A quoted word keeps its
-- quotes.
def next (c : Char) (rest : List Char) : Except Fault (Token × List Char) :=
  if c = '(' then .ok (opening, rest)
  else if c = ')' then .ok (closing, rest)
  else if c = '\'' ∨ c = '"' then
    match rest.dropWhile (· ≠ c) with
    | [] => .error .unterminated
    | quote :: after =>
      .ok (.word (String.ofList (c :: rest.takeWhile (· ≠ c) ++ [quote])), after)
  else match c, rest with
    | '=', '=' :: after => .ok (comparison .equal, after)
    | '!', '=' :: after => .ok (comparison .unequal, after)
    | '>', '=' :: after => .ok (comparison .greaterEqual, after)
    | '<', '=' :: after => .ok (comparison .lessEqual, after)
    | '>', _ => .ok (comparison .greater, rest)
    | '<', _ => .ok (comparison .less, rest)
    | '!', _ => .ok (neg, rest)
    | '=', _ => .error .unexpected
    | _, _ => .ok (ofWord (c :: rest.takeWhile (!isBoundary ·)), rest.dropWhile (!isBoundary ·))

theorem length_of_next {c : Char} {rest after : List Char} {token : Token}
    (h : next c rest = .ok (token, after)) : after.length ≤ rest.length := by
  have drop := fun p => (List.dropWhile_suffix p (l := rest)).length_le
  unfold next at h
  repeat' split at h
  all_goals simp only [Except.ok.injEq, Prod.mk.injEq, reduceCtorEq] at h
  all_goals obtain ⟨-, rfl⟩ := h
  all_goals simp_all
  case h_2 after eq => exact Nat.le_trans (by simp) (eq ▸ drop _)

/-- Splits a text into tokens. An error tells where it arose, counted in characters from
`position`. -/
def split (position : Nat) : List Char → Except (Fault × Char × Nat) (List Token)
  | [] => .ok []
  | c :: rest =>
    if Text.isBlank c then split (position + 1) rest
    else
      match _h : next c rest with
      | .error fault => .error (fault, c, position)
      | .ok (token, after) => (split (position + (rest.length - after.length) + 1) after).map (token :: ·)
termination_by cs => cs.length
decreasing_by
  · simp
  · have := length_of_next _h
    simp only [List.length_cons]
    omega

end Token

end Colloquy
