import Colloquy.Condition.Parser
import Colloquy.Proofs.Compile.Names

/-!
The grammar of conditions, as the trees that lists of tokens derive. The parser gives the tree that
the grammar derives, and an error if there is none: `justified`, `recognized`.
-/

set_option autoImplicit false

namespace Colloquy.Condition

inductive Phrase where
  | disjunction
  | conjunction
  | negation
  | group
  deriving DecidableEq, Repr

-- In a chain of one connective, what stands before the last connective is a chain itself: that is
-- how chains lean to the left.
/-- The tokens are a phrase of a kind and mean a condition. -/
inductive Derives : Phrase → List Token → Condition → Prop where
  | alone {tokens : List Token} {c : Condition} :
      Derives .conjunction tokens c → Derives .disjunction tokens c
  | or {before after : List Token} {left right : Condition} :
      Derives .disjunction before left → Derives .conjunction after right →
      Derives .disjunction (before ++ .disj :: after) (.or left right)
  | single {tokens : List Token} {c : Condition} :
      Derives .negation tokens c → Derives .conjunction tokens c
  | and {before after : List Token} {left right : Condition} :
      Derives .conjunction before left → Derives .negation after right →
      Derives .conjunction (before ++ .conj :: after) (.and left right)
  | plain {tokens : List Token} {c : Condition} :
      Derives .group tokens c → Derives .negation tokens c
  | not {tokens : List Token} {c : Condition} :
      Derives .negation tokens c → Derives .negation (.neg :: tokens) (.not c)
  | enclosed {tokens : List Token} {c : Condition} :
      Derives .disjunction tokens c → Derives .group (.opening :: (tokens ++ [.closing])) c
  | comparison (left right : String) (op : Comparison) :
      Derives .group [.word left, .comparison op, .word right]
        (.compare op (.read left) (.read right))
  | operand (word : String) : Derives .group [.word word] (.operand (.read word))

inductive Connective where
  | or
  | and

namespace Connective

def token : Connective → Token
  | or => .disj
  | and => .conj

def chain : Connective → Phrase
  | or => .disjunction
  | and => .conjunction

def part : Connective → Phrase
  | or => .conjunction
  | and => .negation

def join : Connective → Condition → Condition → Condition
  | or => .or
  | and => .and

end Connective

namespace Derives

variable {k : Connective} {tokens before after : List Token} {c left right : Condition}

theorem first (derived : Derives k.part tokens c) : Derives k.chain tokens c := by
  cases k with
  | or => exact .alone derived
  | and => exact .single derived

theorem next (chain : Derives k.chain before left) (derived : Derives k.part after right) :
    Derives k.chain (before ++ k.token :: after) (k.join left right) := by
  cases k with
  | or => exact .or chain derived
  | and => exact .and chain derived

end Derives

/-! ## The readers without their bounds -/

/-- What is read from the front of some tokens as a phrase of a kind, and the tokens that follow. -/
def read (phrase : Phrase) (tokens : List Token) : Except ConditionError (Condition × List Token) :=
  match phrase with
  | .disjunction => (disjunction tokens).map (·.1)
  | .conjunction => (conjunction tokens).map (·.1)
  | .negation => (negation tokens).map (·.1)
  | .group => (group tokens).map (·.1)

/-- As `read`, where the chain `left` has been read already. -/
def readOn (k : Connective) (left : Condition) (tokens : List Token) :
    Except ConditionError (Condition × List Token) :=
  match k with
  | .or => (disjuncts left tokens).map (·.1)
  | .and => (conjuncts left tokens).map (·.1)

theorem length_of_read {phrase : Phrase} {tokens rest : List Token} {c : Condition}
    (ok : read phrase tokens = .ok (c, rest)) : rest.length < tokens.length := by
  have bounded {front : Except ConditionError (Front tokens)}
      (ok : front.map (·.1) = .ok (c, rest)) : rest.length < tokens.length := by
    rcases front with _ | ⟨⟨c', rest'⟩, shorter⟩
    · cases ok
    · cases ok
      exact shorter
  cases phrase <;> exact bounded ok

theorem read_chain (k : Connective) (tokens : List Token) :
    read k.chain tokens = read k.part tokens >>= fun (left, rest) => readOn k left rest := by
  cases k with
  | or =>
    simp only [Connective.chain, Connective.part, read, readOn, disjunction]
    rcases conjunction tokens with _ | ⟨⟨left, rest⟩, shorter⟩
    · rfl
    · simp only [bind, Except.bind, Except.map]
      rcases disjuncts left rest with _ | _ <;> rfl
  | and =>
    simp only [Connective.chain, Connective.part, read, readOn, conjunction]
    rcases negation tokens with _ | ⟨⟨left, rest⟩, shorter⟩
    · rfl
    · simp only [bind, Except.bind, Except.map]
      rcases conjuncts left rest with _ | _ <;> rfl

theorem readOn_token (k : Connective) (left : Condition) (tokens : List Token) :
    readOn k left (k.token :: tokens) = read k.part tokens >>= fun (right, rest) =>
      readOn k (k.join left right) rest := by
  cases k with
  | or =>
    simp only [Connective.token, Connective.part, Connective.join, read, readOn, disjuncts]
    rcases conjunction tokens with _ | ⟨⟨right, rest⟩, shorter⟩
    · rfl
    · simp only [bind, Except.bind, Except.map]
      rcases disjuncts (.or left right) rest with _ | _ <;> rfl
  | and =>
    simp only [Connective.token, Connective.part, Connective.join, read, readOn, conjuncts]
    rcases negation tokens with _ | ⟨⟨right, rest⟩, shorter⟩
    · rfl
    · simp only [bind, Except.bind, Except.map]
      rcases conjuncts (.and left right) rest with _ | _ <;> rfl

theorem readOn_other (k : Connective) (left : Condition) {tokens : List Token}
    (other : ∀ rest, tokens ≠ k.token :: rest) : readOn k left tokens = .ok (left, tokens) := by
  cases k with
  | or =>
    rw [readOn, disjuncts]
    · rfl
    · exact other
  | and =>
    rw [readOn, conjuncts]
    · rfl
    · exact other

theorem read_neg (tokens : List Token) :
    read .negation (.neg :: tokens) = read .negation tokens >>= fun (c, rest) =>
      .ok (.not c, rest) := by
  simp only [read, negation]
  rcases negation tokens with _ | _ <;> rfl

theorem read_negation {tokens : List Token} (other : ∀ rest, tokens ≠ .neg :: rest) :
    read .negation tokens = read .group tokens := by
  simp only [read]
  rw [negation]
  exact other

theorem read_opening (tokens : List Token) :
    read .group (.opening :: tokens) = read .disjunction tokens >>= fun (c, rest) =>
      match rest with
      | .closing :: rest => .ok (c, rest)
      | other :: _ => .error (.unexpectedToken other .closing)
      | [] => .error (.unexpectedEnd .closing) := by
  simp only [read, group]
  rcases disjunction tokens with _ | ⟨⟨c, rest⟩, shorter⟩
  · rfl
  · rcases rest with _ | ⟨token, rest⟩
    · rfl
    · cases token <;> rfl

theorem read_word (word : String) {tokens : List Token}
    (other : ∀ op rest, tokens ≠ .comparison op :: rest) :
    read .group (.word word :: tokens) = .ok (.operand (.read word), tokens) := by
  simp only [read]
  rw [group]
  · rfl
  · exact fun op _ _ => other op _
  · exact fun op _ _ => other op _
  · exact fun op => other op _

/-! ## What is read is derived -/

/-- What is read from the tokens as a phrase of a kind is derived from those that it takes up. -/
def Justified (phrase : Phrase) (tokens : List Token) : Prop :=
  ∀ c rest, read phrase tokens = .ok (c, rest) →
    ∃ used, tokens = used ++ rest ∧ Derives phrase used c

def JustifiedOn (k : Connective) (left : Condition) (tokens : List Token) : Prop :=
  ∀ before c rest, Derives k.chain before left → readOn k left tokens = .ok (c, rest) →
    ∃ used, tokens = used ++ rest ∧ Derives k.chain (before ++ used) c

variable {k : Connective} {tokens : List Token} {left : Condition}

theorem JustifiedOn.token (part : Justified k.part tokens)
    (goesOn : ∀ right rest, rest.length < tokens.length →
      JustifiedOn k (k.join left right) rest) : JustifiedOn k left (k.token :: tokens) := by
  intro before c rest derived ok
  rw [readOn_token] at ok
  obtain ⟨⟨right, between⟩, second, more⟩ := bind_eq_ok.1 ok
  obtain ⟨used, rfl, derived'⟩ := part right between second
  obtain ⟨after, rfl, chain⟩ := goesOn right between (length_of_read second)
    (before ++ k.token :: used) c rest (derived.next derived') more
  exact ⟨k.token :: (used ++ after), by simp, by simpa using chain⟩

theorem JustifiedOn.other (other : ∀ rest, tokens ≠ k.token :: rest) :
    JustifiedOn k left tokens := by
  intro before c rest derived ok
  rw [readOn_other k left other] at ok
  cases ok
  exact ⟨[], rfl, by simpa using derived⟩

namespace Justified

theorem chain (part : Justified k.part tokens)
    (goesOn : ∀ left rest, rest.length < tokens.length → JustifiedOn k left rest) :
    Justified k.chain tokens := by
  intro c rest ok
  rw [read_chain] at ok
  obtain ⟨⟨left, between⟩, first, more⟩ := bind_eq_ok.1 ok
  obtain ⟨before, rfl, derived⟩ := part left between first
  obtain ⟨after, rfl, derived⟩ :=
    goesOn left between (length_of_read first) before c rest derived.first more
  exact ⟨before ++ after, (List.append_assoc ..).symm, derived⟩

theorem neg (inner : Justified .negation tokens) : Justified .negation (.neg :: tokens) := by
  intro c rest ok
  rw [read_neg] at ok
  obtain ⟨⟨c, rest⟩, first, same⟩ := bind_eq_ok.1 ok
  cases same
  obtain ⟨used, rfl, derived⟩ := inner c rest first
  exact ⟨.neg :: used, rfl, .not derived⟩

theorem plain (other : ∀ rest, tokens ≠ .neg :: rest) (inner : Justified .group tokens) :
    Justified .negation tokens := by
  intro c rest ok
  rw [read_negation other] at ok
  obtain ⟨used, same, derived⟩ := inner c rest ok
  exact ⟨used, same, .plain derived⟩

theorem opening (inner : Justified .disjunction tokens) :
    Justified .group (.opening :: tokens) := by
  intro c rest ok
  rw [read_opening] at ok
  obtain ⟨⟨c', between⟩, first, closes⟩ := bind_eq_ok.1 ok
  obtain ⟨used, rfl, derived⟩ := inner c' between first
  dsimp only at closes
  split at closes
  · cases closes
    exact ⟨.opening :: (used ++ [.closing]), by simp, .enclosed derived⟩
  · cases closes
  · cases closes

theorem word {word : String} : Justified .group (.word word :: tokens) := by
  intro c rest ok
  by_cases compares : ∃ op after, tokens = .comparison op :: after
  · obtain ⟨op, after, rfl⟩ := compares
    obtain ⟨right, rfl⟩ : ∃ right, after = .word right :: rest := by
      rcases after with _ | ⟨_ | _ | _ | _ | _ | _ | right, after⟩
      case cons.word => 
        simp only [read, group] at ok
        cases ok
        exact ⟨right, rfl⟩
      all_goals
        simp only [read, group] at ok
        cases ok
    simp only [read, group] at ok
    cases ok
    exact ⟨_, rfl, .comparison word right op⟩
  · rw [read_word word fun op after same => compares ⟨op, after, same⟩] at ok
    cases ok
    exact ⟨[.word word], rfl, .operand word⟩

theorem group (inner : ∀ rest, tokens = .opening :: rest → Justified .disjunction rest) :
    Justified .group tokens := by
  have nothing {e : ConditionError} (fails : read .group tokens = .error e) :
      Justified .group tokens := by
    intro c rest ok
    cases fails.symm.trans ok
  cases tokens with
  | nil => exact nothing (by simp only [read, Condition.group]; rfl)
  | cons token tokens =>
    cases token with
    | opening => exact (inner _ rfl).opening
    | word word => exact .word
    | _ => exact nothing (by simp only [read, Condition.group]; rfl)

end Justified

-- The induction is that of the readers.
theorem justified (tokens : List Token) : Justified .disjunction tokens := by
  refine (disjunction.mutual_induct (Justified .disjunction) (JustifiedOn .or)
    (Justified .conjunction) (JustifiedOn .and) (Justified .negation) (Justified .group)
    ?_ ?_ ?_ ?_ ?_ ?_ ?_ ?_ ?_ ?_ ?_ ?_ ?_ ?_ ?_).1 tokens
  -- chains of "or", then chains of "and": a chain, one more part of it, and its end
  · exact fun _ part goesOn => .chain (k := .or) part goesOn
  · exact fun _ _ part goesOn => .token (k := .or) part goesOn
  · exact fun _ _ other => .other other
  · exact fun _ part goesOn => .chain (k := .and) part goesOn
  · exact fun _ _ part goesOn => .token (k := .and) part goesOn
  · exact fun _ _ other => .other other
  -- negations
  · exact fun _ inner => inner.neg
  · exact fun _ other inner => inner.plain other
  -- groups: parentheses, the four ways to go on after a word, and what is no group
  · exact fun _ inner => inner.opening
  · exact fun _ _ _ _ => .word
  · exact fun _ _ _ _ _ => .word
  · exact fun _ _ => .word
  · exact fun _ _ _ _ _ => .word
  · exact fun _ _ other _ _ _ _ => .group fun _ same => absurd (List.cons.inj same).1 other
  · exact .group fun _ same => nomatch same

theorem derives_of_ofTokens {tokens : List Token} {c : Condition} (ok : ofTokens tokens = .ok c) :
    Derives .disjunction tokens c := by
  have whole : read .disjunction tokens = .ok (c, []) := by
    unfold ofTokens at ok
    split at ok
    · next front => cases ok; simp only [read, front]; rfl
    · cases ok
    · cases ok
  obtain ⟨used, same, derived⟩ := justified tokens c [] whole
  rw [same, List.append_nil]
  exact derived

/-! ## What is derived is read -/

/-- Whether a phrase of a kind may stand before a token: then the last of its parts ends there. -/
def Phrase.precedes : Phrase → Token → Bool
  | _, .comparison _ => false
  | .disjunction, .conj => false
  | _, _ => true

def Phrase.goOn (phrase : Phrase) (c : Condition) (rest : List Token) :
    Except ConditionError (Condition × List Token) :=
  match phrase with
  | .disjunction => readOn .or c rest
  | .conjunction => readOn .and c rest
  | .negation | .group => .ok (c, rest)

theorem Connective.goOn_chain (k : Connective) (c : Condition) (rest : List Token) :
    k.chain.goOn c rest = readOn k c rest := by
  cases k <;> rfl

theorem Connective.precedes_token (k : Connective) : k.chain.precedes k.token = true := by
  cases k <;> rfl

theorem Connective.precedes_part {k : Connective} {token : Token}
    (precedes : k.chain.precedes token = true) : k.part.precedes token = true := by
  cases k <;> cases token <;> simp_all [chain, part, Phrase.precedes]

theorem Connective.goOn_part {k : Connective} {rest : List Token}
    (stops : ∀ token ∈ rest.head?, k.chain.precedes token = true) (c : Condition) :
    k.part.goOn c rest = .ok (c, rest) := by
  cases k with
  | or =>
    refine readOn_other .and c ?_
    rintro rest' rfl
    cases stops _ rfl
  | and => rfl

/-- The tokens are read as a phrase of a kind wherever it may stand, and the phrase is gone on with
if it can be. -/
def Recognized (phrase : Phrase) (tokens : List Token) (c : Condition) : Prop :=
  ∀ rest : List Token, (∀ token ∈ rest.head?, phrase.precedes token = true) →
    read phrase (tokens ++ rest) = phrase.goOn c rest

namespace Recognized

variable {k : Connective} {tokens before after : List Token} {c left right : Condition}

theorem first (part : Recognized k.part tokens c) : Recognized k.chain tokens c := by
  intro rest stops
  have ends := part rest fun token head => Connective.precedes_part (stops token head)
  rw [Connective.goOn_part stops] at ends
  simp only [read_chain, ends, Connective.goOn_chain]
  rfl

theorem next (chain : Recognized k.chain before left) (part : Recognized k.part after right) :
    Recognized k.chain (before ++ k.token :: after) (k.join left right) := by
  intro rest stops
  have begins := chain (k.token :: (after ++ rest))
    (by rintro _ ⟨⟩; exact k.precedes_token)
  have ends := part rest fun token head => Connective.precedes_part (stops token head)
  rw [Connective.goOn_part stops] at ends
  calc read k.chain (before ++ k.token :: after ++ rest)
      = read k.chain (before ++ k.token :: (after ++ rest)) := by simp
    _ = readOn k left (k.token :: (after ++ rest)) := by rw [begins, k.goOn_chain]
    _ = readOn k (k.join left right) rest := by rw [readOn_token, ends]; rfl
    _ = k.chain.goOn (k.join left right) rest := (k.goOn_chain ..).symm

theorem plain (derived : Derives .group tokens c) (group : Recognized .group tokens c) :
    Recognized .negation tokens c := by
  intro rest stops
  have other : ∀ rest', tokens ++ rest ≠ .neg :: rest' := by
    intro rest'
    cases derived <;> simp
  have same (token : Token) : Phrase.group.precedes token = Phrase.negation.precedes token := by
    cases token <;> rfl
  rw [read_negation other, group rest fun token head => (same token).trans (stops token head)]
  rfl

theorem not (inner : Recognized .negation tokens c) :
    Recognized .negation (.neg :: tokens) (.not c) := by
  intro rest stops
  rw [List.cons_append, read_neg, inner rest stops]
  rfl

theorem enclosed (inner : Recognized .disjunction tokens c) :
    Recognized .group (.opening :: (tokens ++ [.closing])) c := by
  intro rest stops
  have closes : readOn .or c (.closing :: rest) = .ok (c, .closing :: rest) :=
    readOn_other .or c (by rintro _ ⟨⟩)
  have ends := inner (.closing :: rest) (by rintro _ ⟨⟩; rfl)
  calc read .group (.opening :: (tokens ++ [.closing]) ++ rest)
      = read .group (.opening :: (tokens ++ .closing :: rest)) := by simp
    _ = .ok (c, rest) := by
      rw [read_opening, ends, Phrase.goOn, closes]
      rfl

theorem comparison (left right : String) (op : Comparison) :
    Recognized .group [.word left, .comparison op, .word right]
      (.compare op (.read left) (.read right)) := by
  intro rest _
  simp only [List.cons_append, List.nil_append, read, group]
  rfl

theorem operand (word : String) : Recognized .group [.word word] (.operand (.read word)) := by
  intro rest stops
  refine read_word word ?_
  rintro op rest' rfl
  cases stops _ rfl

end Recognized

theorem recognized {phrase : Phrase} {tokens : List Token} {c : Condition}
    (derived : Derives phrase tokens c) : Recognized phrase tokens c := by
  induction derived with
  | alone _ part => exact .first (k := .or) part
  | or _ _ chain part => exact .next (k := .or) chain part
  | single _ part => exact .first (k := .and) part
  | and _ _ chain part => exact .next (k := .and) chain part
  | plain derived group => exact .plain derived group
  | not _ inner => exact inner.not
  | enclosed _ inner => exact inner.enclosed
  | comparison left right op => exact .comparison left right op
  | operand word => exact .operand word

theorem ofTokens_of_derives {tokens : List Token} {c : Condition}
    (derived : Derives .disjunction tokens c) : ofTokens tokens = .ok c := by
  have whole : read .disjunction tokens = .ok (c, []) := by
    have ends := recognized derived [] (by simp)
    rw [List.append_nil] at ends
    exact ends.trans (readOn_other .or c (by simp))
  unfold ofTokens
  simp only [read] at whole
  cases front : disjunction tokens with
  | error e => rw [front] at whole; cases whole
  | ok front' =>
    obtain ⟨⟨c', rest⟩, shorter⟩ := front'
    rw [front] at whole
    cases whole
    rfl

/-! ## Writing -/

def operands : Condition → List Operand
  | operand x => [x]
  | compare _ left right => [left, right]
  | not c => c.operands
  | and left right | or left right => left.operands ++ right.operands

def enclose (tokens : List Token) : List Token := .opening :: (tokens ++ [.closing])

/-- The tokens of a condition whose operands are spelled by `spell`; each part of a compound stands
in parentheses. -/
def written (spell : Operand → String) : Condition → List Token
  | operand x => [.word (spell x)]
  | compare op left right => [.word (spell left), .comparison op, .word (spell right)]
  | not c => .neg :: enclose (c.written spell)
  | and left right => enclose (left.written spell) ++ .conj :: enclose (right.written spell)
  | or left right => enclose (left.written spell) ++ .disj :: enclose (right.written spell)

theorem derives_written {spell : Operand → String} {c : Condition}
    (spelled : ∀ x ∈ c.operands, Operand.read (spell x) = x) :
    Derives .disjunction (c.written spell) c := by
  induction c with
  | operand x =>
    have word := Derives.operand (spell x)
    rw [spelled x (by simp [operands])] at word
    exact .alone (.single (.plain word))
  | compare op left right =>
    have words := Derives.comparison (spell left) (spell right) op
    rw [spelled left (by simp [operands]), spelled right (by simp [operands])] at words
    exact .alone (.single (.plain words))
  | not c ih => exact .alone (.single (.not (.plain (.enclosed (ih spelled)))))
  | and left right left_ih right_ih =>
    obtain ⟨onLeft, onRight⟩ := List.forall_mem_append.1 spelled
    exact .alone (.and (.single (.plain (.enclosed (left_ih onLeft))))
      (.plain (.enclosed (right_ih onRight))))
  | or left right left_ih right_ih =>
    obtain ⟨onLeft, onRight⟩ := List.forall_mem_append.1 spelled
    exact .or (.alone (.single (.plain (.enclosed (left_ih onLeft)))))
      (.single (.plain (.enclosed (right_ih onRight))))

/-- The parser accepts just what the grammar derives, and gives the one condition that it derives;
and it gives back every condition that is written in full parentheses. -/
theorem ofTokens_eq_ok_iff_derives (tokens : List Token) (c : Condition) :
    (ofTokens tokens = .ok c ↔ Derives .disjunction tokens c) ∧
      (∀ c', Derives .disjunction tokens c → Derives .disjunction tokens c' → c = c') ∧
      ∀ spell : Operand → String, (∀ x ∈ c.operands, Operand.read (spell x) = x) →
        ofTokens (c.written spell) = .ok c := by
  refine ⟨⟨derives_of_ofTokens, ofTokens_of_derives⟩, ?_, ?_⟩
  · intro c' derived derived'
    have same := (ofTokens_of_derives derived).symm.trans (ofTokens_of_derives derived')
    exact Except.ok.inj same
  · intro spell spelled
    exact ofTokens_of_derives (derives_written spelled)

def plainly : Operand → String
  | .slot name => name
  | .literal value => value.display

def mixed : Condition :=
  .or (.operand (.slot "a"))
    (.and (.not (.operand (.slot "b"))) (.compare .less (.slot "c") (.literal (.integer 3))))

theorem ofTokens_eq_ok_iff_derives_mixed :
    (ofTokens [.word "a", .disj, .neg, .word "b", .conj, .word "c", .comparison .less,
          .word "3"] = .ok mixed ∧
        Derives .disjunction [.word "a", .disj, .neg, .word "b", .conj, .word "c",
          .comparison .less, .word "3"] mixed) ∧
      (∀ x ∈ mixed.operands, Operand.read (plainly x) = x) ∧
      ofTokens (mixed.written plainly) = .ok mixed := by
  have a : Operand.read "a" = .slot "a" := rfl
  have b : Operand.read "b" = .slot "b" := rfl
  have c : Operand.read "c" = .slot "c" := rfl
  have three : Operand.read "3" = .literal (.integer 3) := by decide +kernel
  have derived := Derives.or (.alone (.single (.plain (.operand "a"))))
    (.and (.single (.not (.plain (.operand "b")))) (.plain (.comparison "c" "3" .less)))
  rw [a, b, c, three] at derived
  have spelled : ∀ x ∈ mixed.operands, Operand.read (plainly x) = x := by
    simp only [mixed, operands, List.cons_append, List.nil_append, List.forall_mem_cons]
    exact ⟨a, b, c, three, by simp⟩
  exact ⟨⟨(ofTokens_eq_ok_iff_derives _ mixed).1.2 derived, derived⟩, spelled,
    (ofTokens_eq_ok_iff_derives [] mixed).2.2 plainly spelled⟩

end Colloquy.Condition
