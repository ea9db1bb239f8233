import Colloquy.Condition.Parser
import Colloquy.Proofs.Text

/-!
The text of a condition and its tokens. Tokens that are written apart are read back, whatever the
white space between them: `Token.split_of_spaced`. White space around a text is of no account, so
that a condition is read again from what is kept of its text: `Condition.parse_trim`.
-/

set_option autoImplicit false

namespace Colloquy

namespace Token

open Text (Blank isBlank span_append span_exact span_until)

def marks : List Char := ['(', ')', '<', '>', '=', '!', '\'', '"']

def keywords : List (String × Token) := [("and", .conj), ("or", .disj), ("not", .neg)]

/-- The ways of writing a token: keywords in any letter case, other words as they are, with or
without quotes. -/
inductive Spelled : Token → List Char → Prop where
  | opening : Spelled .opening ['(']
  | closing : Spelled .closing [')']
  | comparison (op : Comparison) : Spelled (.comparison op) op.symbol.toList
  | keyword {word keyword : String} {token : Token} : (keyword, token) ∈ keywords →
      Text.spells word keyword = true → Spelled token word.toList
  | mark : Spelled .neg ['!']
  | bare {word : String} : word ≠ "" →
      (∀ c ∈ word.toList, isBlank c = false ∧ c ∉ marks) →
      (∀ entry ∈ keywords, Text.spells word entry.1 = false) →
      Spelled (.word word) word.toList
  | quoted {quote : Char} {inner : List Char} : quote = '\'' ∨ quote = '"' → quote ∉ inner →
      Spelled (.word (String.ofList (quote :: (inner ++ [quote])))) (quote :: (inner ++ [quote]))

/-- Tokens with some white space between any two of them, and with any around them. -/
inductive Spaced : List Token → List Char → Prop where
  | none {gap : List Char} : Blank gap → Spaced [] gap
  | last {before word after : List Char} {token : Token} :
      Blank before → Spelled token word → Blank after → Spaced [token] (before ++ (word ++ after))
  | more {before word gap rest : List Char} {token : Token} {tokens : List Token} :
      Blank before → Spelled token word → Blank gap → gap ≠ [] → Spaced tokens rest →
      Spaced (token :: tokens) (before ++ (word ++ (gap ++ rest)))

/-! ## One token -/

/-- No token goes on into what follows: white space, if anything. -/
def Apart (rest : List Char) : Prop := ∀ c ∈ rest.head?, isBlank c = true

variable {c : Char} {cs rest after gap : List Char} {token : Token} {tokens : List Token}

theorem apart_of_blank (blank : Blank gap) : Apart gap :=
  fun c first => blank c (List.mem_of_mem_head? first)

theorem apart_append (blank : Blank gap) (some' : gap ≠ []) : Apart (gap ++ rest) := by
  cases gap with
  | nil => exact absurd rfl some'
  | cons c gap =>
    intro d first
    cases first
    exact blank c List.mem_cons_self

theorem isBoundary_of_isBlank (blank : isBlank c = true) : isBoundary c = true := by
  simp [isBoundary, blank]

theorem ne_of_isBlank {mark : Char} (blank : isBlank c = true) (notBlank : isBlank mark = false) :
    c ≠ mark := by
  rintro rfl
  cases notBlank.symm.trans blank

theorem not_isBoundary (notBlank : isBlank c = false) (notMark : c ∉ marks) :
    isBoundary c = false := by
  simp only [isBoundary, notBlank, Bool.false_or, decide_eq_false_iff_not]
  exact notMark

theorem stops_of_apart (apart : Apart rest) : ∀ c ∈ rest.head?, (!isBoundary c) = false :=
  fun c first => by simp [isBoundary_of_isBlank (apart c first)]

theorem next_of_plain (plain : isBoundary c = false) (rest : List Char) : next c rest =
    .ok (ofWord (c :: rest.takeWhile (!isBoundary ·)), rest.dropWhile (!isBoundary ·)) := by
  have other {mark : Char} (bounds : isBoundary mark = true) : c ≠ mark := by
    rintro rfl
    exact absurd plain (by simp [bounds])
  unfold next
  rw [if_neg (other rfl), if_neg (other rfl), if_neg (not_or.2 ⟨other rfl, other rfl⟩)]
  split
  case h_9 => rfl
  all_goals exact absurd rfl (other rfl)

theorem next_of_bare (plain : ∀ d ∈ c :: cs, isBoundary d = false) (apart : Apart rest) :
    next c (cs ++ rest) = .ok (ofWord (c :: cs), rest) := by
  obtain ⟨first, others⟩ := List.forall_mem_cons.1 plain
  have inside : ∀ d ∈ cs, (!isBoundary d) = true := fun d member => by simp [others d member]
  obtain ⟨word, following⟩ := span_exact inside (stops_of_apart apart)
  rw [next_of_plain first, word, following]

theorem toLower_of_isBoundary (bounds : isBoundary c = true) : c.toLower = c := by
  refine dif_neg ?_
  rintro ⟨low, high⟩
  replace low : 65 ≤ c.toNat := UInt32.le_iff_toNat_le.1 low
  replace high : c.toNat ≤ 90 := UInt32.le_iff_toNat_le.1 high
  simp only [isBoundary, Bool.or_eq_true, decide_eq_true_eq, List.mem_cons, List.not_mem_nil,
    or_false] at bounds
  rcases bounds with blank | mark
  · simp only [isBlank, Bool.or_eq_true, Bool.and_eq_true, decide_eq_true_eq, beq_iff_eq] at blank
    omega
  · rcases mark with rfl | rfl | rfl | rfl | rfl | rfl | rfl | rfl <;> revert low <;> decide

theorem plain_of_spells {word keyword : String} (same : Text.spells word keyword = true)
    (plain : keyword.toList.any (isBoundary ·.toLower) = false) :
    ∀ c ∈ word.toList, isBoundary c = false := by
  have letters : word.toList.map Char.toLower = keyword.toList.map Char.toLower :=
    String.ofList_injective (by simpa [Text.spells, Text.lower] using same)
  intro c member
  cases bounds : isBoundary c with
  | false => rfl
  | true =>
    have found : c ∈ keyword.toList.map Char.toLower :=
      letters ▸ List.mem_map.2 ⟨c, member, toLower_of_isBoundary bounds⟩
    obtain ⟨d, letter, rfl⟩ := List.mem_map.1 found
    exact absurd bounds (List.any_eq_false.1 plain d letter)

theorem spells_of_spells {word keyword : String} (same : Text.spells word keyword = true)
    (other : String) : Text.spells word other = Text.spells keyword other := by
  rw [Text.spells, eq_of_beq same, Text.spells]

theorem ofWord_of_keyword {word keyword : String} (known : (keyword, token) ∈ keywords)
    (same : Text.spells word keyword = true) : word ≠ "" ∧
      (∀ c ∈ word.toList, isBoundary c = false) ∧ ofWord word.toList = token := by
  have other := spells_of_spells same
  simp only [keywords, List.mem_cons, Prod.mk.injEq, List.not_mem_nil, or_false] at known
  simp only [ofWord, String.ofList_toList, other]
  rcases known with ⟨rfl, rfl⟩ | ⟨rfl, rfl⟩ | ⟨rfl, rfl⟩
  all_goals
    refine ⟨?_, plain_of_spells same rfl, rfl⟩
    rintro rfl
    exact absurd same (by decide)

theorem ofWord_of_bare {word : String}
    (other : ∀ entry ∈ keywords, Text.spells word entry.1 = false) :
    ofWord word.toList = .word word := by
  simp only [keywords, List.forall_mem_cons] at other
  obtain ⟨conj, disj, neg, -⟩ := other
  simp [ofWord, conj, disj, neg]

theorem next_of_word {word : String} (nonempty : word ≠ "")
    (plain : ∀ c ∈ word.toList, isBoundary c = false) (apart : Apart rest) :
    ∃ c cs, word.toList = c :: cs ∧ isBlank c = false ∧
      next c (cs ++ rest) = .ok (ofWord word.toList, rest) := by
  cases letters : word.toList with
  | nil => exact absurd (String.toList_eq_nil_iff.1 letters) nonempty
  | cons c cs =>
    rw [letters] at plain
    refine ⟨c, cs, rfl, ?_, next_of_bare plain apart⟩
    cases blank : isBlank c with
    | false => rfl
    | true => exact (isBoundary_of_isBlank blank).symm.trans (plain c List.mem_cons_self)

section
variable {quote close : Char} (isQuote : quote = '\'' ∨ quote = '"')

include isQuote

theorem next_of_closed (closes : rest.dropWhile (· ≠ quote) = close :: after) :
    next quote rest =
      .ok (.word (String.ofList (quote :: rest.takeWhile (· ≠ quote) ++ [close])), after) := by
  have opening : quote ≠ '(' := by rcases isQuote with rfl | rfl <;> decide
  have closing : quote ≠ ')' := by rcases isQuote with rfl | rfl <;> decide
  unfold next
  rw [if_neg opening, if_neg closing, if_pos isQuote, closes]

theorem next_of_open (opens : rest.dropWhile (· ≠ quote) = []) :
    next quote rest = .error .unterminated := by
  have opening : quote ≠ '(' := by rcases isQuote with rfl | rfl <;> decide
  have closing : quote ≠ ')' := by rcases isQuote with rfl | rfl <;> decide
  unfold next
  rw [if_neg opening, if_neg closing, if_pos isQuote, opens]

theorem next_of_quoted {inner : List Char} (absent : quote ∉ inner) (rest : List Char) :
    next quote ((inner ++ [quote]) ++ rest) =
      .ok (.word (String.ofList (quote :: (inner ++ [quote]))), rest) := by
  obtain ⟨word, following⟩ := span_until absent rest
  rw [List.append_assoc, List.singleton_append, next_of_closed isQuote following, word]
  rfl

end

theorem next_of_mark (apart : Apart rest) : next '>' rest = .ok (.comparison .greater, rest) ∧
    next '<' rest = .ok (.comparison .less, rest) ∧ next '!' rest = .ok (.neg, rest) := by
  cases rest with
  | nil => exact ⟨rfl, rfl, rfl⟩
  | cons d rest =>
    have other : d ≠ '=' := ne_of_isBlank (apart d rfl) rfl
    simp [next, other]

theorem next_of_spelled {word : List Char} (spelled : Spelled token word) (apart : Apart rest) :
    ∃ c cs, word = c :: cs ∧ isBlank c = false ∧ next c (cs ++ rest) = .ok (token, rest) := by
  obtain ⟨greater, less, mark⟩ := next_of_mark apart
  cases spelled with
  | opening => exact ⟨'(', [], rfl, rfl, rfl⟩
  | closing => exact ⟨')', [], rfl, rfl, rfl⟩
  | comparison op =>
    cases op with
    | equal => exact ⟨'=', ['='], rfl, rfl, rfl⟩
    | unequal => exact ⟨'!', ['='], rfl, rfl, rfl⟩
    | greaterEqual => exact ⟨'>', ['='], rfl, rfl, rfl⟩
    | lessEqual => exact ⟨'<', ['='], rfl, rfl, rfl⟩
    | greater => exact ⟨'>', [], rfl, rfl, greater⟩
    | less => exact ⟨'<', [], rfl, rfl, less⟩
  | mark => exact ⟨'!', [], rfl, rfl, mark⟩
  | keyword known same =>
    obtain ⟨nonempty, plain, means⟩ := ofWord_of_keyword known same
    exact means ▸ next_of_word nonempty plain apart
  | bare nonempty plain other =>
    have inside := fun c member => not_isBoundary (plain c member).1 (plain c member).2
    exact ofWord_of_bare other ▸ next_of_word nonempty inside apart
  | quoted isQuote absent =>
    refine ⟨_, _, rfl, ?_, next_of_quoted isQuote absent rest⟩
    rcases isQuote with rfl | rfl <;> rfl

/-! ## All tokens -/

theorem split_nil (position : Nat) : split position [] = .ok [] := by
  rw [split.eq_def]

theorem split_cons (blank : isBlank c = true) (position : Nat) (rest : List Char) :
    split position (c :: rest) = split (position + 1) rest := by
  rw [split.eq_def]
  exact if_pos blank

theorem split_next (notBlank : isBlank c = false) (position : Nat)
    (begins : next c rest = .ok (token, after)) : split position (c :: rest) =
      (split (position + (rest.length - after.length) + 1) after).map (token :: ·) := by
  rw [split.eq_def]
  refine (if_neg (by simp [notBlank])).trans ?_
  split
  · next fails => cases begins.symm.trans fails
  · next begins' =>
    cases begins.symm.trans begins'
    rfl

theorem split_fault {fault : Fault} (notBlank : isBlank c = false) (position : Nat)
    (fails : next c rest = .error fault) :
    split position (c :: rest) = .error (fault, c, position) := by
  rw [split.eq_def]
  refine (if_neg (by simp [notBlank])).trans ?_
  split
  · next fails' =>
    cases fails.symm.trans fails'
    rfl
  · next begins => cases fails.symm.trans begins

theorem split_blank (blank : Blank gap) (position : Nat) (cs : List Char) :
    split position (gap ++ cs) = split (position + gap.length) cs := by
  induction gap generalizing position with
  | nil => rfl
  | cons c gap ih =>
    obtain ⟨first, others⟩ := Text.blank_cons.1 blank
    rw [List.cons_append, split_cons first, ih others, List.length_cons, Nat.add_right_comm,
      Nat.add_assoc]

theorem split_of_blank (blank : Blank gap) (position : Nat) : split position gap = .ok [] := by
  have passed := split_blank blank position []
  rwa [List.append_nil, split_nil] at passed

theorem split_spelled {word : List Char} (spelled : Spelled token word) (apart : Apart rest)
    (ok : ∀ position, split position rest = .ok tokens) (position : Nat) :
    split position (word ++ rest) = .ok (token :: tokens) := by
  obtain ⟨c, cs, rfl, notBlank, begins⟩ := next_of_spelled spelled apart
  rw [List.cons_append, split_next notBlank position begins, ok]
  rfl

/-- Tokens that are written apart are read back. -/
theorem split_of_spaced (spaced : Spaced tokens cs) (position : Nat) :
    split position cs = .ok tokens := by
  induction spaced generalizing position with
  | none blank => exact split_of_blank blank position
  | last before spelled after =>
    rw [split_blank before]
    exact split_spelled spelled (apart_of_blank after) (split_of_blank after) _
  | more before spelled gap some' _ ih =>
    rw [split_blank before]
    refine split_spelled spelled (apart_append gap some') (fun position => ?_) _
    rw [split_blank gap, ih]

/-! ## White space around a text -/

theorem next_quote_append (blank : Blank gap) (isQuote : c = '\'' ∨ c = '"')
    (rest : List Char) :
    next c (rest ++ gap) = (next c rest).map fun (token, after) => (token, after ++ gap) := by
  have notBlank : isBlank c = false := by rcases isQuote with rfl | rfl <;> rfl
  have passed : ∀ d ∈ gap, decide (d ≠ c) = true := fun d member =>
    decide_eq_true (ne_of_isBlank (blank d member) notBlank)
  have behind : (rest ++ gap).dropWhile (· ≠ c) = if (rest.dropWhile (· ≠ c)).isEmpty then
      gap.dropWhile (· ≠ c) else rest.dropWhile (· ≠ c) ++ gap := List.dropWhile_append
  cases closes : rest.dropWhile (· ≠ c) with
  | nil =>
    rw [closes, List.isEmpty_nil, if_pos rfl, List.dropWhile_eq_nil_iff.2 passed] at behind
    rw [next_of_open isQuote closes, next_of_open isQuote behind]
    rfl
  | cons close after =>
    rw [closes] at behind
    have word : (rest ++ gap).takeWhile (· ≠ c) = rest.takeWhile (· ≠ c) := by
      rw [List.takeWhile_append, if_neg]
      intro all
      have whole := List.takeWhile_append_dropWhile (p := (decide <| · ≠ c)) (l := rest)
      have lengths := congrArg List.length whole
      rw [closes, List.length_append, all] at lengths
      simp at lengths
    rw [next_of_closed isQuote closes, next_of_closed isQuote behind, word]
    rfl

theorem next_mark_append {mark : Char} (blank : Blank gap) (rest : List Char)
    (isMark : mark ∈ ['<', '>', '=', '!']) :
    next mark (rest ++ gap) = (next mark rest).map fun (token, after) => (token, after ++ gap) := by
  simp only [List.mem_cons, List.not_mem_nil, or_false] at isMark
  cases rest with
  | nil =>
    cases gap with
    | nil => rcases isMark with rfl | rfl | rfl | rfl <;> rfl
    | cons d gap =>
      have other : d ≠ '=' := ne_of_isBlank (blank d List.mem_cons_self) rfl
      rcases isMark with rfl | rfl | rfl | rfl <;> simp [next, other, Except.map]
  | cons d rest =>
    by_cases equals : d = '='
    · subst equals
      rcases isMark with rfl | rfl | rfl | rfl <;> rfl
    · rcases isMark with rfl | rfl | rfl | rfl <;> simp [next, equals, Except.map]

theorem next_append_blank (blank : Blank gap) (notBlank : isBlank c = false) (rest : List Char) :
    next c (rest ++ gap) = (next c rest).map fun (token, after) => (token, after ++ gap) := by
  cases plain : isBoundary c with
  | false =>
    obtain ⟨word, following⟩ := span_append (stops_of_apart (apart_of_blank blank)) rest
    rw [next_of_plain plain, next_of_plain plain, word, following]
    rfl
  | true =>
    simp only [isBoundary, notBlank, Bool.false_or, decide_eq_true_eq, List.mem_cons,
      List.not_mem_nil, or_false] at plain
    rcases plain with rfl | rfl | rfl | rfl | rfl | rfl | isQuote
    case inl | inr.inl => rfl
    case inr.inr.inr.inr.inr.inr => exact next_quote_append blank isQuote rest
    all_goals exact next_mark_append blank rest (by decide)

theorem split_append_blank (blank : Blank gap) (position : Nat) (cs : List Char) :
    split position (cs ++ gap) = split position cs := by
  fun_induction split position cs with
  | case1 position => exact split_of_blank blank position
  | case2 position c rest isBlank ih =>
    rw [List.cons_append, split_cons isBlank, ih]
  | case3 position c rest notBlank fault fails =>
    replace notBlank := Bool.eq_false_iff.2 notBlank
    have fails' : next c (rest ++ gap) = .error fault := by
      rw [next_append_blank blank notBlank, fails]
      rfl
    exact split_fault notBlank position fails'
  | case4 position c rest notBlank token after begins ih =>
    replace notBlank := Bool.eq_false_iff.2 notBlank
    have begins' : next c (rest ++ gap) = .ok (token, after ++ gap) := by
      rw [next_append_blank blank notBlank, begins]
      rfl
    -- What is behind the text counts before the token as after it: positions stay as they are.
    rw [List.cons_append, split_next notBlank position begins', List.length_append,
      List.length_append, Nat.add_sub_add_right, ih]

/-- Where a text begins matters only to its errors. -/
theorem split_ok_anywhere {position : Nat} (ok : split position cs = .ok tokens)
    (position' : Nat) : split position' cs = .ok tokens := by
  fun_induction split position cs generalizing position' tokens with
  | case1 position => rw [← ok, split_nil]
  | case2 position c rest isBlank ih =>
    rw [split_cons isBlank, ih ok]
  | case3 position c rest notBlank fault fails => cases ok
  | case4 position c rest notBlank token after begins ih =>
    rw [split_next (Bool.eq_false_iff.2 notBlank) position' begins]
    cases following : split (position + (rest.length - after.length) + 1) after with
    | error e =>
      rw [following] at ok
      cases ok
    | ok others =>
      rw [following] at ok
      cases ok
      rw [ih following]
      rfl

theorem split_trimChars {position : Nat} (ok : split position cs = .ok tokens) (position' : Nat) :
    split position' (Text.trimChars cs) = .ok tokens := by
  obtain ⟨before, after, blank, blank', whole⟩ := Text.exists_trimChars cs
  rw [whole, split_blank blank, split_append_blank blank'] at ok
  exact split_ok_anywhere ok position'

end Token

namespace Condition

theorem tokens_eq_ok_iff {text : String} {tokens : List Token} :
    Condition.tokens text = .ok tokens ↔ Token.split 0 text.toList = .ok tokens := by
  unfold Condition.tokens
  split <;> simp_all

theorem tokens_trim {text : String} {tokens : List Token}
    (ok : Condition.tokens text = .ok tokens) : Condition.tokens (Text.trim text) = .ok tokens := by
  rw [tokens_eq_ok_iff] at ok ⊢
  rw [Text.toList_trim]
  exact Token.split_trimChars ok 0

theorem parse_trim {text : String} {c : Condition} (ok : parse text = .ok c) :
    parse (Text.trim text) = .ok c := by
  unfold parse at ok ⊢
  cases found : Condition.tokens text with
  | error e =>
    rw [found] at ok
    cases ok
  | ok tokens =>
    rw [found] at ok
    rw [tokens_trim found]
    exact ok

end Condition

theorem Predicate.parse_eq_ok_iff {text : String} {p : Predicate} :
    parse text = .ok p ↔ Condition.parse text = .ok p.condition ∧ p.source = Text.trim text := by
  obtain ⟨source, condition⟩ := p
  unfold parse
  cases Condition.parse text with
  | error e => simp [Except.map]
  | ok c =>
    simp only [Except.map, Except.ok.injEq, Predicate.mk.injEq]
    exact ⟨fun ⟨trimmed, same⟩ => ⟨same, trimmed.symm⟩, fun ⟨same, trimmed⟩ => ⟨trimmed.symm, same⟩⟩

/-- Tokens written with any white space between them, and any around them, are the tokens of the
text; and what is kept of the text of a condition is read as that condition again. -/
theorem Condition.tokens_of_spaced (text : String) :
    (∀ tokens, Token.Spaced tokens text.toList → Condition.tokens text = .ok tokens) ∧
      ∀ p, Predicate.parse text = .ok p → Predicate.parse p.source = .ok p := by
  refine ⟨fun tokens spaced => tokens_eq_ok_iff.2 (Token.split_of_spaced spaced 0), ?_⟩
  intro p read
  obtain ⟨condition, source⟩ := Predicate.parse_eq_ok_iff.1 read
  refine Predicate.parse_eq_ok_iff.2 ⟨?_, ?_⟩
  · rw [source]
    exact parse_trim condition
  · rw [source, Text.trim_trim]

theorem Condition.tokens_of_spaced_quoted :
    Condition.tokens "\u3000NOT a\t<=  'x  y'\n" =
        .ok [.neg, .word "a", .comparison .lessEqual, .word "'x  y'"] ∧
      ∃ p, Predicate.parse "\u3000NOT a\t<=  'x  y'\n" = .ok p ∧
        Predicate.parse p.source = .ok p := by
  obtain ⟨written, again⟩ := tokens_of_spaced "\u3000NOT a\t<=  'x  y'\n"
  constructor
  · have blank (gap : List Char) (all : gap.all Text.isBlank) : Text.Blank gap :=
      List.all_eq_true.1 all
    have not : Token.Spelled .neg "NOT".toList :=
      @Token.Spelled.keyword _ "not" _ (by simp [Token.keywords]) (by decide)
    have plain : ∀ c ∈ "a".toList, Text.isBlank c = false ∧ c ∉ Token.marks := by
      intro c member
      rw [List.mem_singleton.1 member]
      decide
    have a : Token.Spelled (.word "a") "a".toList := .bare (by decide) plain (by decide)
    have lessEqual := Token.Spelled.comparison .lessEqual
    have quoted := @Token.Spelled.quoted '\'' "x  y".toList (.inl rfl) (by decide)
    exact written _ <|
      @Token.Spaced.more ['\u3000'] _ [' '] _ _ _ (blank _ rfl) not (blank _ rfl) (by decide) <|
      @Token.Spaced.more [] _ ['\t'] _ _ _ (blank _ rfl) a (blank _ rfl) (by decide) <|
      @Token.Spaced.more [] _ [' ', ' '] _ _ _ (blank _ rfl) lessEqual (blank _ rfl) (by decide) <|
      @Token.Spaced.last [] _ ['\n'] _ (blank _ rfl) quoted (blank _ rfl)
  · have reads : (Predicate.parse "\u3000NOT a\t<=  'x  y'\n").toOption.isSome := by
      decide +kernel
    cases read : Predicate.parse "\u3000NOT a\t<=  'x  y'\n" with
    | error e => simp [read, Except.toOption] at reads
    | ok p => exact ⟨p, rfl, again p read⟩

end Colloquy
