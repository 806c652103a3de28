import LessonPlot.Formula.Token

namespace LessonPlot

/-- The rules of the grammar that leave a node in a parse tree. -/
inductive Rule where
  | expr
  | operation
  | operator (op : InfixOp)
  | sign (op : PrefixOp)
  | call
  | name
  | identifier
  | realLiteral

/-- The right-hand sides of rules. -/
inductive Pattern where
  | text (spelling : List Char)
  | char (accepts : Char → Bool)
  | seq (first second : Pattern)
  | choice (first second : Pattern)
  | optional (inner : Pattern)
  | many (inner : Pattern)
  | ending
  | rule (r : Rule)

/-- A parse tree: a rule with the trees of its parts, or with the text it spells. -/
inductive Pair where
  | node (rule : Rule) (children : List Pair)
  | leaf (rule : Rule) (spelling : List Char)

namespace Pattern

/-- Any amount of blanks. -/
def blanks : Pattern :=
  many (char isBlank)

/-- `a ~ b` in a rule that lets blanks stand between its tokens. -/
def spaced (a b : Pattern) : Pattern :=
  seq a (seq blanks b)

/-- `a*` in a rule that lets blanks stand between its tokens. -/
def manySpaced (a : Pattern) : Pattern :=
  optional (seq a (many (seq blanks a)))

/-- `a+` in a rule that lets no blanks stand between its tokens. -/
def atLeastOne (a : Pattern) : Pattern :=
  seq a (many a)

/-- `a | b | ...` -/
def oneOf : Pattern → List Pattern → Pattern
  | a, [] => a
  | a, b :: rest => choice a (oneOf b rest)

end Pattern

def InfixOp.spelling : InfixOp → List Char
  | or => ['|', '|']
  | and => ['&', '&']
  | equal => ['=', '=']
  | notEqual => ['!', '=']
  | lessEqual => ['<', '=']
  | greaterEqual => ['>', '=']
  | less => ['<']
  | greater => ['>']
  | add => ['+']
  | subtract => ['-']
  | multiply => ['*']
  | divide => ['/']
  | power => ['^']

def PrefixOp.spelling : PrefixOp → List Char
  | minus => ['-']
  | plus => ['+']
  | not => ['!']

namespace Pattern

def operators : List InfixOp :=
  [.and, .equal, .notEqual, .lessEqual, .greaterEqual, .less, .greater, .add, .subtract,
    .multiply, .divide, .power]

def operator : Pattern :=
  oneOf (rule (.operator .or)) (operators.map fun op => rule (.operator op))

def sign : Pattern :=
  oneOf (rule (.sign .minus)) [rule (.sign .plus), rule (.sign .not)]

def primary : Pattern :=
  oneOf (rule .realLiteral) [rule .call, rule .name,
    spaced (text ['(']) (spaced (rule .expr) (text [')']))]

/-- What follows the first operand of an operation, once. -/
def link : Pattern :=
  spaced operator (spaced (manySpaced sign) primary)

/-- What follows the first argument of a call, once. -/
def argument : Pattern :=
  spaced (text [',']) (rule .expr)

def arguments : Pattern :=
  spaced (rule .expr) (manySpaced argument)

def digits : Pattern :=
  atLeastOne (char Char.isDigit)

def mantissa : Pattern :=
  choice (seq digits (optional (seq (text ['.']) (many (char Char.isDigit)))))
    (seq (text ['.']) digits)

def exponent : Pattern :=
  seq (char fun c => c = 'e' || c = 'E')
    (seq (optional (choice (text ['+']) (text ['-']))) digits)

end Pattern

namespace Rule

open Pattern

def body : Rule → Pattern
  | expr =>
    spaced (rule operation)
      (optional (spaced (text ['?']) (spaced (rule expr) (spaced (text [':']) (rule expr)))))
  | operation => spaced (manySpaced Pattern.sign) (spaced primary (manySpaced link))
  | operator op => text op.spelling
  | sign op => text op.spelling
  | call =>
    spaced (rule identifier)
      (spaced (text ['(']) (spaced (optional arguments) (text [')'])))
  | name => rule identifier
  | identifier => seq (char isNameStart) (many (char isNamePart))
  | realLiteral => seq mantissa (optional exponent)

/-- Whether a rule spells one token, of which no part is kept. -/
def isToken : Rule → Bool
  | name | identifier | realLiteral => true
  | _ => false

/-- The tree that a rule makes of what it spells and of the trees of its parts. -/
def pair (rule : Rule) (spelling : List Char) (children : List Pair) : Pair :=
  if rule.isToken then .leaf rule spelling else .node rule children

end Rule

/-- A whole text: a formula between the start and the end of it. -/
def Pattern.calculation : Pattern :=
  spaced (text []) (spaced (rule .expr) ending)

mutual

/-- The parse tree of a formula. -/
def Formula.pair : Formula → Pair
  | .operation operands => .node .expr [.node .operation operands.pairs]
  | .choice condition chosen otherwise =>
    .node .expr [.node .operation condition.pairs, chosen.pair, otherwise.pair]

def Operation.pairs : Operation → List Pair
  | .last signs operand => signs.map (fun op => .node (.sign op) []) ++ [operand.pair]
  | .link signs operand op rest =>
    signs.map (fun op => .node (.sign op) []) ++ operand.pair :: .node (.operator op) [] ::
      rest.pairs

def Primary.pair : Primary → Pair
  | .number text => .leaf .realLiteral text.toList
  | .name text => .leaf .name text.toList
  | .call callee arguments => .node .call (.leaf .identifier callee.toList :: arguments.pairs)
  | .group inner => inner.pair

def Arguments.pairs : Arguments → List Pair
  | .none => []
  | .cons first rest => first.pair :: rest.pairs

end

/-- The grammar read as a context-free one: what a pattern derives, with the parse trees. -/
inductive Derives : Pattern → List Char → List Pair → Prop where
  | text (spelling : List Char) : Derives (.text spelling) spelling []
  | char {accepts : Char → Bool} {c : Char} (accepted : accepts c = true) :
      Derives (.char accepts) [c] []
  | seq {a b : Pattern} {s t : List Char} {ps qs : List Pair} (first : Derives a s ps)
      (second : Derives b t qs) : Derives (.seq a b) (s ++ t) (ps ++ qs)
  | first {a b : Pattern} {s : List Char} {ps : List Pair} (h : Derives a s ps) :
      Derives (.choice a b) s ps
  | second {a b : Pattern} {s : List Char} {ps : List Pair} (h : Derives b s ps) :
      Derives (.choice a b) s ps
  | absent {a : Pattern} : Derives (.optional a) [] []
  | present {a : Pattern} {s : List Char} {ps : List Pair} (h : Derives a s ps) :
      Derives (.optional a) s ps
  | none {a : Pattern} : Derives (.many a) [] []
  | next {a : Pattern} {s t : List Char} {ps qs : List Pair} (head : Derives a s ps)
      (tail : Derives (.many a) t qs) : Derives (.many a) (s ++ t) (ps ++ qs)
  | ending : Derives .ending [] []
  | rule {r : Rule} {s : List Char} {ps : List Pair} (h : Derives r.body s ps) :
      Derives (.rule r) s [r.pair s ps]

/-- The grammar read as a recogniser with ordered choice and greedy repetition, neither of which is
ever taken back: a pattern at the start of a text fails, or matches with some parse trees and leaves
the rest of the text. -/
inductive Runs : Pattern → List Char → Option (List Pair × List Char) → Prop where
  | text (spelling rest : List Char) :
      Runs (.text spelling) (spelling ++ rest) (some ([], rest))
  | textFails {spelling s : List Char} (h : ¬ spelling <+: s) : Runs (.text spelling) s none
  | char {accepts : Char → Bool} {c : Char} (accepted : accepts c = true) (rest : List Char) :
      Runs (.char accepts) (c :: rest) (some ([], rest))
  | charFails {accepts : Char → Bool} {s : List Char}
      (h : ∀ c ∈ s.head?, accepts c = false) : Runs (.char accepts) s none
  | seq {a b : Pattern} {s t u : List Char} {ps qs : List Pair} (first : Runs a s (some (ps, t)))
      (second : Runs b t (some (qs, u))) : Runs (.seq a b) s (some (ps ++ qs, u))
  | firstFails {a b : Pattern} {s : List Char} (first : Runs a s none) : Runs (.seq a b) s none
  | secondFails {a b : Pattern} {s t : List Char} {ps : List Pair}
      (first : Runs a s (some (ps, t))) (second : Runs b t none) : Runs (.seq a b) s none
  | first {a b : Pattern} {s : List Char} {result : List Pair × List Char}
      (h : Runs a s (some result)) : Runs (.choice a b) s (some result)
  | second {a b : Pattern} {s : List Char} {outcome : Option (List Pair × List Char)}
      (h : Runs a s none) (h' : Runs b s outcome) : Runs (.choice a b) s outcome
  | absent {a : Pattern} {s : List Char} (h : Runs a s none) :
      Runs (.optional a) s (some ([], s))
  | present {a : Pattern} {s : List Char} {result : List Pair × List Char}
      (h : Runs a s (some result)) : Runs (.optional a) s (some result)
  | stop {a : Pattern} {s : List Char} (h : Runs a s none) : Runs (.many a) s (some ([], s))
  | next {a : Pattern} {s t u : List Char} {ps qs : List Pair} (head : Runs a s (some (ps, t)))
      (tail : Runs (.many a) t (some (qs, u))) : Runs (.many a) s (some (ps ++ qs, u))
  | ending : Runs .ending [] (some ([], []))
  | endingFails {s : List Char} (h : s ≠ []) : Runs .ending s none
  | rule {r : Rule} {s rest : List Char} {ps : List Pair}
      (h : Runs r.body (s ++ rest) (some (ps, rest))) :
      Runs (.rule r) (s ++ rest) (some ([r.pair s ps], rest))
  | ruleFails {r : Rule} {s : List Char} (h : Runs r.body s none) : Runs (.rule r) s none

/-- What a pattern matches it also derives. -/
theorem Runs.derives {p : Pattern} {s : List Char} {outcome : Option (List Pair × List Char)}
    (h : Runs p s outcome) :
    ∀ result ∈ outcome, ∃ t, s = t ++ result.2 ∧ Derives p t result.1 := by
  induction h with
  | text spelling rest => rintro _ ⟨⟩; exact ⟨spelling, rfl, .text spelling⟩
  | textFails h => nofun
  | char accepted rest => rintro _ ⟨⟩; exact ⟨_, rfl, .char accepted⟩
  | charFails h => nofun
  | seq first second ih ih' =>
    rintro _ ⟨⟩
    obtain ⟨t, rfl, hd⟩ := ih _ rfl
    obtain ⟨t', ht, hd'⟩ := ih' _ rfl
    exact ⟨t ++ t', by rw [List.append_assoc, ← ht], .seq hd hd'⟩
  | firstFails first ih => nofun
  | secondFails first second ih ih' => nofun
  | first h ih =>
    intro result hm
    obtain ⟨t, ht, hd⟩ := ih result hm
    exact ⟨t, ht, .first hd⟩
  | second h h' ih ih' =>
    intro result hm
    obtain ⟨t, ht, hd⟩ := ih' result hm
    exact ⟨t, ht, .second hd⟩
  | absent h ih => rintro _ ⟨⟩; exact ⟨[], rfl, .absent⟩
  | present h ih =>
    intro result hm
    obtain ⟨t, ht, hd⟩ := ih result hm
    exact ⟨t, ht, .present hd⟩
  | stop h ih => rintro _ ⟨⟩; exact ⟨[], rfl, .none⟩
  | next head tail ih ih' =>
    rintro _ ⟨⟩
    obtain ⟨t, rfl, hd⟩ := ih _ rfl
    obtain ⟨t', ht, hd'⟩ := ih' _ rfl
    exact ⟨t ++ t', by rw [List.append_assoc, ← ht], .next hd hd'⟩
  | ending => rintro _ ⟨⟩; exact ⟨[], rfl, .ending⟩
  | endingFails h => nofun
  | rule h ih =>
    rintro _ ⟨⟩
    obtain ⟨t, ht, hd⟩ := ih _ rfl
    cases List.append_cancel_right ht
    exact ⟨_, rfl, .rule hd⟩
  | ruleFails h ih => nofun

/-- A pattern has at most one outcome on a text. -/
theorem Runs.deterministic {p : Pattern} {s : List Char}
    {outcome outcome' : Option (List Pair × List Char)} (h : Runs p s outcome)
    (h' : Runs p s outcome') : outcome = outcome' := by
  induction h generalizing outcome' with
  | text spelling rest =>
    generalize ht : spelling ++ rest = t at h'
    cases h' with
    | text => rw [List.append_cancel_left ht]
    | textFails hn => exact (hn ⟨rest, ht⟩).elim
  | textFails hn =>
    cases h' with
    | text spelling rest => exact (hn ⟨rest, rfl⟩).elim
    | textFails => rfl
  | char accepted rest =>
    cases h' with
    | char => rfl
    | charFails hn => simp [accepted] at hn
  | charFails hn =>
    cases h' with
    | char accepted rest => simp [accepted] at hn
    | charFails => rfl
  | seq first second ih ih' =>
    cases h' with
    | seq first' second' =>
      cases ih first'
      cases ih' second'
      rfl
    | firstFails first' => cases ih first'
    | secondFails first' second' =>
      cases ih first'
      cases ih' second'
  | firstFails first ih =>
    cases h' with
    | seq first' second' => cases ih first'
    | firstFails => rfl
    | secondFails first' second' => rfl
  | secondFails first second ih ih' =>
    cases h' with
    | seq first' second' =>
      cases ih first'
      cases ih' second'
    | firstFails => rfl
    | secondFails => rfl
  | first h ih =>
    cases h' with
    | first h' => exact ih h'
    | second h' => cases ih h'
  | second h₁ h₂ ih ih' =>
    cases h' with
    | first h' => cases ih h'
    | second _ h' => exact ih' h'
  | absent h ih =>
    cases h' with
    | absent => rfl
    | present h' => cases ih h'
  | present h ih =>
    cases h' with
    | absent h' => cases ih h'
    | present h' => exact ih h'
  | stop h ih =>
    cases h' with
    | stop => rfl
    | next head tail => cases ih head
  | next head tail ih ih' =>
    cases h' with
    | stop h' => cases ih h'
    | next head' tail' =>
      cases ih head'
      cases ih' tail'
      rfl
  | ending =>
    cases h' with
    | ending => rfl
    | endingFails hn => exact (hn rfl).elim
  | endingFails hn =>
    cases h' with
    | ending => exact (hn rfl).elim
    | endingFails => rfl
  | @rule r s rest ps h ih =>
    generalize ht : s ++ rest = t at h'
    cases h' with
    | @rule _ s' rest' ps' h' =>
      rw [← ht] at h'
      cases ih h'
      rw [List.append_cancel_right ht]
    | ruleFails h' =>
      rw [← ht] at h'
      cases ih h'
  | ruleFails h ih =>
    cases h' with
    | rule h' => cases ih h'
    | ruleFails => rfl

end LessonPlot
