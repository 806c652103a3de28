import LessonPlot.Proofs.Formula.Decision
import LessonPlot.Proofs.Formula.Tracing

namespace LessonPlot

/-- What is looked for at a place in a text: operands, signs and operators. -/
def Rule.expected : Rule → Bool
  | .realLiteral | .call | .name | .sign _ | .operator _ => true
  | .expr | .operation | .identifier => false

/-- As a pattern runs at the start of a text, an operand, a sign, an operator or the end of the text
is tried in vain at the start of what is left, be it in an alternative that is given up later. -/
inductive Tries : Pattern → List Char → List Char → Prop where
  | rule {r : Rule} {s : List Char} (expected : r.expected = true)
      (fails : Runs (.rule r) s none) : Tries (.rule r) s s
  | ending {s : List Char} (fails : Runs .ending s none) : Tries .ending s s
  | inside {r : Rule} {s t : List Char} (h : Tries r.body s t) : Tries (.rule r) s t
  | seqFirst {a b : Pattern} {s t : List Char} (h : Tries a s t) : Tries (.seq a b) s t
  | seqSecond {a b : Pattern} {s t u : List Char} {ps : List Pair}
      (first : Runs a s (some (ps, u))) (h : Tries b u t) : Tries (.seq a b) s t
  | first {a b : Pattern} {s t : List Char} (h : Tries a s t) : Tries (.choice a b) s t
  | second {a b : Pattern} {s t : List Char} (fails : Runs a s none) (h : Tries b s t) :
      Tries (.choice a b) s t
  | optional {a : Pattern} {s t : List Char} (h : Tries a s t) : Tries (.optional a) s t
  | head {a : Pattern} {s t : List Char} (h : Tries a s t) : Tries (.many a) s t
  | tail {a : Pattern} {s t u : List Char} {ps : List Pair} (head : Runs a s (some (ps, u)))
      (h : Tries (.many a) u t) : Tries (.many a) s t

/-- The furthest place at which something is tried in vain. -/
def Furthest (p : Pattern) (s t : List Char) : Prop :=
  Tries p s t ∧ ∀ u, Tries p s u → t.length ≤ u.length

/-- Whether nothing is tried as the pattern runs but characters. -/
def Pattern.silent : Pattern → Bool
  | .text _ | .char _ => true
  | .seq a b | .choice a b => a.silent && b.silent
  | .optional a | .many a => a.silent
  | .ending | .rule _ => false

theorem Tries.not_silent {p : Pattern} {s t : List Char} (h : Tries p s t) :
    p.silent = false := by
  induction h with
  | rule | ending | inside => rfl
  | seqFirst _ ih | first _ ih => rw [Pattern.silent, ih, Bool.false_and]
  | seqSecond _ _ ih | second _ _ ih => rw [Pattern.silent, ih, Bool.and_false]
  | optional _ ih | head _ ih | tail _ _ ih => exact ih

section Tracks

/-- A pattern goes along texts of a bounded length as formulas can, from some stages to others:
whatever it tries it tries on the way. -/
def Tracks (length : Nat) (a : Pattern) (before after : Progress → Prop) : Prop :=
  ∀ p s, before p → s.length < length →
    (∀ ps rest, Runs a s (some (ps, rest)) → ∃ ts q, Walks p s ts q rest ∧ after q) ∧
      ∀ t, Tries a s t → ∃ ts q, Walks p s ts q t

variable {length : Nat} {a b : Pattern} {before between after : Progress → Prop}

namespace Tracks

theorem weaken {earlier later : Progress → Prop} (h : Tracks length a before after)
    (hb : ∀ p, earlier p → before p) (ha : ∀ p, after p → later p) :
    Tracks length a earlier later := by
  intro p s hp hs
  obtain ⟨runs, tries⟩ := h p s (hb p hp) hs
  refine ⟨fun ps rest run => ?_, tries⟩
  obtain ⟨ts, q, walk, hq⟩ := runs ps rest run
  exact ⟨ts, q, walk, ha q hq⟩

/-- What comes after the first part may be followed on shorter texts only, if that part takes enough
of them. -/
theorem seqWithin {shorter : Nat} (first : Tracks length a before between)
    (second : Tracks shorter b between after)
    (takes : ∀ s ps u, s.length < length → Runs a s (some (ps, u)) → u.length < shorter) :
    Tracks length (.seq a b) before after := by
  intro p s hp hs
  obtain ⟨runs, tries⟩ := first p s hp hs
  constructor
  · intro ps rest run
    cases run with
    | @seq _ _ _ u _ _ _ ha hb =>
      obtain ⟨ts, q, walk, hq⟩ := runs _ _ ha
      obtain ⟨runs, -⟩ := second q u hq (takes s _ u hs ha)
      obtain ⟨us, r, others, hr⟩ := runs _ _ hb
      exact ⟨ts ++ us, r, walk.trans others, hr⟩
  · intro t h
    cases h with
    | seqFirst h => exact tries t h
    | @seqSecond _ _ _ _ u _ ha h =>
      obtain ⟨ts, q, walk, hq⟩ := runs _ _ ha
      obtain ⟨-, tries⟩ := second q u hq (takes s _ u hs ha)
      obtain ⟨us, r, others⟩ := tries t h
      exact ⟨ts ++ us, r, walk.trans others⟩

theorem seq (first : Tracks length a before between) (second : Tracks length b between after) :
    Tracks length (.seq a b) before after :=
  first.seqWithin second fun _ _ _ hs ha => Nat.lt_of_le_of_lt ha.length_le hs

theorem blanks : Tracks length .blanks before before := by
  intro p s hp hs
  constructor
  · intro ps rest run
    cases (Runs.many_char isBlank s).deterministic run
    exact ⟨[], p, .stay (skipBlanks_idem s).symm, hp⟩
  · intro t h
    cases h.not_silent

theorem spaced (first : Tracks length a before between) (second : Tracks length b between after) :
    Tracks length (.spaced a b) before after :=
  first.seq (blanks.seq second)

theorem choice (first : Tracks length a before after) (second : Tracks length b before after) :
    Tracks length (.choice a b) before after := by
  intro p s hp hs
  obtain ⟨runs, tries⟩ := first p s hp hs
  obtain ⟨runs', tries'⟩ := second p s hp hs
  constructor
  · intro ps rest run
    cases run with
    | first h => exact runs _ _ h
    | second _ h => exact runs' _ _ h
  · intro t h
    cases h with
    | first h => exact tries t h
    | second _ h => exact tries' t h

theorem optional (h : Tracks length a before after) (skip : ∀ p, before p → after p) :
    Tracks length (.optional a) before after := by
  intro p s hp hs
  obtain ⟨runs, tries⟩ := h p s hp hs
  constructor
  · intro ps rest run
    cases run with
    | absent _ => exact ⟨[], p, .stay rfl, skip p hp⟩
    | present run => exact runs _ _ run
  · intro t h
    cases h with
    | optional h => exact tries t h

theorem many (h : Tracks length a before before) : Tracks length (.many a) before before := by
  intro p s hp hs
  constructor
  · intro ps rest run
    generalize hm : Pattern.many a = m at run
    generalize ho : some (ps, rest) = outcome at run
    induction run generalizing p ps with
    | stop => cases hm; cases ho; exact ⟨[], p, .stay rfl, hp⟩
    | next head tail _ ih =>
      cases hm
      cases ho
      obtain ⟨ts, q, walk, hq⟩ := (h p _ hp hs).1 _ _ head
      obtain ⟨us, r, others, hr⟩ := ih q hq (Nat.lt_of_le_of_lt head.length_le hs) _ rfl rfl
      exact ⟨ts ++ us, r, walk.trans others, hr⟩
    | _ => cases hm
  · intro t run
    generalize hm : Pattern.many a = m at run
    induction run generalizing p with
    | head run => cases hm; exact (h p _ hp hs).2 _ run
    | tail head _ ih =>
      cases hm
      obtain ⟨ts, q, walk, hq⟩ := (h p _ hp hs).1 _ _ head
      obtain ⟨us, r, others⟩ := ih q hq (Nat.lt_of_le_of_lt head.length_le hs) rfl
      exact ⟨ts ++ us, r, walk.trans others⟩
    | _ => cases hm

theorem manySpaced (h : Tracks length a before before) :
    Tracks length (.manySpaced a) before before :=
  (h.seq (blanks.seq h).many).optional fun _ hp => hp

theorem rule {r : Rule} (h : Tracks length r.body before after) :
    Tracks length (.rule r) before after := by
  intro p s hp hs
  obtain ⟨runs, tries⟩ := h p s hp hs
  constructor
  · intro ps rest run
    cases run with
    | rule run => exact runs _ _ run
  · intro t h
    cases h with
    | rule _ _ => exact ⟨[], p, .stay rfl⟩
    | inside h => exact tries t h

/-- A pattern that tries nothing inside takes one token. -/
theorem token (h : ∀ p s ps rest, before p → Runs a s (some (ps, rest)) →
      ∃ t q, Moves p s t q rest ∧ after q)
    (none : ∀ s t, Tries a s t → t = s) : Tracks length a before after := by
  intro p s hp hs
  constructor
  · intro ps rest run
    obtain ⟨t, q, moves, hq⟩ := h p s ps rest hp run
    exact ⟨[t], q, .single moves, hq⟩
  · intro t tried
    cases none s t tried
    exact ⟨[], p, .stay rfl⟩

end Tracks

end Tracks

section Tokens

variable {opened : List Opened} {p : Progress} {s t rest : List Char} {ps : List Pair}
  {length : Nat}

/-- An operand has ended inside some open parts. -/
def Done (opened : List Opened) (p : Progress) : Prop :=
  p.Ended ∧ p.opened = opened

theorem Tries.eq_of_silent {r : Rule} (silent : r.body.silent = true) (h : Tries (.rule r) s t) :
    t = s := by
  cases h with
  | rule _ _ => rfl
  | inside h =>
    rw [h.not_silent] at silent
    cases silent

theorem Tries.eq_of_name (h : Tries (.rule .name) s t) : t = s := by
  cases h with
  | rule _ _ => rfl
  | inside h => exact eq_of_silent (r := .identifier) rfl h

theorem Tries.eq_of_oneOf {first : Pattern} {others : List Pattern}
    (here : ∀ a ∈ first :: others, Tries a s t → t = s) (h : Tries (.oneOf first others) s t) :
    t = s := by
  induction others generalizing first with
  | nil => exact here first (by simp) h
  | cons second others ih =>
    cases h with
    | first h => exact here first (by simp) h
    | second _ h => exact ih (fun a ha => here a (List.mem_cons_of_mem _ ha)) h

theorem Tries.eq_of_sign (h : Tries .sign s t) : t = s := by
  refine eq_of_oneOf (fun a ha => ?_) h
  simp only [List.mem_cons, List.not_mem_nil, or_false] at ha
  rcases ha with rfl | rfl | rfl <;> exact eq_of_silent rfl

theorem Tries.eq_of_operator (h : Tries .operator s t) : t = s := by
  refine eq_of_oneOf (fun a ha => ?_) h
  rcases List.mem_cons.mp ha with rfl | ha
  · exact eq_of_silent rfl
  · obtain ⟨op, -, rfl⟩ := List.mem_map.mp ha
    exact eq_of_silent rfl

theorem tracks_sign :
    Tracks length .sign (Awaiting opened) (fun q => q = ⟨.operand, opened⟩) := by
  refine .token (fun p s ps rest hp run => ?_) fun s t => Tries.eq_of_sign
  obtain ⟨w, rfl, derived⟩ := run.derives _ rfl
  obtain ⟨op, rfl, -⟩ := derived.sign_inv
  have clean : skipBlanks (op.spelling ++ rest) = op.spelling ++ rest := by cases op <;> rfl
  obtain ⟨t, moves⟩ := hp.moves_sign clean
  exact ⟨t, _, moves, rfl⟩

theorem tracks_operator :
    Tracks length .operator (Done opened) (fun q => q = ⟨.operand, opened⟩) := by
  refine .token (fun p s ps rest hp run => ?_) fun s t => Tries.eq_of_operator
  obtain ⟨ended, inside⟩ := hp
  have taken := run.deterministic (Runs.operator s)
  obtain ⟨⟨op, u⟩, taken, h⟩ := Option.map_eq_some_iff.mp taken.symm
  cases h
  have scanned : scan? s = some (.operator op, rest) := by simp only [scan?, taken]
  refine ⟨.operator op, ⟨.operand, opened⟩, ended.moves ?_ (by simp) ?_, rfl⟩
  · rw [skipBlanks_of_scan? scanned, scanned]
  · rw [inside]
    cases opened <;> rfl

theorem tracks_realLiteral :
    Tracks length (.rule .realLiteral) (Awaiting opened) (Done opened) := by
  refine .token (fun p s ps rest hp run => ?_) fun s t => Tries.eq_of_silent rfl
  cases hn : takeNumber? s with
  | none => cases run.deterministic (Runs.realLiteralFails hn)
  | some result =>
    obtain ⟨digits, u⟩ := result
    cases run.deterministic (Runs.realLiteral hn)
    have scanned := scan?_of_number hn
    have clean := skipBlanks_of_scan? scanned
    exact ⟨.number digits, ⟨.afterOperand, opened⟩,
      ⟨.inl (by rw [clean, scanned]), hp.take? (by simp)⟩, .inr rfl, rfl⟩

theorem moves_identifier {ps : List Pair} (hp : Awaiting opened p)
    (run : Runs (.rule .identifier) s (some (ps, rest))) :
    ∃ letters, Moves p s (.name letters) ⟨.afterName, opened⟩ rest := by
  obtain ⟨w, hw, derived⟩ := run.derives _ rfl
  obtain ⟨-, ⟨c, r, rfl, hc⟩, -⟩ := derived.identifier_inv
  have number : takeNumber? s = none := by
    rw [hw]
    exact takeNumber?_eq_none hc _
  cases hn : takeName? s with
  | none => cases run.deterministic (Runs.identifierFails hn)
  | some result =>
    obtain ⟨letters, u⟩ := result
    obtain ⟨hs, body⟩ := Runs.identifier hn
    cases run.deterministic (Runs.rule_of_eq (r := .identifier) hs body)
    have scanned := scan?_of_name number hn
    have clean := skipBlanks_of_scan? scanned
    exact ⟨letters, .inl (by rw [clean, scanned]), hp.take? (by simp)⟩

theorem tracks_identifier :
    Tracks length (.rule .identifier) (Awaiting opened) (fun q => q = ⟨.afterName, opened⟩) := by
  refine .token (fun p s ps rest hp run => ?_) fun s t => Tries.eq_of_silent rfl
  obtain ⟨letters, moves⟩ := moves_identifier hp run
  exact ⟨_, _, moves, rfl⟩

theorem tracks_name : Tracks length (.rule .name) (Awaiting opened) (Done opened) := by
  refine .token (fun p s ps rest hp run => ?_) fun s t => Tries.eq_of_name
  cases run with
  | rule run =>
    obtain ⟨letters, moves⟩ := moves_identifier hp run
    exact ⟨_, _, moves, .inl rfl, rfl⟩

end Tokens

section Phrases

variable {opened : List Opened} {length : Nat} {a : Pattern}
  {before between after : Progress → Prop}

/-- A token of one character that is neither an operator nor a sign. -/
theorem tracks_text (t : Lexeme) {c : Char} (hc : isBlank c = false)
    (scanned : ∀ s, scan? (c :: s) = some (t, s))
    (take : ∀ p, before p → ∃ q, p.take? t = some q ∧ after q) :
    Tracks length (.text [c]) before after := by
  refine .token (fun p s ps rest hp run => ?_) fun s t h => by cases h
  obtain ⟨q, taken, hq⟩ := take p hp
  cases run with
  | text =>
    have clean : skipBlanks ([c] ++ rest) = c :: rest := skipBlanks_cons_of_neg (by simp [hc])
    exact ⟨t, q, ⟨.inl (by rw [clean, scanned]), taken⟩, hq⟩

/-- After a first character less of the text is left. -/
theorem Tracks.afterText {c : Char} (first : Tracks (length + 1) (.text [c]) before between)
    (second : Tracks length a between after) :
    Tracks (length + 1) (.spaced (.text [c]) a) before after := by
  refine first.seqWithin (blanks.seq second) fun s ps u hs run => ?_
  have shorter := run.length_lt fun _ _ h => h.text_ne_nil
  omega

theorem Done.take? {p : Progress} {t : Lexeme} (h : Done opened p) (ht : t ≠ .opening) :
    p.take? t = Progress.follow? opened t := by
  rw [h.1.take? ht, h.2]

theorem tracks_closing {top : Opened} (closes : top ≠ .choice) :
    Tracks length (.text [')']) (Done (top :: opened)) (Done opened) := by
  refine tracks_text .closing rfl (fun _ => rfl) fun p hp => ⟨⟨.afterOperand, opened⟩, ?_, ?_⟩
  · rw [hp.take? (t := .closing) (by simp)]
    cases top with
    | group | call => rfl
    | choice => exact (closes rfl).elim
  · exact ⟨.inr rfl, rfl⟩

theorem tracks_closing_call : Tracks length (.text [')'])
    (fun q => q = ⟨.firstArgument, .call :: opened⟩ ∨ Done (.call :: opened) q) (Done opened) := by
  refine tracks_text .closing rfl (fun _ => rfl) fun p hp => ⟨⟨.afterOperand, opened⟩, ?_, ?_⟩
  · rcases hp with rfl | hp
    · rfl
    · exact hp.take? (by simp)
  · exact ⟨.inr rfl, rfl⟩

theorem awaiting_of_eq (q : Progress) (h : q = ⟨.operand, opened⟩) : Awaiting opened q :=
  h ▸ ⟨rfl, .inl rfl⟩

end Phrases

section Expr

variable {length : Nat}

/-- All formulas of a bounded length are followed. -/
def TracksFormulas (length : Nat) : Prop :=
  ∀ opened, Tracks length (.rule .expr) (Awaiting opened) (Done opened)

variable (inner : TracksFormulas length) (opened : List Opened)

include inner

theorem TracksFormulas.group :
    Tracks (length + 1) (.spaced (.text ['(']) (.spaced (.rule .expr) (.text [')'])))
      (Awaiting opened) (Done opened) := by
  have opens : Tracks (length + 1) (.text ['(']) (Awaiting opened)
      (Awaiting (.group :: opened)) := by
    refine tracks_text .opening rfl (fun _ => rfl) fun p hp => ?_
    exact ⟨_, hp.take? (by simp), rfl, .inl rfl⟩
  exact opens.afterText ((inner _).spaced (tracks_closing (by simp)))

theorem TracksFormulas.arguments :
    Tracks length .arguments (Awaiting (.call :: opened)) (Done (.call :: opened)) := by
  have comma : Tracks length (.text [',']) (Done (.call :: opened))
      (Awaiting (.call :: opened)) := by
    refine tracks_text .comma rfl (fun _ => rfl) fun p hp => ?_
    exact ⟨_, hp.take? (by simp), rfl, .inl rfl⟩
  have argument : Tracks length .argument (Done (.call :: opened)) (Done (.call :: opened)) :=
    comma.spaced (inner _)
  exact (inner _).spaced argument.manySpaced

theorem TracksFormulas.call :
    Tracks (length + 1) (.rule .call) (Awaiting opened) (Done opened) := by
  have opens : Tracks (length + 1) (.text ['(']) (fun q => q = ⟨.afterName, opened⟩)
      (fun q => q = ⟨.firstArgument, .call :: opened⟩) := by
    refine tracks_text .opening rfl (fun _ => rfl) fun p hp => ?_
    subst hp
    exact ⟨_, rfl, rfl⟩
  have arguments : Tracks length (.optional .arguments)
      (fun q => q = ⟨.firstArgument, .call :: opened⟩)
      (fun q => q = ⟨.firstArgument, .call :: opened⟩ ∨ Done (.call :: opened) q) := by
    refine ((inner.arguments opened).weaken (fun q h => ?_) fun _ h => .inr h).optional
      fun _ h => .inl h
    exact h ▸ ⟨rfl, .inr rfl⟩
  exact .rule (tracks_identifier.spaced (opens.afterText (arguments.spaced tracks_closing_call)))

theorem TracksFormulas.primary :
    Tracks (length + 1) .primary (Awaiting opened) (Done opened) :=
  tracks_realLiteral.choice ((inner.call opened).choice (tracks_name.choice (inner.group opened)))

theorem TracksFormulas.operation :
    Tracks (length + 1) (.rule .operation) (Awaiting opened) (Done opened) := by
  have primary := inner.primary opened
  have signs : Tracks (length + 1) (.manySpaced .sign) (Awaiting opened) (Awaiting opened) :=
    (tracks_sign.weaken (fun _ h => h) awaiting_of_eq).manySpaced
  have link : Tracks (length + 1) .link (Done opened) (Done opened) :=
    (tracks_operator.weaken (fun _ h => h) awaiting_of_eq).spaced (signs.spaced primary)
  exact .rule (signs.spaced (primary.spaced link.manySpaced))

theorem TracksFormulas.expr : TracksFormulas (length + 1) := by
  intro opened
  have question : Tracks (length + 1) (.text ['?']) (Done opened)
      (Awaiting (.choice :: opened)) := by
    refine tracks_text .question rfl (fun _ => rfl) fun p hp => ?_
    refine ⟨⟨.operand, .choice :: opened⟩, ?_, rfl, .inl rfl⟩
    rw [hp.take? (t := .question) (by simp)]
    cases opened <;> rfl
  have colon : Tracks length (.text [':']) (Done (.choice :: opened)) (Awaiting opened) := by
    refine tracks_text .colon rfl (fun _ => rfl) fun p hp => ?_
    exact ⟨_, hp.take? (by simp), rfl, .inl rfl⟩
  -- the outcomes come after the question mark, on texts that the shorter bound covers
  have outcomes := question.afterText ((inner _).spaced (colon.spaced (inner opened)))
  exact .rule ((inner.operation opened).spaced (outcomes.optional fun _ h => h))

omit inner in
theorem tracks_expr (length : Nat) : TracksFormulas length := by
  induction length with
  | zero => exact fun _ _ _ _ hs => nomatch hs
  | succ length ih => exact ih.expr

end Expr

/-- Whatever is tried in vain on a text is tried where a walk along it leads. -/
theorem walks_of_tries {s t : List Char} (h : Tries .calculation s t) :
    ∃ ts q, Walks .start s ts q t := by
  have start : Tracks (s.length + 1) (.text []) (Awaiting []) (Awaiting []) := by
    intro p s hp _
    refine ⟨fun ps rest run => ?_, fun t h => by cases h⟩
    cases run with
    | text => exact ⟨[], p, .stay rfl, hp⟩
  have finish : Tracks (s.length + 1) .ending (Done []) (Done []) := by
    intro p s hp _
    constructor
    · intro ps rest run
      cases run
      exact ⟨[], p, .stay rfl, hp⟩
    · intro t h
      cases h
      exact ⟨[], p, .stay rfl⟩
  have whole : Tracks (s.length + 1) .calculation (Awaiting []) (Done []) :=
    start.spaced ((tracks_expr _ []).spaced finish)
  exact (whole .start s ⟨rfl, .inl rfl⟩ (Nat.lt_succ_self _)).2 t h

end LessonPlot
