import LessonPlot.Proofs.Formula.Attempts

namespace LessonPlot

section Repeated

variable {a b : Pattern} {s t rest : List Char} {ps : List Pair}

theorem Matches.length_le (h : Matches a s ps rest) :
    (skipBlanks rest).length ≤ (skipBlanks s).length := by
  obtain ⟨t, run, ht⟩ := h
  have shorter := run.length_le
  have blanks := skipBlanks_length_le t
  rw [← ht]
  omega

theorem runs_blanks (s : List Char) : Runs .blanks s (some ([], skipBlanks s)) :=
  Runs.many_char isBlank s

/-- What is tried after a first part is tried in the whole. -/
theorem Matches.tries (first : Matches a s ps t) (h : Tries b (skipBlanks t) rest) :
    Tries (.spaced a b) (skipBlanks s) rest := by
  obtain ⟨u, run, hu⟩ := first
  exact .seqSecond run (.seqSecond (runs_blanks u) (hu ▸ h))

/-- A pattern runs on a text some times, blanks between two runs, and tries something the next
time. -/
inductive RepeatsTries (a : Pattern) : List Char → List Char → Prop where
  | here {s rest : List Char} (h : Tries a (skipBlanks s) rest) : RepeatsTries a s rest
  | next {s t rest : List Char} {ps : List Pair} (head : Matches a s ps t)
      (tail : RepeatsTries a t rest) : RepeatsTries a s rest

theorem RepeatsTries.many (h : RepeatsTries a t rest) :
    ∀ s, skipBlanks s = skipBlanks t → Tries (.many (.seq .blanks a)) s rest := by
  induction h with
  | here h =>
    intro s hs
    exact .head (.seqSecond (runs_blanks s) (hs ▸ h))
  | next head _ ih =>
    intro s hs
    obtain ⟨u, run, hu⟩ := head
    exact .tail (.seq (runs_blanks s) (hs ▸ run)) (ih u hu)

theorem RepeatsTries.manySpaced (h : RepeatsTries a s rest) :
    Tries (.manySpaced a) (skipBlanks s) rest := by
  cases h with
  | here h => exact .optional (.seqFirst h)
  | next head tail =>
    obtain ⟨u, run, hu⟩ := head
    exact .optional (.seqSecond run (tail.many u hu))

end Repeated

theorem tries_operator {s : List Char} (h : takeInfix? s = none) : Tries .operator s s := by
  have run := Runs.operator s
  rw [h] at run
  cases run with
  | second first _ => exact .first (.rule rfl first)

/-- How far a result has looked: to the token after what was read, or to where reading got stuck. -/
def reach {β : Type} : Except Stuck (β × List Char) → List Char
  | .ok (_, rest) => skipBlanks rest
  | .error stuck => stuck.rest

/-- The operands of an operation try something. -/
def OperandsTry (s rest : List Char) : Prop :=
  ∃ ps t, Matches (.manySpaced .sign) s ps t ∧
    (Tries .primary (skipBlanks t) rest ∨
      ∃ qs u, Matches .primary t qs u ∧ RepeatsTries .link u rest)

theorem OperandsTry.operation {s rest : List Char} (h : OperandsTry s rest) :
    Tries (.rule .operation) (skipBlanks s) rest := by
  obtain ⟨ps, t, signs, h | ⟨qs, u, operand, links⟩⟩ := h
  · exact .inside (signs.tries (.seqFirst h))
  · exact .inside (signs.tries (operand.tries links.manySpaced))

/-- The arguments of a call try something. -/
def ArgumentsTry (s rest : List Char) : Prop :=
  Tries (.rule .expr) (skipBlanks s) rest ∨
    ∃ ps t, Matches (.rule .expr) s ps t ∧ RepeatsTries .argument t rest

theorem ArgumentsTry.arguments {s rest : List Char} (h : ArgumentsTry s rest) :
    Tries .arguments (skipBlanks s) rest := by
  obtain h | ⟨ps, t, first, others⟩ := h
  · exact .seqFirst h
  · exact first.tries others.manySpaced

namespace Recogniser

/-- Wherever a recogniser has come on a text of a bounded length, something was tried in vain. -/
def Reports (inner : Recogniser Formula) (length : Nat) : Prop :=
  ∀ s, (skipBlanks s).length < length →
    Tries (.rule .expr) (skipBlanks s) (reach (inner s))

variable {inner : Recogniser Formula} {length : Nat} {s rest : List Char}

theorem Reports.arguments (hr : Reports inner length) (hi : Sound inner) (fuel : Nat)
    (short : (skipBlanks s).length < length) (enough : (skipBlanks s).length < fuel)
    (h : arguments inner fuel s = .error ⟨rest⟩) : ArgumentsTry s rest := by
  induction fuel generalizing s with
  | zero => cases enough
  | succ fuel ih =>
    have reports := hr s short
    rw [Recogniser.arguments] at h
    rcases bind_eq_error_iff.mp h with hf | ⟨⟨first, t⟩, hf, h⟩
    · rw [hf] at reports
      exact .inl reports
    have head := hi s first t hf
    have shorter := head.length_le
    dsimp only at h
    split at h
    next u hu =>
      have comma : Matches (.text [',']) t [] u := .text hu
      have blanks := skipBlanks_length_le u
      have hl : u.length < (skipBlanks t).length := by
        rw [hu]
        exact Nat.lt_succ_self _
      rcases bind_eq_error_iff.mp h with ho | ⟨_, _, h⟩
      · obtain h | ⟨ps, t', first, others⟩ := ih (by omega) (by omega) ho
        · exact .inr ⟨_, t, head, .here (comma.tries h)⟩
        · exact .inr ⟨_, t, head, .next (comma.spaced first) others⟩
      · cases h
    next => cases h
    next =>
      cases h
      rw [hf] at reports
      exact .inl reports

theorem Reports.callOrName (hr : Reports inner length) (hi : Sound inner) {name t : List Char}
    (clean : skipBlanks s = s) (hn : takeName? s = some (name, t)) (hd : takeNumber? s = none)
    (short : (skipBlanks t).length ≤ length) (h : callOrName inner name t = .error ⟨rest⟩) :
    Tries .primary s rest := by
  obtain ⟨hs, hb⟩ := Runs.identifier hn
  have number : Runs (.rule .realLiteral) s none := Runs.realLiteralFails hd
  have identifier : Matches (.rule .identifier) s [.leaf .identifier name] t :=
    .of_runs (by rw [clean]; exact Runs.rule_of_eq hs hb)
  rw [Recogniser.callOrName] at h
  split at h
  next u hu =>
    have opens : Matches (.text ['(']) t [] u := .text hu
    have blanks := skipBlanks_length_le u
    have hl : u.length < (skipBlanks t).length := by
      rw [hu]
      exact Nat.lt_succ_self _
    split at h
    next => cases h
    next =>
      rcases bind_eq_error_iff.mp h with ha | ⟨_, _, h⟩
      · have tried := (hr.arguments hi _ (by omega) (by omega) ha).arguments
        have call : Tries Rule.call.body (skipBlanks s) rest :=
          identifier.tries (opens.tries (.seqFirst (.optional tried)))
        rw [clean] at call
        exact .second number (.first (.inside call))
      · cases h
  next => cases h

theorem Reports.primary (hr : Reports inner length) (hi : Sound inner)
    (clean : skipBlanks s = s) (short : s.length ≤ length)
    (h : primary inner s = .error ⟨rest⟩) : Tries .primary s rest := by
  rw [Recogniser.primary.eq_def] at h
  split at h
  next t =>
    have opens : Matches (.text ['(']) ('(' :: t) [] t := .text clean
    have blanks := skipBlanks_length_le t
    have reports := hr t (by rw [List.length_cons] at short; omega)
    have group (h : Tries (.rule .expr) (skipBlanks t) rest) : Tries .primary ('(' :: t) rest := by
      have number : Runs (.rule .realLiteral) ('(' :: t) none := Runs.realLiteralFails rfl
      have call : Runs (.rule .call) ('(' :: t) none := Runs.call_fails rfl
      have name : Runs (.rule .name) ('(' :: t) none := .ruleFails (Runs.identifierFails rfl)
      exact .second number (.second call (.second name (opens.tries (.seqFirst h))))
    rcases bind_eq_error_iff.mp h with hf | ⟨⟨formula, u⟩, hf, h⟩
    · rw [hf] at reports
      exact group reports
    · dsimp only at h
      split at h
      next => cases h
      next =>
        cases h
        rw [hf] at reports
        exact group reports
  next =>
    split at h
    next => cases h
    next hd =>
      split at h
      next name t hn =>
        obtain ⟨proper, hs⟩ := scan?_proper (scan?_of_name hd hn)
        have blanks := skipBlanks_length_le t
        have hl : t.length ≤ s.length := by
          rw [hs, List.length_append]
          omega
        exact hr.callOrName hi clean hn hd (by omega) h
      next =>
        cases h
        exact .first (.rule rfl (Runs.realLiteralFails hd))

theorem Reports.operation (hr : Reports inner length) (hi : Sound inner) (fuel : Nat)
    (short : (skipBlanks s).length ≤ length) (enough : (skipBlanks s).length < fuel) :
    OperandsTry s (reach (Recogniser.operation inner fuel s)) := by
  induction fuel generalizing s with
  | zero => cases enough
  | succ fuel ih =>
    have signs := Matches.manySpaced (repeats_sign s)
    have clean := skipBlanks_takeSigns s
    have hl := signs.length_le
    rw [clean] at hl
    rw [Recogniser.operation]
    dsimp only
    refine ⟨_, _, signs, ?_⟩
    rw [clean]
    cases hp : Recogniser.primary inner (takeSigns s).2 with
    | error stuck => exact .inl (hr.primary hi clean (by omega) hp)
    | ok result =>
      obtain ⟨operand, t⟩ := result
      have head : Matches .primary (takeSigns s).2 [operand.pair] t :=
        .of_runs (by rw [clean]; exact hi.primary hp)
      have ht := head.length_le
      rw [clean] at ht
      refine .inr ⟨_, t, head, ?_⟩
      simp only [bind, Except.bind]
      cases hop : takeInfix? (skipBlanks t) with
      | none => exact .here (.seqFirst (tries_operator hop))
      | some result =>
        obtain ⟨op, u⟩ := result
        have run := Runs.operator (skipBlanks t)
        rw [hop] at run
        have operator : Matches .operator t [.node (.operator op) []] u := .of_runs run
        have blanks := skipBlanks_length_le u
        have shorter : u.length < (skipBlanks t).length := by
          rw [takeInfix?_spelling hop, List.length_append]
          cases op <;> exact Nat.lt_add_of_pos_left (by decide)
        have others := ih (s := u) (by omega) (by omega)
        -- after the operator the rest is an operation of its own, whose first operand is of this link
        have whole : RepeatsTries .link t (reach (Recogniser.operation inner fuel u)) := by
          obtain ⟨ps, v, signs, h | ⟨qs, w, operand, links⟩⟩ := others
          · exact .here (operator.tries (signs.tries h))
          · exact .next (operator.spaced (signs.spaced operand)) links
        cases ho : Recogniser.operation inner fuel u with
        | error stuck =>
          rw [ho] at whole
          simpa only [ho] using whole
        | ok result =>
          rw [ho] at whole
          simp only [ho]
          exact whole

theorem Reports.formulaOver (hr : Reports inner length) (hi : Sound inner) :
    Reports (formulaOver inner) (length + 1) := by
  intro s short
  have blanks := skipBlanks_length_le s
  have tried := hr.operation hi (s := s) (s.length + 1) (by omega) (by omega)
  rw [Recogniser.formulaOver]
  cases ho : Recogniser.operation inner (s.length + 1) s with
  | error stuck =>
    rw [ho] at tried
    exact .inside (.seqFirst tried.operation)
  | ok result =>
    obtain ⟨head, t⟩ := result
    rw [ho] at tried
    have operation := hi.matches_operation ho
    have ht := operation.length_le
    simp only [bind, Except.bind]
    split
    next u hu =>
      have question : Matches (.text ['?']) t [] u := .text hu
      have blanks := skipBlanks_length_le u
      have hl : u.length < (skipBlanks t).length := by
        rw [hu]
        exact Nat.lt_succ_self _
      have tried := hr u (by omega)
      have outcomes {rest : List Char} (h : Tries
          (.spaced (.rule .expr) (.spaced (.text [':']) (.rule .expr))) (skipBlanks u) rest) :
          Tries (.rule .expr) (skipBlanks s) rest :=
        .inside (operation.tries (.optional (question.tries h)))
      cases hc : inner u with
      | error stuck =>
        rw [hc] at tried
        exact outcomes (.seqFirst tried)
      | ok result =>
        obtain ⟨chosen, v⟩ := result
        rw [hc] at tried
        have first := hi u chosen v hc
        have hv := first.length_le
        dsimp only
        split
        next w hw =>
          have colon : Matches (.text [':']) v [] w := .text hw
          have blanks := skipBlanks_length_le w
          have hl : w.length < (skipBlanks v).length := by
            rw [hw]
            exact Nat.lt_succ_self _
          have second := outcomes (first.tries (colon.tries (hr w (by omega))))
          cases he : inner w with
          | error stuck =>
            rw [he] at second
            exact second
          | ok result =>
            rw [he] at second
            exact second
        next => exact outcomes (.seqFirst tried)
    next => exact .inside (.seqFirst tried.operation)

theorem reports_formulaWithin (depth : Nat) : Reports (formulaWithin depth) depth := by
  induction depth with
  | zero => exact fun s short => nomatch short
  | succ depth ih => exact ih.formulaOver (sound_formulaWithin depth)

end Recogniser

/-- Where the recogniser gets stuck something has been tried in vain. -/
theorem tries_of_recognise {text rest : List Char} (h : recognise text = .error ⟨rest⟩) :
    Tries .calculation text rest := by
  have blanks := skipBlanks_length_le text
  have tried := Recogniser.reports_formulaWithin (text.length + 1) text (by omega)
  have start : Runs (.text []) text (some ([], text)) := .text [] text
  have whole {rest : List Char} (h : Tries (.rule .expr) (skipBlanks text) rest) :
      Tries .calculation text rest :=
    .seqSecond start (.seqSecond (runs_blanks text) (.seqFirst h))
  rcases bind_eq_error_iff.mp h with hf | ⟨⟨formula, others⟩, hf, h⟩
  · rw [hf] at tried
    exact whole tried
  · rw [hf] at tried
    dsimp only at h
    split at h
    next => cases h
    next => cases h; exact whole tried

/-- The recogniser gets stuck at the furthest place at which something is tried in vain. -/
theorem furthest_of_recognise {text rest : List Char} (h : recognise text = .error ⟨rest⟩) :
    Furthest .calculation text rest := by
  refine ⟨tries_of_recognise h, fun u tried => ?_⟩
  obtain ⟨ts, q, walk, clean, blocked, -⟩ := halts_of_recognise h
  obtain ⟨us, r, others⟩ := walks_of_tries tried
  have blanks := skipBlanks_length_le u
  obtain ⟨ws, further | back⟩ := walk.comparable others
  · cases further with
    | stay same =>
      rw [← clean, same]
      exact blanks
    | step moves _ => exact (blocked _ _ _ moves).elim
  · have hl := back.length_le
    rw [clean] at hl
    omega

end LessonPlot
