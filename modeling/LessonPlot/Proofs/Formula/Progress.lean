import LessonPlot.Proofs.Formula.Scanning

namespace LessonPlot

/-- A part of a formula that has been opened and is not closed yet: parentheses, the arguments of a
call, or a choice before its colon. -/
inductive Opened where
  | group
  | call
  | choice
deriving DecidableEq, Repr

/-- Where a formula stands after a token. -/
inductive Stage where
  | operand
  | firstArgument
  | afterName
  | afterOperand
deriving DecidableEq, Repr

/-- How far a formula has come: what it waits for and the parts that are open, the innermost
first. -/
structure Progress where
  stage : Stage
  opened : List Opened
deriving DecidableEq, Repr

namespace Progress

def start : Progress := ⟨.operand, []⟩

/-- A token where an operand is to come. -/
def operand? (opened : List Opened) : Lexeme → Option Progress
  | .number _ => some ⟨.afterOperand, opened⟩
  | .name _ => some ⟨.afterName, opened⟩
  | .operator .subtract | .operator .add | .bang => some ⟨.operand, opened⟩
  | .opening => some ⟨.operand, .group :: opened⟩
  | _ => none

/-- A token after an operand. -/
def follow? : List Opened → Lexeme → Option Progress
  | opened, .operator _ => some ⟨.operand, opened⟩
  | opened, .question => some ⟨.operand, .choice :: opened⟩
  | .choice :: opened, .colon => some ⟨.operand, opened⟩
  | .call :: opened, .comma => some ⟨.operand, .call :: opened⟩
  | .call :: opened, .closing => some ⟨.afterOperand, opened⟩
  | .group :: opened, .closing => some ⟨.afterOperand, opened⟩
  | _, _ => none

/-- Goes on by one token, if the formula can go on with that. -/
def take? (p : Progress) (t : Lexeme) : Option Progress :=
  match p.stage with
  | .operand => operand? p.opened t
  | .firstArgument =>
    match t, p.opened with
    | .closing, .call :: opened => some ⟨.afterOperand, opened⟩
    | t, opened => operand? opened t
  | .afterName =>
    match t with
    | .opening => some ⟨.firstArgument, .call :: p.opened⟩
    | t => follow? p.opened t
  | .afterOperand => follow? p.opened t

def takeAll? (p : Progress) (ts : List Lexeme) : Option Progress :=
  ts.foldlM take? p

/-- An operand has just ended. -/
def Ended (p : Progress) : Prop :=
  p.stage = .afterName ∨ p.stage = .afterOperand

/-- The tokens so far are a whole formula. -/
def Complete (p : Progress) : Prop :=
  p.Ended ∧ p.opened = []

theorem takeAll?_cons (p : Progress) (t : Lexeme) (ts : List Lexeme) :
    p.takeAll? (t :: ts) = (p.take? t).bind fun q => q.takeAll? ts :=
  List.foldlM_cons

theorem takeAll?_append (p : Progress) (ts us : List Lexeme) :
    p.takeAll? (ts ++ us) = (p.takeAll? ts).bind fun q => q.takeAll? us :=
  List.foldlM_append

end Progress

namespace Lexeme

def zero : Lexeme := .number ['0']

theorem zero_proper : zero.Proper :=
  (scan?_proper (s := ['0']) rfl).1

end Lexeme

namespace Progress

/-- After an operand the open parts can be closed one by one. -/
theorem exists_closing (opened : List Opened) : ∃ ts q, (∀ t ∈ ts, t.Proper) ∧
    takeAll? ⟨.afterOperand, opened⟩ ts = some q ∧ q.Complete := by
  induction opened with
  | nil => exact ⟨[], _, nofun, rfl, .inr rfl, rfl⟩
  | cons top opened ih =>
    obtain ⟨ts, q, proper, taken, complete⟩ := ih
    cases top with
    | group | call =>
      refine ⟨.closing :: ts, q, ?_, taken, complete⟩
      exact List.forall_mem_cons.mpr ⟨trivial, proper⟩
    | choice =>
      refine ⟨.colon :: .zero :: ts, q, ?_, taken, complete⟩
      exact List.forall_mem_cons.mpr
        ⟨trivial, List.forall_mem_cons.mpr ⟨Lexeme.zero_proper, proper⟩⟩

/-- From everywhere some tokens lead to the end of a formula. -/
theorem exists_completion (p : Progress) : ∃ ts q, (∀ t ∈ ts, t.Proper) ∧
    p.takeAll? ts = some q ∧ q.Complete := by
  obtain ⟨stage, opened⟩ := p
  obtain ⟨ts, q, proper, taken, complete⟩ := exists_closing opened
  have closed := List.forall_mem_cons.mpr ⟨Lexeme.zero_proper, proper⟩
  cases stage with
  | operand | firstArgument => exact ⟨.zero :: ts, q, closed, taken, complete⟩
  | afterName =>
    refine ⟨.operator .add :: .zero :: ts, q, ?_, taken, complete⟩
    exact List.forall_mem_cons.mpr ⟨trivial, closed⟩
  | afterOperand => exact ⟨ts, q, proper, taken, complete⟩

section Take

variable {p q r : Progress} {t u : Lexeme}

/-- A formula goes on after an operand in another way than where it waits for one. -/
theorem not_ended_of_take?_bang (h : p.take? .bang = some q) : ¬ p.Ended := by
  obtain ⟨stage, opened⟩ := p
  rcases opened with _ | ⟨_ | _ | _, opened⟩ <;> rintro (rfl | rfl) <;> cases h

theorem ended_of_take?_notEqual (h : p.take? (.operator .notEqual) = some q) : p.Ended := by
  obtain ⟨stage, opened⟩ := p
  cases stage with
  | operand | firstArgument => cases h
  | afterName => exact .inl rfl
  | afterOperand => exact .inr rfl

theorem stage_of_take?_number {digits : List Char} (h : p.take? (.number digits) = some q) :
    q.stage = .afterOperand := by
  obtain ⟨stage, opened⟩ := p
  rcases opened with _ | ⟨_ | _ | _, opened⟩ <;> cases stage <;> cases h <;> rfl

theorem stage_of_take?_name {letters : List Char} (h : p.take? (.name letters) = some q) :
    q.stage = .afterName := by
  obtain ⟨stage, opened⟩ := p
  rcases opened with _ | ⟨_ | _ | _, opened⟩ <;> cases stage <;> cases h <;> rfl

theorem stage_of_take?_operator {op : InfixOp} (h : p.take? (.operator op) = some q) :
    q.stage = .operand := by
  obtain ⟨stage, opened⟩ := p
  cases stage <;> cases op <;> cases h <;> rfl

theorem stage_of_take?_bang (h : p.take? .bang = some q) : q.stage = .operand := by
  obtain ⟨stage, opened⟩ := p
  rcases opened with _ | ⟨_ | _ | _, opened⟩ <;> cases stage <;> cases h <;> rfl

theorem not_inNumber_of_follow? {opened : List Opened} (h : follow? opened u = some r) :
    ∀ c ∈ u.spelling.head?, inNumber c = false := by
  cases u with
  | operator op => cases op <;> rintro _ ⟨⟩ <;> rfl
  | closing | comma | question | colon => rintro _ ⟨⟩; rfl
  | number | name | bang | opening =>
    rcases opened with _ | ⟨_ | _ | _, opened⟩ <;> cases h

theorem ne_equals_of_operand? {opened : List Opened} (h : operand? opened u = some r)
    (proper : u.Proper) : ∀ c ∈ u.spelling.head?, c ≠ '=' := by
  have word {d : Char} (hd : startsWord d = true) : d ≠ '=' := by
    rintro rfl
    cases hd
  cases u with
  | number digits =>
    obtain ⟨ps, derived⟩ := proper
    obtain ⟨d, rest, rfl, hd⟩ := derived.realLiteral_startsWord
    rintro _ ⟨⟩
    exact word hd
  | name letters =>
    obtain ⟨ps, derived⟩ := proper
    obtain ⟨-, ⟨d, rest, rfl, hd⟩, -⟩ := derived.identifier_inv
    rintro _ ⟨⟩
    exact word (startsWord_of_isNameStart hd)
  | operator op => cases op <;> cases h <;> rintro _ ⟨⟩ <;> decide
  | bang | opening => rintro _ ⟨⟩; decide
  | closing | comma | question | colon => cases h

/-- A token never starts with a character that would have prolonged the one before it. -/
theorem inside_of_take? (first : p.take? t = some q) (second : q.take? u = some r)
    (proper : u.Proper) : ∀ c ∈ u.spelling.head?, t.inside c = false := by
  have waiting (hq : q.stage = .operand) : ∀ c ∈ u.spelling.head?, decide (c = '=') = false := by
    simp only [take?, hq] at second
    exact fun c hc => decide_eq_false (ne_equals_of_operand? second proper c hc)
  cases t with
  | number digits =>
    simp only [take?, stage_of_take?_number first] at second
    exact not_inNumber_of_follow? second
  | name letters =>
    simp only [take?, stage_of_take?_name first] at second
    intro c hc
    split at second
    next => cases hc; rfl
    next => exact (Bool.or_eq_false_iff.mp (not_inNumber_of_follow? second c hc)).1
  | operator op => exact waiting (stage_of_take?_operator first)
  | bang => exact waiting (stage_of_take?_bang first)
  | opening | closing | comma | question | colon => exact fun _ _ => rfl

end Take

end Progress

/-- A formula goes on by the token at the start of a text. An exclamation mark where an operand is
waited for is a sign, whatever comes after it. -/
def Moves (p : Progress) (s : List Char) (t : Lexeme) (q : Progress) (rest : List Char) : Prop :=
  (scan? (skipBlanks s) = some (t, rest) ∨ t = .bang ∧ skipBlanks s = '!' :: rest) ∧
    p.take? t = some q

/-- A formula goes on token by token along a text, up to the blanks before the next token. -/
inductive Walks : Progress → List Char → List Lexeme → Progress → List Char → Prop where
  | stay {p : Progress} {s rest : List Char} (h : skipBlanks s = skipBlanks rest) :
      Walks p s [] p rest
  | step {p q r : Progress} {s u rest : List Char} {t : Lexeme} {ts : List Lexeme}
      (head : Moves p s t q u) (tail : Walks q u ts r rest) : Walks p s (t :: ts) r rest

section Walks

variable {p q r q' r' : Progress} {s s' u v rest : List Char} {t t' : Lexeme}
  {ts us : List Lexeme}

theorem Moves.of_blanks (h : Moves p s t q u) (hs : skipBlanks s = skipBlanks s') :
    Moves p s' t q u := by
  rwa [Moves, ← hs]

theorem scan?_bang (rest : List Char) : scan? ('!' :: rest) = some (.bang, rest) ∨
    ∃ others, scan? ('!' :: rest) = some (.operator .notEqual, others) := by
  by_cases equals : ∃ others, rest = '=' :: others
  · obtain ⟨others, rfl⟩ := equals
    exact .inr ⟨others, rfl⟩
  · exact .inl (scan?_append (t := .bang) trivial (stops_equals equals))

/-- Where a sign is taken no other token can be. -/
theorem sign_of_scan? {rest others : List Char} (bang : p.take? .bang = some q)
    (scanned : scan? ('!' :: rest) = some (t, others)) (taken : p.take? t = some r) :
    t = .bang ∧ others = rest := by
  rcases scan?_bang rest with hb | ⟨_, hb⟩
  · rw [hb] at scanned
    cases scanned
    exact ⟨rfl, rfl⟩
  · rw [hb] at scanned
    cases scanned
    exact (p.not_ended_of_take?_bang bang (p.ended_of_take?_notEqual taken)).elim

/-- There is one way to go on at most. -/
theorem Moves.deterministic (h : Moves p s t q u) (h' : Moves p s t' q' v) :
    t = t' ∧ q = q' ∧ u = v := by
  -- an exclamation mark before `=` is a sign or half an operator, but the stage allows one of them
  have token : t = t' ∧ u = v := by
    obtain ⟨scanned | ⟨rfl, hs⟩, taken⟩ := h
    · obtain ⟨scanned' | ⟨rfl, hs'⟩, taken'⟩ := h'
      · rw [scanned] at scanned'
        cases scanned'
        exact ⟨rfl, rfl⟩
      · exact sign_of_scan? taken' (hs' ▸ scanned) taken
    · obtain ⟨scanned' | ⟨rfl, hs'⟩, taken'⟩ := h'
      · obtain ⟨rfl, rfl⟩ := sign_of_scan? taken (hs ▸ scanned') taken'
        exact ⟨rfl, rfl⟩
      · rw [hs] at hs'
        cases hs'
        exact ⟨rfl, rfl⟩
  obtain ⟨rfl, rfl⟩ := token
  exact ⟨rfl, Option.some.inj (h.2.symm.trans h'.2), rfl⟩

theorem Moves.proper (h : Moves p s t q u) : t.Proper ∧ skipBlanks s = t.spelling ++ u := by
  obtain ⟨scanned | ⟨rfl, hs⟩, -⟩ := h
  · exact scan?_proper scanned
  · exact ⟨trivial, hs⟩

theorem Lexeme.Proper.spelling_ne_nil (h : t.Proper) : t.spelling ≠ [] := by
  cases t with
  | number digits =>
    obtain ⟨ps, derived⟩ := h
    obtain ⟨c, r, rfl, -⟩ := derived.realLiteral_startsWord
    nofun
  | name letters =>
    obtain ⟨ps, derived⟩ := h
    obtain ⟨-, ⟨c, r, rfl, -⟩, -⟩ := derived.identifier_inv
    nofun
  | operator op => cases op <;> nofun
  | bang | opening | closing | comma | question | colon => nofun

theorem Lexeme.Proper.skipBlanks_spelling (h : t.Proper) (rest : List Char) :
    skipBlanks (t.spelling ++ rest) = t.spelling ++ rest := by
  have word {c : Char} (hc : startsWord c = true) (r : List Char) :
      skipBlanks (c :: r) = c :: r := by
    have hb := isBlank_eq_false_of (p := startsWord) rfl hc
    exact skipBlanks_cons_of_neg (by simp [hb])
  cases t with
  | number digits =>
    obtain ⟨ps, derived⟩ := h
    obtain ⟨c, r, rfl, hc⟩ := derived.realLiteral_startsWord
    exact word hc (r ++ rest)
  | name letters =>
    obtain ⟨ps, derived⟩ := h
    obtain ⟨-, ⟨c, r, rfl, hc⟩, -⟩ := derived.identifier_inv
    exact word (startsWord_of_isNameStart hc) (r ++ rest)
  | operator op => cases op <;> rfl
  | bang | opening | closing | comma | question | colon => rfl

theorem skipBlanks_of_scan? (h : scan? s = some (t, rest)) : skipBlanks s = s := by
  obtain ⟨proper, rfl⟩ := scan?_proper h
  exact proper.skipBlanks_spelling rest

theorem Lexeme.inside_of_isBlank (t : Lexeme) {c : Char} (h : isBlank c = true) :
    t.inside c = false := by
  rw [Bool.eq_false_iff]
  intro hc
  rw [isBlank_eq_false_of (p := t.inside) (by cases t <;> rfl) hc] at h
  cases h

theorem Moves.length_lt (h : Moves p s t q u) : u.length < (skipBlanks s).length := by
  obtain ⟨proper, hs⟩ := h.proper
  have some := List.length_pos_iff.mpr proper.spelling_ne_nil
  rw [hs, List.length_append]
  omega

namespace Walks

theorem single (h : Moves p s t q u) : Walks p s [t] q u :=
  .step h (.stay rfl)

theorem trans (first : Walks p s ts q u) (second : Walks q u us r v) :
    Walks p s (ts ++ us) r v := by
  induction first with
  | stay h =>
    cases second with
    | stay h' => exact .stay (h.trans h')
    | step head tail => exact .step (head.of_blanks h.symm) tail
  | step head _ ih => exact .step head (ih second)

theorem takeAll? (h : Walks p s ts q u) : p.takeAll? ts = some q := by
  induction h with
  | stay h => rfl
  | step head _ ih => rw [Progress.takeAll?_cons, head.2, Option.bind_some, ih]

theorem proper (h : Walks p s ts q u) : ∀ t ∈ ts, t.Proper := by
  induction h with
  | stay h => nofun
  | step head _ ih => exact List.forall_mem_cons.mpr ⟨head.proper.1, ih⟩

theorem length_le (h : Walks p s ts q u) : (skipBlanks u).length ≤ (skipBlanks s).length := by
  induction h with
  | stay h => rw [h]
  | @step _ _ _ _ u _ _ _ head tail ih =>
    have shorter := head.length_lt
    have blanks := skipBlanks_length_le u
    omega

/-- Of two walks from one place, one goes on from where the other ends. -/
theorem comparable (h : Walks p s ts q u) (h' : Walks p s us r v) :
    ∃ ws, Walks q u ws r v ∨ Walks r v ws q u := by
  induction h generalizing us with
  | stay h =>
    cases h' with
    | stay h' => exact ⟨[], .inl (.stay (h.symm.trans h'))⟩
    | step head tail => exact ⟨_, .inl (.step (head.of_blanks h) tail)⟩
  | step head tail ih =>
    cases h' with
    | stay h' => exact ⟨_, .inr (.step (head.of_blanks h') tail)⟩
    | step head' tail' =>
      obtain ⟨rfl, rfl, rfl⟩ := head.deterministic head'
      exact ih tail'

/-- The text that is walked along, taken by itself, is made of the tokens of the walk. -/
theorem lexed (h : Walks p s ts q rest) (clean : skipBlanks rest = rest) :
    ∃ front, s = front ++ rest ∧ Lexed front ts := by
  induction h with
  | @stay p s rest h =>
    refine ⟨s.takeWhile isBlank, ?_, .nil fun c hc => List.mem_takeWhile_imp hc⟩
    rw [← clean, ← h]
    exact List.takeWhile_append_dropWhile.symm
  | @step p q r s u rest t ts head tail ih =>
    obtain ⟨front, rfl, lexed⟩ := ih clean
    obtain ⟨proper, hs⟩ := head.proper
    -- the next token does not prolong this one, nor does a blank, so it is the longest there is
    have stops : Stops t.inside front := by
      cases lexed with
      | nil hw => exact fun c hc => t.inside_of_isBlank (hw c (List.mem_of_mem_head? hc))
      | @cons w s others t' ts hw next _ =>
        obtain ⟨proper', rfl, -⟩ := next
        obtain ⟨_, taken, -⟩ := Option.bind_eq_some_iff.mp tail.takeAll?
        cases w with
        | nil =>
          rw [List.nil_append, Stops, List.head?_append_of_ne_nil _ proper'.spelling_ne_nil]
          exact p.inside_of_take? head.2 taken proper'
        | cons c w =>
          rintro _ ⟨⟩
          exact t.inside_of_isBlank (hw c (List.mem_cons_self ..))
    refine ⟨s.takeWhile isBlank ++ (t.spelling ++ front), ?_, ?_⟩
    · rw [List.append_assoc, List.append_assoc, ← hs]
      exact List.takeWhile_append_dropWhile.symm
    · refine .cons (fun c hc => List.mem_takeWhile_imp hc) ?_ lexed
      exact longest_iff.mpr (scan?_append proper stops)

end Walks

theorem Lexed.nil_inv (h : Lexed s []) : skipBlanks s = [] := by
  cases h with
  | nil hw =>
    have none := skipBlanks_append hw []
    rwa [List.append_nil] at none

theorem Lexed.cons_inv (h : Lexed s (t :: ts)) :
    ∃ rest, scan? (skipBlanks s) = some (t, rest) ∧ Lexed rest ts := by
  cases h with
  | cons hw head tail =>
    refine ⟨_, ?_, tail⟩
    have scanned := longest_iff.mp head
    obtain ⟨proper, rfl, -⟩ := head
    rwa [skipBlanks_append hw, proper.skipBlanks_spelling]

/-- A text is made of the same tokens however it is taken apart. -/
theorem Lexed.unique (h : Lexed s ts) (h' : Lexed s us) : ts = us := by
  have clash {s : List Char} {t : Lexeme} {ts : List Lexeme} (none : Lexed s [])
      (some : Lexed s (t :: ts)) : False := by
    obtain ⟨_, scanned, -⟩ := some.cons_inv
    rw [none.nil_inv] at scanned
    cases scanned
  induction ts generalizing s us with
  | nil =>
    cases us with
    | nil => rfl
    | cons u us => exact (clash h h').elim
  | cons t ts ih =>
    cases us with
    | nil => exact (clash h' h).elim
    | cons u us =>
      obtain ⟨rest, scanned, tail⟩ := h.cons_inv
      obtain ⟨others, scanned', tail'⟩ := h'.cons_inv
      rw [scanned] at scanned'
      cases scanned'
      rw [ih tail tail']

/-- A text that is made of some tokens is walked along wherever a formula can go on with them. -/
theorem Lexed.walks (h : Lexed s ts) (taken : p.takeAll? ts = some q) : Walks p s ts q [] := by
  induction ts generalizing p s with
  | nil =>
    cases taken
    exact .stay h.nil_inv
  | cons t ts ih =>
    rw [Progress.takeAll?_cons] at taken
    obtain ⟨r, first, others⟩ := Option.bind_eq_some_iff.mp taken
    obtain ⟨rest, scanned, tail⟩ := h.cons_inv
    exact .step ⟨.inl scanned, first⟩ (ih tail others)

end Walks

end LessonPlot
