import LessonPlot.Proofs.Formula.Recognition

namespace LessonPlot

/-- A token as it stands in a text. A minus or a plus is one token, whether it is a sign or an
operator there. -/
inductive Lexeme where
  | number (digits : List Char)
  | name (letters : List Char)
  | operator (op : InfixOp)
  | bang
  | opening
  | closing
  | comma
  | question
  | colon
deriving DecidableEq, Repr

namespace Lexeme

def spelling : Lexeme → List Char
  | number digits => digits
  | name letters => letters
  | operator op => op.spelling
  | bang => ['!']
  | opening => ['(']
  | closing => [')']
  | comma => [',']
  | question => ['?']
  | colon => [':']

/-- Numbers and names are spelled as the grammar has it. -/
def Proper : Lexeme → Prop
  | number digits => ∃ ps, Derives (.rule .realLiteral) digits ps
  | name letters => ∃ ps, Derives (.rule .identifier) letters ps
  | _ => True

/-- The characters that may not follow a token, or else it does not end there. -/
def inside : Lexeme → Char → Bool
  | number _ => inNumber
  | name _ => isNamePart
  | operator _ | bang => fun c => c = '='
  | _ => fun _ => false

/-- A token is the longest of those that stand at the start of a text. -/
def Longest (t : Lexeme) (text rest : List Char) : Prop :=
  t.Proper ∧ text = t.spelling ++ rest ∧
    ∀ (u : Lexeme) (others : List Char), u.Proper → text = u.spelling ++ others →
      u.spelling.length ≤ t.spelling.length

end Lexeme

/-- Takes the longest token off the start of a text. -/
def scan? (text : List Char) : Option (Lexeme × List Char) :=
  match takeInfix? text with
  | some (op, rest) => some (.operator op, rest)
  | none =>
    match text with
    | '!' :: rest => some (.bang, rest)
    | '(' :: rest => some (.opening, rest)
    | ')' :: rest => some (.closing, rest)
    | ',' :: rest => some (.comma, rest)
    | '?' :: rest => some (.question, rest)
    | ':' :: rest => some (.colon, rest)
    | text =>
      match takeNumber? text with
      | some (digits, rest) => some (.number digits, rest)
      | none => (takeName? text).map fun (letters, rest) => (.name letters, rest)

/-- A text is made of tokens, each as long as it can be, with blanks or nothing between them. -/
inductive Lexed : List Char → List Lexeme → Prop where
  | nil {w : List Char} (hw : Blank w) : Lexed w []
  | cons {w s rest : List Char} {t : Lexeme} {ts : List Lexeme} (hw : Blank w)
      (head : t.Longest s rest) (tail : Lexed rest ts) : Lexed (w ++ s) (t :: ts)

/-- The first characters of numbers and of names, which no other token starts with. -/
def startsWord (c : Char) : Bool :=
  c.isDigit || c = '.' || isNameStart c

theorem scan?_of_startsWord {c : Char} (h : startsWord c = true) (s : List Char) :
    scan? (c :: s) = match takeNumber? (c :: s) with
      | some (digits, rest) => some (.number digits, rest)
      | none => (takeName? (c :: s)).map fun (letters, rest) => (.name letters, rest) := by
  have other (d : Char) (hd : startsWord d = false) : c ≠ d := by
    rintro rfl
    rw [h] at hd
    cases hd
  have none : takeInfix? (c :: s) = none := by
    unfold takeInfix?
    split <;> first | rfl | exact (other _ rfl (List.cons.inj ‹_›).1).elim
  unfold scan?
  simp only [none]
  split <;> first | rfl | exact (other _ rfl (List.cons.inj ‹_›).1).elim

theorem exists_digits (s : List Char) : ∃ digits rest, s = digits ++ rest ∧
    (∀ c ∈ digits, c.isDigit = true) ∧ Stops Char.isDigit rest := by
  refine ⟨s.takeWhile Char.isDigit, s.dropWhile Char.isDigit,
    List.takeWhile_append_dropWhile.symm, fun c hc => List.mem_takeWhile_imp hc, ?_⟩
  intro c hc
  have h := List.head?_dropWhile_not Char.isDigit s
  rw [hc] at h
  simpa using h

namespace Derives

variable {s : List Char} {ps : List Pair}

/-- No mantissa that a text starts with is longer than the one that is taken off it. -/
theorem mantissa_le (h : Derives .mantissa s ps) (rest : List Char) :
    ∃ m others, LessonPlot.takeMantissa? (s ++ rest) = some (m, others) ∧
      s.length ≤ m.length := by
  obtain ⟨more, rest, rfl, hm, stops⟩ := exists_digits rest
  obtain ⟨-, ⟨hd, hne⟩ | ⟨d, f, rfl, hd, hf, hne⟩⟩ := h.mantissa_inv
  · have digits : ∀ c ∈ s ++ more, c.isDigit = true := List.forall_mem_append.mpr ⟨hd, hm⟩
    have some : s ++ more ≠ [] := List.append_ne_nil_of_left_ne_nil hne more
    by_cases point : ∃ t, rest = '.' :: t
    · obtain ⟨t, rfl⟩ := point
      obtain ⟨f, rest, rfl, hf, stops⟩ := exists_digits t
      refine ⟨s ++ more ++ '.' :: f, rest, ?_, ?_⟩
      · rw [← List.append_assoc]
        exact takeMantissa?_point digits hf (.inl some) stops
      · simp only [List.length_append]
        omega
    · refine ⟨s ++ more, rest, ?_, ?_⟩
      · rw [← List.append_assoc]
        refine takeMantissa?_whole digits some fun c hc => ?_
        rw [Bool.or_eq_false_iff]
        refine ⟨stops c hc, decide_eq_false ?_⟩
        rintro rfl
        exact point (List.head?_eq_some_iff.mp hc)
      · simp only [List.length_append]
        omega
  · have digits : ∀ c ∈ f ++ more, c.isDigit = true := List.forall_mem_append.mpr ⟨hf, hm⟩
    refine ⟨d ++ '.' :: (f ++ more), rest, ?_, ?_⟩
    · have assoc : d ++ '.' :: f ++ (more ++ rest) = d ++ '.' :: (f ++ more ++ rest) := by simp
      rw [assoc]
      exact takeMantissa?_point hd digits (hne.imp_right (List.append_ne_nil_of_left_ne_nil · _))
        stops
    · simp only [List.length_append, List.length_cons]
      omega

theorem exponent_le (h : Derives .exponent s ps) (rest : List Char) :
    s.length ≤ (LessonPlot.takeExponent (s ++ rest)).1.length := by
  obtain ⟨more, rest, rfl, hm, stops⟩ := exists_digits rest
  obtain ⟨-, mark, signs, d, rfl, he, hs, hd, hne⟩ := h.exponent_inv
  have digits : ∀ c ∈ d ++ more, c.isDigit = true := List.forall_mem_append.mpr ⟨hd, hm⟩
  have taken := takeExponent_append he hs digits (List.append_ne_nil_of_left_ne_nil hne more) stops
  have assoc : mark :: (signs ++ d) ++ (more ++ rest) = mark :: (signs ++ (d ++ more)) ++ rest := by
    simp
  rw [assoc, taken]
  simp only [List.length_cons, List.length_append]
  omega

/-- No number that a text starts with is longer than the one that is taken off it. -/
theorem realLiteral_le (h : Derives (.rule .realLiteral) s ps) (rest : List Char) :
    ∃ digits others, takeNumber? (s ++ rest) = some (digits, others) ∧
      s.length ≤ digits.length := by
  cases h with
  | rule h =>
    obtain ⟨m, x, qs, rs, rfl, -, mantissa, exponent⟩ := h.seq_inv
    cases exponent with
    | absent =>
      obtain ⟨m', others, taken, long⟩ := mantissa.mantissa_le rest
      refine ⟨_, _, by rw [List.append_nil, takeNumber?, taken]; rfl, ?_⟩
      simp only [List.append_nil, List.length_append]
      omega
    | present exponent =>
      have stops : Stops (fun c => c.isDigit || c = '.') (x ++ rest) := by
        obtain ⟨-, mark, signs, d, rfl, he, -, -, -⟩ := exponent.exponent_inv
        rintro _ ⟨⟩
        have he : mark = 'e' ∨ mark = 'E' := by simpa using he
        rcases he with rfl | rfl <;> rfl
      have taken := mantissa.takeMantissa?.2 _ stops
      have long := exponent.exponent_le rest
      refine ⟨_, _, by rw [List.append_assoc, takeNumber?, taken]; rfl, ?_⟩
      simp only [List.length_append]
      omega

theorem identifier_le (h : Derives (.rule .identifier) s ps) (rest : List Char) :
    ∃ letters others, takeName? (s ++ rest) = some (letters, others) ∧
      s.length ≤ letters.length := by
  cases h with
  | rule h =>
    obtain ⟨t, u, qs, rs, rfl, -, head, tail⟩ := h.seq_inv
    obtain ⟨c, rfl, rfl, hc⟩ := head.char_inv
    obtain ⟨hu, rfl⟩ := tail.many_char_inv
    refine ⟨_, _, by simp [takeName?, hc]; exact ⟨rfl, rfl⟩, ?_⟩
    simp [List.takeWhile_append_of_pos hu]

end Derives

theorem takeInfix?_spelling {s rest : List Char} {op : InfixOp}
    (h : takeInfix? s = some (op, rest)) : s = op.spelling ++ rest := by
  have run := Runs.operator s
  rw [h] at run
  obtain ⟨t, rfl, derived⟩ := run.derives _ rfl
  obtain ⟨op', rfl, hp⟩ := derived.operator_inv
  cases hp
  rfl

theorem stops_equals {rest : List Char} (h : ¬ ∃ t, rest = '=' :: t) :
    Stops (fun c => c = '=') rest := by
  intro c hc
  rw [decide_eq_false_iff_not]
  rintro rfl
  exact h (List.head?_eq_some_iff.mp hc)

theorem takeInfix?_le (op : InfixOp) (rest : List Char) :
    ∃ op' others, takeInfix? (op.spelling ++ rest) = some (op', others) ∧
      op.spelling.length ≤ op'.spelling.length := by
  by_cases equals : ∃ t, rest = '=' :: t
  · obtain ⟨t, rfl⟩ := equals
    cases op <;> exact ⟨_, _, rfl, by decide⟩
  · exact ⟨op, rest, takeInfix?_append op (stops_equals equals), Nat.le_refl _⟩

theorem takeInfix?_bang {rest : List Char} (h : Stops (fun c => c = '=') rest) :
    takeInfix? ('!' :: rest) = none := by
  cases rest with
  | nil => rfl
  | cons c rest =>
    have hc : c ≠ '=' := by simpa using h c rfl
    simp [takeInfix?, hc]

section Scan

variable {s rest : List Char} {t : Lexeme}

theorem Derives.realLiteral_startsWord {ps : List Pair} (h : Derives (.rule .realLiteral) s ps) :
    ∃ c r, s = c :: r ∧ startsWord c = true := by
  obtain ⟨-, ⟨c, r, rfl, hc⟩, -⟩ := h.realLiteral_inv
  exact ⟨c, r, rfl, by rw [startsWord, hc]; rfl⟩

theorem startsWord_of_isNameStart {c : Char} (h : isNameStart c = true) :
    startsWord c = true := by
  rw [startsWord, h, Bool.or_true]

theorem derives_of_takeNumber? {digits : List Char} (h : takeNumber? s = some (digits, rest)) :
    s = digits ++ rest ∧ ∃ ps, Derives (.rule .realLiteral) digits ps := by
  obtain ⟨w, rfl, derived⟩ := (Runs.realLiteral h).derives _ rfl
  obtain ⟨hp, -, -⟩ := derived.realLiteral_inv
  cases hp
  exact ⟨rfl, _, derived⟩

theorem derives_of_takeName? {letters : List Char} (h : takeName? s = some (letters, rest)) :
    s = letters ++ rest ∧ ∃ ps, Derives (.rule .identifier) letters ps := by
  obtain ⟨hs, run⟩ := Runs.identifier h
  obtain ⟨w, rfl, derived⟩ := (Runs.rule_of_eq (r := .identifier) hs run).derives _ rfl
  cases List.append_cancel_right hs
  exact ⟨rfl, _, derived⟩

theorem scan?_proper (h : scan? s = some (t, rest)) : t.Proper ∧ s = t.spelling ++ rest := by
  unfold scan? at h
  split at h
  next op u hu =>
    cases h
    exact ⟨trivial, takeInfix?_spelling hu⟩
  next =>
    split at h
    case h_7 =>
      split at h
      next digits u hn =>
        cases h
        exact (derives_of_takeNumber? hn).symm
      next =>
        obtain ⟨⟨letters, u⟩, hn, h⟩ := Option.map_eq_some_iff.mp h
        cases h
        exact (derives_of_takeName? hn).symm
    all_goals
      cases h
      exact ⟨trivial, rfl⟩

theorem scan?_append (proper : t.Proper) (stops : Stops t.inside rest) :
    scan? (t.spelling ++ rest) = some (t, rest) := by
  cases t with
  | number digits =>
    obtain ⟨ps, derived⟩ := proper
    obtain ⟨c, r, hs, hc⟩ := derived.realLiteral_startsWord
    have taken := derived.realLiteral_inv.2.2 rest stops
    rw [Lexeme.spelling, hs] at *
    rw [List.cons_append] at *
    rw [scan?_of_startsWord hc, taken]
  | name letters =>
    obtain ⟨ps, derived⟩ := proper
    obtain ⟨-, ⟨c, r, hs, hc⟩, takes⟩ := derived.identifier_inv
    have taken := takes rest stops
    have number := takeNumber?_eq_none hc (r ++ rest)
    rw [Lexeme.spelling, hs] at *
    rw [List.cons_append] at *
    rw [scan?_of_startsWord (startsWord_of_isNameStart hc), number, taken]
    rfl
  | operator op => simp only [Lexeme.spelling, scan?, takeInfix?_append op stops]
  | bang =>
    have none := takeInfix?_bang stops
    simp only [Lexeme.spelling, List.singleton_append, scan?, none]
  | opening | closing | comma | question | colon => rfl

theorem scan?_le (proper : t.Proper) (rest : List Char) :
    ∃ u others, scan? (t.spelling ++ rest) = some (u, others) ∧
      t.spelling.length ≤ u.spelling.length := by
  cases t with
  | number digits =>
    obtain ⟨ps, derived⟩ := proper
    obtain ⟨c, r, hs, hc⟩ := derived.realLiteral_startsWord
    obtain ⟨taken, others, ht, long⟩ := derived.realLiteral_le rest
    refine ⟨.number taken, others, ?_, long⟩
    rw [Lexeme.spelling, hs, List.cons_append] at *
    rw [scan?_of_startsWord hc, ht]
  | name letters =>
    obtain ⟨ps, derived⟩ := proper
    obtain ⟨-, ⟨c, r, hs, hc⟩, -⟩ := derived.identifier_inv
    obtain ⟨taken, others, ht, long⟩ := derived.identifier_le rest
    have number := takeNumber?_eq_none hc (r ++ rest)
    refine ⟨.name taken, others, ?_, long⟩
    rw [Lexeme.spelling, hs, List.cons_append] at *
    rw [scan?_of_startsWord (startsWord_of_isNameStart hc), number, ht]
    rfl
  | operator op =>
    obtain ⟨op', others, ht, long⟩ := takeInfix?_le op rest
    exact ⟨.operator op', others, by simp only [Lexeme.spelling, scan?, ht], long⟩
  | bang =>
    by_cases equals : ∃ r, rest = '=' :: r
    · obtain ⟨r, rfl⟩ := equals
      exact ⟨.operator .notEqual, r, rfl, by decide⟩
    · refine ⟨.bang, rest, scan?_append trivial ?_, Nat.le_refl _⟩
      exact stops_equals equals
  | opening | closing | comma | question | colon => exact ⟨_, _, rfl, Nat.le_refl _⟩

theorem Lexeme.eq_of_spelling {u : Lexeme} (ht : t.Proper) (hu : u.Proper)
    (h : t.spelling = u.spelling) : t = u := by
  have scanned := scan?_append ht (stops_nil _)
  rw [h, scan?_append hu (stops_nil _)] at scanned
  cases scanned
  rfl

/-- The scanner finds the longest token. -/
theorem longest_iff : t.Longest s rest ↔ scan? s = some (t, rest) := by
  constructor
  · rintro ⟨proper, rfl, longest⟩
    obtain ⟨u, others, scanned, hl⟩ := scan?_le proper rest
    obtain ⟨hu, hs⟩ := scan?_proper scanned
    have same := Nat.le_antisymm hl (longest u others hu hs)
    obtain ⟨spelling, rfl⟩ := List.append_inj hs same
    cases Lexeme.eq_of_spelling proper hu spelling
    exact scanned
  · intro scanned
    obtain ⟨proper, hs⟩ := scan?_proper scanned
    refine ⟨proper, hs, fun u others hu hs' => ?_⟩
    obtain ⟨u', others', scanned', hl⟩ := scan?_le hu others
    rw [← hs', scanned] at scanned'
    cases scanned'
    exact hl

end Scan

end LessonPlot
