import LessonPlot.Proofs.Except
import LessonPlot.Proofs.Formula.Progress

namespace LessonPlot

/-- No token at this place takes a formula further, nor is it a whole formula at the end of a
text. -/
def Halted (p : Progress) (rest : List Char) : Prop :=
  skipBlanks rest = rest ∧ (∀ t q u, ¬ Moves p rest t q u) ∧ ¬ (rest = [] ∧ p.Complete)

/-- What is made of a text comes of a walk along it: it ends where something good has been read, or
where nothing further can be. -/
inductive Traces {β : Type} (good : Progress → List Char → Prop) (p : Progress) (s : List Char) :
    Except Stuck (β × List Char) → Prop where
  | ok {value : β} {rest : List Char} {ts : List Lexeme} {q : Progress}
      (walk : Walks p s ts q rest) (h : good q rest) : Traces good p s (.ok (value, rest))
  | error {rest : List Char} {ts : List Lexeme} {q : Progress} (walk : Walks p s ts q rest)
      (halted : Halted q rest) : Traces good p s (.error ⟨rest⟩)

namespace Traces

variable {β γ : Type} {good better : Progress → List Char → Prop} {p q : Progress}
  {s u : List Char} {ts : List Lexeme}

theorem after {x : Except Stuck (β × List Char)} (walk : Walks p s ts q u)
    (h : Traces good q u x) : Traces good p s x := by
  cases h with
  | ok others h => exact .ok (walk.trans others) h
  | error others halted => exact .error (walk.trans others) halted

theorem bind {x : Except Stuck (β × List Char)}
    {f : β × List Char → Except Stuck (γ × List Char)} (first : Traces good p s x)
    (second : ∀ value rest q, good q rest → (skipBlanks rest).length ≤ (skipBlanks s).length →
      Traces better q rest (f (value, rest))) :
    Traces better p s (x >>= f) := by
  cases first with
  | ok walk h => exact after walk (second _ _ _ h walk.length_le)
  | error walk halted => exact .error walk halted

theorem here {value : β} (h : good p s) : Traces good p s (.ok (value, s)) :=
  .ok (.stay rfl) h

theorem stuck (h : Halted p (skipBlanks s)) :
    Traces good p s (.error ⟨skipBlanks s⟩ : Except Stuck (β × List Char)) :=
  .error (.stay (skipBlanks_idem s).symm) h

end Traces

/-- An operand is waited for inside some open parts. -/
def Awaiting (opened : List Opened) (p : Progress) : Prop :=
  p.opened = opened ∧ (p.stage = .operand ∨ p.stage = .firstArgument)

/-- An operand is waited for, and if a call has just been opened, its end is not what comes. -/
def Awaits (opened : List Opened) (p : Progress) (s : List Char) : Prop :=
  Awaiting opened p ∧ (p.stage = .firstArgument → ∀ u, skipBlanks s ≠ ')' :: u)

/-- An operand has ended inside some open parts, and only some tokens take the formula further. -/
def EndsBefore (next : Lexeme → Prop) (opened : List Opened) (p : Progress) (s : List Char) :
    Prop :=
  p.Ended ∧ p.opened = opened ∧ ∀ t q u, Moves p s t q u → next t

section Stages

variable {opened : List Opened} {p q : Progress} {s u rest : List Char} {t : Lexeme}
  {next : Lexeme → Prop}

theorem awaits_operand (opened : List Opened) (s : List Char) :
    Awaits opened ⟨.operand, opened⟩ s :=
  ⟨⟨rfl, .inl rfl⟩, nofun⟩

theorem Awaiting.take? (h : Awaiting opened p) (ht : t ≠ .closing) :
    p.take? t = Progress.operand? opened t := by
  obtain ⟨stage, _⟩ := p
  obtain ⟨rfl, rfl | rfl⟩ := h
  · rfl
  · cases t <;> first | rfl | exact (ht rfl).elim

theorem Awaiting.not_ended (h : Awaiting opened p) : ¬ p.Ended := by
  obtain ⟨stage, _⟩ := p
  obtain ⟨-, rfl | rfl⟩ := h <;> rintro (⟨⟨⟩⟩ | ⟨⟨⟩⟩)

/-- A sign is taken where an operand is waited for, and it still is after that. -/
theorem Awaiting.moves_sign (h : Awaiting opened p) {op : PrefixOp}
    (hs : skipBlanks s = op.spelling ++ rest) : ∃ t, Moves p s t ⟨.operand, opened⟩ rest := by
  cases op with
  | minus => exact ⟨.operator .subtract, .inl (by rw [hs]; rfl), h.take? (by simp)⟩
  | plus => exact ⟨.operator .add, .inl (by rw [hs]; rfl), h.take? (by simp)⟩
  | not => exact ⟨.bang, .inr ⟨rfl, hs⟩, h.take? (by simp)⟩

theorem Progress.Ended.take? (h : p.Ended) (ht : t ≠ .opening) :
    p.take? t = follow? p.opened t := by
  obtain ⟨stage, opened⟩ := p
  rcases h with rfl | rfl
  · cases t <;> first | rfl | exact (ht rfl).elim
  · rfl

theorem Moves.skipBlanks_eq (h : Moves p s t q u) : skipBlanks s = t.spelling ++ u :=
  h.proper.2

theorem Progress.Ended.moves (h : p.Ended) (scanned : scan? (skipBlanks s) = some (t, u))
    (ht : t ≠ .opening) (taken : follow? p.opened t = some q) : Moves p s t q u :=
  ⟨.inl scanned, (h.take? ht).trans taken⟩

/-- The tokens that end a formula inside an open part. -/
def Lexeme.Closes : Lexeme → Prop
  | closing | comma | colon => True
  | _ => False

theorem Progress.follow?_cases (h : follow? opened t = some q) :
    (∃ op, t = .operator op) ∨ t = .question ∨ t.Closes := by
  cases t with
  | operator op => exact .inl ⟨op, rfl⟩
  | question => exact .inr (.inl rfl)
  | closing | comma | colon => exact .inr (.inr trivial)
  | number | name | bang | opening =>
    rcases opened with _ | ⟨_ | _ | _, opened⟩ <;> cases h

/-- A formula is stuck before a token that ends another open part than its own. -/
theorem EndsBefore.halted (h : EndsBefore Lexeme.Closes opened p s)
    (inner : skipBlanks s = [] → opened ≠ [])
    (none : ∀ t q u, t.Closes → Progress.follow? opened t = some q →
      skipBlanks s ≠ t.spelling ++ u) :
    Halted p (skipBlanks s) := by
  obtain ⟨ended, rfl, ends⟩ := h
  refine ⟨skipBlanks_idem s, fun t q u moves => ?_, fun ⟨ends, complete⟩ => inner ends complete.2⟩
  have moves := moves.of_blanks (skipBlanks_idem s)
  have closes := ends t q u moves
  have ht : t ≠ .opening := by
    rintro rfl
    exact closes
  exact none t q u closes ((ended.take? ht).symm.trans moves.2) moves.skipBlanks_eq

/-- After an operand that is no name no parenthesis opens. -/
theorem endsBefore_afterOperand (s : List Char) :
    EndsBefore (· ≠ .opening) opened ⟨.afterOperand, opened⟩ s := by
  refine ⟨.inr rfl, rfl, ?_⟩
  rintro _ q u moves rfl
  have taken := moves.2
  rcases opened with _ | ⟨_ | _ | _, opened⟩ <;> cases taken

theorem scan?_of_number {digits : List Char} (h : takeNumber? s = some (digits, rest)) :
    scan? s = some (.number digits, rest) := by
  obtain ⟨hs, ps, derived⟩ := derives_of_takeNumber? h
  obtain ⟨c, r, rfl, hc⟩ := derived.realLiteral_startsWord
  rw [List.cons_append] at hs
  subst hs
  rw [scan?_of_startsWord hc, h]

theorem scan?_of_name {letters : List Char} (hd : takeNumber? s = none)
    (h : takeName? s = some (letters, rest)) : scan? s = some (.name letters, rest) := by
  obtain ⟨hs, ps, derived⟩ := derives_of_takeName? h
  obtain ⟨-, ⟨c, r, rfl, hc⟩, -⟩ := derived.identifier_inv
  rw [List.cons_append] at hs
  subst hs
  rw [scan?_of_startsWord (startsWord_of_isNameStart hc), hd, h]
  rfl

theorem PrefixOp.spelling_of_ofChar? {c : Char} {op : PrefixOp} (h : ofChar? c = some op) :
    op.spelling = [c] := by
  unfold ofChar? at h
  split at h <;> cases h <;> rfl

/-- The signs before an operand, each of them one token. -/
theorem walks_takeSigns (h : Awaits opened p s) : ∃ ts q, Walks p s ts q (takeSigns s).2 ∧
    Awaits opened q (takeSigns s).2 ∧
    ∀ c ∈ (takeSigns s).2.head?, PrefixOp.ofChar? c = none := by
  fun_induction takeSigns s generalizing p with
  | case1 => exact ⟨[], p, .stay rfl, h, by simp⟩
  | case2 c rest hc ih =>
    have hs := skipBlanks_cons_of_pos (s := rest) hc
    obtain ⟨ts, q, walk, awaits, plain⟩ := ih ⟨h.1, hs ▸ h.2⟩
    exact ⟨ts, q, .trans (.stay hs) walk, awaits, plain⟩
  | case3 c rest hc sign hs ih =>
    have here : skipBlanks (c :: rest) = sign.spelling ++ rest := by
      rw [skipBlanks_cons_of_neg hc, PrefixOp.spelling_of_ofChar? hs]
      rfl
    obtain ⟨t, moves⟩ := h.1.moves_sign here
    obtain ⟨ts, q, walk, awaits, plain⟩ := ih (awaits_operand opened rest)
    exact ⟨t :: ts, q, .step moves walk, awaits, plain⟩
  | case4 c rest hc hs =>
    refine ⟨[], p, .stay rfl, h, ?_⟩
    rintro _ ⟨⟩
    exact hs

end Stages

namespace Recogniser

/-- A recogniser of formulas goes along texts of a bounded length as formulas can. -/
def Simulates (inner : Recogniser Formula) (length : Nat) : Prop :=
  ∀ opened p s, Awaits opened p s → (skipBlanks s).length < length →
    Traces (EndsBefore Lexeme.Closes opened) p s (inner s)

variable {inner : Recogniser Formula} {length : Nat} {opened : List Opened} {p : Progress}
  {s : List Char}

theorem Simulates.arguments (hi : Simulates inner length) (fuel : Nat)
    (h : Awaits (.call :: opened) p s) (short : (skipBlanks s).length < length)
    (enough : (skipBlanks s).length < fuel) :
    Traces (fun q _ => q = ⟨.afterOperand, opened⟩) p s (arguments inner fuel s) := by
  induction fuel generalizing p s with
  | zero => cases enough
  | succ fuel ih =>
    rw [Recogniser.arguments]
    refine (hi _ p s h short).bind fun first t q ends shorter => ?_
    obtain ⟨ended, inCall, -⟩ := id ends
    dsimp only
    split
    next u hu =>
      have moves : Moves q t .comma ⟨.operand, .call :: opened⟩ u :=
        ended.moves (by rw [hu]; rfl) (by simp) (by rw [inCall]; rfl)
      have hl := moves.length_lt
      have blanks := skipBlanks_length_le u
      refine .after (.single moves) ((ih (awaits_operand _ _) (by omega) (by omega)).bind ?_)
      rintro others v _ rfl -
      exact .here rfl
    next u hu =>
      have moves : Moves q t .closing ⟨.afterOperand, opened⟩ u :=
        ended.moves (by rw [hu]; rfl) (by simp) (by rw [inCall]; rfl)
      exact .after (.single moves) (.here rfl)
    next comma closing =>
      refine .stuck (ends.halted (fun _ => List.cons_ne_nil _ _) fun t' r u closes taken hs => ?_)
      cases t' with
      | comma => exact comma u hs
      | closing => exact closing u hs
      | colon => cases taken
      | _ => exact closes

/-- A call or a name, from after the name on. -/
theorem Simulates.callOrName (hi : Simulates inner length) (name : List Char)
    (short : (skipBlanks s).length ≤ length) :
    Traces (EndsBefore (· ≠ .opening) opened) ⟨.afterName, opened⟩ s
      (callOrName inner name s) := by
  rw [Recogniser.callOrName]
  split
  next t ht =>
    have moves : Moves ⟨.afterName, opened⟩ s .opening ⟨.firstArgument, .call :: opened⟩ t :=
      ⟨.inl (by rw [ht]; rfl), rfl⟩
    have hl := moves.length_lt
    have blanks := skipBlanks_length_le t
    refine .after (.single moves) ?_
    split
    next u hu =>
      have moves : Moves ⟨.firstArgument, .call :: opened⟩ t .closing ⟨.afterOperand, opened⟩ u :=
        ⟨.inl (by rw [hu]; rfl), rfl⟩
      exact .after (.single moves) (.here (endsBefore_afterOperand u))
    next some =>
      have awaits : Awaits (.call :: opened) ⟨.firstArgument, .call :: opened⟩ t :=
        ⟨⟨rfl, .inr rfl⟩, fun _ => some⟩
      refine (hi.arguments (t.length + 1) awaits (by omega) (by omega)).bind ?_
      rintro arguments u _ rfl -
      exact .here (endsBefore_afterOperand u)
  next bare =>
    refine .here ⟨.inl rfl, rfl, ?_⟩
    rintro _ q u moves rfl
    exact bare u moves.skipBlanks_eq

/-- Where an operand is waited for, a text that starts with none and with no sign is of no use. -/
theorem halted_of_no_operand (h : Awaits opened p s) (clean : skipBlanks s = s)
    (plain : ∀ c ∈ s.head?, PrefixOp.ofChar? c = none) (group : ∀ t, s ≠ '(' :: t)
    (number : takeNumber? s = none) (name : takeName? s = none) : Halted p s := by
  refine ⟨clean, fun t q u moves => ?_, fun complete => h.1.not_ended complete.2.1⟩
  obtain ⟨proper, hs⟩ := moves.proper
  rw [clean] at hs
  have taken (ht : t ≠ .closing) : Progress.operand? opened t = some q :=
    (h.1.take? ht).symm.trans moves.2
  have unsigned {c : Char} (hc : (PrefixOp.ofChar? c).isSome) (ht : t.spelling = [c]) : False := by
    rw [plain c (by rw [hs, ht]; rfl)] at hc
    cases hc
  cases t with
  | number digits =>
    obtain ⟨ps, derived⟩ := proper
    change s = digits ++ u at hs
    obtain ⟨_, _, some, -⟩ := derived.realLiteral_le u
    rw [← hs, number] at some
    cases some
  | name letters =>
    obtain ⟨ps, derived⟩ := proper
    change s = letters ++ u at hs
    obtain ⟨_, _, some, -⟩ := derived.identifier_le u
    rw [← hs, name] at some
    cases some
  | opening => exact group u hs
  | bang => exact unsigned rfl rfl
  | closing =>
    obtain ⟨⟨-, stage | stage⟩, inside⟩ := h
    · have taken := moves.2
      simp only [Progress.take?, stage] at taken
      cases taken
    · exact inside stage u (clean.trans hs)
  | operator op =>
    have taken := taken (by simp)
    cases op <;> first | exact unsigned rfl rfl | cases taken
  | comma | question | colon => cases taken (by simp)

theorem Simulates.primary (hi : Simulates inner length) (h : Awaits opened p s)
    (clean : skipBlanks s = s) (plain : ∀ c ∈ s.head?, PrefixOp.ofChar? c = none)
    (short : s.length ≤ length) :
    Traces (EndsBefore (· ≠ .opening) opened) p s (primary inner s) := by
  rw [Recogniser.primary.eq_def]
  split
  next t =>
    have moves : Moves p ('(' :: t) .opening ⟨.operand, .group :: opened⟩ t :=
      ⟨.inl (by rw [clean]; rfl), h.1.take? (by simp)⟩
    have hl := moves.length_lt
    have blanks := skipBlanks_length_le t
    rw [clean] at hl
    refine .after (.single moves) ((hi _ _ t (awaits_operand _ _) (by omega)).bind ?_)
    intro formula u q ends _
    obtain ⟨ended, inGroup, -⟩ := id ends
    dsimp only
    split
    next v hv =>
      have moves : Moves q u .closing ⟨.afterOperand, opened⟩ v :=
        ended.moves (by rw [hv]; rfl) (by simp) (by rw [inGroup]; rfl)
      exact .after (.single moves) (.here (endsBefore_afterOperand v))
    next closing =>
      refine .stuck (ends.halted (fun _ => List.cons_ne_nil _ _) fun t' r v closes taken hs => ?_)
      cases t' with
      | closing => exact closing v hs
      | comma | colon => cases taken
      | _ => exact closes
  next group =>
    split
    next digits t hn =>
      have moves : Moves p s (.number digits) ⟨.afterOperand, opened⟩ t :=
        ⟨.inl (by rw [clean, scan?_of_number hn]), h.1.take? (by simp)⟩
      exact .after (.single moves) (.here (endsBefore_afterOperand t))
    next hd =>
      split
      next letters t hn =>
        have moves : Moves p s (.name letters) ⟨.afterName, opened⟩ t :=
          ⟨.inl (by rw [clean, scan?_of_name hd hn]), h.1.take? (by simp)⟩
        have hl := moves.length_lt
        have blanks := skipBlanks_length_le t
        rw [clean] at hl
        exact .after (.single moves) (hi.callOrName letters (by omega))
      next hn =>
        have halted := halted_of_no_operand h clean plain group hd hn
        exact .error (.stay rfl) halted

/-- Operands with operators between them. -/
theorem Simulates.operation (hi : Simulates inner length) (fuel : Nat) (h : Awaits opened p s)
    (short : (skipBlanks s).length ≤ length) (enough : (skipBlanks s).length < fuel) :
    Traces (EndsBefore (fun t => t = .question ∨ t.Closes) opened) p s
      (operation inner fuel s) := by
  induction fuel generalizing p s with
  | zero => cases enough
  | succ fuel ih =>
    rw [Recogniser.operation]
    obtain ⟨ts, q, walk, awaits, plain⟩ := walks_takeSigns h
    have clean := skipBlanks_takeSigns s
    have hl := walk.length_le
    rw [clean] at hl
    refine .after walk ((hi.primary awaits clean plain (by omega)).bind ?_)
    intro operand t r ends ht
    obtain ⟨ended, inside, before⟩ := id ends
    rw [clean] at ht
    dsimp only
    split
    next op u hu =>
      have moves : Moves r t (.operator op) ⟨.operand, opened⟩ u :=
        ended.moves (by simp only [scan?, hu]) (by simp) (by rw [inside]; cases opened <;> rfl)
      have hl := moves.length_lt
      have blanks := skipBlanks_length_le u
      refine .after (.single moves) ((ih (awaits_operand _ _) (by omega) (by omega)).bind ?_)
      intro rest v q ends _
      exact .here ends
    next none =>
      refine .here ⟨ended, inside, fun t' q u moves => ?_⟩
      have taken := (ended.take? (before t' q u moves)).symm.trans moves.2
      -- an operator, even the shorter of two, would have been read
      refine (Progress.follow?_cases taken).resolve_left ?_
      rintro ⟨op, rfl⟩
      obtain ⟨_, _, some, -⟩ := takeInfix?_le op u
      have hs : skipBlanks t = op.spelling ++ u := moves.skipBlanks_eq
      rw [← hs, none] at some
      cases some

theorem Simulates.formulaOver (hi : Simulates inner length) :
    Simulates (formulaOver inner) (length + 1) := by
  intro opened p s h short
  have blanks := skipBlanks_length_le s
  refine (hi.operation (s.length + 1) h (by omega) (by omega)).bind fun head t q ends ht => ?_
  obtain ⟨ended, inside, before⟩ := id ends
  dsimp only
  split
  next u hu =>
    have moves : Moves q t .question ⟨.operand, .choice :: opened⟩ u :=
      ended.moves (by rw [hu]; rfl) (by simp) (by rw [inside]; cases opened <;> rfl)
    have hl := moves.length_lt
    have blanks := skipBlanks_length_le u
    refine .after (.single moves) ((hi _ _ u (awaits_operand _ _) (by omega)).bind ?_)
    intro chosen v r ends hv
    obtain ⟨ended, inside, -⟩ := id ends
    dsimp only
    split
    next w hw =>
      have moves : Moves r v .colon ⟨.operand, opened⟩ w :=
        ended.moves (by rw [hw]; rfl) (by simp) (by rw [inside]; rfl)
      have hl := moves.length_lt
      have blanks := skipBlanks_length_le w
      refine .after (.single moves) ((hi _ _ w (awaits_operand _ _) (by omega)).bind ?_)
      intro otherwise x _ ends _
      exact .here ends
    next colon =>
      refine .stuck (ends.halted (fun _ => List.cons_ne_nil _ _) fun t' _ w closes taken hs => ?_)
      cases t' with
      | colon => exact colon w hs
      | comma | closing => cases taken
      | _ => exact closes
  next question =>
    refine .here ⟨ended, inside, fun t' r u moves => ?_⟩
    refine (before t' r u moves).resolve_left ?_
    rintro rfl
    exact question u moves.skipBlanks_eq

theorem simulates_formulaWithin (depth : Nat) : Simulates (formulaWithin depth) depth := by
  induction depth with
  | zero => intro opened p s h short; cases short
  | succ depth ih => exact ih.formulaOver

end Recogniser

section Recognise

variable {text rest : List Char}

theorem traces_formulaWithin (text : List Char) :
    Traces (EndsBefore Lexeme.Closes []) .start text
      (Recogniser.formulaWithin (text.length + 1) text) := by
  have blanks := skipBlanks_length_le text
  exact Recogniser.simulates_formulaWithin _ [] .start text (awaits_operand _ _) (by omega)

/-- A text that is recognised is walked along to its end, as a whole formula. -/
theorem walks_of_recognise {formula : Formula} (h : recognise text = .ok formula) :
    ∃ ts q, Walks .start text ts q [] ∧ q.Complete := by
  have traces := traces_formulaWithin text
  obtain ⟨⟨formula', rest⟩, hf, h⟩ := bind_eq_ok_iff.mp h
  rw [hf] at traces
  dsimp only at h
  split at h
  next hr =>
    cases traces with
    | ok walk ends => exact ⟨_, _, walk.trans (.stay hr), ends.1, ends.2.1⟩
  next => cases h

/-- A text that is not recognised is walked along as far as a formula can go. -/
theorem halts_of_recognise (h : recognise text = .error ⟨rest⟩) :
    ∃ ts q, Walks .start text ts q rest ∧ Halted q rest := by
  have traces := traces_formulaWithin text
  rcases bind_eq_error_iff.mp h with hf | ⟨⟨formula, others⟩, hf, h⟩
  · rw [hf] at traces
    cases traces with
    | error walk halted => exact ⟨_, _, walk, halted⟩
  · rw [hf] at traces
    dsimp only at h
    split at h
    next => cases h
    next some =>
      cases h
      cases traces with
      | @ok _ _ ts q walk ends =>
        refine ⟨_, q, walk.trans (.stay (skipBlanks_idem others).symm), ?_⟩
        refine ends.halted (fun none => (some none).elim) fun t r u closes taken => ?_
        cases t with
        | closing | comma | colon => cases taken
        | _ => exact closes.elim

end Recognise

end LessonPlot
