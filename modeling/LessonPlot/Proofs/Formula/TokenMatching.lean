import LessonPlot.Formula.Recognise
import LessonPlot.Proofs.Except
import LessonPlot.Proofs.Formula.Grammar

namespace LessonPlot

theorem isPrefixOf_singleton_eq_false {c : Char} {s : List Char}
    (h : ∀ tail, s = c :: tail → False) : [c].isPrefixOf s = false := by
  rw [Bool.eq_false_iff, Ne, List.isPrefixOf_iff_prefix]
  rintro ⟨tail, ht⟩
  exact h tail ht.symm

/-- The first operator of the grammar's list that the text starts with is the longer of two that
fit. -/
theorem takeInfix?_eq_find? (s : List Char) :
    takeInfix? s = ((InfixOp.or :: Pattern.operators).find? fun op => op.spelling.isPrefixOf s).map
      fun op => (op, s.drop op.spelling.length) := by
  unfold takeInfix?
  split
  case h_7 rest h =>
    have hn := isPrefixOf_singleton_eq_false h
    simp [Pattern.operators, List.find?, InfixOp.spelling, hn, List.isPrefixOf]
  case h_8 rest h =>
    have hn := isPrefixOf_singleton_eq_false h
    simp [Pattern.operators, List.find?, InfixOp.spelling, hn, List.isPrefixOf]
  case h_14 =>
    symm
    rw [Option.map_eq_none_iff, List.find?_eq_none]
    intro op _ h
    obtain ⟨t, rfl⟩ := List.isPrefixOf_iff_prefix.mp h
    cases op <;> grind [InfixOp.spelling]
  all_goals rfl

namespace Runs

variable {a b : Pattern} {s t u rest : List Char} {ps qs : List Pair}

theorem many_char (accepts : Char → Bool) (s : List Char) :
    Runs (.many (.char accepts)) s (some ([], s.dropWhile accepts)) := by
  induction s with
  | nil => exact .stop (.charFails (by simp))
  | cons c s ih =>
    by_cases h : accepts c = true
    · rw [List.dropWhile_cons_of_pos h]
      exact .next (.char h s) ih
    · rw [List.dropWhile_cons_of_neg h]
      exact .stop (.charFails (by simpa using h))

theorem spaced (first : Runs a s (some (ps, t))) (second : Runs b (skipBlanks t) (some (qs, u))) :
    Runs (.spaced a b) s (some (ps ++ qs, u)) :=
  .seq first (.seq (many_char isBlank t) second)

theorem spacedFails (first : Runs a s (some (ps, t))) (second : Runs b (skipBlanks t) none) :
    Runs (.spaced a b) s none :=
  .secondFails first (.secondFails (many_char isBlank t) second)

theorem textFails_of_head {c : Char} {spelling : List Char} (h : ∀ tail, s = c :: tail → False) :
    Runs (.text (c :: spelling)) s none := by
  apply Runs.textFails
  rintro ⟨tail, ht⟩
  exact h (spelling ++ tail) ht.symm

theorem rule_of_eq {r : Rule} (he : t = s ++ rest) (h : Runs r.body t (some (ps, rest))) :
    Runs (.rule r) t (some ([r.pair s ps], rest)) := by
  subst he
  exact .rule h

theorem identifier {name : List Char} (h : takeName? s = some (name, rest)) :
    s = name ++ rest ∧ Runs Rule.identifier.body s (some ([], rest)) := by
  cases s with
  | nil => cases h
  | cons c s =>
    simp only [takeName?] at h
    split at h
    next hc =>
      simp only [Option.some.injEq, Prod.mk.injEq] at h
      obtain ⟨rfl, rfl⟩ := h
      exact ⟨by simp, .seq (.char hc s) (many_char isNamePart s)⟩
    next => cases h

theorem identifierFails (h : takeName? s = none) : Runs (.rule .identifier) s none := by
  refine .ruleFails (.firstFails (.charFails ?_))
  cases s with
  | nil => simp
  | cons c s => simpa [takeName?] using h

theorem digits (h : (s.takeWhile Char.isDigit).isEmpty = false) :
    Runs .digits s (some ([], s.dropWhile Char.isDigit)) := by
  cases s with
  | nil => cases h
  | cons c s =>
    by_cases hc : c.isDigit = true
    · rw [List.dropWhile_cons_of_pos hc]
      exact .seq (.char hc s) (many_char Char.isDigit s)
    · simp [List.takeWhile_cons_of_neg hc] at h

theorem digitsFails (h : (s.takeWhile Char.isDigit).isEmpty = true) : Runs .digits s none := by
  refine .firstFails (.charFails ?_)
  cases s with
  | nil => simp
  | cons c s => simpa [List.takeWhile_cons] using h

theorem mantissa {m : List Char} (h : takeMantissa? s = some (m, rest)) :
    s = m ++ rest ∧ Runs .mantissa s (some ([], rest)) := by
  have hs := (List.takeWhile_append_dropWhile (p := Char.isDigit) (l := s)).symm
  simp only [takeMantissa?] at h
  split at h
  next tail hd =>
    rw [hd] at hs
    have ht := (List.takeWhile_append_dropWhile (p := Char.isDigit) (l := tail)).symm
    split at h
    next => cases h
    next hne =>
      simp only [Option.some.injEq, Prod.mk.injEq] at h
      obtain ⟨rfl, rfl⟩ := h
      refine ⟨by rw [List.append_assoc, List.cons_append, ← ht, ← hs], ?_⟩
      cases hw : (s.takeWhile Char.isDigit).isEmpty with
      | false =>
        have point : Runs (.text ['.']) (s.dropWhile Char.isDigit) (some ([], tail)) :=
          hd ▸ .text ['.'] tail
        exact .first (.seq (digits hw) (.present (.seq point (many_char Char.isDigit tail))))
      | true =>
        have hf : (tail.takeWhile Char.isDigit).isEmpty = false := by simpa [hw] using hne
        rw [List.isEmpty_iff.mp hw, List.nil_append] at hs
        have point : Runs (.text ['.']) s (some ([], tail)) := hs ▸ .text ['.'] tail
        exact .second (.firstFails (digitsFails hw)) (.seq point (digits hf))
  next tail hd =>
    split at h
    next => cases h
    next hw =>
      simp only [Option.some.injEq, Prod.mk.injEq] at h
      obtain ⟨rfl, rfl⟩ := h
      refine ⟨hs, .first (.seq (digits (by simpa using hw)) (.absent (.firstFails ?_)))⟩
      exact textFails_of_head hd

theorem mantissaFails (h : takeMantissa? s = none) : Runs .mantissa s none := by
  have hs := (List.takeWhile_append_dropWhile (p := Char.isDigit) (l := s)).symm
  simp only [takeMantissa?] at h
  split at h
  next tail hd =>
    rw [hd] at hs
    split at h
    next he =>
      obtain ⟨hw, hf⟩ := Bool.and_eq_true_iff.mp he
      rw [List.isEmpty_iff.mp hw, List.nil_append] at hs
      have point : Runs (.text ['.']) s (some ([], tail)) := hs ▸ .text ['.'] tail
      exact .second (.firstFails (digitsFails hw)) (.secondFails point (digitsFails hf))
    next => cases h
  next tail hd =>
    split at h
    next hw =>
      rw [List.isEmpty_iff.mp hw, List.nil_append] at hs
      exact .second (.firstFails (digitsFails hw)) (.firstFails (textFails_of_head (hs ▸ hd)))
    next => cases h

/-- An exponent after its mark and its sign, or nothing where no digit follows them. -/
theorem exponentDigits {mark : Char} (hm : (mark = 'e' || mark = 'E') = true)
    (sign tail : List Char) (hs : s = sign ++ tail)
    (hr : Runs (.optional (.choice (.text ['+']) (.text ['-']))) s (some ([], tail)))
    {result : List Char × List Char}
    (h : result = if (tail.takeWhile Char.isDigit).isEmpty then ([], mark :: s)
      else (mark :: sign ++ tail.takeWhile Char.isDigit, tail.dropWhile Char.isDigit)) :
    mark :: s = result.1 ++ result.2 ∧
      Runs (.optional .exponent) (mark :: s) (some ([], result.2)) := by
  have head : Runs (.char fun c => c = 'e' || c = 'E') (mark :: s) (some ([], s)) := .char hm s
  subst h
  split
  next hd => exact ⟨rfl, .absent (.secondFails head (.secondFails hr (digitsFails hd)))⟩
  next hd =>
    refine ⟨?_, .present (.seq head (.seq hr (digits (by simpa using hd))))⟩
    rw [List.append_assoc, List.takeWhile_append_dropWhile, hs, List.cons_append]

theorem exponent (s : List Char) :
    s = (takeExponent s).1 ++ (takeExponent s).2 ∧
      Runs (.optional .exponent) s (some ([], (takeExponent s).2)) := by
  cases s with
  | nil => exact ⟨rfl, .absent (.firstFails (.charFails (by simp)))⟩
  | cons mark s =>
    simp only [takeExponent]
    split
    next hm =>
      split
      next tail => exact exponentDigits hm ['+'] tail rfl (.present (.first (.text ['+'] tail))) rfl
      next tail =>
        have plus : Runs (.text ['+']) ('-' :: tail) none := textFails_of_head (by simp)
        exact exponentDigits hm ['-'] tail rfl (.present (.second plus (.text ['-'] tail))) rfl
      next hp hn =>
        have plus : Runs (.text ['+']) s none := textFails_of_head hp
        have minus : Runs (.text ['-']) s none := textFails_of_head hn
        exact exponentDigits hm [] s rfl (.absent (.second plus minus)) rfl
    next hm =>
      refine ⟨rfl, .absent (.firstFails (.charFails ?_))⟩
      simpa using hm

theorem realLiteral {number : List Char} (h : takeNumber? s = some (number, rest)) :
    Runs (.rule .realLiteral) s (some ([.leaf .realLiteral number], rest)) := by
  obtain ⟨⟨m, tail⟩, hm, he⟩ := Option.map_eq_some_iff.mp h
  cases he
  obtain ⟨hs, hr⟩ := mantissa hm
  obtain ⟨ht, hr'⟩ := exponent tail
  refine rule_of_eq ?_ (.seq hr hr')
  rw [List.append_assoc, ← ht, hs]

theorem realLiteralFails (h : takeNumber? s = none) : Runs (.rule .realLiteral) s none :=
  .ruleFails (.firstFails (mantissaFails (Option.map_eq_none_iff.mp h)))

/-- The alternatives of a choice of spelled rules are tried in turn. -/
theorem oneOf_spelled {α : Type} (rule : α → Rule) {spelling : α → List Char}
    (hs : ∀ a, (rule a).body = .text (spelling a)) (s : List Char) (first : α) (others : List α) :
    Runs (.oneOf (.rule (rule first)) (others.map fun a => .rule (rule a))) s
      (((first :: others).find? fun a => (spelling a).isPrefixOf s).map fun a =>
        ([(rule a).pair (spelling a) []], s.drop (spelling a).length)) := by
  have matched (a : α) (h : (spelling a).isPrefixOf s = true) :
      Runs (.rule (rule a)) s
        (some ([(rule a).pair (spelling a) []], s.drop (spelling a).length)) := by
    obtain ⟨t, rfl⟩ := List.isPrefixOf_iff_prefix.mp h
    rw [List.drop_left]
    exact .rule (hs a ▸ .text (spelling a) t)
  have failed (a : α) (h : (spelling a).isPrefixOf s = false) : Runs (.rule (rule a)) s none := by
    refine .ruleFails (hs a ▸ .textFails fun hp => ?_)
    rw [List.isPrefixOf_iff_prefix.mpr hp] at h
    cases h
  induction others generalizing first with
  | nil =>
    cases h : (spelling first).isPrefixOf s with
    | true =>
      simp only [List.find?, h]
      exact matched first h
    | false =>
      simp only [List.find?, h]
      exact failed first h
  | cons second others ih =>
    rw [List.find?]
    cases h : (spelling first).isPrefixOf s with
    | true => exact .first (matched first h)
    | false => exact .second (failed first h) (ih second)

theorem operator (s : List Char) :
    Runs .operator s ((takeInfix? s).map fun (op, rest) => ([.node (.operator op) []], rest)) := by
  rw [takeInfix?_eq_find?, Option.map_map]
  exact oneOf_spelled Rule.operator (fun _ => rfl) s .or Pattern.operators

theorem sign (c : Char) (s : List Char) :
    Runs .sign (c :: s) ((PrefixOp.ofChar? c).map fun op => ([.node (.sign op) []], s)) := by
  have h := oneOf_spelled Rule.sign (fun _ => rfl) (c :: s) .minus [.plus, .not]
  unfold PrefixOp.ofChar?
  split
  case h_4 hm hp hn =>
    rw [List.find?_eq_none.mpr] at h
    · exact h
    · intro op _ ho
      obtain ⟨t, ht⟩ := List.isPrefixOf_iff_prefix.mp ho
      cases op <;> cases ht <;> contradiction
  all_goals exact h

theorem signFails : Runs .sign [] none :=
  oneOf_spelled Rule.sign (fun _ => rfl) [] .minus [.plus, .not]

end Runs

end LessonPlot
