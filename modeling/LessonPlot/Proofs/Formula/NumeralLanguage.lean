import LessonPlot.Proofs.Formula.Scanning

namespace LessonPlot

/-- Digits with a point among them, at either end or nowhere, and at least one digit. -/
inductive IsMantissa : List Char → Prop where
  | whole {digits : List Char} (all : ∀ c ∈ digits, c.isDigit = true) (nonempty : digits ≠ []) :
      IsMantissa digits
  | point {before after : List Char} (left : ∀ c ∈ before, c.isDigit = true)
      (right : ∀ c ∈ after, c.isDigit = true) (nonempty : before ≠ [] ∨ after ≠ []) :
      IsMantissa (before ++ '.' :: after)

/-- A mark of either case, a sign or none, and at least one digit. -/
inductive IsExponent : List Char → Prop where
  | marked {mark : Char} {sign digits : List Char} (mark_e : mark = 'e' ∨ mark = 'E')
      (signs : sign = [] ∨ sign = ['+'] ∨ sign = ['-'])
      (all : ∀ c ∈ digits, c.isDigit = true) (nonempty : digits ≠ []) :
      IsExponent (mark :: (sign ++ digits))

/-- A decimal number as it is written without a sign. -/
def IsNumeral (text : List Char) : Prop :=
  ∃ mantissa exponent, text = mantissa ++ exponent ∧ IsMantissa mantissa ∧
    (exponent = [] ∨ IsExponent exponent)

namespace Derives

variable {s : List Char}

theorem many_of_all {accepts : Char → Bool} (all : ∀ c ∈ s, accepts c = true) :
    Derives (.many (.char accepts)) s [] := by
  induction s with
  | nil => exact .none
  | cons c s ih =>
    obtain ⟨first, others⟩ := List.forall_mem_cons.mp all
    exact .next (.char first) (ih others)

theorem digits_of_all (all : ∀ c ∈ s, c.isDigit = true) (nonempty : s ≠ []) :
    Derives .digits s [] := by
  obtain ⟨c, s, rfl⟩ := List.exists_cons_of_ne_nil nonempty
  obtain ⟨first, others⟩ := List.forall_mem_cons.mp all
  exact .seq (.char first) (many_of_all others)

theorem mantissa_iff : (∃ ps, Derives .mantissa s ps) ↔ IsMantissa s := by
  constructor
  · rintro ⟨ps, h⟩
    obtain ⟨-, ⟨all, nonempty⟩ | ⟨d, f, rfl, left, right, nonempty⟩⟩ := h.mantissa_inv
    · exact .whole all nonempty
    · exact .point left right nonempty
  · intro h
    cases h with
    | whole all nonempty =>
      rw [← List.append_nil s]
      exact ⟨_, .first (.seq (digits_of_all all nonempty) .absent)⟩
    | @point d f left right nonempty =>
      by_cases bare : d = []
      · subst bare
        have some : f ≠ [] := nonempty.resolve_left (· rfl)
        exact ⟨_, .second (.seq (s := ['.']) (.text ['.']) (digits_of_all right some))⟩
      · exact ⟨_, .first (.seq (digits_of_all left bare)
          (.present (.seq (.text ['.']) (many_of_all right))))⟩

theorem exponent_iff : (∃ ps, Derives .exponent s ps) ↔ IsExponent s := by
  constructor
  · rintro ⟨ps, h⟩
    obtain ⟨-, mark, sign, d, rfl, hm, signs, all, nonempty⟩ := h.exponent_inv
    exact .marked (by simpa using hm) signs all nonempty
  · intro h
    cases h with
    | @marked mark sign d hm signs all nonempty =>
      have signed : Derives (.optional (.choice (.text ['+']) (.text ['-']))) sign [] := by
        rcases signs with rfl | rfl | rfl
        · exact .absent
        · exact .present (.first (.text ['+']))
        · exact .present (.second (.text ['-']))
      have head : Derives (.char fun c => c = 'e' || c = 'E') [mark] [] :=
        .char (by simpa using hm)
      exact ⟨_, .seq head (.seq signed (digits_of_all all nonempty))⟩

/-- The rule for a number, read as a context-free one, spells the numerals. -/
theorem realLiteral_iff : (∃ ps, Derives (.rule .realLiteral) s ps) ↔ IsNumeral s := by
  constructor
  · rintro ⟨ps, h⟩
    cases h with
    | rule h =>
      obtain ⟨m, x, qs, rs, rfl, -, mantissa, exponent⟩ := h.seq_inv
      refine ⟨m, x, rfl, mantissa_iff.mp ⟨_, mantissa⟩, ?_⟩
      cases exponent with
      | absent => exact .inl rfl
      | present exponent => exact .inr (exponent_iff.mp ⟨_, exponent⟩)
  · rintro ⟨m, x, rfl, mantissa, exponent⟩
    obtain ⟨qs, derived⟩ := mantissa_iff.mpr mantissa
    rcases exponent with rfl | exponent
    · exact ⟨_, .rule (.seq derived .absent)⟩
    · obtain ⟨rs, derived'⟩ := exponent_iff.mpr exponent
      exact ⟨_, .rule (.seq derived (.present derived'))⟩

end Derives

theorem IsNumeral.head {s : List Char} (h : IsNumeral s) :
    ∃ c ∈ s.head?, (c.isDigit || c = '.') = true := by
  obtain ⟨ps, derived⟩ := Derives.realLiteral_iff.mpr h
  obtain ⟨-, ⟨c, t, rfl, hc⟩, -⟩ := derived.realLiteral_inv
  exact ⟨c, rfl, hc⟩

/-- A numeral at the start of a text that is as long as any other there, and what follows it. -/
structure LongestNumeral (text number rest : List Char) : Prop where
  numeral : IsNumeral number
  split : text = number ++ rest
  longest : ∀ other, IsNumeral other → other <+: text → other.length ≤ number.length

variable {text number rest : List Char}

theorem LongestNumeral.unique {other others : List Char} (h : LongestNumeral text number rest)
    (h' : LongestNumeral text other others) : number = other ∧ rest = others := by
  have shorter := h'.longest number h.numeral ⟨rest, h.split.symm⟩
  have longer := h.longest other h'.numeral ⟨others, h'.split.symm⟩
  exact List.append_inj (h.split.symm.trans h'.split) (Nat.le_antisymm shorter longer)

/-- A numeral is found wherever a text starts with one, and none is longer than the one found. -/
theorem exists_longest_of_prefix {other : List Char} (numeral : IsNumeral other)
    (starts : other <+: text) : ∃ number rest, takeNumber? text = some (number, rest) ∧
      other.length ≤ number.length := by
  obtain ⟨ps, derived⟩ := Derives.realLiteral_iff.mpr numeral
  obtain ⟨others, rfl⟩ := starts
  exact derived.realLiteral_le others

theorem takeNumber?_eq_some_iff :
    takeNumber? text = some (number, rest) ↔ LongestNumeral text number rest := by
  have longest {number rest : List Char} (taken : takeNumber? text = some (number, rest)) :
      LongestNumeral text number rest := by
    obtain ⟨split, derived⟩ := derives_of_takeNumber? taken
    refine ⟨Derives.realLiteral_iff.mp derived, split, fun other numeral starts => ?_⟩
    obtain ⟨number', rest', taken', le⟩ := exists_longest_of_prefix numeral starts
    cases taken.symm.trans taken'
    exact le
  constructor
  · exact longest
  · intro h
    obtain ⟨number', rest', taken, -⟩ :=
      exists_longest_of_prefix h.numeral ⟨rest, h.split.symm⟩
    obtain ⟨rfl, rfl⟩ := h.unique (longest taken)
    exact taken

/-- A mark that no digits follow is no part of the numeral before it. -/
example : LongestNumeral "1.e5e-".toList "1.e5".toList "e-".toList :=
  takeNumber?_eq_some_iff.mp (by decide)

/-- The rule for a number, read as a recogniser, matches the longest numeral that a text starts
with, and fails where there is none. -/
theorem runs_realLiteral_iff {pairs : List Pair} :
    Runs (.rule .realLiteral) text (some (pairs, rest)) ↔
      ∃ number, pairs = [.leaf .realLiteral number] ∧ LongestNumeral text number rest := by
  simp only [← takeNumber?_eq_some_iff]
  constructor
  · intro run
    cases taken : takeNumber? text with
    | none => cases run.deterministic (Runs.realLiteralFails taken)
    | some result =>
      obtain ⟨number, others⟩ := result
      cases run.deterministic (Runs.realLiteral taken)
      exact ⟨number, rfl, rfl⟩
  · rintro ⟨number, rfl, taken⟩
    exact Runs.realLiteral taken

end LessonPlot
