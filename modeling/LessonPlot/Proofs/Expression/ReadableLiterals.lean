import LessonPlot.Proofs.Expression.Verdict
import LessonPlot.Proofs.Formula.NumeralLanguage

namespace LessonPlot

namespace Numeral

variable {text : List Char}

theorem sign_split (text : List Char) : ∃ signs, text = signs ++ (sign text).2 ∧
    (signs = [] ∨ signs = ['+'] ∨ signs = ['-']) := by
  unfold sign
  split
  next rest => exact ⟨['-'], rfl, .inr (.inr rfl)⟩
  next rest => exact ⟨['+'], rfl, .inr (.inl rfl)⟩
  next rest => exact ⟨[], rfl, .inl rfl⟩

theorem exponent?_isSome_iff :
    (exponent? text).isSome = true ↔ text = [] ∨ IsExponent text := by
  constructor
  · intro h
    unfold exponent? at h
    split at h
    next => exact .inl rfl
    next mark rest =>
      split at h
      next marked =>
        obtain ⟨signs, split, signed⟩ := sign_split rest
        rw [split]
        dsimp only at h
        split at h
        next digits =>
          obtain ⟨nonempty, all⟩ := Bool.and_eq_true_iff.mp digits
          exact .inr (.marked (by simpa using marked) signed (List.all_eq_true.mp all)
            (by simpa using nonempty))
        next => cases h
      next => cases h
  · rintro (rfl | h)
    · rfl
    · obtain ⟨ps, derived⟩ := Derives.exponent_iff.mpr h
      exact exponent?_isSome (.present derived)

/-- The texts that are read as decimals are the numerals. -/
theorem decimal?_isSome_iff : (decimal? text).isSome = true ↔ IsNumeral text := by
  constructor
  · intro h
    obtain ⟨whole, rest, rfl, digits, stops⟩ := exists_digits text
    obtain ⟨taken, left⟩ := span_append digits stops
    simp only [decimal?, taken, left] at h
    split at h
    next others =>
      obtain ⟨fraction, exponent, rfl, digits', stops'⟩ := exists_digits others
      obtain ⟨taken', left'⟩ := span_append digits' stops'
      simp only [taken', left'] at h
      split at h
      next => cases h
      next nonempty =>
        rw [Option.isSome_map] at h
        have some : whole ≠ [] ∨ fraction ≠ [] := by
          simpa [Decidable.imp_iff_not_or] using nonempty
        refine ⟨whole ++ '.' :: fraction, exponent, by simp, .point digits digits' some, ?_⟩
        exact exponent?_isSome_iff.mp h
    next =>
      split at h
      next => cases h
      next nonempty =>
        rw [Option.isSome_map] at h
        have some : whole ≠ [] := by simpa using nonempty
        exact ⟨whole, rest, rfl, .whole digits some, exponent?_isSome_iff.mp h⟩
  · intro h
    obtain ⟨ps, derived⟩ := Derives.realLiteral_iff.mpr h
    exact decimal?_isSome derived

/-- The numerals are the readable texts that start with a digit or a point: neither with a sign nor
with a word. -/
theorem isNumeral_iff_readable {α : Type} [Scalar α] : IsNumeral text ↔
    (readScalar? (α := α) (String.ofList text)).isSome = true ∧
      ∃ c ∈ text.head?, (c.isDigit || c = '.') = true := by
  have readable {c : Char} {rest : List Char} (head : (c.isDigit || c = '.') = true) :
      (readScalar? (α := α) (String.ofList (c :: rest))).isSome = true ↔
        IsNumeral (c :: rest) := by
    rw [readScalar?, String.toList_ofList, read?_of_plain head, Option.isSome_map,
      Option.isSome_map, decimal?_isSome_iff]
  cases text with
  | nil =>
    constructor
    · exact fun numeral => (by obtain ⟨c, hc, -⟩ := numeral.head; cases hc)
    · rintro ⟨-, c, hc, -⟩
      cases hc
  | cons c rest =>
    constructor
    · intro numeral
      obtain ⟨d, hd, head⟩ := numeral.head
      cases hd
      exact ⟨(readable head).mpr numeral, c, rfl, head⟩
    · rintro ⟨read, d, hd, head⟩
      cases hd
      exact (readable head).mp read

end Numeral

/-- No fault is that of a number. -/
def Survey.Legible (s : Survey) : Prop :=
  ∀ literal, .invalidLiteral literal ∉ s.faults

section Legible

variable {s left right : Survey}

theorem invalidLiteral_notMem_mismatch (literal : String) (expected found : ValueType) :
    .invalidLiteral literal ∉ mismatch expected found := by
  unfold mismatch
  split <;> simp

namespace Survey.Legible

theorem faultsAs (h : s.Legible) (expected : ValueType) (literal : String) :
    .invalidLiteral literal ∉ s.faultsAs expected := by
  rw [Survey.faultsAs, List.mem_append]
  exact not_or.mpr ⟨h literal, invalidLiteral_notMem_mismatch literal _ _⟩

theorem sign (op : PrefixOp) (h : s.Legible) : (Survey.sign op s).Legible :=
  h.faultsAs op.demand

theorem join (op : InfixOp) (hl : left.Legible) (hr : right.Legible) :
    (Survey.join op left right).Legible := by
  intro literal
  simp only [Survey.join, List.mem_append, not_or]
  exact ⟨hl literal, hr literal, invalidLiteral_notMem_mismatch literal _ _,
    invalidLiteral_notMem_mismatch literal _ _⟩

theorem choose {condition chosen otherwise : Survey} (hc : condition.Legible)
    (ht : chosen.Legible) (he : otherwise.Legible) :
    (Survey.choose condition chosen otherwise).Legible := by
  intro literal
  simp only [Survey.choose, List.mem_append, not_or]
  exact ⟨hc.faultsAs .boolean literal, ht.faultsAs .real literal, he.faultsAs .real literal⟩

theorem call (name : String) {arguments : List Survey} (h : ∀ s ∈ arguments, s.Legible) :
    (Survey.call name arguments).Legible := by
  intro literal
  have inside : .invalidLiteral literal ∉ arguments.flatMap (Survey.faultsAs .real) := by
    rw [List.mem_flatMap]
    rintro ⟨s, hs, fault⟩
    exact (h s hs).faultsAs .real literal fault
  rw [Survey.call]
  cases Callee.ofName? name with
  | none =>
    rw [List.mem_cons, not_or]
    exact ⟨nofun, inside⟩
  | some callee =>
    have count : .invalidLiteral literal ∉ callee.miscount name arguments.length := by
      cases callee <;> simp only [Callee.miscount] <;> split <;> simp
    rw [List.mem_append]
    exact not_or.mpr ⟨inside, count⟩

theorem name (slotOf : String → Option Nat) (text : String) :
    (Survey.name slotOf text).Legible := by
  intro literal
  unfold Survey.name
  split <;> simp

end Survey.Legible

theorem Grouped.survey_legible {g : Grouped Survey} (h : ∀ s ∈ g.operands, s.Legible) :
    g.survey.Legible := by
  induction g with
  | operand value => exact h value (List.mem_singleton_self _)
  | signed op inner ih => exact (ih h).sign op
  | joined op left right ihl ihr =>
    obtain ⟨hl, hr⟩ := List.forall_mem_append.mp h
    exact (ihl hl).join op (ihr hr)

variable {slotOf : String → Option Nat}

mutual

/-- A walk over a formula finds fault with names, calls and types, never with a number. -/
theorem Formula.survey_legible (formula : Formula) : (formula.survey slotOf).Legible := by
  cases formula with
  | operation operands => exact operands.survey_legible
  | choice condition chosen otherwise =>
    exact .choose condition.survey_legible chosen.survey_legible otherwise.survey_legible

theorem Operation.survey_legible (operands : Operation) :
    (operands.surveys slotOf).group.survey.Legible := by
  refine Grouped.survey_legible ?_
  rw [Row.operands_group]
  exact operands.operands_legible

theorem Operation.operands_legible (operands : Operation) :
    ∀ s ∈ (operands.surveys slotOf).operands, s.Legible := by
  cases operands with
  | last signs operand => exact List.forall_mem_singleton.mpr operand.survey_legible
  | link signs operand op rest =>
    exact List.forall_mem_cons.mpr ⟨operand.survey_legible, rest.operands_legible⟩

theorem Primary.survey_legible (operand : Primary) : (operand.survey slotOf).Legible := by
  cases operand with
  | number text => exact fun literal => List.not_mem_nil
  | name text => exact .name slotOf text
  | call callee arguments => exact .call callee arguments.surveys_legible
  | group inner => exact inner.survey_legible

theorem Arguments.surveys_legible (arguments : Arguments) :
    ∀ s ∈ arguments.surveys slotOf, s.Legible := by
  cases arguments with
  | none => exact List.forall_mem_nil _
  | cons first rest => exact List.forall_mem_cons.mpr ⟨first.survey_legible, rest.surveys_legible⟩

end

end Legible

variable {α : Type} [Scalar α]

/-- A formula that stands in a text is refused for none of its numbers. -/
theorem Formula.build_ne_invalidLiteral {formula : Formula} (spelled : Spelled [formula.pair])
    (slotOf : String → Option Nat) (literal : String) :
    formula.build (α := α) slotOf ≠ .error (.invalidLiteral literal) := by
  intro refused
  have yields : Yields (formula.survey slotOf).faults (formula.survey slotOf).Describes
      (formula.build (α := α) slotOf) := formula.build_yields spelled
  rw [refused] at yields
  cases yields with
  | fault first =>
    have found : .invalidLiteral literal ∈ (formula.survey slotOf).faults := by
      rw [first]
      exact List.mem_cons_self
    exact formula.survey_legible literal found

theorem Expression.parse_ne_invalidLiteral (slotOf : String → Option Nat)
    (text literal : String) :
    Expression.parse (α := α) slotOf text ≠ .error (.invalidLiteral literal) := by
  intro refused
  cases blank : (trimSpace text.toList).isEmpty with
  | true => simp [parse, blank] at refused
  | false =>
    rw [parse_of_nonblank blank] at refused
    rcases bind_eq_error_iff.mp refused with unread | ⟨formula, read, refused⟩
    · cases Formula.read_error unread
    · obtain ⟨-, recognised⟩ := Formula.read_eq_ok_iff.mp read
      have spelled := (derives_of_recognise recognised).spelled
      rcases bind_eq_error_iff.mp refused with unbuilt | ⟨tree, -, refused⟩
      · exact formula.build_ne_invalidLiteral spelled slotOf literal unbuilt
      · dsimp only at refused
        split at refused <;> cases refused

/-- No text is refused for a number in it, whatever slots its names have. What the rule for a number
matches at the start of a text is the longest numeral there, and the numerals are the texts without
a sign that the reader of floating-point numbers takes, apart from its words. -/
theorem literals_readable :
    (∀ (slotOf : String → Option Nat) (text literal : String),
      Expression.parse (α := α) slotOf text ≠ .error (.invalidLiteral literal)) ∧
    (∀ text pairs rest, Runs (.rule .realLiteral) text (some (pairs, rest)) ↔
      ∃ number, pairs = [.leaf .realLiteral number] ∧ LongestNumeral text number rest) ∧
    ∀ number, IsNumeral number ↔
      (readScalar? (α := α) (String.ofList number)).isSome = true ∧
        ∃ c ∈ number.head?, (c.isDigit || c = '.') = true :=
  ⟨Expression.parse_ne_invalidLiteral, fun _ _ _ => runs_realLiteral_iff,
    fun _ => Numeral.isNumeral_iff_readable⟩

end LessonPlot
