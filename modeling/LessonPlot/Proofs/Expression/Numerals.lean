import LessonPlot.Proofs.Decimal.Notation
import LessonPlot.Proofs.Expression.Verdict
import LessonPlot.Proofs.Formula.Levels
import LessonPlot.Proofs.Json.Tokens

open LessonPlot.Json

namespace LessonPlot

/-- The characters of a number that is written without an exponent. -/
def IsPlain (text : List Char) : Prop :=
  ∀ c ∈ text, (c.isDigit || c = '.') = true

section Limits

variable {text : List Char} {c : Char}

theorem utf8ByteSize_ofList (narrow : ∀ c ∈ text, c.utf8Size = 1) :
    (String.ofList text).utf8ByteSize = text.length := by
  induction text with
  | nil => rfl
  | cons c text ih =>
    have rest := ih fun d hd => narrow d (List.mem_cons_of_mem c hd)
    rw [String.ofList_cons, String.utf8ByteSize_append, String.utf8ByteSize_singleton, rest,
      narrow c List.mem_cons_self, List.length_cons, Nat.add_comm]

theorem utf8Size_of_plain (plain : (c.isDigit || c = '.') = true) : c.utf8Size = 1 := by
  have bounds := Numeral.toNat_of_plain plain
  rw [Char.utf8Size_eq_one_iff, UInt32.le_iff_toNat_le]
  change c.toNat ≤ 127
  omega

theorem Nesting.isQuiet_of_plain (plain : (c.isDigit || c = '.') = true) : isQuiet c = true := by
  have bounds := Numeral.toNat_of_plain plain
  exact isQuiet_of_toNat (by omega) (by omega) (by omega) (by omega)

theorem checkLimits_signed (negative : Bool) (plain : IsPlain text)
    (short : text.length < maxBytes) :
    checkLimits (String.ofList (signText negative ++ text)) = .ok () := by
  have narrow : ∀ c ∈ signText negative ++ text, c.utf8Size = 1 := by
    refine List.forall_mem_append.mpr ⟨fun c hc => ?_, fun c hc => utf8Size_of_plain (plain c hc)⟩
    cases negative with
    | false => cases hc
    | true =>
      rw [List.mem_singleton.mp hc]
      rfl
  have sign : (signText negative).length ≤ 1 := by
    cases negative <;> simp [signText]
  have quiet : ∀ c ∈ text, Nesting.isQuiet c = true :=
    fun c hc => Nesting.isQuiet_of_plain (plain c hc)
  have bytes : (String.ofList (signText negative ++ text)).utf8ByteSize ≤ maxBytes := by
    rw [utf8ByteSize_ofList narrow, List.length_append]
    omega
  have start : (Nesting.none.scan (signText negative)).level = 0 ∧
      (Nesting.none.scan (signText negative)).deepest ≤ 1 := by
    cases negative <;> decide
  have nesting : Nesting.of (String.ofList (signText negative ++ text)).toList ≤ maxNesting := by
    rw [String.toList_ofList]
    change (Nesting.none.scan (signText negative ++ text)).deepest ≤ maxNesting
    rw [Nesting.scan_append, Nesting.scan_quiet quiet _ start.1]
    exact start.2.trans (by decide)
  exact checkLimits_eq_ok_iff.mpr ⟨bytes, nesting⟩

end Limits

section Reading

variable {whole fraction : List Char}

theorem isPlain_joinPoint (digits : Digits whole) (all : ∀ c ∈ fraction, c.isDigit = true) :
    IsPlain (joinPoint (whole, fraction)) := by
  cases fraction with
  | nil => exact fun c hc => by simp [digits.all c hc]
  | cons d fraction =>
    refine List.forall_mem_append.mpr ⟨fun c hc => by simp [digits.all c hc], ?_⟩
    refine List.forall_mem_cons.mpr ⟨rfl, fun c hc => by simp [all c hc]⟩

theorem length_joinPoint_le : (joinPoint (whole, fraction)).length ≤
    whole.length + fraction.length + 1 := by
  cases fraction with
  | nil => simp [joinPoint]
  | cons d fraction =>
    simp only [joinPoint, List.length_append, List.length_cons]
    omega

theorem takeNumber?_joinPoint (digits : Digits whole) (all : ∀ c ∈ fraction, c.isDigit = true) :
    takeNumber? (joinPoint (whole, fraction)) = some (joinPoint (whole, fraction), []) := by
  have mantissa : takeMantissa? (joinPoint (whole, fraction)) =
      some (joinPoint (whole, fraction), []) := by
    cases fraction with
    | nil =>
      have taken := takeMantissa?_whole digits.all digits.nonempty (stops_nil _)
      rwa [List.append_nil] at taken
    | cons d fraction =>
      have taken := takeMantissa?_point digits.all all (.inl digits.nonempty) (stops_nil _)
      rwa [List.append_nil] at taken
  rw [takeNumber?, mantissa]
  simp [takeExponent]

theorem opens_joinPoint (digits : Digits whole) (fraction : List Char) :
    Opens (joinPoint (whole, fraction)) := by
  obtain ⟨c, rest, digit, head⟩ := digits.joinPoint_head fraction []
  rw [List.append_nil] at head
  exact ⟨c, rest, head, by simp [startsPrimary, digit]⟩

theorem recognise_signed (negative : Bool) (digits : Digits whole)
    (all : ∀ c ∈ fraction, c.isDigit = true) :
    recognise (signText negative ++ joinPoint (whole, fraction)) =
      .ok (.operation (.last (if negative then [.minus] else [])
        (.number (String.ofList (joinPoint (whole, fraction)))))) := by
  have signs : takeSigns (signText negative ++ joinPoint (whole, fraction)) =
      (if negative then [.minus] else [], joinPoint (whole, fraction)) := by
    have unsigned := (opens_joinPoint digits fraction).takeSigns
    cases negative with
    | false => exact unsigned
    | true =>
      change (PrefixOp.minus :: (takeSigns (joinPoint (whole, fraction))).1,
        (takeSigns (joinPoint (whole, fraction))).2) = _
      rw [unsigned]
      rfl
  exact recognise_of_primary signs fun _ =>
    Recogniser.primary_of_number (takeNumber?_joinPoint digits all)

namespace Numeral

theorem decimal?_joinPoint (digits : Digits whole) (all : ∀ c ∈ fraction, c.isDigit = true) :
    decimal? (joinPoint (whole, fraction)) = some (.ofPositional (whole, fraction)) := by
  cases fraction with
  | nil =>
    obtain ⟨taken, rest⟩ := span_append digits.all (stops_nil _)
    rw [List.append_nil] at taken rest
    simp [decimal?, joinPoint, taken, rest, digits.nonempty, exponent?, Decimal.ofPositional]
  | cons d fraction =>
    have point : Stops Char.isDigit ('.' :: d :: fraction) := by simp [Stops]
    obtain ⟨taken, rest⟩ := span_append digits.all point
    obtain ⟨taken', rest'⟩ := span_append all (stops_nil _)
    rw [List.append_nil] at taken' rest'
    simp [decimal?, joinPoint, taken, rest, taken', rest', exponent?, Decimal.ofPositional]

end Numeral

theorem readScalar?_joinPoint {α : Type} [Scalar α] (digits : Digits whole)
    (all : ∀ c ∈ fraction, c.isDigit = true) :
    readScalar? (α := α) (String.ofList (joinPoint (whole, fraction))) =
      some (Scalar.ofDecimal (.ofPositional (whole, fraction))) := by
  obtain ⟨c, rest, digit, head⟩ := digits.joinPoint_head fraction []
  rw [List.append_nil] at head
  have plain : (c.isDigit || c = '.') = true := by rw [digit, Bool.true_or]
  have read := Numeral.read?_of_plain plain rest
  rw [← head, Numeral.decimal?_joinPoint digits all] at read
  rw [readScalar?, String.toList_ofList, read]
  rfl

end Reading

section Compiling

variable {α : Type} [Scalar α] {whole fraction : List Char}

theorem leads_signed (negative : Bool) (digits : Digits whole) (fraction : List Char) :
    Leads (signText negative ++ joinPoint (whole, fraction)) := by
  cases negative with
  | true => exact ⟨[], '-', _, rfl, nofun, rfl⟩
  | false =>
    obtain ⟨c, rest, head, opens⟩ := opens_joinPoint digits fraction
    exact ⟨[], c, rest, head, nofun, by rw [opens, Bool.true_or]⟩

/-- A number before which a minus stands is one node over a literal. -/
def signedLiteral (negative : Bool) (value : α) : RealExpression α :=
  if negative then .negate (.literal value) else .literal value

/-- In every scope a number is the literal that it is read as, under a negation if a minus stands
before it. -/
theorem compile_signed (negative : Bool) (digits : Digits whole)
    (all : ∀ c ∈ fraction, c.isDigit = true)
    (short : (joinPoint (whole, fraction)).length < maxBytes) (scope : Scope) :
    scope.compile (String.ofList (signText negative ++ joinPoint (whole, fraction))) =
      .ok (signedLiteral negative (Scalar.ofDecimal (.ofPositional (whole, fraction)) : α)) := by
  have limits := checkLimits_signed negative (isPlain_joinPoint digits all) short
  have literal := readScalar?_joinPoint (α := α) digits all
  have read : Formula.read (String.ofList (signText negative ++ joinPoint (whole, fraction))) =
      .ok (.operation (.last (if negative then [.minus] else [])
        (.number (String.ofList (joinPoint (whole, fraction)))))) := by
    rw [Formula.read, limits, String.toList_ofList, recognise_signed negative digits all]
    rfl
  have nonblank :
      (trimSpace (String.ofList (signText negative ++ joinPoint (whole, fraction))).toList).isEmpty =
        false := by
    rw [String.toList_ofList]
    exact (leads_signed negative digits fraction).nonblank
  generalize (Scalar.ofDecimal (.ofPositional (whole, fraction)) : α) = v at literal ⊢
  have built : Formula.build scope.slot? (.operation (.last (if negative then [.minus] else [])
      (.number (String.ofList (joinPoint (whole, fraction)))))) =
        .ok (.real (signedLiteral negative v)) := by
    have operand : literalExpression (String.ofList (joinPoint (whole, fraction))) =
        .ok (.real (.literal v)) := by
      rw [literalExpression, literal]
    cases negative with
    | false => exact operand
    | true =>
      change (do
        let inner ← literalExpression (String.ofList (joinPoint (whole, fraction)))
        Expression.sign .minus inner) = _
      rw [operand]
      rfl
  have flat : (Expression.real (signedLiteral negative v)).walkedDepth ≤ maxDepth := by
    rw [Expression.walkedDepth_eq_depth]
    cases negative with
    | false => exact show 1 ≤ maxDepth by decide
    | true => exact show 2 ≤ maxDepth by decide
  rw [Scope.compile, Expression.parseReal, Expression.parse_of_build nonblank read built flat]
  rfl

end Compiling

end LessonPlot
