import LessonPlot.Json.Read
import LessonPlot.Json.Write
import LessonPlot.Proofs.Except
import LessonPlot.Proofs.Text.Span

namespace LessonPlot.Json

section Strings

theorem hexCode?_control : ∀ n < 32,
    hexCode? '0' '0' (Nat.digitChar (n / 16)) (Nat.digitChar (n % 16)) = some n := by
  decide

/-- A character is read back from the way it stands in a string. -/
theorem scanString_escape (c : Char) (rest : List Char) :
    scanString none (escape c ++ rest) = prepend c (scanString none rest) := by
  unfold escape
  split
  · subst_vars; simp [scanString, escaped?]
  split
  · subst_vars; simp [scanString, escaped?]
  split
  · subst_vars; simp [scanString, escaped?]
  split
  · subst_vars; simp [scanString, escaped?]
  split
  · subst_vars; simp [scanString, escaped?]
  split
  · subst_vars; simp [scanString, escaped?]
  split
  · subst_vars; simp [scanString, escaped?]
  split
  next control =>
    have lt : c.toNat < 32 := control
    have code := hexCode?_control c.toNat lt
    have trailing : isTrailingUnit c.toNat = false := by
      simp [isTrailingUnit]
      omega
    have leading : isLeadingUnit c.toNat = false := by
      simp [isLeadingUnit]
      omega
    simp [scanString, code, trailing, leading]
  next _ backslash _ _ _ _ _ control =>
    simp [scanString, backslash, control]

theorem scanString_escaped (text rest : List Char) :
    scanString none (text.flatMap escape ++ '"' :: rest) = .ok (text, rest) := by
  induction text with
  | nil => simp [scanString]
  | cons c text ih =>
    rw [List.flatMap_cons, List.append_assoc, scanString_escape, ih]
    rfl

/-- A string is read back after its opening quote. -/
theorem scanQuoted_quote (text : String) (rest : List Char) : ∃ inside,
    (quote text).toList ++ rest = '"' :: inside ∧ scanQuoted inside = .ok (text, rest) := by
  refine ⟨text.toList.flatMap escape ++ '"' :: rest, by simp [quote], ?_⟩
  simp [scanQuoted, scanString_escaped, Except.map]

end Strings

/-- What may follow a value in an array or an object. -/
def Follows (rest : List Char) : Prop :=
  ∀ c ∈ rest.head?, c = ',' ∨ c = ']' ∨ c = '}'

/-- A text is read as a value, or refused, whatever follows it. -/
def Reads {β : Type} (reader : Reader β) (text : List Char) (outcome : Option β) : Prop :=
  ∀ rest, Follows rest → (reader (text ++ rest)).toOption = outcome.map (·, rest)

theorem Reads.map {β γ : Type} {reader : Reader β} {text : List Char} {outcome : Option β}
    (h : Reads reader text outcome) (f : β → γ) :
    Reads (fun text => (reader text).map fun (value, rest) => (f value, rest)) text
      (outcome.map f) := by
  intro rest follows
  rw [toOption_map, h rest follows]
  cases outcome <;> rfl

def Uniform {β : Type} (reader : Reader β) (text : List Char) : Prop :=
  ∃ outcome, Reads reader text outcome

namespace Uniform

variable {β : Type} {reader reader' : Reader β} {text text' : List Char}

theorem of_eq (h : Uniform reader' text')
    (eq : ∀ rest, Follows rest → reader (text ++ rest) = reader' (text' ++ rest)) :
    Uniform reader text := by
  obtain ⟨outcome, ho⟩ := h
  refine ⟨outcome, fun rest follows => ?_⟩
  rw [eq rest follows, ho rest follows]

theorem ite (h : Uniform reader text) (h' : Uniform reader' text) (c : Prop) [Decidable c] :
    Uniform (fun text => if c then reader text else reader' text) text := by
  by_cases hc : c
  · simpa only [if_pos hc] using h
  · simpa only [if_neg hc] using h'

theorem error (fault : Fault) : Uniform (fun _ => .error fault : Reader β) text :=
  ⟨none, fun _ _ => rfl⟩

theorem ok (value : β) : Uniform (fun rest => .ok (value, rest)) [] :=
  ⟨some value, fun _ _ => rfl⟩

theorem realNumber (negative : Bool) (significand : Nat) (exponent : Int) :
    Uniform (realNumber negative significand exponent) [] := by
  cases h : scaled significand exponent with
  | none =>
    have refused : Uniform (fun _ => .error .malformed : Reader JsonNumber) [] := error _
    exact refused.of_eq fun rest _ => by simp [Json.realNumber, h]
  | some value =>
    have read := ok (JsonNumber.real (if negative then -value else value))
    exact read.of_eq fun rest _ => by simp [Json.realNumber, h]

theorem map {γ : Type} (h : Uniform reader text) (f : β → γ) :
    Uniform (fun text => (reader text).map fun (value, rest) => (f value, rest)) text := by
  obtain ⟨outcome, ho⟩ := h
  exact ⟨outcome.map f, ho.map f⟩

/-- What is read where something follows is what is read of the text alone. -/
theorem reads (h : Uniform reader text) : Reads reader text ((reader text).toOption.map Prod.fst) := by
  obtain ⟨outcome, ho⟩ := h
  have alone := ho [] nofun
  rw [List.append_nil] at alone
  intro rest follows
  rw [ho rest follows, alone]
  cases outcome <;> rfl

end Uniform

section Numbers

variable {whole fraction tail rest : List Char}

theorem Follows.stops (follows : Follows rest) : Stops Char.isDigit rest := by
  intro c hc
  rcases follows c hc with rfl | rfl | rfl <;> rfl

/-- Digits, at least one of them. -/
structure Digits (text : List Char) : Prop where
  nonempty : text ≠ []
  all : ∀ c ∈ text, c.isDigit = true

/-- What ends a number: an exponent or nothing. -/
inductive Tail : List Char → Prop where
  | none : Tail []
  | exponent {sign : Char} {digits : List Char} (hs : sign = '+' ∨ sign = '-')
      (hd : Digits digits) : Tail ('e' :: sign :: digits)

theorem Tail.stops (h : Tail tail) (follows : Follows rest) :
    Stops Char.isDigit (tail ++ rest) := by
  cases h with
  | none => exact follows.stops
  | exponent hs hd =>
    rintro _ ⟨⟩
    rfl

variable (negative : Bool)

theorem uniform_exponentPart (h : Tail tail) (significand : Nat) (exponent : Int) :
    Uniform (exponentPart negative significand exponent) tail := by
  cases h with
  | none =>
    refine (Uniform.realNumber negative significand exponent).of_eq fun rest follows => ?_
    cases rest with
    | nil => rfl
    | cons c rest => rcases follows c rfl with rfl | rfl | rfl <;> rfl
  | @exponent sign digits hs hd =>
    have signed (rest : List Char) :
        Numeral.sign (sign :: (digits ++ rest)) = (decide (sign = '-'), digits ++ rest) := by
      rcases hs with rfl | rfl <;> rfl
    let moved : Int := if sign = '-' then exponent - Numeral.ofDigits digits
      else exponent + Numeral.ofDigits digits
    have near := Uniform.realNumber negative significand moved
    have far := (Uniform.error .malformed).ite (Uniform.realNumber negative 0 0)
      (significand ≠ 0 && !decide (sign = '-'))
    refine (near.ite far (Numeral.ofDigits digits ≤ maxExponent)).of_eq fun rest follows => ?_
    obtain ⟨taken, left⟩ := span_append hd.all follows.stops
    simp [exponentPart, signed, taken, left, hd.nonempty, moved]

/-- The digits of a whole number. -/
theorem uniform_scanNumber_whole (h : Digits whole) : Uniform (scanNumber negative) whole := by
  have exceeding := (Uniform.ok (wholeNumber negative (absorb 0 whole).1)).ite
    (Uniform.realNumber negative (absorb 0 whole).1 (absorb 0 whole).2.length)
    (absorb 0 whole).2.isEmpty
  refine ((Uniform.error .malformed).ite exceeding
    (whole.head? = some '0' && 1 < whole.length)).of_eq fun rest follows => ?_
  obtain ⟨taken, left⟩ := span_append h.all follows.stops
  simp only [scanNumber, taken, left, List.isEmpty_eq_false_iff.mpr h.nonempty]
  cases rest with
  | nil => rfl
  | cons c rest => rcases follows c rfl with rfl | rfl | rfl <;> rfl

theorem uniform_scanNumber_exponent (h : Digits whole) {sign : Char} {digits : List Char}
    (hs : sign = '+' ∨ sign = '-') (hd : Digits digits) :
    Uniform (scanNumber negative) (whole ++ 'e' :: sign :: digits) := by
  have exponent := uniform_exponentPart negative (.exponent hs hd) (absorb 0 whole).1
    (absorb 0 whole).2.length
  refine ((Uniform.error .malformed).ite exponent
    (whole.head? = some '0' && 1 < whole.length)).of_eq fun rest follows => ?_
  have stops : Stops Char.isDigit ('e' :: sign :: (digits ++ rest)) := by
    rintro _ ⟨⟩
    rfl
  obtain ⟨taken, left⟩ := span_append h.all stops
  simp [scanNumber, taken, left, h.nonempty]

theorem uniform_scanNumber_fraction (h : Digits whole) (hf : Digits fraction) (ht : Tail tail) :
    Uniform (scanNumber negative) (whole ++ '.' :: (fraction ++ tail)) := by
  let first := absorb 0 whole
  let second := absorb first.1 fraction
  have exponent := uniform_exponentPart negative ht second.1
    (first.2.length - (fraction.length - second.2.length : Nat))
  refine ((Uniform.error .malformed).ite exponent
    (whole.head? = some '0' && 1 < whole.length)).of_eq fun rest follows => ?_
  have stops : Stops Char.isDigit ('.' :: (fraction ++ (tail ++ rest))) := by
    rintro _ ⟨⟩
    rfl
  obtain ⟨taken, left⟩ := span_append h.all stops
  obtain ⟨takenFraction, leftFraction⟩ := span_append hf.all (ht.stops follows)
  simp [scanNumber, taken, left, takenFraction, leftFraction, h.nonempty, hf.nonempty, first,
    second]

end Numbers

section Spelling

variable {whole fraction tail : List Char}

theorem toList_toString (n : Nat) : (toString n).toList = Nat.toDigits 10 n := by
  rw [Nat.toString_eq_repr, Nat.repr_eq_ofList_toDigits, String.toList_ofList]

theorem digits_toDigits (n : Nat) : Digits (Nat.toDigits 10 n) :=
  ⟨Nat.toDigits_ne_nil, fun _ => Nat.isDigit_of_mem_toDigits (by decide) (by decide)⟩

theorem Digits.append (h : Digits whole) (all : ∀ c ∈ fraction, c.isDigit = true) :
    Digits (whole ++ fraction) :=
  ⟨List.append_ne_nil_of_left_ne_nil h.nonempty _, List.forall_mem_append.mpr ⟨h.all, all⟩⟩

theorem digits_positional (d : Decimal) :
    Digits d.positional.1 ∧ ∀ c ∈ d.positional.2, c.isDigit = true := by
  have digits : Digits d.digits := digits_toDigits d.coefficient
  unfold Decimal.positional
  split
  · refine ⟨?_, by simp⟩
    split
    · exact digits_toDigits 0
    · exact digits.append fun c hc => by simp [List.eq_of_mem_replicate hc]
  · let places := (-d.exponent).toNat
    let padded := padZeros (places + 1) d.digits
    have all : ∀ c ∈ padded, c.isDigit = true := by
      refine List.forall_mem_append.mpr ⟨fun c hc => ?_, digits.all⟩
      simp [List.eq_of_mem_replicate hc]
    have length : places < padded.length := by
      simp only [padded, padZeros, List.length_append, List.length_replicate]
      omega
    refine ⟨⟨?_, fun c hc => all c (List.mem_of_mem_take hc)⟩,
      fun c hc => all c (List.mem_of_mem_drop hc)⟩
    intro empty
    have short : (padded.take (padded.length - places)).length = 0 := congrArg List.length empty
    rw [List.length_take] at short
    omega

/-- Digits with or without a point among them, and with or without an exponent. -/
theorem uniform_joinPoint (negative : Bool) (h : Digits whole)
    (all : ∀ c ∈ fraction, c.isDigit = true) (ht : Tail tail) :
    Uniform (scanNumber negative) (joinPoint (whole, fraction) ++ tail) := by
  cases fraction with
  | nil =>
    cases ht with
    | none => simpa [joinPoint] using uniform_scanNumber_whole negative h
    | exponent hs hd => exact uniform_scanNumber_exponent negative h hs hd
  | cons c fraction =>
    have digits : Digits (c :: fraction) := ⟨by simp, all⟩
    simpa [joinPoint] using uniform_scanNumber_fraction negative h digits ht

theorem Digits.joinPoint_head (h : Digits whole) (fraction tail : List Char) :
    ∃ c rest, c.isDigit = true ∧ joinPoint (whole, fraction) ++ tail = c :: rest := by
  obtain ⟨c, rest, rfl⟩ := List.exists_cons_of_ne_nil h.nonempty
  have digit := h.all c List.mem_cons_self
  cases fraction with
  | nil => exact ⟨c, rest ++ tail, digit, rfl⟩
  | cons d fraction => exact ⟨c, rest ++ '.' :: d :: fraction ++ tail, digit, rfl⟩

theorem scalar_of_isDigit {c : Char} (digit : c.isDigit = true) (rest : List Char) :
    scalar (c :: rest) =
      (scanNumber false (c :: rest)).map fun (value, rest) => (.number value, rest) := by
  rw [scalar.eq_def]
  split <;> simp_all

/-- What is written where a number belongs. -/
structure Numeric (text : List Char) : Prop where
  uniform : Uniform scalar text
  starts : ∃ c rest, text = c :: rest ∧ (c.isDigit = true ∨ c = '-' ∨ c = 'n')

/-- A number with its sign. -/
theorem numeric_signed (negative : Bool) (h : Digits whole)
    (all : ∀ c ∈ fraction, c.isDigit = true) (ht : Tail tail) :
    Numeric (signText negative ++ (joinPoint (whole, fraction) ++ tail)) := by
  have number := (uniform_joinPoint negative h all ht).map Json.number
  cases negative with
  | true => exact ⟨number.of_eq fun rest _ => rfl, '-', _, rfl, .inr (.inl rfl)⟩
  | false =>
    obtain ⟨c, others, digit, spelled⟩ := h.joinPoint_head fraction tail
    rw [signText, if_neg Bool.false_ne_true, List.nil_append]
    refine ⟨number.of_eq fun rest _ => ?_, c, others, spelled, .inl digit⟩
    rw [spelled, List.cons_append, scalar_of_isDigit digit]

theorem digits_take_one {text : List Char} (h : Digits text) : Digits (text.take 1) := by
  obtain ⟨c, rest, rfl⟩ := List.exists_cons_of_ne_nil h.nonempty
  exact ⟨by simp, fun d hd => h.all d (List.mem_of_mem_take hd)⟩

/-- What is written for a finite number is a number. -/
theorem numeric_documentText {value : Float} {text : String} (h : documentText value = some text) :
    Numeric text.toList := by
  unfold documentText at h
  split at h
  next y _ =>
    let d := shortest Float .even y
    obtain ⟨whole, fraction⟩ := digits_positional d
    have digits : Digits d.digits := digits_toDigits d.coefficient
    simp only at h
    split at h
    · cases h
      have zero : ∀ c ∈ if d.positional.2.isEmpty then ['0'] else d.positional.2,
          c.isDigit = true := by
        split
        · simp
        · exact fraction
      have number := numeric_signed y.negative whole zero .none
      rw [List.append_nil] at number
      rwa [String.toList_ofList]
    · cases h
      have written := digits_toDigits d.leadingExponent.natAbs
      have rest : ∀ c ∈ d.digits.drop 1, c.isDigit = true :=
        fun c hc => digits.all c (List.mem_of_mem_drop hc)
      have number (sign : Char) (hs : sign = '+' ∨ sign = '-') :=
        numeric_signed y.negative (digits_take_one digits) rest (.exponent hs written)
      simp only [String.toList_append, String.toList_ofList, toList_toString, List.append_assoc]
      split
      · exact number '-' (.inr rfl)
      · exact number '+' (.inl rfl)
  next => cases h

end Spelling

end LessonPlot.Json

namespace LessonPlot.JsonNumber

open Json

theorem numeric_text (number : JsonNumber) : Numeric number.text.toList := by
  have none : ∀ c ∈ ([] : List Char), c.isDigit = true := by simp
  have whole (negative : Bool) (n : Nat) : Numeric (signText negative ++ Nat.toDigits 10 n) := by
    have number := numeric_signed negative (digits_toDigits n) none .none
    rwa [List.append_nil] at number
  cases number with
  | natural n => simpa [text, toList_toString, signText] using whole false n
  | negative n => simpa [text, toList_toString, signText] using whole true n
  | real value =>
    cases h : documentText value with
    | none =>
      have null : Uniform scalar "null".toList := (Uniform.ok Json.null).of_eq fun rest _ => rfl
      have written : Numeric "null".toList := ⟨null, 'n', _, rfl, .inr (.inr rfl)⟩
      simpa [text, h] using written
    | some spelled => simpa [text, h] using numeric_documentText h

/-- What a number is read as once it has been written. -/
def reread (number : JsonNumber) : Option Json :=
  (scalar number.text.toList).toOption.map Prod.fst

section Natural

theorem le_ofDigits (significand : Nat) (digits : List Char) :
    significand ≤ digits.foldl (fun n c => 10 * n + Numeral.digitValue c) significand := by
  induction digits generalizing significand with
  | nil => exact Nat.le_refl _
  | cons c digits ih =>
    have le := ih (10 * significand + Numeral.digitValue c)
    simp only [List.foldl_cons]
    omega

theorem absorb_of_lt {significand : Nat} {digits : List Char}
    (lt : digits.foldl (fun n c => 10 * n + Numeral.digitValue c) significand < Nat.pow 2 64) :
    absorb significand digits =
      (digits.foldl (fun n c => 10 * n + Numeral.digitValue c) significand, []) := by
  induction digits generalizing significand with
  | nil => rfl
  | cons c digits ih =>
    have le := le_ofDigits (10 * significand + Numeral.digitValue c) digits
    simp only [List.foldl_cons] at lt ⊢
    rw [absorb, if_pos (Nat.lt_of_le_of_lt le lt), ih lt]

theorem digitValue_digitChar : ∀ d < 10, Numeral.digitValue (Nat.digitChar d) = d := by
  decide

theorem ofDigits_toDigits (n : Nat) : Numeral.ofDigits (Nat.toDigits 10 n) = n := by
  induction n using Nat.strongRecOn with
  | ind n ih =>
    by_cases small : n < 10
    · rw [Nat.toDigits_of_lt_base small]
      simp [Numeral.ofDigits, digitValue_digitChar n small]
    · have last := digitValue_digitChar (n % 10) (Nat.mod_lt n (by decide))
      have front := ih (n / 10) (by omega)
      rw [Nat.toDigits_of_base_le (by decide) (by omega)]
      simp only [Numeral.ofDigits, List.foldl_append, List.foldl_cons, List.foldl_nil] at front ⊢
      rw [front, last]
      omega

theorem head?_toDigits {n : Nat} (pos : 0 < n) : (Nat.toDigits 10 n).head? ≠ some '0' := by
  induction n using Nat.strongRecOn with
  | ind n ih =>
    by_cases small : n < 10
    · have chars : ∀ d < 10, 0 < d → Nat.digitChar d ≠ '0' := by decide
      rw [Nat.toDigits_of_lt_base small]
      simpa using chars n small pos
    · have front := ih (n / 10) (by omega) (by omega)
      rw [Nat.toDigits_of_base_le (by decide) (by omega)]
      cases h : Nat.toDigits 10 (n / 10) with
      | nil => exact absurd h Nat.toDigits_ne_nil
      | cons c rest => simpa [h] using front

/-- A natural number of 64 bits is read back as itself. -/
theorem reread_natural {n : Nat} (lt : n < Nat.pow 2 64) :
    (natural n).reread = some (.number (natural n)) := by
  have digits := digits_toDigits n
  have absorbed : absorb 0 (Nat.toDigits 10 n) = (n, []) := by
    have value : (Nat.toDigits 10 n).foldl (fun n c => 10 * n + Numeral.digitValue c) 0 = n :=
      ofDigits_toDigits n
    rw [absorb_of_lt (value.symm ▸ lt), value]
  have leading :
      ((Nat.toDigits 10 n).head? = some '0' && 1 < (Nat.toDigits 10 n).length) = false := by
    rcases Nat.eq_zero_or_pos n with rfl | pos
    · rfl
    · simp [head?_toDigits pos]
  have scanned : scanNumber false (Nat.toDigits 10 n) = .ok (natural n, []) := by
    obtain ⟨taken, left⟩ := span_append digits.all (stops_nil _)
    rw [List.append_nil] at taken left
    simp only [scanNumber, taken, left, absorbed, List.isEmpty_eq_false_iff.mpr digits.nonempty,
      leading]
    rfl
  obtain ⟨c, rest, h⟩ := List.exists_cons_of_ne_nil digits.nonempty
  have digit : c.isDigit = true := digits.all c (h ▸ List.mem_cons_self)
  rw [h] at scanned
  rw [reread, text, toList_toString, h, scalar_of_isDigit digit, scanned]
  rfl

end Natural

end LessonPlot.JsonNumber
