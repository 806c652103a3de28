import LessonPlot.Decimal.Numeral
import LessonPlot.Proofs.Expression.FreeNames

namespace LessonPlot

/-- All leaves of some trees spell what their rules derive. -/
def Spelled (pairs : List Pair) : Prop :=
  ∀ rule spelling, .leaf rule spelling ∈ Pair.flattenAll pairs →
    ∃ ps, Derives (.rule rule) spelling ps

namespace Spelled

variable {pairs others : List Pair}

theorem append_iff : Spelled (pairs ++ others) ↔ Spelled pairs ∧ Spelled others := by
  simp only [Spelled, Pair.flattenAll_append, List.mem_append, or_imp, forall_and]

theorem cons_iff {pair : Pair} : Spelled (pair :: others) ↔ Spelled [pair] ∧ Spelled others :=
  @append_iff [pair] others

theorem node_iff {rule : Rule} : Spelled [.node rule pairs] ↔ Spelled pairs := by
  simp [Spelled, Pair.flattenAll, Pair.flatten]

theorem leaf_iff {rule : Rule} {spelling : List Char} :
    Spelled [.leaf rule spelling] ↔ ∃ ps, Derives (.rule rule) spelling ps := by
  simp [Spelled, Pair.flattenAll, Pair.flatten]

end Spelled

theorem Derives.spelled {p : Pattern} {s : List Char} {ps : List Pair} (h : Derives p s ps) :
    Spelled ps := by
  induction h with
  | text | char | absent | none | ending => nofun
  | seq _ _ ih ih' | next _ _ ih ih' => exact Spelled.append_iff.mpr ⟨ih, ih'⟩
  | first _ ih | second _ ih | present _ ih => exact ih
  | @rule r s ps h ih =>
    unfold Rule.pair
    split
    next => exact Spelled.leaf_iff.mpr ⟨_, .rule h⟩
    next => exact Spelled.node_iff.mpr ih

namespace Numeral

/-- An exponent of the grammar, or none, is one that can be read. -/
theorem exponent?_isSome {s : List Char} {ps : List Pair}
    (h : Derives (.optional .exponent) s ps) : (exponent? s).isSome := by
  cases h with
  | absent => rfl
  | present h =>
    obtain ⟨-, mark, signs, d, rfl, hm, hs, hd, hne⟩ := h.exponent_inv
    have signed : ∃ negative, sign (signs ++ d) = (negative, d) := by
      rcases hs with rfl | rfl | rfl
      · obtain ⟨c, d, rfl⟩ := List.exists_cons_of_ne_nil hne
        have hc := hd c (by simp)
        refine ⟨false, ?_⟩
        rw [List.nil_append, sign.eq_def]
        split
        next heq => cases heq; cases hc
        next heq => cases heq; cases hc
        next => rfl
      · exact ⟨false, rfl⟩
      · exact ⟨true, rfl⟩
    obtain ⟨negative, signed⟩ := signed
    have digits : (!d.isEmpty && d.all Char.isDigit) = true := by
      simpa [hne] using hd
    simp [exponent?, hm, signed, digits]

theorem decimal?_isSome {s : List Char} {ps : List Pair}
    (h : Derives (.rule .realLiteral) s ps) : (decimal? s).isSome := by
  cases h with
  | rule h =>
    obtain ⟨m, x, qs, rs, rfl, -, mantissa, exponent⟩ := h.seq_inv
    have readable := exponent?_isSome exponent
    have begins : Stops (fun c => c.isDigit || c = '.') x := by
      obtain ⟨-, rfl | ⟨mark, x, rfl, hm⟩, -⟩ := exponent.takeExponent
      · nofun
      · rintro _ ⟨⟩
        have hm : mark = 'e' ∨ mark = 'E' := by simpa using hm
        rcases hm with rfl | rfl <;> rfl
    have stops : Stops Char.isDigit x := fun c hc => (Bool.or_eq_false_iff.mp (begins c hc)).1
    obtain ⟨-, ⟨hd, hne⟩ | ⟨d, f, rfl, hd, hf, hne⟩⟩ := mantissa.mantissa_inv
    · obtain ⟨hw, hx⟩ := span_append hd stops
      have point : ∀ t, x = '.' :: t → False := by
        rintro t rfl
        simpa using begins '.' rfl
      simpa [decimal?, hw, hx, point, hne] using readable
    · have hpoint : Stops Char.isDigit ('.' :: (f ++ x)) := by simp [Stops]
      obtain ⟨hw, ht⟩ := span_append hd hpoint
      obtain ⟨hw', ht'⟩ := span_append hf stops
      have some : (d.isEmpty && f.isEmpty) = false := by
        rcases hne with hd | hf <;> simp [*]
      simp only [List.append_assoc, List.cons_append] at hw ht ⊢
      simpa [decimal?, hw, ht, hw', ht', some] using readable

section Unsigned

variable {c : Char} (plain : (c.isDigit || c = '.') = true) (rest : List Char)

include plain

theorem toNat_of_plain : c.toNat = 46 ∨ 48 ≤ c.toNat ∧ c.toNat ≤ 57 := by
  rcases Bool.or_eq_true_iff.mp plain with digit | point
  · exact .inr (Char.isDigit_iff_toNat.mp digit)
  · rw [of_decide_eq_true point]
    exact .inl rfl

theorem toLower_of_plain : c.toLower = c := by
  have bounds := toNat_of_plain plain
  have small : ¬(65 ≤ c.val ∧ c.val ≤ 90) := by
    rw [UInt32.le_iff_toNat_le]
    change ¬(65 ≤ c.toNat ∧ _)
    omega
  unfold Char.toLower
  exact dif_neg small

theorem sign_of_plain : sign (c :: rest) = (false, c :: rest) := by
  rw [sign.eq_def]
  split
  next heq => cases heq; cases plain
  next heq => cases heq; cases plain
  next => rfl

/-- What starts with a digit or a point is no word. -/
theorem lower_ne_of_plain (word : String)
    (letter : word.toList.head?.all (fun c => c.isDigit || c = '.') = false) :
    String.ofList ((c :: rest).map Char.toLower) ≠ word := by
  rintro rfl
  rw [String.toList_ofList, List.map_cons, List.head?_cons, Option.all_some,
    toLower_of_plain plain, plain] at letter
  cases letter

theorem read?_of_plain : read? (c :: rest) = (decimal? (c :: rest)).map (.finite false) := by
  have nan := lower_ne_of_plain plain rest "nan" (by decide)
  have inf := lower_ne_of_plain plain rest "inf" (by decide)
  have infinity := lower_ne_of_plain plain rest "infinity" (by decide)
  have words : ¬(decide (String.ofList ((c :: rest).map Char.toLower) = "inf") ||
      decide (String.ofList ((c :: rest).map Char.toLower) = "infinity")) = true := by
    rw [decide_eq_false inf, decide_eq_false infinity]
    decide
  simp only [read?, sign_of_plain plain, if_neg nan, if_neg words]

end Unsigned

/-- Every number of the grammar can be read. -/
theorem readScalar?_isSome {α : Type} [Scalar α] {text : String} {ps : List Pair}
    (h : Derives (.rule .realLiteral) text.toList ps) : (readScalar? (α := α) text).isSome := by
  obtain ⟨-, ⟨c, t, ht, hc⟩, -⟩ := h.realLiteral_inv
  have readable := decimal?_isSome h
  rw [ht] at readable
  rw [readScalar?, ht, read?_of_plain hc, Option.isSome_map, Option.isSome_map, readable]

end Numeral

end LessonPlot
