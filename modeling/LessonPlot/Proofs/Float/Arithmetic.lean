import LessonPlot.Proofs.Float.Packing

open Float.Model Float.Model.UnpackedFloat

namespace LessonPlot

section Unpacked

variable {f g : UnpackedFloat}

theorem Canonical.representable {m : ℕ} {e : ℤ} (h : Canonical m e) (s : Sign) :
    Representable (signed s (m * 2 ^ e)) := by
  have hm : |(m : ℤ)| ≤ 2 ^ 53 := by
    rw [Nat.abs_cast]
    exact_mod_cast h.significand_lt.le
  cases s with
  | negative => exact ⟨-m, e, by rwa [abs_neg], h.exponent_ge, by simp [signed]⟩
  | positive => exact ⟨m, e, hm, h.exponent_ge, by simp [signed]⟩

/-- An unpacked number is itself where it is the result. -/
theorem Packable.roundsTo (h : Packable f) (hf : f.isFinite = true) : RoundsTo f (exactValue f) := by
  cases h with
  | notANumber | infinity => cases hf
  | zero => exact .zero rounded_zero
  | finite canonical le => exact .finite canonical (rounded_of_representable (canonical.representable _))

theorem RoundsTo.neg_finite {s : Sign} {m : ℕ} {e : ℤ} {hm : 0 < m} (h : Canonical m e) :
    RoundsTo (.finite (-s) m e hm) (-signed s (m * 2 ^ e)) := by
  have value : -signed s (m * 2 ^ e) = signed (-s) (m * 2 ^ e) := by
    cases s with
    | negative => exact neg_neg _
    | positive => rfl
  rw [value]
  exact .finite h (rounded_of_representable (h.representable _))

/-- A significand that is written with a smaller exponent. -/
theorem decreaseExponent_value {m : ℕ} {e e' : ℤ} (h : e' ≤ e) :
    ((decreaseExponent m e e').1 : ℚ) * 2 ^ e' = m * 2 ^ e := by
  obtain ⟨k, rfl⟩ := Int.le.dest h
  have amount : (e' + k - e').toNat = k := by omega
  simp only [decreaseExponent, amount, Nat.shiftLeft_eq]
  rw [two_zpow_add, zpow_natCast]
  push_cast
  ring

theorem apply_mul (s : Sign) (m : ℕ) (q : ℚ) : (s.apply m : ℚ) * q = signed s (m * q) := by
  cases s with
  | negative => simp [Sign.apply, signed]
  | positive => simp [Sign.apply, signed]

/-- A summand's share of a sum that is computed at a smaller exponent. -/
theorem apply_decreaseExponent (s : Sign) (m : ℕ) {e e' : ℤ} (h : e' ≤ e) :
    (s.apply (decreaseExponent m e e').1 : ℚ) * 2 ^ e' = signed s (m * 2 ^ e) := by
  rw [apply_mul, decreaseExponent_value h]

theorem add_roundsTo (hf : Packable f) (hg : Packable g) (finite : f.isFinite = true)
    (finite' : g.isFinite = true) :
    RoundsTo (UnpackedFloat.add .binary64 f g) (exactValue f + exactValue g) := by
  have own := hf.roundsTo finite
  have own' := hg.roundsTo finite'
  cases hf with
  | notANumber | infinity => cases finite
  | zero s =>
    cases hg with
    | notANumber | infinity => cases finite'
    | zero s' =>
      simp only [UnpackedFloat.add, exactValue, add_zero]
      split <;> exact .zero rounded_zero
    | finite canonical' le' =>
      rw [exactValue, zero_add]
      exact own'
  | @finite s m e hm canonical le =>
    cases hg with
    | notANumber | infinity => cases finite'
    | zero s' =>
      rw [exactValue.eq_3, add_zero]
      exact own
    | @finite s' m' e' hm' canonical' le' =>
      have rounds := normalize_roundsTo (s.apply (decreaseExponent m e (min e e')).1 +
        s'.apply (decreaseExponent m' e' (min e e')).1) (min e e') .positive
      have value : ((s.apply (decreaseExponent m e (min e e')).1 +
          s'.apply (decreaseExponent m' e' (min e e')).1 : ℤ) : ℚ) * 2 ^ min e e' =
            signed s (m * 2 ^ e) + signed s' (m' * 2 ^ e') := by
        rw [Int.cast_add, add_mul, apply_decreaseExponent s m (min_le_left e e'),
          apply_decreaseExponent s' m' (min_le_right e e')]
      rw [value] at rounds
      exact rounds

theorem sub_roundsTo (hf : Packable f) (hg : Packable g) (finite : f.isFinite = true)
    (finite' : g.isFinite = true) :
    RoundsTo (UnpackedFloat.sub .binary64 f g) (exactValue f - exactValue g) := by
  have own := hf.roundsTo finite
  cases hf with
  | notANumber | infinity => cases finite
  | zero s =>
    cases hg with
    | notANumber | infinity => cases finite'
    | zero s' =>
      simp only [UnpackedFloat.sub, exactValue, sub_zero]
      split <;> exact .zero rounded_zero
    | finite canonical' le' =>
      rw [exactValue, zero_sub]
      exact .neg_finite canonical'
  | @finite s m e hm canonical le =>
    cases hg with
    | notANumber | infinity => cases finite'
    | zero s' =>
      rw [exactValue.eq_3, sub_zero]
      exact own
    | @finite s' m' e' hm' canonical' le' =>
      have rounds := normalize_roundsTo (s.apply (decreaseExponent m e (min e e')).1 -
        s'.apply (decreaseExponent m' e' (min e e')).1) (min e e') .positive
      have value : ((s.apply (decreaseExponent m e (min e e')).1 -
          s'.apply (decreaseExponent m' e' (min e e')).1 : ℤ) : ℚ) * 2 ^ min e e' =
            signed s (m * 2 ^ e) - signed s' (m' * 2 ^ e') := by
        rw [Int.cast_sub, sub_mul, apply_decreaseExponent s m (min_le_left e e'),
          apply_decreaseExponent s' m' (min_le_right e e')]
      rw [value] at rounds
      exact rounds

theorem signed_mul (s s' : Sign) (x y : ℚ) :
    signed (s * s') (x * y) = signed s x * signed s' y := by
  cases s <;> cases s'
  · exact (neg_mul_neg x y).symm
  · exact (neg_mul x y).symm
  · exact (mul_neg x y).symm
  · rfl

theorem signed_div (s s' : Sign) (x y : ℚ) :
    signed (s / s') (x / y) = signed s x / signed s' y := by
  cases s <;> cases s'
  · exact (neg_div_neg_eq x y).symm
  · exact (neg_div y x).symm
  · exact (div_neg x).symm
  · rfl

/-- The exponents of a product add up to one that is not too large, for one factor is normal or both
are tiny. -/
theorem Canonical.add_le_placeExponent {m m' : ℕ} {e e' : ℤ} (h : Canonical m e)
    (h' : Canonical m' e') (hm : 0 < m) (hm' : 0 < m') :
    e + e' ≤ placeExponent ((m * m' : ℕ) * 2 ^ (e + e')) := by
  have large (hl : 2 ^ 52 ≤ m * m') : e + e' ≤ placeExponent ((m * m' : ℕ) * 2 ^ (e + e')) := by
    have hp := two_zpow_pos (e + e')
    refine le_placeExponent ?_
    rw [abs_mul, abs_of_pos hp, Nat.abs_cast]
    have : (2 : ℚ) ^ 52 ≤ (m * m' : ℕ) := by exact_mod_cast hl
    gcongr
  rcases h.normal with normal | tiny
  · exact large (normal.trans (Nat.le_mul_of_pos_right m hm'))
  rcases h'.normal with normal | tiny'
  · exact large (normal.trans (Nat.le_mul_of_pos_left m' hm))
  have hge := placeExponent_ge ((m * m' : ℕ) * 2 ^ (e + e'))
  omega

theorem mul_roundsTo (hf : Packable f) (hg : Packable g) (finite : f.isFinite = true)
    (finite' : g.isFinite = true) :
    RoundsTo (UnpackedFloat.mul .binary64 f g) (exactValue f * exactValue g) := by
  cases hf with
  | notANumber | infinity => cases finite
  | zero s =>
    rw [exactValue.eq_3, zero_mul]
    cases hg with
    | notANumber | infinity => cases finite'
    | zero s' => exact .zero rounded_zero
    | finite canonical' le' => exact .zero rounded_zero
  | @finite s m e hm canonical le =>
    cases hg with
    | notANumber | infinity => cases finite'
    | zero s' =>
      rw [exactValue.eq_3, mul_zero]
      exact .zero rounded_zero
    | @finite s' m' e' hm' canonical' le' =>
      have hp : 0 < m * m' := Nat.mul_pos hm hm'
      have hq : (0 : ℚ) < (m * m' : ℕ) := by exact_mod_cast hp
      have rounds := roundWithAccuracy_roundsTo (s := s * s') hq (locates_of_exact (m * m'))
        (targetExponent_eq_placeExponent (e := e + e') hq (Int.floor_natCast _) (.inl hp.ne'))
        (canonical.add_le_placeExponent canonical' hm hm')
      have value : ((m * m' : ℕ) : ℚ) * 2 ^ (e + e') = m * 2 ^ e * (m' * 2 ^ e') := by
        rw [two_zpow_add]
        push_cast
        ring
      rw [value, signed_mul] at rounds
      exact rounds

/-- The leading places of a quotient's two numbers tell how large it is at least. -/
theorem two_zpow_lt_quotient {m m' : ℕ} (e e' : ℤ) (hm : 0 < m) (hm' : 0 < m') :
    (2 : ℚ) ^ (totalExponent m e - totalExponent m' e' - 1) < m * 2 ^ e / (m' * 2 ^ e') := by
  have hpos : (0 : ℚ) < m' * 2 ^ e' := mul_pos (by exact_mod_cast hm') (two_zpow_pos e')
  have he' := two_zpow_pos e'
  have he := two_zpow_pos e
  have lower : (2 : ℚ) ^ m.log2 ≤ m := by exact_mod_cast Nat.log2_self_le hm.ne'
  have upper : (m' : ℚ) < 2 ^ (m'.log2 + 1) := by exact_mod_cast Nat.lt_log2_self
  rw [lt_div_iff₀ hpos]
  have ht := two_zpow_pos (totalExponent m e - totalExponent m' e' - 1)
  calc (2 : ℚ) ^ (totalExponent m e - totalExponent m' e' - 1) * (m' * 2 ^ e')
      < 2 ^ (totalExponent m e - totalExponent m' e' - 1) * (2 ^ (m'.log2 + 1) * 2 ^ e') := by
        gcongr
    _ = 2 ^ m.log2 * 2 ^ e := by
        rw [← zpow_natCast, ← zpow_natCast, ← two_zpow_add, ← two_zpow_add, ← two_zpow_add]
        congr 1
        simp only [totalExponent]
        push_cast
        ring
    _ ≤ m * 2 ^ e := by gcongr

/-- A quotient is computed to so many places that its leading bits fill the significand, and what is
left over tells how to round. -/
theorem div_roundsTo_of_finite {s s' : Sign} {m m' : ℕ} {e e' : ℤ} (hm : 0 < m) (hm' : 0 < m') :
    RoundsTo (UnpackedFloat.div .binary64 (.finite s m e hm) (.finite s' m' e' hm'))
      (signed s (m * 2 ^ e) / signed s' (m' * 2 ^ e')) := by
  have large := two_zpow_lt_quotient e e' hm hm'
  have target : Format.binary64.targetExponent (totalExponent m e - totalExponent m' e') =
      max (totalExponent m e - totalExponent m' e' - 53) (-1074) := rfl
  simp only [UnpackedFloat.div, divCore, target]
  generalize totalExponent m e - totalExponent m' e' = total at large
  generalize ht : min (e - e') (max (total - 53) (-1074)) = t
  generalize hk : (e - e' - t).toNat = k
  have split : e = t + k + e' := by omega
  have value : ((m <<< k : ℕ) : ℚ) / m' * 2 ^ t = m * 2 ^ e / (m' * 2 ^ e') := by
    have ht' := two_zpow_pos t
    have he' := two_zpow_pos e'
    have hq' : (0 : ℚ) < m' := by exact_mod_cast hm'
    rw [Nat.shiftLeft_eq, split, two_zpow_add, two_zpow_add, zpow_natCast]
    push_cast
    field_simp
  have hx : (0 : ℚ) < (m <<< k : ℕ) / m' := by
    have hn : 0 < m <<< k := by
      rw [Nat.shiftLeft_eq]
      positivity
    have hn' : (0 : ℚ) < (m <<< k : ℕ) := by exact_mod_cast hn
    have hq' : (0 : ℚ) < m' := by exact_mod_cast hm'
    positivity
  have place : total - 53 ≤ placeExponent (m * 2 ^ e / (m' * 2 ^ e')) := by
    refine le_placeExponent (le_trans ?_ (large.le.trans (le_abs_self _)))
    rw [← zpow_natCast, ← two_zpow_add]
    exact two_zpow_le (by push_cast; omega)
  have hge := placeExponent_ge (m * 2 ^ e / (m' * 2 ^ e'))
  have enough : (m <<< k) / m' ≠ 0 ∨ t ≤ -1022 := by
    refine or_iff_not_imp_right.mpr fun ht0 hz => ?_
    have below : ((m <<< k : ℕ) : ℚ) / m' < 1 := by
      have floor := floor_quotient (m <<< k) m'
      rw [hz] at floor
      exact (Int.floor_eq_zero_iff.mp floor).2
    have small : (m : ℚ) * 2 ^ e / (m' * 2 ^ e') < 2 ^ t := by
      rw [← value]
      have ht' := two_zpow_pos t
      exact mul_lt_of_lt_one_left ht' below
    have order : (2 : ℚ) ^ t ≤ 2 ^ (total - 1) := two_zpow_le (by omega)
    linarith
  have rounds := roundWithAccuracy_roundsTo (s := s / s') (e := t) hx
    (locates_quotient (m <<< k) hm')
    (targetExponent_eq_placeExponent hx (floor_quotient _ _) enough)
    (by rw [value]; omega)
  rw [value, signed_div] at rounds
  exact rounds

theorem div_roundsTo (hf : Packable f) (hg : Packable g) (finite : f.isFinite = true)
    (finite' : g.isFinite = true) (nonzero : exactValue g ≠ 0) :
    RoundsTo (UnpackedFloat.div .binary64 f g) (exactValue f / exactValue g) := by
  cases hg with
  | notANumber | infinity => cases finite'
  | zero s' => exact (nonzero rfl).elim
  | @finite s' m' e' hm' canonical' le' =>
    cases hf with
    | notANumber | infinity => cases finite
    | zero s =>
      rw [exactValue.eq_3, zero_div]
      exact .zero rounded_zero
    | @finite s m e hm canonical le => exact div_roundsTo_of_finite hm hm'

end Unpacked

section Packed

variable {x y z : Float} {p q : ℚ}

/-- The number that a double is; an infinity is a number beyond all doubles. -/
def valueOf (x : Float) : ℚ :=
  exactValue x.toModel.unpack

/-- A double is finite and is this number. -/
structure Denotes (x : Float) (q : ℚ) : Prop where
  isFinite : x.isFinite = true
  value : valueOf x = q

/-- A double is the rounded value of a rational number, unless that is too large. -/
structure Rounds (z : Float) (q : ℚ) : Prop where
  isFinite_iff : z.isFinite = true ↔ |rounded q| < overflow
  value : z.isFinite = true → valueOf z = rounded q

theorem overflow_pos : 0 < overflow :=
  two_zpow_pos _

theorem Canonical.lt_overflow_iff {m : ℕ} {e : ℤ} (h : Canonical m e) :
    (m : ℚ) * 2 ^ e < overflow ↔ e ≤ 971 := by
  have hp := two_zpow_pos e
  constructor
  · refine fun below => not_lt.mp fun above => below.not_ge ?_
    have normal : (2 : ℚ) ^ 52 ≤ m := by exact_mod_cast h.normal.resolve_right (by omega)
    calc overflow ≤ 2 ^ (52 + e) := two_zpow_le (by omega)
      _ = 2 ^ (52 : ℕ) * 2 ^ e := two_zpow_add 52 e
      _ ≤ m * 2 ^ e := by gcongr
  · intro le
    have hm : (m : ℚ) < 2 ^ 53 := by exact_mod_cast h.significand_lt
    calc (m : ℚ) * 2 ^ e < 2 ^ (53 : ℕ) * 2 ^ e := by gcongr
      _ = 2 ^ (53 + e) := (two_zpow_add 53 e).symm
      _ ≤ overflow := two_zpow_le (by omega)

theorem RoundsTo.rounds {f : UnpackedFloat} (h : RoundsTo f q) : Rounds (.ofModel (.pack f)) q := by
  cases h with
  | @zero s _ zero =>
    have unpacked := unpack_pack (.zero s)
    have finite : (Float.ofModel (.pack (.zero s))).isFinite = true := by
      change (Float.Model.unpack _).isFinite = true
      rw [unpacked]
      rfl
    refine ⟨?_, fun _ => ?_⟩
    · simp [finite, zero, overflow_pos]
    · rw [valueOf, unpacked, zero]
      rfl
  | @finite s m e hm _ canonical value =>
    have size : |rounded q| = m * 2 ^ e := by
      rw [value, abs_signed, abs_of_nonneg (by have := two_zpow_pos e; positivity)]
    by_cases le : e ≤ 971
    · have packable : Packable (.finite s m e hm) := .finite canonical le
      have unpacked := unpack_pack packable
      have finite : (Float.ofModel (.pack (.finite s m e hm))).isFinite = true := by
        change (Float.Model.unpack _).isFinite = true
        rw [unpacked]
        rfl
      refine ⟨?_, fun _ => ?_⟩
      · simp [finite, size, canonical.lt_overflow_iff, le]
      · rw [valueOf, unpacked, value]
        rfl
    · have infinite : (Float.ofModel (.pack (.finite s m e hm))).isFinite = false := by
        change (Float.Model.unpack _).isFinite = false
        rw [unpack_pack_of_lt (not_le.mp le)]
        rfl
      refine ⟨?_, fun finite => ?_⟩
      · rw [infinite, size, canonical.lt_overflow_iff]
        simp [le]
      · rw [infinite] at finite
        cases finite

theorem Denotes.add (hx : Denotes x p) (hy : Denotes y q) : Rounds (x + y) (p + q) := by
  obtain ⟨hx, rfl⟩ := hx
  obtain ⟨hy, rfl⟩ := hy
  exact (add_roundsTo (packable_unpack _) (packable_unpack _) hx hy).rounds

theorem Denotes.sub (hx : Denotes x p) (hy : Denotes y q) : Rounds (x - y) (p - q) := by
  obtain ⟨hx, rfl⟩ := hx
  obtain ⟨hy, rfl⟩ := hy
  exact (sub_roundsTo (packable_unpack _) (packable_unpack _) hx hy).rounds

theorem Denotes.mul (hx : Denotes x p) (hy : Denotes y q) : Rounds (x * y) (p * q) := by
  obtain ⟨hx, rfl⟩ := hx
  obtain ⟨hy, rfl⟩ := hy
  exact (mul_roundsTo (packable_unpack _) (packable_unpack _) hx hy).rounds

theorem Denotes.div (hx : Denotes x p) (hy : Denotes y q) (nonzero : q ≠ 0) :
    Rounds (x / y) (p / q) := by
  obtain ⟨hx, rfl⟩ := hx
  obtain ⟨hy, rfl⟩ := hy
  exact (div_roundsTo (packable_unpack _) (packable_unpack _) hx hy nonzero).rounds

/-- A whole number below 2^53 is the double that it is read as. -/
theorem ofNat_eq_mul {n : ℕ} (h : n < 2 ^ 53) :
    Float.ofNat n = n.toUInt64.toFloat * Float.ofBits 0x3FF0000000000000 := by
  unfold Float.ofNat
  change Float.ofScientific n false 0 = _
  unfold Float.ofScientific
  rw [dif_pos ⟨h, by decide⟩]
  rfl

theorem unpack_one : (Float.ofBits 0x3FF0000000000000).toModel.unpack =
    .finite .positive (2 ^ 52) (-52) (by decide) :=
  rfl

theorem denotes_ofBits_one : Denotes (Float.ofBits 0x3FF0000000000000) 1 := by
  refine ⟨rfl, ?_⟩
  rw [valueOf, unpack_one]
  norm_num [exactValue, signed]

theorem rounds_toFloat (n : UInt64) : Rounds n.toFloat n.toNat := by
  have h := (normalize_roundsTo n.toNat 0 .positive).rounds
  rw [zpow_zero, mul_one, Int.cast_natCast] at h
  exact h

theorem natCast_lt_overflow {n : ℕ} (h : n < 2 ^ 53) : (n : ℚ) < overflow := by
  have hn : (n : ℚ) < 2 ^ (53 : ℕ) := by exact_mod_cast h
  exact hn.trans_le (two_zpow_le (a := 53) (by decide))

theorem representable_natCast {n : ℕ} (h : n < 2 ^ 53) : Representable n :=
  ⟨n, 0, by rw [Nat.abs_cast]; exact_mod_cast h.le, by decide, by simp⟩

theorem Rounds.denotes (hz : Rounds z q) (finite : z.isFinite = true) : Denotes z (rounded q) :=
  ⟨finite, hz.value finite⟩

theorem Rounds.of_natCast {n : ℕ} (h : n < 2 ^ 53) (hz : Rounds z n) : Denotes z n := by
  have exact := rounded_of_representable (representable_natCast h)
  have finite : z.isFinite = true := by
    rw [hz.isFinite_iff, exact, Nat.abs_cast]
    exact natCast_lt_overflow h
  exact ⟨finite, (hz.value finite).trans exact⟩

theorem denotes_ofNat {n : ℕ} (h : n < 2 ^ 53) : Denotes (Float.ofNat n) n := by
  have fits : n.toUInt64.toNat = n := by
    rw [Nat.toUInt64, UInt64.toNat_ofNat', Nat.mod_eq_of_lt (by omega)]
  have whole := rounds_toFloat n.toUInt64
  rw [fits] at whole
  have product := (whole.of_natCast h).mul denotes_ofBits_one
  rw [mul_one, ← ofNat_eq_mul h] at product
  exact product.of_natCast h

end Packed

/-- The unpacked floats that are no numbers. -/
inductive Special : UnpackedFloat → Prop where
  | notANumber : Special .notANumber
  | infinity (s : Sign) : Special (.infinity s)

section Special

variable {f g : UnpackedFloat} {x y : Float}

theorem special_of_not_isFinite (h : f.isFinite = false) : Special f := by
  cases f with
  | notANumber => exact .notANumber
  | infinity s => exact .infinity s
  | zero | finite => cases h

theorem Special.isFinite_pack (h : Special f) : (Float.ofModel (.pack f)).isFinite = false := by
  change (Float.Model.unpack _).isFinite = false
  cases h with
  | notANumber =>
    rw [unpack_pack .notANumber]
    rfl
  | infinity s =>
    rw [unpack_pack (.infinity s)]
    rfl

theorem Special.add (h : Special g) : Special (UnpackedFloat.add .binary64 f g) := by
  cases h with
  | notANumber => cases f <;> exact .notANumber
  | infinity s =>
    cases f with
    | notANumber => exact .notANumber
    | infinity s' =>
      simp only [UnpackedFloat.add]
      split
      · exact .infinity s'
      · exact .notANumber
    | zero | finite => exact .infinity s

theorem Special.add_left (h : Special f) :
    Special (UnpackedFloat.add .binary64 f g) := by
  cases h with
  | notANumber => cases g <;> exact .notANumber
  | infinity s =>
    cases g with
    | notANumber => exact .notANumber
    | infinity s' =>
      simp only [UnpackedFloat.add]
      split
      · exact .infinity s
      · exact .notANumber
    | zero | finite => exact .infinity s

theorem Special.mul (h : Special g) : Special (UnpackedFloat.mul .binary64 f g) := by
  cases h with
  | notANumber => cases f <;> exact .notANumber
  | infinity s =>
    cases f with
    | notANumber | zero => exact .notANumber
    | infinity | finite => exact .infinity _

theorem Special.div (h : Special f) : Special (UnpackedFloat.div .binary64 f g) := by
  cases h with
  | notANumber => exact .notANumber
  | infinity s =>
    cases g with
    | notANumber | infinity => exact .notANumber
    | zero | finite => exact .infinity _

/-- Adding what is no number gives none. -/
theorem isFinite_add_of_right (h : y.isFinite = false) : (x + y).isFinite = false :=
  (special_of_not_isFinite h).add.isFinite_pack

theorem isFinite_add_of_left (h : x.isFinite = false) : (x + y).isFinite = false :=
  (special_of_not_isFinite h).add_left.isFinite_pack

theorem isFinite_mul_of_right (h : y.isFinite = false) : (x * y).isFinite = false :=
  (special_of_not_isFinite h).mul.isFinite_pack

theorem isFinite_div_of_left (h : x.isFinite = false) : (x / y).isFinite = false :=
  (special_of_not_isFinite h).div.isFinite_pack

end Special

end LessonPlot
