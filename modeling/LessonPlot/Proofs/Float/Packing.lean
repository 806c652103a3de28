import LessonPlot.Proofs.Float.Rounding

open Float.Model Float.Model.UnpackedFloat

namespace LessonPlot

/-- The unpacked floats that a bit pattern can hold. -/
inductive Packable : UnpackedFloat → Prop where
  | notANumber : Packable .notANumber
  | infinity (s : Sign) : Packable (.infinity s)
  | zero (s : Sign) : Packable (.zero s)
  | finite {s : Sign} {m : ℕ} {e : ℤ} {hm : 0 < m} (canonical : Canonical m e) (le : e ≤ 971) :
      Packable (.finite s m e hm)

theorem toNat_one_append (m : BitVec 52) : (1#1 ++ m).toNat = 2 ^ 52 + m.toNat := by
  have hm := m.isLt
  rw [BitVec.toNat_append, ← Nat.shiftLeft_add_eq_or_of_lt hm, Nat.shiftLeft_eq]
  simp

/-- What a sign, a biased exponent and a fraction stand for. -/
def ofParts (s : Sign) (e : BitVec 11) (m : BitVec 52) : UnpackedFloat :=
  if e = -1#11 then if m = 0#52 then .infinity s else .notANumber
  else if e = 0#11 then
    if h : m = 0#52 then .zero s
    else .finite s m.toNat (-1074) (by simpa [BitVec.toNat_pos, BitVec.pos_iff_ne_zero] using h)
  else .finite s (2 ^ 52 + m.toNat) (e.toNat - 1075) (by omega)

theorem unpack_eq_ofParts (b : BitVec (Format.numBits .binary64)) :
    UnpackedFloat.unpack .binary64 b =
      ofParts (Sign.ofBitVec (unpackSign b)) (unpackExponent b) (unpackMantissa b) := by
  have bias : (Format.exponentBias .binary64 : ℤ) + (52 : ℕ) = 1075 := by decide
  unfold UnpackedFloat.unpack ofParts
  simp only [toNat_one_append, bias]
  by_cases he : unpackExponent b = 0#11
  · simp only [he]
    rfl
  · simp only [he, if_false]

theorem unpack_packComponents {s : Sign} {e : BitVec 11} {m : BitVec 52} :
    UnpackedFloat.unpack .binary64 (packComponents .binary64 s e m) = ofParts s e m := by
  rw [unpack_eq_ofParts, unpackExponent_packComponents, unpackMantissa_packComponents,
    unpackSign_packComponents, Sign.ofBitVec_toBitVec]

theorem packable_ofParts (s : Sign) (e : BitVec 11) (m : BitVec 52) : Packable (ofParts s e m) := by
  have hm := m.isLt
  have he := e.isLt
  unfold ofParts
  split_ifs with all _ zero
  · exact .infinity s
  · exact .notANumber
  · exact .zero s
  · exact .finite ⟨by omega, by decide, .inr rfl⟩ (by decide)
  · have above : e.toNat ≠ 0 := fun h => zero (BitVec.eq_of_toNat_eq h)
    have below : e.toNat ≠ 2047 := fun h => all (BitVec.eq_of_toNat_eq h)
    exact .finite ⟨by omega, by omega, .inl (by omega)⟩ (by omega)

theorem packable_unpack (x : Float.Model) : Packable x.unpack := by
  rw [Float.Model.unpack, unpack_eq_ofParts]
  exact packable_ofParts _ _ _

theorem unpack_pack_eq (f : UnpackedFloat) :
    (Float.Model.pack f).unpack = UnpackedFloat.unpack .binary64 (UnpackedFloat.pack .binary64 f) :=
  rfl

theorem biasedExponent_eq (e : ℤ) :
    e + (Format.exponentBias .binary64 : ℕ) + (52 : ℕ) = e + 1075 := by
  have bias : (Format.exponentBias .binary64 : ℤ) + (52 : ℕ) = 1075 := by decide
  omega

/-- What a bit pattern can hold it gives back. -/
theorem unpack_pack {f : UnpackedFloat} (h : Packable f) : (Float.Model.pack f).unpack = f := by
  rw [unpack_pack_eq]
  cases h with
  | notANumber => exact unpack_packComponents
  | infinity s => exact unpack_packComponents
  | zero s => exact unpack_packComponents
  | @finite s m e hm canonical le =>
    obtain ⟨hlt, hge, normal⟩ := canonical
    simp only [UnpackedFloat.pack, biasedExponent_eq]
    rw [if_neg (by omega)]
    by_cases large : 2 ^ 52 ≤ m
    · have places : m.log2 + 1 = Format.mantissaBits .binary64 := by
        rw [(Nat.log2_eq_iff hm.ne').mpr ⟨large, hlt⟩]
        rfl
      have exponent : (BitVec.ofNat 11 (e + 1075).toNat).toNat = (e + 1075).toNat := by
        rw [BitVec.toNat_ofNat, Nat.mod_eq_of_lt (by omega)]
      have fraction : 2 ^ 52 + (BitVec.ofNat 52 m).toNat = m := by
        rw [BitVec.toNat_ofNat]
        omega
      have all : BitVec.ofNat 11 (e + 1075).toNat ≠ -1#11 := by
        intro h
        rw [h] at exponent
        change 2047 = _ at exponent
        omega
      have zero : BitVec.ofNat 11 (e + 1075).toNat ≠ 0#11 := by
        intro h
        rw [h] at exponent
        change 0 = _ at exponent
        omega
      rw [if_pos places, unpack_packComponents, ofParts, if_neg all, if_neg zero,
        UnpackedFloat.finite.injEq]
      exact ⟨rfl, fraction, by omega⟩
    · have places : m.log2 + 1 ≠ Format.mantissaBits .binary64 := by
        have hlog : m.log2 < 52 := (Nat.log2_lt hm.ne').mpr (by omega)
        change m.log2 + 1 ≠ 53
        omega
      have fraction : (BitVec.ofNat 52 m).toNat = m := by
        rw [BitVec.toNat_ofNat, Nat.mod_eq_of_lt (by omega)]
      have nonzero : BitVec.ofNat 52 m ≠ 0#52 := by
        intro h
        rw [h] at fraction
        change 0 = m at fraction
        omega
      rw [if_neg places, unpack_packComponents, ofParts, if_neg (by decide), if_pos rfl,
        dif_neg nonzero, UnpackedFloat.finite.injEq]
      exact ⟨rfl, fraction, by omega⟩

/-- An exponent beyond that of the largest double gives infinity. -/
theorem unpack_pack_of_lt {s : Sign} {m : ℕ} {e : ℤ} {hm : 0 < m} (h : 971 < e) :
    (Float.Model.pack (.finite s m e hm)).unpack = .infinity s := by
  rw [unpack_pack_eq]
  simp only [UnpackedFloat.pack, biasedExponent_eq]
  rw [if_pos (by omega)]
  exact unpack_packComponents

end LessonPlot
