import PlanarDynamics.Proofs.Binary32.Arithmetic

/-!
# Quotients

The quotient of two finite machine numbers is the exact one, rounded: the division keeps as many
bits as the format has, and what its remainder says of the rest. Dividing by one rounds nothing:
each number, also an infinity or a zero of either sign, and the value that is no number come back as
they were, for a machine number is determined by its datum.
-/

namespace PlanarDynamics.Binary32

open Float.Model (Format UnpackedFloat totalExponent)
open Float.Model.UnpackedFloat

variable {x y : Float32}

theorem eq_of_toBits_eq (h : x.toBits = y.toBits) : x = y := by
  obtain ⟨⟨b, hb⟩⟩ := x
  obtain ⟨⟨c, hc⟩⟩ := y
  obtain rfl : b = c := h
  rfl

/-- There is one bit pattern for the value that is no number. -/
theorem toBits_of_isNaN (hx : x.isNaN = true) :
    x.toBits.toBitVec = packedNaN Format.binary32 := by
  have hnan : (unpack Format.binary32 x.toBits.toBitVec).isNaN = true := hx
  have hbits : biased x.toBits.toBitVec = 255 ∧ fraction x.toBits.toBitVec ≠ 0 := by
    rw [unpack_eq] at hnan
    split_ifs at hnan with hall hzero
    · exact absurd hnan Bool.false_ne_true
    · exact ⟨hall, hzero⟩
    · exact absurd hnan Bool.false_ne_true
    · exact absurd hnan Bool.false_ne_true
    · exact absurd hnan Bool.false_ne_true
  apply x.toModel.valid.eq_packedNaN
  · rw [← BitVec.toNat_inj, toNat_unpackExponent]
    exact hbits.1
  · rw [Ne, ← BitVec.toNat_inj, toNat_unpackMantissa]
    exact hbits.2

theorem eq_of_rank_eq (h : rank x = rank y) : x = y := by
  apply eq_of_toBits_eq
  have hx := x.toBits.toNat_lt
  have hy := y.toBits.toNat_lt
  rw [← UInt32.toNat_inj]
  unfold rank at h
  have hmiddle (b : UInt32) : b < 0x80000000 ↔ b.toNat < 2 ^ 31 := UInt32.lt_iff_toNat_lt
  simp only [hmiddle] at h
  split at h <;> split at h <;> omega

theorem eq_of_unpack_eq (h : x.toModel.unpack = y.toModel.unpack) : x = y := by
  have hnan : x.isNaN = y.isNaN := congrArg UnpackedFloat.isNaN h
  cases hx : x.isNaN with
  | true =>
    apply eq_of_toBits_eq
    rw [← UInt32.toBitVec_inj, toBits_of_isNaN hx, toBits_of_isNaN (hnan ▸ hx)]
  | false =>
    apply eq_of_rank_eq
    rw [rank_eq hx, rank_eq (hnan ▸ hx), h]

/-- Numbers of one value are the same, but for the zeros. -/
theorem eq_of_value_eq (hx : x.isNaN = false) (hy : y.isNaN = false) (hzero : value y ≠ 0)
    (h : value x = value y) : x = y := by
  rcases eq_of_position_eq (canonical_toModel x) (fits_toModel x) (canonical_toModel y)
    (fits_toModel y) hx hy (position_eq_of_value_eq hx hy h) with hunpack | ⟨s, t, -, hunpack⟩
  · exact eq_of_unpack_eq hunpack
  · rw [value, hunpack] at hzero
    exact absurd rfl hzero

/-! ## Division -/

section Division

variable {m n : ℕ} {e f : ℤ}

theorem div_lt_of_log2 (hm : 0 < m) (hn : 0 < n) :
    (2 : ℝ) ^ (totalExponent m e - totalExponent n f - 1) < m * 2 ^ e / (n * 2 ^ f) := by
  have hm' : (2 : ℝ) ^ m.log2 ≤ m := by exact_mod_cast Nat.log2_self_le hm.ne'
  have hn' : (n : ℝ) < 2 ^ (n.log2 + 1) := by exact_mod_cast Nat.lt_log2_self
  have hscale : (0 : ℝ) < n * 2 ^ f := mul_pos (by exact_mod_cast hn) (zpow_pos two_pos f)
  have hexp : (totalExponent m e - totalExponent n f - 1) + (n.log2 + 1 + f) = m.log2 + e := by
    unfold totalExponent
    ring
  rw [lt_div_iff₀ hscale]
  calc (2 : ℝ) ^ (totalExponent m e - totalExponent n f - 1) * (n * 2 ^ f)
      < 2 ^ (totalExponent m e - totalExponent n f - 1) * (2 ^ (n.log2 + 1) * 2 ^ f) := by gcongr
    _ = 2 ^ ((totalExponent m e - totalExponent n f - 1) + (n.log2 + 1 + f)) := by
        rw [zpow_add₀ two_ne_zero _ (_ + f), zpow_add₀ two_ne_zero _ f]
        norm_cast
    _ = 2 ^ m.log2 * 2 ^ e := by rw [hexp, zpow_add₀ two_ne_zero, zpow_natCast]
    _ ≤ m * 2 ^ e := by gcongr

/-- The quotient of the significands has all its bits at or above the target of the division. -/
theorem target_le_ulpExponent (hm : 0 < m) (hn : 0 < n) :
    Format.binary32.targetExponent (totalExponent m e - totalExponent n f) ≤
      ulpExponent (m * 2 ^ e / (n * 2 ^ f)) := by
  have hlt := div_lt_of_log2 (e := e) (f := f) hm hn
  have hpos := (zpow_pos two_pos _).trans hlt
  have hlog : totalExponent m e - totalExponent n f - 1 ≤ Int.log 2 (m * 2 ^ e / (n * 2 ^ f) : ℝ) :=
    (Int.zpow_le_iff_le_log Nat.one_lt_two hpos).mp (by exact_mod_cast hlt.le)
  have htarget : Format.binary32.targetExponent (totalExponent m e - totalExponent n f) =
      max (totalExponent m e - totalExponent n f - 24) (-149) := rfl
  rw [htarget, ulpExponent]
  omega

theorem apply_div (s t : Sign) (m n : ℕ) (e f : ℤ) :
    (((s / t).apply 1 : ℤ) : ℝ) * (m * 2 ^ e / (n * 2 ^ f)) =
      (s.apply m : ℤ) * 2 ^ e / ((t.apply n : ℤ) * 2 ^ f) := by
  have hsign : (s / t).apply 1 = s.apply 1 * t.apply 1 := by cases s <;> cases t <;> rfl
  have hone (s : Sign) (k : ℕ) : ((s.apply k : ℤ) : ℝ) = (s.apply 1 : ℤ) * k := by
    cases s <;> simp [Sign.apply]
  have hinv : ((t.apply 1 : ℤ) : ℝ)⁻¹ = (t.apply 1 : ℤ) := by
    cases t <;> norm_num [Sign.apply]
  rw [hsign, hone s m, hone t n, Int.cast_mul, mul_assoc _ (m : ℝ), mul_assoc _ (n : ℝ),
    mul_div_mul_comm ((s.apply 1 : ℤ) : ℝ), div_eq_mul_inv ((s.apply 1 : ℤ) : ℝ), hinv]

theorem isRounding_div_finite (s t : Sign) (hm : 0 < m) (hn : 0 < n) :
    IsRounding (UnpackedFloat.div Format.binary32 (.finite s m e hm) (.finite t n f hn))
      (realOf (.finite s m e hm) / realOf (.finite t n f hn)) := by
  let target := min (e - f)
    (Format.binary32.targetExponent (totalExponent m e - totalExponent n f))
  let shifted := m <<< (e - f - target).toNat
  have hdiv : UnpackedFloat.div Format.binary32 (.finite s m e hm) (.finite t n f hn) =
      roundWithAccuracy Format.binary32 (s / t) (shifted / n) target
        (accuracyOfFraction (shifted % n) n) := rfl
  have hr : (0 : ℝ) < m * 2 ^ e / (n * 2 ^ f) := by positivity
  have hshift : ((e - f - target).toNat : ℤ) = e - f - target :=
    Int.toNat_of_nonneg (sub_nonneg.mpr (min_le_left _ _))
  have hquotient : (shifted : ℝ) / n = m * 2 ^ e / (n * 2 ^ f) / 2 ^ target := by
    have hpow : (2 : ℝ) ^ (e - f - target).toNat = 2 ^ e / 2 ^ f / 2 ^ target := by
      rw [← zpow_natCast, hshift, zpow_sub₀ two_ne_zero, zpow_sub₀ two_ne_zero]
    rw [show shifted = m * 2 ^ (e - f - target).toNat from Nat.shiftLeft_eq .., Nat.cast_mul,
      Nat.cast_pow, Nat.cast_ofNat, hpow]
    field_simp
  rw [hdiv, realOf, realOf, ← apply_div]
  apply isRounding_of_reads _ hr
  · rw [← hquotient]
    exact .ofFraction shifted hn
  · exact (min_le_right _ _).trans (target_le_ulpExponent hm hn)

end Division

/-- The quotient of two finite numbers is their exact quotient, rounded. -/
theorem value_div (hx : x.isFinite = true) (hy : y.isFinite = true) (hy0 : toReal y ≠ 0) :
    (x / y).isNaN = false ∧ value (x / y) = nearest (toReal x / toReal y) := by
  have hdiv : x / y = Float32.ofModel (.pack
    (UnpackedFloat.div Format.binary32 x.toModel.unpack y.toModel.unpack)) := rfl
  rw [hdiv]
  apply value_ofModel_pack
  unfold toReal at hy0 ⊢
  rcases zero_or_finite hy with ⟨t, hu⟩ | ⟨t, n, f, hn, hu⟩
  · rw [hu] at hy0
    exact absurd rfl hy0
  rcases zero_or_finite hx with ⟨s, hv⟩ | ⟨s, m, e, hm, hv⟩
  · rw [hu, hv]
    exact ⟨trivial, rfl, by simp [UnpackedFloat.div, realOf]⟩
  · rw [hu, hv]
    exact isRounding_div_finite ..

/-- Dividing by one rounds nothing. -/
theorem div_one (x : Float32) : x / ((1 : ℕ) : Float32) = x := by
  have hquotient : x / ((1 : ℕ) : Float32) = Float32.ofModel (.pack (UnpackedFloat.div
      Format.binary32 x.toModel.unpack (.finite .positive (2 ^ 23) (-23) (by decide)))) := rfl
  have hone : toReal ((1 : ℕ) : Float32) = 1 := by
    have hunpack : ((1 : ℕ) : Float32).toModel.unpack =
        .finite .positive (2 ^ 23) (-23) (by decide) := rfl
    rw [toReal, hunpack, realOf]
    norm_num [Sign.apply]
  cases hx : x.toModel.unpack with
  | finite s m e hm =>
    have hnan : x.isNaN = false := congrArg UnpackedFloat.isNaN hx
    have hfinite : x.isFinite = true := congrArg UnpackedFloat.isFinite hx
    have hzero : value x ≠ 0 := by
      rw [value_eq_toReal hfinite, toReal, hx, realOf, Ne, EReal.coe_eq_zero]
      have hm' : (m : ℝ) ≠ 0 := by exact_mod_cast hm.ne'
      have hpow : (2 : ℝ) ^ e ≠ 0 := zpow_ne_zero e two_ne_zero
      cases s <;> simp [Sign.apply, hm', hpow]
    obtain ⟨hnan', hvalue⟩ := value_div (y := ((1 : ℕ) : Float32)) hfinite rfl
      (hone.trans_ne one_ne_zero)
    apply eq_of_value_eq hnan' hnan hzero
    rw [hvalue, hone, div_eq_mul_inv, inv_one, mul_one, nearest_toReal, value_eq_toReal hfinite]
  | infinity s =>
    apply eq_of_unpack_eq
    rw [hquotient, hx]
    cases s <;> exact unpack_ofModel_pack (u := .infinity _) trivial
  | zero s =>
    apply eq_of_unpack_eq
    rw [hquotient, hx]
    cases s <;> exact unpack_ofModel_pack (u := .zero _) trivial
  | notANumber =>
    apply eq_of_unpack_eq
    rw [hquotient, hx]
    exact unpack_ofModel_pack (u := .notANumber) trivial

end PlanarDynamics.Binary32
