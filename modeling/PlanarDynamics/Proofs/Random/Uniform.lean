import PlanarDynamics.Proofs.Binary32.Positive
import PlanarDynamics.Random.Uniform

/-!
# Samples stay in their range

A sample is a fraction of the scale, added to the lower end. The scale is chosen such that the
largest fraction does not lead beyond the upper end, and rounding is monotone, so no smaller one
does, and none leads below the lower end.
-/

namespace PlanarDynamics.Uniform

open Binary32
open Float.Model (Format UnpackedFloat)
open Float.Model.UnpackedFloat

variable {lo hi scale : Float32}

/-! ## Fractions -/

theorem largest_spec :
    largest.isFinite = true ∧ toReal largest = (2 ^ 23 - 1 : ℕ) * 2 ^ (-23 : ℤ) := by
  have hunpack : largest.toModel.unpack = .finite .positive (2 ^ 24 - 2) (-24) (by decide) := rfl
  refine ⟨rfl, ?_⟩
  rw [toReal, hunpack, realOf]
  norm_num [Sign.apply]

/-- The upper 23 bits of a word as the fraction bits of a number from one up to two. -/
theorem pattern_spec (word : UInt32) :
    (Float32.ofBits ((word >>> 9) ||| 0x3f800000)).isFinite = true ∧
      toReal (Float32.ofBits ((word >>> 9) ||| 0x3f800000)) =
        (2 ^ 23 + word.toNat / 2 ^ 9 : ℕ) * 2 ^ (-23 : ℤ) := by
  generalize hk : word.toNat / 2 ^ 9 = k
  have hlt : k < 2 ^ 23 := by
    have := word.toNat_lt
    omega
  let bits : UInt32 := (word >>> 9) ||| 0x3f800000
  have hbits : bits.toBitVec.toNat = 127 * 2 ^ 23 + k := by
    have hshift : (word >>> 9).toNat = k := by
      rw [UInt32.toNat_shiftRight, ← hk]
      exact Nat.shiftRight_eq_div_pow ..
    calc bits.toNat = k ||| 127 <<< 23 := by
          rw [UInt32.toNat_or, hshift]
          rfl
      _ = 127 <<< 23 + k := by rw [Nat.lor_comm, Nat.shiftLeft_add_eq_or_of_lt hlt]
      _ = 127 * 2 ^ 23 + k := by rw [Nat.shiftLeft_eq]
  have hbiased : biased bits.toBitVec = 127 := by
    rw [biased, hbits]
    omega
  have hfraction : Binary32.fraction bits.toBitVec = k := by
    rw [Binary32.fraction, hbits]
    omega
  have hsign : signOf bits.toBitVec = .positive := by
    rw [signOf, hbits]
    exact if_pos (by omega)
  have hunpack : (Float32.ofBits bits).toModel.unpack =
      .finite .positive (2 ^ 23 + k) (-23) (Nat.add_pos_left (by decide) _) := by
    rw [unpack_ofBits, unpack_eq, hbiased, hfraction, hsign]
    rfl
  have hfinite : (Float32.ofBits bits).isFinite = (Float32.ofBits bits).toModel.unpack.isFinite :=
    rfl
  rw [hfinite, toReal, hunpack]
  exact ⟨rfl, rfl⟩

/-- A word gives the number of its upper 23 bits over `2 ^ 23`, without rounding. -/
theorem fraction_spec (word : UInt32) : (fraction word).isFinite = true ∧
    toReal (fraction word) = (word.toNat / 2 ^ 9 : ℕ) * 2 ^ (-23 : ℤ) := by
  obtain ⟨hfinite, hreal⟩ := pattern_spec word
  have hone : toReal (Float32.ofBits 0x3f800000) = (2 ^ 23 : ℕ) * 2 ^ (-23 : ℤ) := rfl
  have hk : word.toNat / 2 ^ 9 < 2 ^ 23 := by
    have := word.toNat_lt
    omega
  apply toReal_sub hfinite rfl
  · rw [hreal, hone]
    push_cast
    ring
  · refine ⟨(word.toNat / 2 ^ 9 : ℕ), -23, ?_, by norm_num, by norm_cast⟩
    rw [Nat.abs_cast]
    omega
  · have hlt : ((word.toNat / 2 ^ 9 : ℕ) : ℝ) < 2 ^ 23 := by exact_mod_cast hk
    rw [abs_of_nonneg (by positivity)]
    calc ((word.toNat / 2 ^ 9 : ℕ) : ℝ) * 2 ^ (-23 : ℤ) < 2 ^ 23 * 2 ^ (-23 : ℤ) := by gcongr
      _ < 2 ^ 128 := by norm_num

theorem fraction_bounds (word : UInt32) : (fraction word).isFinite = true ∧
    0 ≤ toReal (fraction word) ∧ toReal (fraction word) ≤ toReal largest := by
  obtain ⟨hfinite, hreal⟩ := fraction_spec word
  have hbits : word.toNat / 2 ^ 9 ≤ 2 ^ 23 - 1 := by
    have := word.toNat_lt
    omega
  rw [hreal, largest_spec.2]
  refine ⟨hfinite, by positivity, ?_⟩
  gcongr

/-! ## Scales -/

/-- A scale that leads no fraction beyond `hi`. -/
structure IsScale (lo hi scale : Float32) : Prop where
  finite : scale.isFinite = true
  nonneg : 0 ≤ toReal scale
  le : scale * largest + lo ≤ hi

theorem toReal_mul_largest (h : scale.isFinite = true) (h0 : 0 ≤ toReal scale) :
    (scale * largest).isFinite = true ∧
      toReal (scale * largest) = rounded (toReal scale * toReal largest) := by
  obtain ⟨hlargest, hreal⟩ := largest_spec
  have hpos : 0 ≤ toReal largest := by
    rw [hreal]
    positivity
  have hone : toReal largest ≤ 1 := by
    rw [hreal]
    norm_num
  exact toReal_mul h hlargest h (mul_nonneg h0 hpos) (mul_le_of_le_one_right h0 hone)

/-- Lowering a scale ends at zero, which leads to `lo` itself. -/
theorem isScale_fitScale (hlo : lo.isFinite = true) (h : lo ≤ hi) {n : ℕ} (hn : n < 255 * 2 ^ 23) :
    IsScale lo hi (fitScale lo hi n) := by
  obtain ⟨hnan, hhi⟩ := isNaN_eq_false_of_le h
  induction n with
  | zero =>
    obtain ⟨hfinite, hnonneg⟩ := isFinite_ofBits (n := 0) (by decide)
    obtain ⟨hproduct, hreal⟩ := toReal_mul_largest hfinite hnonneg
    obtain ⟨hsum, hvalue⟩ := value_add hproduct hlo
    have hzero : toReal (Float32.ofBits (UInt32.ofNat 0)) = 0 := rfl
    refine ⟨hfinite, hnonneg, (le_iff_value_le hsum hhi).mpr ?_⟩
    rw [hvalue, hreal, hzero, zero_mul, rounded_zero, zero_add, nearest_toReal,
      ← value_eq_toReal hlo]
    exact (le_iff_value_le hnan hhi).mp h
  | succ n ih =>
    obtain ⟨hfinite, hnonneg⟩ := isFinite_ofBits hn
    have hsum := (value_add (toReal_mul_largest hfinite hnonneg).1 hlo).1
    rw [fitScale]
    split
    case isTrue => exact ih (Nat.lt_of_succ_lt hn)
    case isFalse hle =>
      refine ⟨hfinite, hnonneg, ?_⟩
      rw [lt_iff_value_lt hhi hsum, not_lt] at hle
      exact (le_iff_value_le hsum hhi).mpr hle

theorem isScale_of_scale? (hlo : lo.isFinite = true) (hhi : hi.isFinite = true) (h : lo < hi)
    (hscale : scale? lo hi = some scale) : IsScale lo hi scale := by
  unfold scale? at hscale
  dsimp only at hscale
  split at hscale
  case isTrue hfinite =>
    obtain ⟨hnan, hpos⟩ := value_sub_pos hhi hlo h
    have hlargest : 0 < toReal largest := by
      rw [largest_spec.2]
      norm_num
    obtain rfl := Option.some.inj hscale
    refine isScale_fitScale hlo ?_ (toBits_div_lt hnan hpos hlargest hfinite)
    exact OrderedKeys.le_of_lt h
  case isFalse => cases hscale

/-! ## Samples -/

/-- Rounding keeps the order of `0`, the fraction and the largest one. -/
theorem IsScale.sample_bounds (h : IsScale lo hi scale) (hlo : lo.isFinite = true)
    (word : UInt32) : lo ≤ fraction word * scale + lo ∧ fraction word * scale + lo ≤ hi := by
  obtain ⟨hfraction, hnonneg, hle⟩ := fraction_bounds word
  obtain ⟨hlargest, hreal⟩ := toReal_mul_largest h.finite h.nonneg
  have hproduct : toReal (fraction word) * toReal scale ≤ toReal scale * toReal largest := by
    rw [mul_comm]
    exact mul_le_mul_of_nonneg_left hle h.nonneg
  have hone : toReal scale * toReal largest ≤ toReal scale := by
    apply mul_le_of_le_one_right h.nonneg
    rw [largest_spec.2]
    norm_num
  obtain ⟨hfinite, hrounded⟩ := toReal_mul hfraction h.finite h.finite
    (mul_nonneg hnonneg h.nonneg) (hproduct.trans hone)
  obtain ⟨hsum, hvalue⟩ := value_add hfinite hlo
  obtain ⟨hend, hend_value⟩ := value_add hlargest hlo
  have hhi := (isNaN_eq_false_of_le h.le).2
  have hupper := (le_iff_value_le hend hhi).mp h.le
  rw [le_iff_value_le (isNaN_of_isFinite hlo) hsum, le_iff_value_le hsum hhi, hvalue, hrounded]
  constructor
  · apply value_le_nearest (isNaN_of_isFinite hlo)
    rw [value_eq_toReal hlo, EReal.coe_le_coe_iff]
    exact le_add_of_nonneg_left (rounded_nonneg (mul_nonneg hnonneg h.nonneg))
  · rw [hend_value, hreal] at hupper
    refine le_trans (nearest_mono ?_) hupper
    have := rounded_mono hproduct
    linarith

/-- A sample lies between the ends of its range, and takes one word. -/
theorem sample?_bounds {γ : Type} [WordSource γ] {source rest : γ} {x : Float32}
    (hlo : lo.isFinite = true) (hhi : hi.isFinite = true) (h : lo < hi)
    (hsample : sample? lo hi source = some (x, rest)) :
    lo ≤ x ∧ x ≤ hi ∧ rest = (WordSource.next source).2 := by
  obtain ⟨scale, hscale, hx⟩ := Option.map_eq_some_iff.mp hsample
  obtain ⟨rfl, rfl⟩ := Prod.mk.inj hx
  obtain ⟨hlow, hhigh⟩ := (isScale_of_scale? hlo hhi h hscale).sample_bounds hlo
    (WordSource.next source).1
  exact ⟨hlow, hhigh, rfl⟩

end PlanarDynamics.Uniform
