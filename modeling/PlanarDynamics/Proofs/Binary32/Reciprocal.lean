import PlanarDynamics.Proofs.Binary32.Opposite

/-!
# Reciprocals and zeros

The reciprocal of a positive number is finite unless the number is at most `2 ^ (-128)`, which only
numbers below full precision are. A zero times a finite number is a zero, and times an infinite one
no number.
-/

namespace PlanarDynamics.Binary32

open Float.Model (Format UnpackedFloat)
open Float.Model.UnpackedFloat

variable {x y : Float32}

/-! ## Reciprocals -/

/-- The greatest number whose reciprocal is too large for the format. -/
def reciprocalLimit : Float32 := Float32.ofBits 0x00200000

theorem isFinite_reciprocalLimit : reciprocalLimit.isFinite = true := by decide +kernel

theorem toReal_reciprocalLimit : toReal reciprocalLimit = 2 ^ (-128 : ℤ) := by
  have hunpack : reciprocalLimit.toModel.unpack =
      .finite .positive (2 ^ 21) (-149) (by decide) := rfl
  rw [toReal, hunpack, realOf]
  norm_num [Sign.apply]

/-- The next number of the format above the limit is above it by `2 ^ (-149)`, which takes the
reciprocal below the greatest number of the format. -/
theorem nearest_inv_lt_top {r : ℝ} (hgrid : OnGrid r) (h : 2 ^ (-128 : ℤ) < r) :
    nearest (1 / r) < ⊤ := by
  have hgreatest : OnGrid (((2 ^ 24 - 1 : ℤ) : ℝ) * 2 ^ (104 : ℤ)) :=
    ⟨2 ^ 24 - 1, 104, by norm_num, by norm_num, rfl⟩
  have hstep : 2 ^ (-128 : ℤ) + 2 ^ (-149 : ℤ) ≤ r := by
    obtain ⟨k, rfl⟩ := hgrid.exists_multiple
    have hsplit : (2 : ℝ) ^ (-128 : ℤ) = ((2 ^ 21 : ℤ) : ℝ) * 2 ^ (-149 : ℤ) := by norm_num
    rw [hsplit] at h ⊢
    have hk : 2 ^ 21 + 1 ≤ k := by
      have := lt_of_mul_lt_mul_right h (zpow_nonneg zero_le_two _)
      exact Int.add_one_le_iff.mpr (by exact_mod_cast this)
    have hk' : (((2 ^ 21 + 1 : ℤ) : ℝ)) ≤ k := by exact_mod_cast hk
    calc ((2 ^ 21 : ℤ) : ℝ) * 2 ^ (-149 : ℤ) + 2 ^ (-149 : ℤ)
        = ((2 ^ 21 + 1 : ℤ) : ℝ) * 2 ^ (-149 : ℤ) := by push_cast; ring
      _ ≤ k * 2 ^ (-149 : ℤ) := mul_le_mul_of_nonneg_right hk' (zpow_nonneg zero_le_two _)
  have hpos : (0 : ℝ) < r := (zpow_pos two_pos _).trans h
  have hle : 1 / r ≤ ((2 ^ 24 - 1 : ℤ) : ℝ) * 2 ^ (104 : ℤ) := by
    rw [div_le_iff₀ hpos]
    calc (1 : ℝ) ≤ ((2 ^ 24 - 1 : ℤ) : ℝ) * 2 ^ (104 : ℤ) * (2 ^ (-128 : ℤ) + 2 ^ (-149 : ℤ)) := by
          norm_num
      _ ≤ ((2 ^ 24 - 1 : ℤ) : ℝ) * 2 ^ (104 : ℤ) * r := by gcongr
  have hrounded := rounded_le hgreatest hle
  rw [nearest_of_abs_lt, lt_top_iff_ne_top]
  · exact EReal.coe_ne_top _
  · rw [abs_of_nonneg (rounded_nonneg (one_div_nonneg.mpr hpos.le))]
    refine hrounded.trans_lt ?_
    norm_num

theorem nearest_inv_eq_top {r : ℝ} (hr : 0 < r) (h : r ≤ 2 ^ (-128 : ℤ)) : nearest (1 / r) = ⊤ := by
  have hgrid : OnGrid ((2 : ℝ) ^ 128) := ⟨1, 128, by norm_num, by norm_num, by norm_num⟩
  rw [nearest, if_pos]
  apply le_rounded hgrid
  rw [le_div_iff₀ hr]
  calc (2 : ℝ) ^ 128 * r ≤ 2 ^ 128 * 2 ^ (-128 : ℤ) := by gcongr
    _ = 1 := by norm_num

/-- The reciprocal of a positive number is finite if and only if the number is above the limit. -/
theorem isFinite_reciprocal_iff (h : 0 < x) :
    (1 / x).isFinite = true ↔ reciprocalLimit < x := by
  have hnan := (isNaN_eq_false_of_lt h).2
  have hvalue : 0 < value x := value_zero ▸ (lt_iff_value_lt isNaN_zero hnan).mp h
  rw [lt_iff_value_lt (isNaN_of_isFinite isFinite_reciprocalLimit) hnan,
    value_eq_toReal isFinite_reciprocalLimit, toReal_reciprocalLimit]
  rcases value_top_or_isFinite hnan hvalue.le with htop | hfinite
  · have hzero : (1 / x).isFinite = true := by
      have hdiv : 1 / x = Float32.ofModel (.pack (UnpackedFloat.div Format.binary32
          (.finite .positive (2 ^ 23) (-23) (by decide)) x.toModel.unpack)) := rfl
      rw [hdiv, unpack_of_value_top hnan htop]
      decide +kernel
    exact iff_of_true hzero (htop ▸ EReal.coe_lt_top _)
  · rw [value_eq_toReal hfinite] at hvalue ⊢
    have hpos : 0 < toReal x := EReal.coe_pos.mp hvalue
    obtain ⟨hnan', hdiv⟩ := value_div (x := 1) rfl hfinite hpos.ne'
    rw [toReal_one] at hdiv
    rw [EReal.coe_lt_coe_iff]
    constructor
    · intro hinv
      by_contra hle
      rw [nearest_inv_eq_top hpos (not_lt.mp hle)] at hdiv
      exact (ne_infinite_of_isFinite hinv).1 hdiv
    · intro hlt
      apply isFinite_of_value hnan'
      · rw [hdiv]
        exact (nearest_inv_lt_top (onGrid_toReal x) hlt).ne
      · rw [hdiv]
        exact (EReal.bot_lt_zero.trans_le (nearest_nonneg (one_div_nonneg.mpr hpos.le))).ne'

/-! ## Zeros -/

theorem unpack_of_beq_zero (h : (x == 0) = true) : ∃ s, x.toModel.unpack = .zero s := by
  have hfold := alike_iff.mp (.inl h)
  cases hu : x.toModel.unpack with
  | zero s => exact ⟨s, rfl⟩
  | _ =>
    rw [hu] at hfold
    cases hfold

theorem beq_zero_of_nearest {r : ℝ} (hx : x.isNaN = false ∧ value x = nearest r) (hr : r = 0) :
    (x == 0) = true := by
  rw [beq_iff_value_eq hx.1 isNaN_zero, hx.2, hr]
  exact nearest_toReal 0

theorem sub_self_beq_zero (hx : x.isFinite = true) : (x - x == 0) = true :=
  beq_zero_of_nearest (value_sub hx hx) (sub_self _)

theorem isFinite_of_beq_zero (h : (x == 0) = true) : x.isFinite = true := by
  obtain ⟨s, hs⟩ := unpack_of_beq_zero h
  exact congrArg UnpackedFloat.isFinite hs

theorem toReal_of_beq_zero (h : (x == 0) = true) : toReal x = 0 := by
  obtain ⟨s, hs⟩ := unpack_of_beq_zero h
  exact congrArg realOf hs

theorem mul_beq_zero (hx : (x == 0) = true) (hy : y.isFinite = true) : (x * y == 0) = true :=
  beq_zero_of_nearest (value_mul (isFinite_of_beq_zero hx) hy) (by
    rw [toReal_of_beq_zero hx, zero_mul])

theorem sub_beq_zero (hx : (x == 0) = true) (hy : (y == 0) = true) : (x - y == 0) = true :=
  beq_zero_of_nearest (value_sub (isFinite_of_beq_zero hx) (isFinite_of_beq_zero hy)) (by
    rw [toReal_of_beq_zero hx, toReal_of_beq_zero hy, sub_self])

/-- A zero times what is not finite is no number. -/
theorem isNaN_mul_of_beq_zero (hx : (x == 0) = true) (hy : y.isFinite = false) :
    (x * y).isNaN = true := by
  obtain ⟨s, hs⟩ := unpack_of_beq_zero hx
  have hmul : UnpackedFloat.mul Format.binary32 x.toModel.unpack y.toModel.unpack =
      .notANumber := by
    have hinfinite : y.toModel.unpack.isFinite = false := hy
    rw [hs]
    cases hu : y.toModel.unpack with
    | infinity t => rfl
    | notANumber => rfl
    | zero t =>
      rw [hu] at hinfinite
      cases hinfinite
    | finite t m e hm =>
      rw [hu] at hinfinite
      cases hinfinite
  have hproduct : x * y = Float32.ofModel (.pack
    (UnpackedFloat.mul Format.binary32 x.toModel.unpack y.toModel.unpack)) := rfl
  rw [hproduct, hmul]
  decide +kernel

theorem isNaN_add_of_isNaN (x : Float32) (hy : y.isNaN = true) : (x + y).isNaN = true := by
  have hadd : UnpackedFloat.add Format.binary32 x.toModel.unpack y.toModel.unpack =
      .notANumber := by
    rw [unpack_of_isNaN hy]
    cases x.toModel.unpack with
    | infinity s => cases s <;> rfl
    | _ => rfl
  have hsum : x + y = Float32.ofModel (.pack
    (UnpackedFloat.add Format.binary32 x.toModel.unpack y.toModel.unpack)) := rfl
  rw [hsum, hadd]
  decide +kernel

end PlanarDynamics.Binary32
