import Mathlib.Analysis.Real.Sqrt
import PlanarDynamics.Proofs.Binary32.Reciprocal

/-!
# Square roots

The square root of a number without a sign is the exact one, rounded: the operation shifts in enough
bits, takes the integer square root and reads the rest off its remainder. Squaring first and taking
the root then loses nothing, as long as the square has all its bits: the error of the square, halved
by the root, is less than half the gap below the number.
-/

namespace PlanarDynamics.Binary32

open Float.Model (Format UnpackedFloat totalExponent)
open Float.Model.UnpackedFloat

/-- The integer square root and what is left of the number read the exact root, which is never
half-way between two integers. -/
theorem Reads.ofSqrt (n : ℕ) :
    Reads (.ofMantissaAndAccuracy n.sqrt (if n - n.sqrt * n.sqrt = 0 then .exact
      else .inexact (if n - n.sqrt * n.sqrt ≤ n.sqrt then .lt else .gt))) √n := by
  have hfloor : ⌊√(n : ℝ)⌋ = n.sqrt := Real.floor_real_sqrt_eq_nat_sqrt
  have hfract : Int.fract √(n : ℝ) = √n - n.sqrt := by rw [Int.fract, hfloor, Int.cast_natCast]
  have hnonneg := Int.fract_nonneg √(n : ℝ)
  have hroot := Real.mul_self_sqrt (Nat.cast_nonneg (α := ℝ) n)
  obtain ⟨rest, hrest⟩ := Nat.exists_eq_add_of_le (Nat.sqrt_le n)
  have hsub : n - n.sqrt * n.sqrt = rest := by omega
  rw [hsub]
  generalize n.sqrt = root at *
  rw [hfract] at hnonneg
  have hcast : (n : ℝ) = root * root + rest := by exact_mod_cast hrest
  have hroot0 : (0 : ℝ) ≤ root := Nat.cast_nonneg root
  have hlow : 1 / 2 ≤ √(n : ℝ) - root ↔ root < rest := by
    constructor
    · intro h
      have hgap : (root : ℝ) < rest := by nlinarith
      exact_mod_cast hgap
    · intro h
      have hgap : (root : ℝ) + 1 ≤ rest := by exact_mod_cast h
      nlinarith
  have hzero : √(n : ℝ) - root ≠ 0 ↔ rest ≠ 0 := by
    rw [not_iff_not]
    constructor
    · intro h
      rw [sub_eq_zero.mp h, hcast] at hroot
      exact_mod_cast (left_eq_add.mp hroot)
    · rintro rfl
      rw [hcast, Nat.cast_zero, add_zero, Real.sqrt_mul_self hroot0, sub_self]
  have hhalf : √(n : ℝ) - root ≠ 1 / 2 := by
    intro h
    rw [sub_eq_iff_eq_add.mp h] at hroot
    have hfour : (4 * (root * root) + 4 * root + 1 : ℝ) = 4 * (n : ℝ) := by linarith
    have hparity : 4 * (root * root) + 4 * root + 1 = 4 * n := by exact_mod_cast hfour
    omega
  have hem : ExtendedMantissa.ofMantissaAndAccuracy root (if rest = 0 then .exact
      else .inexact (if rest ≤ root then .lt else .gt)) =
      ⟨root, decide (root < rest), decide (rest ≠ 0)⟩ := by
    split_ifs with hexact hless
    · simp [ExtendedMantissa.ofMantissaAndAccuracy, hexact]
    · simp [ExtendedMantissa.ofMantissaAndAccuracy, hexact, hless]
    · simp [ExtendedMantissa.ofMantissaAndAccuracy, hexact, not_le.mp hless]
  rw [hem]
  constructor
  · exact hfloor
  · rw [hfract, hlow, decide_eq_true_eq]
  · rw [hfract, hzero, decide_eq_true_eq, and_iff_left hhalf]

section Root

variable {m : ℕ} {e : ℤ}

/-- The root has all its bits at or above the target of the operation. -/
theorem rootTarget_le_ulpExponent (hm : 0 < m) :
    Format.binary32.targetExponent ((totalExponent m e + 1).ediv 2) ≤
      ulpExponent √((m : ℝ) * 2 ^ e) := by
  have hm' : (2 : ℝ) ^ m.log2 ≤ m := by exact_mod_cast Nat.log2_self_le hm.ne'
  have hpos : (0 : ℝ) < m * 2 ^ e := mul_pos (by exact_mod_cast hm) (zpow_pos two_pos e)
  have hpow : (2 : ℝ) ^ ((m.log2 + e) / 2) ≤ √(m * 2 ^ e) := by
    rw [Real.le_sqrt' (zpow_pos two_pos _)]
    calc ((2 : ℝ) ^ ((m.log2 + e) / 2)) ^ 2 = 2 ^ ((m.log2 + e) / 2 * 2) := by
          rw [zpow_mul]
          norm_cast
      _ ≤ 2 ^ (m.log2 + e) := zpow_le_zpow_right₀ one_le_two (by omega)
      _ = 2 ^ m.log2 * 2 ^ e := by rw [zpow_add₀ two_ne_zero, zpow_natCast]
      _ ≤ m * 2 ^ e := by gcongr
  have hlog : (m.log2 + e) / 2 ≤ Int.log 2 √(m * 2 ^ e) :=
    (Int.zpow_le_iff_le_log Nat.one_lt_two (Real.sqrt_pos.mpr hpos)).mp (by exact_mod_cast hpow)
  have htarget : Format.binary32.targetExponent ((totalExponent m e + 1).ediv 2) =
      max ((m.log2 + 1 + e + 1) / 2 - 24) (-149) := rfl
  rw [htarget, ulpExponent]
  omega

theorem isRounding_sqrt_finite (hm : 0 < m) :
    IsRounding (UnpackedFloat.sqrt Format.binary32 (.finite .positive m e hm))
      √(realOf (.finite .positive m e hm)) := by
  let target := min (e.ediv 2) (Format.binary32.targetExponent ((totalExponent m e + 1).ediv 2))
  let shifted := m <<< (e - 2 * target).toNat
  have hsqrt : UnpackedFloat.sqrt Format.binary32 (.finite .positive m e hm) =
      roundWithAccuracy Format.binary32 .positive shifted.sqrt target
        (if shifted - shifted.sqrt * shifted.sqrt = 0 then .exact
          else .inexact (if shifted - shifted.sqrt * shifted.sqrt ≤ shifted.sqrt then .lt
            else .gt)) := rfl
  have hpos : (0 : ℝ) < m * 2 ^ e := mul_pos (by exact_mod_cast hm) (zpow_pos two_pos e)
  have htarget : target ≤ e / 2 := min_le_left _ _
  have hshift : ((e - 2 * target).toNat : ℤ) = e - target * 2 := by omega
  have hroot : √(shifted : ℝ) = √((m : ℝ) * 2 ^ e) / 2 ^ target := by
    have hscaled : (shifted : ℝ) = m * 2 ^ e / (2 ^ target) ^ 2 := by
      rw [show shifted = m * 2 ^ (e - 2 * target).toNat from Nat.shiftLeft_eq .., Nat.cast_mul,
        Nat.cast_pow, Nat.cast_ofNat, ← zpow_natCast, hshift, zpow_sub₀ two_ne_zero, zpow_mul]
      norm_cast
      ring
    rw [hscaled, Real.sqrt_div hpos.le, Real.sqrt_sq (zpow_nonneg zero_le_two _)]
  have hresult := isRounding_of_reads .positive (Real.sqrt_pos.mpr hpos)
    (hroot ▸ Reads.ofSqrt shifted) ((min_le_right _ _).trans (rootTarget_le_ulpExponent hm))
  rw [hsqrt, realOf]
  simpa only [Sign.apply, Int.cast_one, one_mul, Int.cast_natCast] using hresult

end Root

/-! ## Machine numbers -/

variable {x : Float32}

theorem sqrt_eq (x : Float32) : Scalar.sqrt x =
    Float32.ofModel (.pack (UnpackedFloat.sqrt Format.binary32 x.toModel.unpack)) := rfl

/-- The square root of a finite number that is not below zero is the exact one, rounded. -/
theorem value_sqrt (hx : x.isFinite = true) (hx0 : 0 ≤ toReal x) :
    (Scalar.sqrt x).isNaN = false ∧ value (Scalar.sqrt x) = nearest √(toReal x) := by
  rw [sqrt_eq]
  apply value_ofModel_pack
  unfold toReal at hx0 ⊢
  rcases zero_or_finite hx with ⟨s, hu⟩ | ⟨s, m, e, hm, hu⟩
  · rw [hu]
    exact ⟨trivial, rfl, by simp [UnpackedFloat.sqrt, realOf]⟩
  · rw [hu] at hx0 ⊢
    cases s with
    | positive => exact isRounding_sqrt_finite hm
    | negative =>
      have hneg : (0 : ℝ) < m * 2 ^ e := mul_pos (by exact_mod_cast hm) (zpow_pos two_pos e)
      simp only [realOf, Sign.apply, Int.cast_neg, Int.cast_natCast, neg_mul] at hx0
      linarith

theorem value_sqrt_top (hx : x.isNaN = false) (h : value x = ⊤) :
    (Scalar.sqrt x).isNaN = false ∧ value (Scalar.sqrt x) = ⊤ := by
  rw [sqrt_eq, unpack_of_value_top hx h]
  exact value_of_unpack_infinity rfl

/-- A square root is a number only for the numbers that are not below zero. -/
theorem zero_le_of_isNaN_sqrt (h : (Scalar.sqrt x).isNaN = false) :
    x.isNaN = false ∧ (value x = ⊤ ∨ x.isFinite = true ∧ 0 ≤ toReal x) := by
  have hsome : UnpackedFloat.sqrt Format.binary32 x.toModel.unpack ≠ .notANumber := by
    intro hnone
    rw [sqrt_eq, hnone] at h
    exact absurd h (by decide +kernel)
  cases hu : x.toModel.unpack with
  | notANumber => exact absurd (congrArg (UnpackedFloat.sqrt Format.binary32) hu) hsome
  | infinity s =>
    cases s with
    | positive => exact ⟨congrArg UnpackedFloat.isNaN hu, .inl (congrArg valueOf hu)⟩
    | negative => exact absurd (congrArg (UnpackedFloat.sqrt Format.binary32) hu) hsome
  | zero s =>
    exact ⟨congrArg UnpackedFloat.isNaN hu,
      .inr ⟨congrArg UnpackedFloat.isFinite hu, (congrArg realOf hu).ge⟩⟩
  | finite s m e hm =>
    cases s with
    | positive =>
      refine ⟨congrArg UnpackedFloat.isNaN hu, .inr ⟨congrArg UnpackedFloat.isFinite hu, ?_⟩⟩
      rw [toReal, hu, realOf, Sign.apply]
      positivity
    | negative => exact absurd (congrArg (UnpackedFloat.sqrt Format.binary32) hu) hsome

/-- A square root is no number or has a value that is not below zero. -/
theorem value_sqrt_nonneg (h : (Scalar.sqrt x).isNaN = false) : 0 ≤ value (Scalar.sqrt x) := by
  obtain ⟨hnan, htop | ⟨hx, hx0⟩⟩ := zero_le_of_isNaN_sqrt h
  · rw [(value_sqrt_top hnan htop).2]
    exact le_top
  · rw [(value_sqrt hx hx0).2]
    exact nearest_nonneg (Real.sqrt_nonneg _)

/-- A square root is finite only for the finite numbers that are not below zero. -/
theorem isFinite_of_isFinite_sqrt (h : (Scalar.sqrt x).isFinite = true) :
    x.isFinite = true ∧ 0 ≤ toReal x := by
  obtain ⟨hnan, htop | hx⟩ := zero_le_of_isNaN_sqrt (isNaN_of_isFinite h)
  · exact absurd (value_sqrt_top hnan htop).2 (ne_infinite_of_isFinite h).1
  · exact hx

/-! ## The root of a square -/

section Grid

variable {r s : ℝ}

/-- Numbers of the grid with an exponent above the least one have a significand of 24 bits. -/
theorem OnGrid.exists_normal (h : OnGrid r) (hr : 0 < r) (hexp : -149 < ulpExponent r) :
    ∃ k : ℤ, 2 ^ 23 ≤ k ∧ k < 2 ^ 24 ∧ r = k * 2 ^ ulpExponent r := by
  have hulp := ulp_pos r
  have heq : r = nearestEven (r / ulp r) * ulp r := by
    rw [← roundedPos, ← rounded_of_pos hr, rounded_eq_self h]
  refine ⟨nearestEven (r / ulp r), ?_, ?_, heq⟩
  · have hlow : 2 ^ 23 * ulp r ≤ nearestEven (r / ulp r) * ulp r := heq ▸ ulp_le hr hexp
    exact_mod_cast le_of_mul_le_mul_right hlow hulp
  · have hhigh : nearestEven (r / ulp r) * ulp r < 2 ^ 24 * ulp r := heq ▸ lt_ulp r
    exact_mod_cast lt_of_mul_lt_mul_right hhigh hulp.le

/-- The number before one that is no power of two is a unit below it. -/
theorem OnGrid.le_pred (hs : OnGrid s) {k e : ℤ} (hk : 2 ^ 23 < k) (h : s < k * 2 ^ e) :
    s ≤ (k - 1) * 2 ^ e := by
  have hunit : (0 : ℝ) < 2 ^ e := zpow_pos two_pos e
  have hk' : (2 : ℝ) ^ 23 ≤ k - 1 := by
    have : 2 ^ 23 ≤ k - 1 := by omega
    exact_mod_cast this
  obtain ⟨j, f, hj, -, rfl⟩ := hs
  by_cases hexp : e ≤ f
  · -- Both are multiples of the unit.
    obtain ⟨n, hn⟩ := Int.eq_ofNat_of_zero_le (sub_nonneg.mpr hexp)
    have hmultiple : (j : ℝ) * 2 ^ f = ((j * 2 ^ n : ℤ) : ℝ) * 2 ^ e := by
      rw [← sub_add_cancel f e, hn, zpow_add₀ two_ne_zero, zpow_natCast]
      push_cast
      ring
    rw [hmultiple] at h ⊢
    have hlt : j * 2 ^ n < k := by exact_mod_cast lt_of_mul_lt_mul_right h hunit.le
    have hle : ((j * 2 ^ n : ℤ) : ℝ) ≤ k - 1 := by exact_mod_cast Int.le_sub_one_of_lt hlt
    exact mul_le_mul_of_nonneg_right hle hunit.le
  · -- All numbers with a smaller unit lie below the significands of 24 bits.
    have hj' : (j : ℝ) ≤ 2 ^ 24 := by exact_mod_cast (le_abs_self j).trans hj
    have hpow : (2 : ℝ) ^ f ≤ 2 ^ (e - 1) := zpow_le_zpow_right₀ one_le_two (by omega)
    calc (j : ℝ) * 2 ^ f ≤ 2 ^ 24 * 2 ^ f := by gcongr
      _ ≤ 2 ^ 24 * 2 ^ (e - 1) := by gcongr
      _ = 2 ^ 23 * 2 ^ e := by rw [zpow_sub_one₀ two_ne_zero]; ring
      _ ≤ (k - 1) * 2 ^ e := by gcongr

theorem sub_le_rounded_sq (hlow : 2 ^ (-63 : ℤ) ≤ r) :
    r ^ 2 - r ^ 2 / 2 ^ 24 ≤ rounded (r ^ 2) := by
  have hsquare : (2 : ℝ) ^ (-63 : ℤ) * 2 ^ (-63 : ℤ) ≤ r ^ 2 := by
    rw [sq]
    gcongr
  have herror := abs_rounded_sub_self_le (r ^ 2)
  rw [abs_of_nonneg (sq_nonneg r), max_eq_left (by norm_num at hsquare ⊢; linarith)] at herror
  have := neg_le_of_abs_le herror
  linarith

/-- A number is not above the rounded root of its rounded square, if the square has all its bits. A
power of two has an exact square. For the others the error of the square is less than what would
take its root below the midpoint of the number and the one before it. -/
theorem le_rounded_sqrt_rounded_sq (hr : OnGrid r) (hlow : 2 ^ (-63 : ℤ) ≤ r) :
    r ≤ rounded √(rounded (r ^ 2)) := by
  have hpos : 0 < r := (zpow_pos two_pos _).trans_le hlow
  have hlog : -63 ≤ Int.log 2 r :=
    (Int.zpow_le_iff_le_log Nat.one_lt_two hpos).mp (by exact_mod_cast hlow)
  have hexp : -86 ≤ ulpExponent r := by
    have := le_max_left (Int.log 2 r - 23) (-149)
    unfold ulpExponent
    omega
  obtain ⟨k, hk, hk', heq⟩ := hr.exists_normal hpos (by omega)
  generalize ulpExponent r = e at hexp heq
  rcases hk.eq_or_lt with rfl | hfull
  · have hsquare : OnGrid (r ^ 2) := by
      refine ⟨1, 46 + 2 * e, by norm_num, by omega, ?_⟩
      rw [heq, zpow_add₀ two_ne_zero, two_mul, zpow_add₀ two_ne_zero]
      norm_num
      ring
    rw [rounded_eq_self hsquare, Real.sqrt_sq hpos.le, rounded_eq_self hr]
  · by_contra! hlt
    have hunit : (0 : ℝ) < 2 ^ e := zpow_pos two_pos e
    have hroot : √(rounded (r ^ 2)) < r := by
      by_contra! hle
      exact hlt.not_ge (le_rounded hr hle)
    have hpred : rounded √(rounded (r ^ 2)) ≤ (k - 1) * 2 ^ e :=
      (onGrid_rounded _).le_pred hfull (heq ▸ hlt)
    have hmidpoint : √(rounded (r ^ 2)) ≤ (k - 1 / 2) * 2 ^ e := by
      have hnear := abs_rounded_sub_le √(rounded (r ^ 2)) hr
      rw [abs_of_pos (sub_pos.mpr hroot)] at hnear
      have := neg_le_of_abs_le hnear
      linarith
    have hsignificand : (k : ℝ) ^ 2 - k ^ 2 / 2 ^ 24 ≤ (k - 1 / 2) ^ 2 := by
      have hchain := (sub_le_rounded_sq hlow).trans (Real.sqrt_le_iff.mp hmidpoint).2
      rw [heq, mul_pow, mul_pow, mul_div_right_comm, ← sub_mul] at hchain
      exact le_of_mul_le_mul_right hchain (pow_pos hunit 2)
    have hlow' : (2 : ℝ) ^ 23 < k := by exact_mod_cast hfull
    have hhigh' : (k : ℝ) ≤ 2 ^ 24 - 1 := by
      exact_mod_cast Int.le_sub_one_of_lt hk'
    have hproduct : (k : ℝ) * k ≤ k * (2 ^ 24 - 1) := by gcongr
    linarith

end Grid

end PlanarDynamics.Binary32
