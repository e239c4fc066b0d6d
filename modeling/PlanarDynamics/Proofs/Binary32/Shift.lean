import Mathlib.Tactic.LinearCombination
import PlanarDynamics.Proofs.Binary32.Format
import PlanarDynamics.Proofs.Binary32.Rounding

/-!
# Rounding by shifts

The rounding that the format performs on a significand: shift bits out, keep the last one and
whether there were others, and round by these two. The result is the rounded real number, in
canonical form. Before the first shift the two bits may already stand for a rest that is not in the
significand, such as the remainder of a division.
-/

namespace PlanarDynamics.Binary32

open Float.Model (Format UnpackedFloat totalExponent)
open Float.Model.UnpackedFloat

/-- What a significand and its two bits say of a number: the integer below it, and whether the rest
is nothing, less than a half, a half or more. -/
structure Reads (em : ExtendedMantissa) (x : ℝ) : Prop where
  floor : ⌊x⌋ = em.mantissa
  roundBit : em.roundBit = true ↔ 1 / 2 ≤ Int.fract x
  stickyBit : em.stickyBit = true ↔ Int.fract x ≠ 0 ∧ Int.fract x ≠ 1 / 2

namespace Reads

variable {em : ExtendedMantissa} {x : ℝ}

theorem ofNat (m : ℕ) : Reads (.ofMantissaAndAccuracy m .exact) m := by
  refine ⟨Int.floor_natCast m, ?_, ?_⟩ <;>
    simp [ExtendedMantissa.ofMantissaAndAccuracy]

/-- The quotient and the remainder of a division read the exact quotient. -/
theorem ofFraction (m : ℕ) {d : ℕ} (hd : 0 < d) :
    Reads (.ofMantissaAndAccuracy (m / d) (accuracyOfFraction (m % d) d)) (m / d) := by
  have hpos : (0 : ℝ) < d := by exact_mod_cast hd
  have hfloor : ⌊(m : ℝ) / d⌋ = (m / d : ℕ) := by
    rw [Int.floor_div_natCast, Int.floor_natCast]
    norm_cast
  have hfract : Int.fract ((m : ℝ) / d) = (m % d : ℕ) / d :=
    Int.fract_div_natCast_eq_div_natCast_mod
  have hzero : ((m % d : ℕ) : ℝ) / d = 0 ↔ m % d = 0 := by
    rw [div_eq_zero_iff, or_iff_left hpos.ne']
    norm_cast
  have hlow : (1 : ℝ) / 2 ≤ (m % d : ℕ) / d ↔ d ≤ 2 * (m % d) := by
    rw [div_le_div_iff₀ two_pos hpos, one_mul, mul_comm _ (2 : ℝ)]
    norm_cast
  have hhalf : ((m % d : ℕ) : ℝ) / d = 1 / 2 ↔ 2 * (m % d) = d := by
    rw [div_eq_div_iff hpos.ne' two_ne_zero, one_mul, mul_comm _ (2 : ℝ)]
    norm_cast
  have hem : ExtendedMantissa.ofMantissaAndAccuracy (m / d) (accuracyOfFraction (m % d) d) =
      ⟨m / d, decide (d ≤ 2 * (m % d)), decide (m % d ≠ 0 ∧ 2 * (m % d) ≠ d)⟩ := by
    rw [accuracyOfFraction]
    split
    case isTrue h => simp [ExtendedMantissa.ofMantissaAndAccuracy, h, hd.ne']
    case isFalse h =>
      rcases lt_trichotomy (2 * (m % d)) d with hlt | heq | hgt
      · rw [Nat.compare_eq_lt.mpr hlt]
        simp [ExtendedMantissa.ofMantissaAndAccuracy, h, hlt, hlt.ne]
      · rw [Nat.compare_eq_eq.mpr heq]
        simp [ExtendedMantissa.ofMantissaAndAccuracy, heq]
      · rw [Nat.compare_eq_gt.mpr hgt]
        simp [ExtendedMantissa.ofMantissaAndAccuracy, h, hgt.le, hgt.ne']
  rw [hem]
  refine ⟨hfloor, ?_, ?_⟩
  · rw [hfract, hlow, decide_eq_true_eq]
  · rw [hfract, decide_eq_true_eq, ne_eq, ne_eq, ne_eq, ne_eq, hzero, hhalf]

theorem step (h : Reads em x) : Reads em.shiftRightOne (x / 2) := by
  obtain ⟨hfloor, hround, hsticky⟩ := h
  have hhalf : ⌊x / 2⌋ = ⌊x⌋ / 2 := by
    exact_mod_cast Int.floor_div_natCast x 2
  have hfract : Int.fract (x / 2) = ((em.mantissa % 2 : ℕ) + Int.fract x) / 2 := by
    have hdiv : ⌊x⌋ = 2 * (⌊x⌋ / 2) + (em.mantissa % 2 : ℕ) := by omega
    have hcast : (⌊x⌋ : ℝ) = 2 * ((⌊x⌋ / 2 : ℤ) : ℝ) + (em.mantissa % 2 : ℕ) :=
      (congrArg Int.cast hdiv).trans (by
        rw [Int.cast_add, Int.cast_mul, Int.cast_natCast, Int.cast_ofNat])
    rw [Int.fract, Int.fract, hhalf]
    linarith
  have hnonneg := Int.fract_nonneg x
  have hlt := Int.fract_lt_one x
  refine ⟨by rw [hhalf, hfloor]; rfl, ?_, ?_⟩
  · simp only [ExtendedMantissa.shiftRightOne, bne_iff_ne, hfract]
    rcases Nat.mod_two_eq_zero_or_one em.mantissa with hbit | hbit <;> rw [hbit] <;> push_cast <;>
      grind
  · simp only [ExtendedMantissa.shiftRightOne, Bool.or_eq_true, hround, hsticky, hfract]
    rcases Nat.mod_two_eq_zero_or_one em.mantissa with hbit | hbit <;> rw [hbit] <;> push_cast <;>
      grind

theorem shiftRight (h : Reads em x) (n : ℕ) : Reads (em >>> n) (x / 2 ^ n) := by
  induction n with
  | zero =>
    rw [pow_zero, div_one]
    exact h
  | succ n ih =>
    rw [pow_succ, ← div_div]
    exact ih.step

/-- The two bits round to the nearest integer, ties to even. -/
theorem roundedMantissa (h : Reads em x) : (em.roundedMantissa : ℤ) = nearestEven x := by
  obtain ⟨hfloor, hround, hsticky⟩ := h
  rw [nearestEven, hfloor]
  obtain ⟨q, b, c⟩ := em
  simp only [ExtendedMantissa.roundedMantissa] at hround hsticky ⊢
  cases b <;> cases c <;>
    simp only [Bool.false_eq_true, false_iff, true_iff, ExtendedMantissa.accuracy,
      Accuracy.roundToNearestEven] at hround hsticky ⊢ <;>
    split_ifs <;> push_cast <;> grind

end Reads

theorem targetExponent_eq (m : ℕ) (e : ℤ) :
    Format.binary32.targetExponent (totalExponent m e) = max (m.log2 + e - 23) (-149) := by
  show max ((m.log2 : ℤ) + 1 + e - 24) (-149) = _
  congr 1
  ring

/-- A significand of at most 24 bits stays where it is. -/
theorem shiftToTargetExponent_of_lt {q : ℕ} {e : ℤ} (hq : q < 2 ^ 24) (he : -149 ≤ e) :
    shiftToTargetExponent Format.binary32 q e .exact = (⟨q, false, false⟩, e) := by
  have hlog : q.log2 < 24 := by
    by_cases hzero : q = 0
    · rw [hzero]
      decide
    · exact (Nat.log2_lt hzero).mpr hq
  have hamount : (Format.binary32.targetExponent (totalExponent q e) - e).toNat = 0 := by
    rw [targetExponent_eq]
    omega
  simp only [shiftToTargetExponent, shiftToExponent, hamount]
  exact Prod.ext rfl (add_zero e)

/-- A significand that rounding carried into a new bit is shifted once more. -/
theorem shiftToTargetExponent_carry {e : ℤ} (he : -149 ≤ e) :
    shiftToTargetExponent Format.binary32 (2 ^ 24) e .exact = (⟨2 ^ 23, false, false⟩, e + 1) := by
  have hamount : (Format.binary32.targetExponent (totalExponent (2 ^ 24) e) - e).toNat = 1 := by
    rw [targetExponent_eq, Nat.log2_two_pow]
    omega
  simp only [shiftToTargetExponent, shiftToExponent, hamount]
  rfl

section Round

variable {m : ℕ} {e : ℤ}

/-- The first bit of a number is that of its integer part. -/
theorem log_eq {r : ℝ} (hm : 0 < m) (hlow : m * 2 ^ e ≤ r) (hhigh : r < (m + 1) * 2 ^ e) :
    Int.log 2 r = m.log2 + e := by
  have hscale : (0 : ℝ) < 2 ^ e := zpow_pos two_pos e
  have hpos : 0 < r := (mul_pos (by exact_mod_cast hm) hscale).trans_le hlow
  have hpow : (2 : ℝ) ^ m.log2 ≤ m := by exact_mod_cast Nat.log2_self_le hm.ne'
  have hpow' : (m : ℝ) + 1 ≤ 2 ^ (m.log2 + 1) := by exact_mod_cast Nat.lt_log2_self
  apply le_antisymm
  · rw [← Int.lt_add_one_iff, ← Int.lt_zpow_iff_log_lt Nat.one_lt_two hpos]
    push_cast
    have hsum : (2 : ℝ) ^ ((m.log2 : ℤ) + e + 1) = 2 ^ (m.log2 + 1) * 2 ^ e := by
      rw [add_right_comm, zpow_add₀ two_ne_zero]
      norm_cast
    rw [hsum]
    exact hhigh.trans_le (mul_le_mul_of_nonneg_right hpow' hscale.le)
  · rw [← Int.zpow_le_iff_le_log Nat.one_lt_two hpos]
    push_cast
    rw [zpow_add₀ two_ne_zero, zpow_natCast]
    exact (mul_le_mul_of_nonneg_right hpow hscale.le).trans hlow

theorem ulpExponent_eq (hm : 0 < m) :
    ulpExponent ((m : ℝ) * 2 ^ e) = max (m.log2 + e - 23) (-149) := by
  have hscale : (0 : ℝ) < 2 ^ e := zpow_pos two_pos e
  rw [ulpExponent, log_eq hm le_rfl (mul_lt_mul_of_pos_right (lt_add_one _) hscale)]

/-- A significand read off a number that has all its bits at or above the target is shifted to the
unit of the number. -/
theorem targetExponent_of_reads {r : ℝ} {a : Accuracy} (hr : 0 < r)
    (h : Reads (.ofMantissaAndAccuracy m a) (r / 2 ^ e)) (he : e ≤ ulpExponent r) :
    Format.binary32.targetExponent (totalExponent m e) = ulpExponent r := by
  have hscale : (0 : ℝ) < 2 ^ e := zpow_pos two_pos e
  have hmantissa : (ExtendedMantissa.ofMantissaAndAccuracy m a).mantissa = m := by
    cases a with
    | exact => rfl
    | inexact o => cases o <;> rfl
  have hfloor := h.floor
  rw [hmantissa, Int.floor_eq_iff, le_div_iff₀ hscale, div_lt_iff₀ hscale] at hfloor
  obtain ⟨hlow, hhigh⟩ := hfloor
  rw [Int.cast_natCast] at hlow hhigh
  rw [targetExponent_eq]
  rcases Nat.eq_zero_or_pos m with rfl | hm
  · rw [Nat.cast_zero, zero_add, one_mul] at hhigh
    have hlog : Int.log 2 r < e := by
      rw [← Int.lt_zpow_iff_log_lt Nat.one_lt_two hr]
      exact_mod_cast hhigh
    have hzero : Nat.log2 0 = 0 := rfl
    unfold ulpExponent at he ⊢
    omega
  · rw [ulpExponent, log_eq hm hlow hhigh]

/-- The result of rounding a number that has all its bits at or above the target. -/
theorem roundWithAccuracy_eq (s : Sign) {r : ℝ} {a : Accuracy} (hr : 0 < r)
    (h : Reads (.ofMantissaAndAccuracy m a) (r / 2 ^ e)) (he : e ≤ ulpExponent r) :
    ∃ q : ℕ, q ≤ 2 ^ 24 ∧ roundedPos r = q * ulp r ∧
      roundWithAccuracy Format.binary32 s m e a =
        if h : q = 0 then .zero s
        else if q < 2 ^ 24 then .finite s q (ulpExponent r) (Nat.pos_of_ne_zero h)
        else .finite s (2 ^ 23) (ulpExponent r + 1) (by decide) := by
  let n : ℕ := (ulpExponent r - e).toNat
  have hn : e + n = ulpExponent r := by omega
  let em := ExtendedMantissa.ofMantissaAndAccuracy m a >>> n
  have hreads : Reads em (r / ulp r) := by
    have hulp : ulp r = 2 ^ e * 2 ^ n := by
      rw [ulp, ← hn, zpow_add₀ two_ne_zero, zpow_natCast]
    rw [hulp, ← div_div]
    exact h.shiftRight n
  have hfirst : shiftToTargetExponent Format.binary32 m e a = (em, ulpExponent r) := by
    rw [shiftToTargetExponent, targetExponent_of_reads hr h he, shiftToExponent]
    exact Prod.ext rfl hn
  have hrounded : (em.roundedMantissa : ℤ) = nearestEven (r / ulp r) := hreads.roundedMantissa
  have hle : em.roundedMantissa ≤ 2 ^ 24 := by
    have hbound : r / ulp r ≤ ((2 ^ 24 : ℤ) : ℝ) := by
      rw [div_le_iff₀ (ulp_pos r)]
      exact_mod_cast (lt_ulp r).le
    have := nearestEven_le hbound
    omega
  have htarget : -149 ≤ ulpExponent r := le_max_right _ _
  refine ⟨em.roundedMantissa, hle, ?_, ?_⟩
  · rw [roundedPos, ← hrounded]
    norm_cast
  · rw [roundWithAccuracy, hfirst]
    by_cases hlt : em.roundedMantissa < 2 ^ 24
    · simp only [shiftToTargetExponent_of_lt hlt htarget, hlt, if_true]
    · have heq : em.roundedMantissa = 2 ^ 24 := by omega
      simp only [heq, shiftToTargetExponent_carry htarget]
      rfl

/-- The datum is the canonical form of a rounded real number. -/
structure IsRounding (u : UnpackedFloat) (r : ℝ) : Prop where
  canonical : Canonical u
  isFinite : u.isFinite = true
  real : realOf u = rounded r

theorem isRounding_of_reads (s : Sign) {r : ℝ} {a : Accuracy} (hr : 0 < r)
    (h : Reads (.ofMantissaAndAccuracy m a) (r / 2 ^ e)) (he : e ≤ ulpExponent r) :
    IsRounding (roundWithAccuracy Format.binary32 s m e a) ((s.apply 1 : ℤ) * r) := by
  obtain ⟨q, hq, hrounded, hresult⟩ := roundWithAccuracy_eq s hr h he
  have hsigned : rounded ((s.apply 1 : ℤ) * r) = (s.apply q : ℤ) * ulp r := by
    cases s with
    | positive =>
      simp only [Sign.apply, Int.cast_one, one_mul, Int.cast_natCast]
      rw [rounded_of_pos hr, hrounded]
    | negative =>
      simp only [Sign.apply, Int.cast_neg, Int.cast_one, neg_mul, one_mul, Int.cast_natCast]
      rw [rounded_neg, rounded_of_pos hr, hrounded]
  have htarget : -149 ≤ ulpExponent r := le_max_right _ _
  -- Above the smallest exponent no bit of the significand is lost.
  have hfull : 2 ^ 23 ≤ q ∨ ulpExponent r = -149 := by
    by_cases hexp : -149 < ulpExponent r
    · left
      have hgrid : OnGrid (2 ^ 23 * ulp r) :=
        ⟨2 ^ 23, _, by norm_num, htarget, by rw [ulp]; norm_num⟩
      have hle := le_rounded hgrid (ulp_le hr hexp)
      rw [rounded_of_pos hr, hrounded] at hle
      exact_mod_cast le_of_mul_le_mul_right hle (ulp_pos _)
    · right
      omega
  rw [hresult]
  split
  case isTrue hzero =>
    refine ⟨trivial, rfl, ?_⟩
    rw [hsigned, hzero]
    cases s <;> simp [realOf, Sign.apply]
  case isFalse =>
    split
    case isTrue hlt => exact ⟨⟨hlt, htarget, hfull⟩, rfl, hsigned.symm⟩
    case isFalse hlt =>
      obtain rfl : q = 2 ^ 24 := by omega
      refine ⟨⟨by decide, by omega, .inl le_rfl⟩, rfl, ?_⟩
      rw [hsigned, realOf, ulp, zpow_add_one₀ two_ne_zero]
      cases s <;> simp only [Sign.apply] <;> push_cast <;> ring

theorem apply_one_mul (s : Sign) (m : ℕ) (e : ℤ) :
    ((s.apply 1 : ℤ) : ℝ) * (m * 2 ^ e) = (s.apply m : ℤ) * 2 ^ e := by
  cases s <;> simp [Sign.apply]

theorem isRounding_roundWithAccuracy (s : Sign) (hm : 0 < m)
    (he : e ≤ ulpExponent ((m : ℝ) * 2 ^ e)) :
    IsRounding (roundWithAccuracy Format.binary32 s m e .exact) ((s.apply m : ℤ) * 2 ^ e) := by
  have hscale : (0 : ℝ) < 2 ^ e := zpow_pos two_pos e
  rw [← apply_one_mul]
  apply isRounding_of_reads s (mul_pos (by exact_mod_cast hm) hscale) _ he
  rw [mul_div_cancel_right₀ _ hscale.ne']
  exact .ofNat m

theorem isRounding_round (s : Sign) (hm : 0 < m) (e : ℤ) :
    IsRounding (UnpackedFloat.round Format.binary32 s m e) ((s.apply m : ℤ) * 2 ^ e) := by
  let n : ℕ := (e - ulpExponent ((m : ℝ) * 2 ^ e)).toNat
  have hshift : ((m <<< n : ℕ) : ℝ) * 2 ^ (e - n) = m * 2 ^ e := by
    rw [Nat.shiftLeft_eq, zpow_sub₀ two_ne_zero, zpow_natCast]
    push_cast
    field_simp
  have hpos : 0 < m <<< n := by
    rw [Nat.shiftLeft_eq]
    positivity
  have hround : UnpackedFloat.round Format.binary32 s m e =
      roundWithAccuracy Format.binary32 s (m <<< n) (e - n) .exact := by
    rw [UnpackedFloat.round, targetExponent_eq, ← ulpExponent_eq hm]
    rfl
  have hresult := isRounding_roundWithAccuracy s (e := e - n) hpos (by rw [hshift]; omega)
  have hsigned : ((s.apply (m <<< n : ℕ) : ℤ) : ℝ) * 2 ^ (e - n) = (s.apply m : ℤ) * 2 ^ e := by
    cases s <;> simp only [Sign.apply, Int.cast_neg, Int.cast_natCast, neg_mul, hshift]
  rw [hround, ← hsigned]
  exact hresult

/-- A sum of significands is rounded to the nearest number of the format. -/
theorem isRounding_normalize (k e : ℤ) (s : Sign) :
    IsRounding (UnpackedFloat.normalize Format.binary32 k e s) (k * 2 ^ e) := by
  rcases lt_trichotomy k 0 with hk | rfl | hk
  · have hround := isRounding_round .negative (m := (-k).toNat) (by omega) e
    have hcast : Sign.apply .negative ((-k).toNat : ℤ) = k := by
      simp only [Sign.apply]
      omega
    rw [hcast] at hround
    rw [UnpackedFloat.normalize, Int.compare_eq_lt.mpr hk]
    exact hround
  · refine ⟨trivial, rfl, ?_⟩
    rw [Int.cast_zero, zero_mul, rounded_zero]
    rfl
  · have hround := isRounding_round .positive (m := k.toNat) (by omega) e
    have hcast : Sign.apply .positive (k.toNat : ℤ) = k := by
      simp only [Sign.apply]
      omega
    rw [hcast] at hround
    rw [UnpackedFloat.normalize, Int.compare_eq_gt.mpr hk]
    exact hround

end Round

end PlanarDynamics.Binary32
