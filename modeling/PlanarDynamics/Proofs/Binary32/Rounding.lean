import Mathlib.Algebra.Order.Archimedean.Real.Basic
import Mathlib.Data.EReal.Basic
import Mathlib.Data.Int.Log
import Mathlib.Tactic.FieldSimp
import Mathlib.Tactic.Linarith
import Mathlib.Tactic.Positivity
import Mathlib.Tactic.Ring

/-!
# Rounding of real numbers

Round to nearest, ties to even, for significands of 24 bits and units from `2 ^ (-149)` up, with no
bound on the size of a number. Everything that is needed later follows from one fact: no number of
the grid is closer to a real number than the rounded one. The format itself rounds to an infinity
from `2 ^ 128` on.
-/

namespace PlanarDynamics.Binary32

open Float.Model (UnpackedFloat)

/-- The integer nearest to a number, and the even one of two. -/
noncomputable def nearestEven (x : ℝ) : ℤ :=
  if Int.fract x < 1 / 2 then ⌊x⌋ else if 1 / 2 < Int.fract x then ⌊x⌋ + 1 else ⌊x⌋ + ⌊x⌋ % 2

theorem abs_nearestEven_sub_le_half (x : ℝ) : |(nearestEven x : ℝ) - x| ≤ 1 / 2 := by
  have hx : x = ⌊x⌋ + Int.fract x := (Int.floor_add_fract x).symm
  have hnonneg := Int.fract_nonneg x
  have hlt := Int.fract_lt_one x
  rw [abs_le]
  unfold nearestEven
  split
  · constructor <;> linarith
  · split
    · push_cast
      constructor <;> linarith
    · rcases Int.emod_two_eq_zero_or_one ⌊x⌋ with h | h <;> rw [h] <;> push_cast <;>
        constructor <;> linarith

/-- No integer is closer. -/
theorem abs_nearestEven_sub_le (x : ℝ) (k : ℤ) : |(nearestEven x : ℝ) - x| ≤ |(k : ℝ) - x| := by
  by_cases hk : nearestEven x = k
  · rw [hk]
  · have hone : (1 : ℝ) ≤ |(nearestEven x : ℝ) - k| := by
      have hne : nearestEven x - k ≠ 0 := sub_ne_zero.mpr hk
      exact_mod_cast Int.one_le_abs hne
    have htriangle : |(nearestEven x : ℝ) - k| ≤ |(nearestEven x : ℝ) - x| + |x - k| :=
      abs_sub_le _ _ _
    have hhalf := abs_nearestEven_sub_le_half x
    rw [abs_sub_comm x] at htriangle
    linarith

theorem nearestEven_nonneg {x : ℝ} (hx : 0 ≤ x) : 0 ≤ nearestEven x := by
  have hfloor : 0 ≤ ⌊x⌋ := Int.floor_nonneg.mpr hx
  unfold nearestEven
  split
  · exact hfloor
  · split <;> omega

/-- An integer above a number is above the rounded one. -/
theorem nearestEven_le {x : ℝ} {k : ℤ} (hx : x ≤ k) : nearestEven x ≤ k := by
  have hhalf := abs_le.mp (abs_nearestEven_sub_le_half x)
  have hnear := abs_nearestEven_sub_le x k
  rw [abs_of_nonneg (sub_nonneg.mpr hx)] at hnear
  by_contra hlt
  have hle : ((k + 1 : ℤ) : ℝ) ≤ nearestEven x := by
    exact_mod_cast Int.add_one_le_iff.mpr (not_le.mp hlt)
  push_cast at hle
  have := abs_le.mp hnear
  linarith

/-! ## Positive numbers -/

/-- The exponent of the unit in the last place of a positive number. -/
noncomputable def ulpExponent (r : ℝ) : ℤ := max (Int.log 2 r - 23) (-149)

/-- The unit in the last place of a positive number. -/
noncomputable def ulp (r : ℝ) : ℝ := 2 ^ ulpExponent r

theorem ulp_pos (r : ℝ) : 0 < ulp r := zpow_pos two_pos _

theorem lt_ulp (r : ℝ) : r < 2 ^ 24 * ulp r := by
  have hlog := Int.lt_zpow_succ_log_self (b := 2) Nat.one_lt_two r
  have hle : (2 : ℝ) ^ (Int.log 2 r + 1) ≤ 2 ^ (24 + ulpExponent r) := by
    apply zpow_le_zpow_right₀ one_le_two
    have := le_max_left (Int.log 2 r - 23) (-149)
    unfold ulpExponent
    omega
  calc r < (2 : ℝ) ^ (Int.log 2 r + 1) := by exact_mod_cast hlog
    _ ≤ 2 ^ (24 + ulpExponent r) := hle
    _ = 2 ^ 24 * ulp r := by rw [ulp, zpow_add₀ two_ne_zero]; norm_num

/-- Above the smallest unit, a number has all 24 bits. -/
theorem ulp_le {r : ℝ} (hr : 0 < r) (hexp : -149 < ulpExponent r) : 2 ^ 23 * ulp r ≤ r := by
  have hlog := Int.zpow_log_le_self (b := 2) Nat.one_lt_two hr
  have heq : ulpExponent r = Int.log 2 r - 23 := by
    unfold ulpExponent at hexp ⊢
    omega
  calc 2 ^ 23 * ulp r = (2 : ℝ) ^ (23 + ulpExponent r) := by
        rw [ulp, zpow_add₀ two_ne_zero]; norm_num
    _ = 2 ^ Int.log 2 r := by rw [heq]; ring_nf
    _ ≤ r := by exact_mod_cast hlog

/-- The rounding of a positive number. -/
noncomputable def roundedPos (r : ℝ) : ℝ := nearestEven (r / ulp r) * ulp r

/-- Half a unit is at most one part in `2 ^ 24`, but for the smallest unit. -/
theorem ulp_half_le {r : ℝ} (hr : 0 < r) : ulp r / 2 ≤ max (r / 2 ^ 24) (2 ^ (-150 : ℤ)) := by
  by_cases hexp : -149 < ulpExponent r
  · apply le_max_of_le_left
    have := ulp_le hr hexp
    linarith
  · apply le_max_of_le_right
    have heq : ulpExponent r = -149 := by
      unfold ulpExponent at hexp ⊢
      omega
    rw [ulp, heq]
    norm_num

theorem abs_roundedPos_sub_le (r : ℝ) (k : ℤ) : |roundedPos r - r| ≤ |k * ulp r - r| := by
  have hpos := ulp_pos r
  have hscale (z : ℝ) : |z * ulp r - r| = |z - r / ulp r| * ulp r := by
    rw [← abs_of_pos hpos, ← abs_mul, abs_of_pos hpos, sub_mul, div_mul_cancel₀ _ hpos.ne']
  rw [roundedPos, hscale, hscale]
  exact mul_le_mul_of_nonneg_right (abs_nearestEven_sub_le _ k) hpos.le

theorem abs_roundedPos_sub_le_half (r : ℝ) : |roundedPos r - r| ≤ ulp r / 2 := by
  have hpos := ulp_pos r
  have hscale : |roundedPos r - r| = |nearestEven (r / ulp r) - r / ulp r| * ulp r := by
    rw [← abs_of_pos hpos, ← abs_mul, abs_of_pos hpos, sub_mul, div_mul_cancel₀ _ hpos.ne',
      roundedPos]
  have := mul_le_mul_of_nonneg_right (abs_nearestEven_sub_le_half (r / ulp r)) hpos.le
  linarith

/-! ## The grid -/

/-- The real number that a finite datum stands for. -/
noncomputable def realOf : UnpackedFloat → ℝ
  | .finite s m e _ => (s.apply m : ℤ) * 2 ^ e
  | _ => 0

/-- The numbers with a significand of 24 bits and a unit from `2 ^ (-149)` up. -/
def OnGrid (y : ℝ) : Prop := ∃ k e : ℤ, |k| ≤ 2 ^ 24 ∧ -149 ≤ e ∧ y = k * 2 ^ e

theorem OnGrid.neg {y : ℝ} (h : OnGrid y) : OnGrid (-y) := by
  obtain ⟨k, e, hk, he, rfl⟩ := h
  refine ⟨-k, e, by rwa [abs_neg], he, ?_⟩
  push_cast
  ring

theorem OnGrid.zero : OnGrid 0 := ⟨0, 0, by norm_num, by norm_num, by norm_num⟩

theorem OnGrid.mul_four {y : ℝ} (h : OnGrid y) : OnGrid (y * 4) := by
  obtain ⟨k, e, hk, he, rfl⟩ := h
  refine ⟨k, e + 2, hk, by omega, ?_⟩
  rw [zpow_add₀ two_ne_zero]
  norm_num
  ring

/-- Every number of the grid is a multiple of the smallest unit. -/
theorem OnGrid.exists_multiple {y : ℝ} (h : OnGrid y) : ∃ k : ℤ, y = k * 2 ^ (-149 : ℤ) := by
  obtain ⟨k, e, -, he, rfl⟩ := h
  obtain ⟨n, hn⟩ := Int.eq_ofNat_of_zero_le (show 0 ≤ e + 149 by omega)
  refine ⟨k * 2 ^ n, ?_⟩
  obtain rfl : e = n + -149 := by omega
  rw [zpow_add₀ two_ne_zero]
  push_cast
  rw [zpow_natCast]
  ring

theorem onGrid_roundedPos {r : ℝ} (hr : 0 < r) : OnGrid (roundedPos r) := by
  refine ⟨nearestEven (r / ulp r), ulpExponent r, ?_, le_max_right _ _, rfl⟩
  have hle : r / ulp r ≤ ((2 ^ 24 : ℤ) : ℝ) := by
    rw [div_le_iff₀ (ulp_pos r)]
    exact_mod_cast (lt_ulp r).le
  rw [abs_of_nonneg (nearestEven_nonneg (div_nonneg hr.le (ulp_pos r).le))]
  exact nearestEven_le hle

/-- No number of the grid is closer. One with a smaller unit lies below all numbers with the unit
of `r`, so the least of these is closer still. -/
theorem abs_roundedPos_sub_le_of_onGrid {r y : ℝ} (hr : 0 < r) (hy : OnGrid y) :
    |roundedPos r - r| ≤ |y - r| := by
  obtain ⟨k, e, hk, he, rfl⟩ := hy
  by_cases hexp : ulpExponent r ≤ e
  · obtain ⟨n, hn⟩ := Int.eq_ofNat_of_zero_le (show 0 ≤ e - ulpExponent r by omega)
    obtain rfl : e = n + ulpExponent r := by omega
    have hmultiple : (k : ℝ) * 2 ^ ((n : ℤ) + ulpExponent r) = ((k * 2 ^ n : ℤ) : ℝ) * ulp r := by
      rw [zpow_add₀ two_ne_zero, zpow_natCast, ulp]
      push_cast
      ring
    rw [hmultiple]
    exact abs_roundedPos_sub_le r _
  · have hnormal := ulp_le hr (by omega)
    have hsmall : (k : ℝ) * 2 ^ e ≤ 2 ^ 23 * ulp r := by
      have hk' : (k : ℝ) ≤ 2 ^ 24 := by exact_mod_cast (le_abs_self k).trans hk
      have hle : (2 : ℝ) ^ e ≤ 2 ^ (ulpExponent r - 1) :=
        zpow_le_zpow_right₀ one_le_two (by omega)
      have hulp : (2 : ℝ) ^ (ulpExponent r - 1) = ulp r / 2 := by
        rw [zpow_sub_one₀ two_ne_zero, ulp]
        ring
      calc (k : ℝ) * 2 ^ e ≤ 2 ^ 24 * 2 ^ e :=
            mul_le_mul_of_nonneg_right hk' (zpow_pos two_pos e).le
        _ ≤ 2 ^ 24 * (ulp r / 2) := by rw [← hulp]; linarith
        _ = 2 ^ 23 * ulp r := by ring
    have hlow : |roundedPos r - r| ≤ |2 ^ 23 * ulp r - r| := by
      have := abs_roundedPos_sub_le r ((2 ^ 23 : ℕ) : ℤ)
      rwa [Int.cast_natCast, Nat.cast_pow, Nat.cast_ofNat] at this
    rw [abs_of_nonpos (by linarith : 2 ^ 23 * ulp r - r ≤ 0)] at hlow
    rw [abs_of_nonpos (by linarith : (k : ℝ) * 2 ^ e - r ≤ 0)]
    linarith

/-! ## All numbers -/

/-- The number of the grid nearest to a real number. -/
noncomputable def rounded (r : ℝ) : ℝ :=
  if r = 0 then 0 else if 0 < r then roundedPos r else -roundedPos (-r)

@[simp] theorem rounded_zero : rounded 0 = 0 := if_pos rfl

theorem rounded_of_pos {r : ℝ} (hr : 0 < r) : rounded r = roundedPos r := by
  rw [rounded, if_neg hr.ne', if_pos hr]

@[simp] theorem rounded_neg (r : ℝ) : rounded (-r) = -rounded r := by
  unfold rounded
  rcases lt_trichotomy r 0 with h | rfl | h
  · simp [h.ne, h, h.le.not_gt]
  · simp
  · simp [h.ne', h, h.le.not_gt]

/-- What is proved of positive numbers holds of negative ones by symmetry. -/
theorem rounded_induction {P : ℝ → Prop} (hzero : P 0) (hpos : ∀ r, 0 < r → P r)
    (hneg : ∀ r, P r → P (-r)) (r : ℝ) : P r := by
  rcases lt_trichotomy r 0 with h | rfl | h
  · have := hneg _ (hpos (-r) (neg_pos.mpr h))
    rwa [neg_neg] at this
  · exact hzero
  · exact hpos r h

theorem onGrid_rounded (r : ℝ) : OnGrid (rounded r) := by
  induction r using rounded_induction with
  | hzero =>
    rw [rounded_zero]
    exact .zero
  | hpos r hr =>
    rw [rounded_of_pos hr]
    exact onGrid_roundedPos hr
  | hneg r ih =>
    rw [rounded_neg]
    exact ih.neg

/-- No number of the grid is closer to a real number than the rounded one. -/
theorem abs_rounded_sub_le (r : ℝ) {y : ℝ} (hy : OnGrid y) : |rounded r - r| ≤ |y - r| := by
  induction r using rounded_induction generalizing y with
  | hzero => simp
  | hpos r hr =>
    rw [rounded_of_pos hr]
    exact abs_roundedPos_sub_le_of_onGrid hr hy
  | hneg r ih =>
    have := ih hy.neg
    rw [← abs_neg, ← abs_neg (-y - r)] at this
    rw [rounded_neg]
    convert this using 2 <;> ring

theorem rounded_eq_self {r : ℝ} (h : OnGrid r) : rounded r = r := by
  have := abs_rounded_sub_le r h
  rw [sub_self, abs_zero] at this
  exact sub_eq_zero.mp (abs_nonpos_iff.mp this)

theorem rounded_mono {r s : ℝ} (h : r ≤ s) : rounded r ≤ rounded s := by
  rcases h.eq_or_lt with rfl | h
  · exact le_rfl
  · by_contra hlt
    have hr := abs_rounded_sub_le r (onGrid_rounded s)
    have hs := abs_rounded_sub_le s (onGrid_rounded r)
    -- Each number is closest to its own rounding, so `r` lies above the midpoint of the two and `s`
    -- below it.
    rw [not_le] at hlt
    rw [← sq_le_sq] at hr hs
    nlinarith

theorem rounded_le {r y : ℝ} (hy : OnGrid y) (h : r ≤ y) : rounded r ≤ y :=
  rounded_eq_self hy ▸ rounded_mono h

theorem le_rounded {r y : ℝ} (hy : OnGrid y) (h : y ≤ r) : y ≤ rounded r :=
  rounded_eq_self hy ▸ rounded_mono h

theorem rounded_nonneg {r : ℝ} (h : 0 ≤ r) : 0 ≤ rounded r := le_rounded .zero h

/-- Rounding errs by one part in `2 ^ 24`, or by half the smallest unit. -/
theorem abs_rounded_sub_self_le (r : ℝ) :
    |rounded r - r| ≤ max (|r| / 2 ^ 24) (2 ^ (-150 : ℤ)) := by
  induction r using rounded_induction with
  | hzero => simp
  | hpos r hr =>
    rw [rounded_of_pos hr, abs_of_pos hr]
    exact (abs_roundedPos_sub_le_half r).trans (ulp_half_le hr)
  | hneg r ih =>
    rw [rounded_neg, abs_neg, neg_sub_neg, abs_sub_comm]
    exact ih

/-- A multiple of the smallest unit loses none of it. -/
theorem abs_rounded_sub_self_le_of_multiple {r : ℝ} {k : ℤ} (hr : r = k * 2 ^ (-149 : ℤ)) :
    |rounded r - r| ≤ |r| / 2 ^ 24 := by
  by_cases hk : |k| ≤ 2 ^ 24
  · rw [rounded_eq_self ⟨k, -149, hk, le_rfl, hr⟩, sub_self, abs_zero]
    positivity
  · apply (abs_rounded_sub_self_le r).trans
    apply max_le le_rfl
    have hk' : (2 : ℝ) ^ 24 ≤ |(k : ℝ)| := by exact_mod_cast (not_le.mp hk).le
    have hunit : (0 : ℝ) < 2 ^ (-149 : ℤ) := by positivity
    rw [hr, abs_mul, abs_of_pos hunit, le_div_iff₀ (by positivity)]
    have hhalf : (2 : ℝ) ^ (-150 : ℤ) ≤ 2 ^ (-149 : ℤ) :=
      zpow_le_zpow_right₀ one_le_two (by norm_num)
    nlinarith

/-- The difference of two numbers of the grid errs by one part in `2 ^ 24`, however small it is. -/
theorem abs_rounded_sub_sub_le {y z : ℝ} (hy : OnGrid y) (hz : OnGrid z) :
    |rounded (y - z) - (y - z)| ≤ |y - z| / 2 ^ 24 := by
  obtain ⟨j, rfl⟩ := hy.exists_multiple
  obtain ⟨k, rfl⟩ := hz.exists_multiple
  apply abs_rounded_sub_self_le_of_multiple (k := j - k)
  push_cast
  ring

/-! ## The rounding of the format -/

/-- The extended real number that the format rounds a real one to. -/
noncomputable def nearest (r : ℝ) : EReal :=
  if 2 ^ 128 ≤ rounded r then ⊤ else if rounded r ≤ -2 ^ 128 then ⊥ else rounded r

theorem nearest_of_abs_lt {r : ℝ} (h : |rounded r| < 2 ^ 128) : nearest r = rounded r := by
  obtain ⟨hlow, hhigh⟩ := abs_lt.mp h
  rw [nearest, if_neg hhigh.not_ge, if_neg hlow.not_ge]

theorem nearest_mono {r s : ℝ} (h : r ≤ s) : nearest r ≤ nearest s := by
  have hrs := rounded_mono h
  unfold nearest
  split_ifs with h₁ h₂ h₃ h₄ h₅ h₆ <;> first
    | exact le_rfl
    | exact le_top
    | exact bot_le
    | exact EReal.coe_le_coe_iff.mpr hrs
    | exact absurd hrs (by linarith)

theorem nearest_nonneg {r : ℝ} (h : 0 ≤ r) : 0 ≤ nearest r := by
  have hzero : nearest 0 = 0 := by
    rw [nearest_of_abs_lt (by rw [rounded_zero]; norm_num), rounded_zero]
    rfl
  rw [← hzero]
  exact nearest_mono h

/-- A rounding that is finite is the one of the grid. -/
theorem nearest_eq_rounded {r : ℝ} (htop : nearest r ≠ ⊤) (hbot : nearest r ≠ ⊥) :
    nearest r = rounded r := by
  unfold nearest at htop hbot ⊢
  split_ifs with hhigh hlow
  · rw [if_pos hhigh] at htop
    exact absurd rfl htop
  · rw [if_neg hhigh, if_pos hlow] at hbot
    exact absurd rfl hbot
  · rfl

theorem rounded_le_of_nearest_le {r s : ℝ} (hs : 0 ≤ s) (h : nearest r ≤ s) : rounded r ≤ s := by
  unfold nearest at h
  split_ifs at h with hhigh hlow
  · exact absurd h (EReal.coe_lt_top s).not_ge
  · have : (0 : ℝ) < 2 ^ 128 := by positivity
    linarith
  · exact EReal.coe_le_coe_iff.mp h

end PlanarDynamics.Binary32
