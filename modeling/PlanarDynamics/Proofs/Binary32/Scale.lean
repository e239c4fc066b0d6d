import PlanarDynamics.Proofs.Binary32.SquareRoot

/-!
# Sizes up to powers of two

The powers of two from `2 ^ (-149)` up are numbers of the format, so rounding does not take a result
across them. A bound on the operands by powers of two therefore gives one on the result of every
operation, from above and from below, and says whether it overflows.
-/

namespace PlanarDynamics.Binary32

section Rounding

variable {r : ℝ} {a : ℤ}

theorem onGrid_two_zpow (ha : -149 ≤ a) : OnGrid (2 ^ a) :=
  ⟨1, a, by norm_num, ha, by rw [Int.cast_one, one_mul]⟩

theorem abs_rounded (r : ℝ) : |rounded r| = rounded |r| := by
  rcases le_total 0 r with h | h
  · rw [abs_of_nonneg h, abs_of_nonneg (rounded_nonneg h)]
  · have hneg := rounded_nonneg (neg_nonneg.mpr h)
    rw [rounded_neg] at hneg
    rw [abs_of_nonpos h, rounded_neg, abs_of_nonpos (neg_nonneg.mp hneg)]

theorem abs_rounded_le (ha : -149 ≤ a) (h : |r| ≤ 2 ^ a) : |rounded r| ≤ 2 ^ a :=
  abs_rounded r ▸ rounded_le (onGrid_two_zpow ha) h

theorem le_abs_rounded (ha : -149 ≤ a) (h : 2 ^ a ≤ |r|) : 2 ^ a ≤ |rounded r| :=
  abs_rounded r ▸ le_rounded (onGrid_two_zpow ha) h

/-- Rounding a number that is not negative does not more than double it. -/
theorem rounded_le_two_mul {a : ℝ} (ha : 0 ≤ a) : rounded a ≤ 2 * a := by
  have hnear := abs_rounded_sub_le a .zero
  rw [zero_sub, abs_neg, abs_of_nonneg ha] at hnear
  have := (le_abs_self _).trans hnear
  linarith

theorem rounded_nonpos (h : r ≤ 0) : rounded r ≤ 0 := rounded_zero ▸ rounded_mono h

/-- Rounding does not change the side of zero. -/
theorem mul_rounded_nonneg (r : ℝ) : 0 ≤ r * rounded r := by
  rcases le_total 0 r with h | h
  · exact mul_nonneg h (rounded_nonneg h)
  · exact mul_nonneg_of_nonpos_of_nonpos h (rounded_nonpos h)

/-- No number of the grid is closer to zero than the smallest unit. -/
theorem OnGrid.le_abs (h : OnGrid r) (hr : r ≠ 0) : 2 ^ (-149 : ℤ) ≤ |r| := by
  obtain ⟨k, rfl⟩ := h.exists_multiple
  have hk : k ≠ 0 := by
    rintro rfl
    exact hr (by rw [Int.cast_zero, zero_mul])
  have hone : (1 : ℝ) ≤ |(k : ℝ)| := by exact_mod_cast Int.one_le_abs hk
  have hunit : (0 : ℝ) < 2 ^ (-149 : ℤ) := zpow_pos two_pos _
  rw [abs_mul, abs_of_pos hunit]
  exact le_mul_of_one_le_left hunit.le hone

theorem rounded_eq_zero (h : |r| ≤ 2 ^ (-151 : ℤ)) : rounded r = 0 := by
  by_contra hne
  have hlow := (onGrid_rounded r).le_abs hne
  have hhigh := rounded_le_two_mul (abs_nonneg r)
  rw [← abs_rounded] at hhigh
  have hhalf : (2 : ℝ) * 2 ^ (-151 : ℤ) < 2 ^ (-149 : ℤ) := by norm_num
  linarith

end Rounding

variable {a b : ℤ} {x y : Float32} {r : ℝ}

/-- A rounding is infinite from `2 ^ 128` on. -/
theorem not_isFinite_of_nearest (hx : x.isNaN = false ∧ value x = nearest r)
    (h : 2 ^ (128 : ℤ) ≤ |r|) : x.isFinite = false := by
  by_contra hf
  rw [Bool.not_eq_false] at hf
  have hle := le_abs_rounded (by norm_num) h
  rw [← toReal_of_nearest hx hf, zpow_ofNat] at hle
  exact hle.not_gt (abs_realOf_lt (canonical_toModel x) (fits_toModel x))

/-! ## Bounds from above -/

/-- A finite number of size at most `2 ^ a`. -/
structure AtMost (a : ℤ) (x : Float32) : Prop where
  isFinite : x.isFinite = true
  abs_le : |toReal x| ≤ 2 ^ a

namespace AtMost

theorem mono (hx : AtMost a x) (h : a ≤ b) : AtMost b x :=
  ⟨hx.isFinite, hx.abs_le.trans (zpow_le_zpow_right₀ one_le_two h)⟩

theorem of_alike (hy : AtMost a y) (h : Alike x y) : AtMost a x :=
  ⟨h.isFinite.trans hy.isFinite, h.toReal.symm ▸ hy.abs_le⟩

theorem of_isFinite (hx : x.isFinite = true) : AtMost 128 x := by
  refine ⟨hx, ?_⟩
  rw [zpow_ofNat]
  exact (abs_realOf_lt (canonical_toModel x) (fits_toModel x)).le

theorem of_nearest (hx : x.isNaN = false ∧ value x = nearest r) (h : |r| ≤ 2 ^ a)
    (hlow : -149 ≤ a) (hhigh : a ≤ 127) : AtMost a x := by
  have hle := abs_rounded_le hlow h
  have hlt : |rounded r| < 2 ^ 128 := by
    calc |rounded r| ≤ 2 ^ a := hle
      _ ≤ 2 ^ (127 : ℤ) := zpow_le_zpow_right₀ one_le_two hhigh
      _ < 2 ^ 128 := by norm_num
  have hvalue := hx.2.trans (nearest_of_abs_lt hlt)
  have hf : x.isFinite = true := by
    apply isFinite_of_value hx.1 <;> rw [hvalue]
    · exact EReal.coe_ne_top _
    · exact EReal.coe_ne_bot _
  exact ⟨hf, (toReal_of_value hf hvalue).symm ▸ hle⟩

theorem mul (hx : AtMost a x) (hy : AtMost b y) (hlow : -149 ≤ a + b) (hhigh : a + b ≤ 127) :
    AtMost (a + b) (x * y) := by
  apply of_nearest (value_mul hx.isFinite hy.isFinite) _ hlow hhigh
  rw [abs_mul, zpow_add₀ two_ne_zero]
  exact mul_le_mul hx.abs_le hy.abs_le (abs_nonneg _) (zpow_nonneg zero_le_two a)

/-- A product below half the smallest unit is lost. -/
theorem mul_lost (hx : AtMost a x) (hy : AtMost b y) (h : a + b ≤ -151) :
    (x * y).isFinite = true ∧ toReal (x * y) = 0 := by
  have hsmall : |toReal x * toReal y| ≤ 2 ^ (-151 : ℤ) := by
    refine le_trans ?_ (zpow_le_zpow_right₀ one_le_two h)
    rw [abs_mul, zpow_add₀ two_ne_zero]
    exact mul_le_mul hx.abs_le hy.abs_le (abs_nonneg _) (zpow_nonneg zero_le_two a)
  have hfinite : (x * y).isFinite = true :=
    (of_nearest (a := -149) (value_mul hx.isFinite hy.isFinite)
      (hsmall.trans (zpow_le_zpow_right₀ one_le_two (by norm_num))) (by norm_num)
        (by norm_num)).isFinite
  refine ⟨hfinite, ?_⟩
  rw [toReal_of_nearest (value_mul hx.isFinite hy.isFinite) hfinite, rounded_eq_zero hsmall]

theorem add (hx : AtMost a x) (hy : AtMost a y) (hlow : -150 ≤ a) (hhigh : a ≤ 126) :
    AtMost (a + 1) (x + y) := by
  apply of_nearest (value_add hx.isFinite hy.isFinite) _ (by omega) (by omega)
  rw [zpow_add_one₀ two_ne_zero, mul_two]
  exact (abs_add_le _ _).trans (add_le_add hx.abs_le hy.abs_le)

theorem sub (hx : AtMost a x) (hy : AtMost a y) (hlow : -150 ≤ a) (hhigh : a ≤ 126) :
    AtMost (a + 1) (x - y) := by
  apply of_nearest (value_sub hx.isFinite hy.isFinite) _ (by omega) (by omega)
  rw [zpow_add_one₀ two_ne_zero, mul_two]
  exact (abs_sub _ _).trans (add_le_add hx.abs_le hy.abs_le)

theorem sqrt (hx : AtMost (a + a) x) (hx0 : 0 ≤ toReal x) (hlow : -149 ≤ a) (hhigh : a ≤ 127) :
    AtMost a (Scalar.sqrt x) := by
  apply of_nearest (value_sqrt hx.isFinite hx0) _ hlow hhigh
  rw [abs_of_nonneg (Real.sqrt_nonneg _), Real.sqrt_le_left (zpow_nonneg zero_le_two a), sq,
    ← zpow_add₀ two_ne_zero]
  exact (le_abs_self _).trans hx.abs_le

end AtMost

/-! ## Bounds from below -/

/-- A finite number of size at least `2 ^ a`. -/
structure AtLeast (a : ℤ) (x : Float32) : Prop where
  isFinite : x.isFinite = true
  le_abs : 2 ^ a ≤ |toReal x|

namespace AtLeast

theorem mono (hx : AtLeast b x) (h : a ≤ b) : AtLeast a x :=
  ⟨hx.isFinite, (zpow_le_zpow_right₀ one_le_two h).trans hx.le_abs⟩

theorem of_alike (hy : AtLeast a y) (h : Alike x y) : AtLeast a x :=
  ⟨h.isFinite.trans hy.isFinite, h.toReal.symm ▸ hy.le_abs⟩

theorem size_pos (hx : AtLeast a x) : 0 < |toReal x| := (zpow_pos two_pos a).trans_le hx.le_abs

theorem ne_zero (hx : AtLeast a x) : toReal x ≠ 0 := abs_pos.mp hx.size_pos

theorem of_ne_zero (hx : x.isFinite = true) (h : toReal x ≠ 0) : AtLeast (-149) x :=
  ⟨hx, (onGrid_toReal x).le_abs h⟩

theorem of_nearest (hx : x.isNaN = false ∧ value x = nearest r) (hf : x.isFinite = true)
    (h : 2 ^ a ≤ |r|) (hlow : -149 ≤ a) : AtLeast a x :=
  ⟨hf, toReal_of_nearest hx hf ▸ le_abs_rounded hlow h⟩

theorem le_abs_mul (hx : AtLeast a x) (hy : AtLeast b y) : 2 ^ (a + b) ≤ |toReal x * toReal y| := by
  rw [abs_mul, zpow_add₀ two_ne_zero]
  exact mul_le_mul hx.le_abs hy.le_abs (zpow_nonneg zero_le_two b) (abs_nonneg _)

theorem mul (hx : AtLeast a x) (hy : AtLeast b y) (hf : (x * y).isFinite = true)
    (hlow : -149 ≤ a + b) : AtLeast (a + b) (x * y) :=
  of_nearest (value_mul hx.isFinite hy.isFinite) hf (hx.le_abs_mul hy) hlow

theorem mul_infinite (hx : AtLeast a x) (hy : AtLeast b y) (h : 128 ≤ a + b) :
    (x * y).isFinite = false :=
  not_isFinite_of_nearest (value_mul hx.isFinite hy.isFinite)
    ((zpow_le_zpow_right₀ one_le_two h).trans (hx.le_abs_mul hy))

theorem sqrt (hx : AtLeast (a + a) x) (hx0 : 0 ≤ toReal x) (hf : (Scalar.sqrt x).isFinite = true)
    (hlow : -149 ≤ a) : AtLeast a (Scalar.sqrt x) := by
  apply of_nearest (value_sqrt hx.isFinite hx0) hf _ hlow
  have hsq := hx.le_abs
  rw [abs_of_nonneg hx0] at hsq
  rw [abs_of_nonneg (Real.sqrt_nonneg _), Real.le_sqrt' (zpow_pos two_pos a), sq,
    ← zpow_add₀ two_ne_zero]
  exact hsq

theorem div (hx : AtLeast a x) (hy : AtMost b y) (hy0 : toReal y ≠ 0)
    (hf : (x / y).isFinite = true) (hlow : -149 ≤ a - b) : AtLeast (a - b) (x / y) := by
  apply of_nearest (value_div hx.isFinite hy.isFinite hy0) hf _ hlow
  rw [abs_div, zpow_sub₀ two_ne_zero]
  exact div_le_div₀ (abs_nonneg _) hx.le_abs (abs_pos.mpr hy0) hy.abs_le

end AtLeast

theorem AtMost.of_not_atLeast (hx : x.isFinite = true) (h : ¬ AtLeast a x) : AtMost a x := by
  refine ⟨hx, ?_⟩
  by_contra! hlt
  exact h ⟨hx, hlt.le⟩

theorem AtMost.div (hx : AtMost a x) (hy : AtLeast b y) (hlow : -149 ≤ a - b)
    (hhigh : a - b ≤ 127) : AtMost (a - b) (x / y) := by
  apply of_nearest (value_div hx.isFinite hy.isFinite hy.ne_zero) _ hlow hhigh
  rw [abs_div, zpow_sub₀ two_ne_zero]
  exact div_le_div₀ (zpow_nonneg zero_le_two a) hx.abs_le (zpow_pos two_pos b) hy.le_abs

end PlanarDynamics.Binary32
