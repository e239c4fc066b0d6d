import PlanarDynamics.Proofs.Geometry.Magnitude

/-!
# Unit vectors

A vector has a unit vector if and only if its squared length is a positive finite number: only then
is there a positive finite reciprocal of the length to scale it by. The scaled components are finite
and on the sides of zero that the components are on, and only very small ones are lost.
-/

namespace PlanarDynamics

namespace Binary32

open Float.Model (Format UnpackedFloat)

variable {x r size : Float32}

/-! ## Reciprocals -/

theorem beq_zero_of_toReal (hx : x.isFinite = true) (h : toReal x = 0) : (x == 0) = true := by
  rw [beq_iff_value_eq (isNaN_of_isFinite hx) isNaN_zero, value_eq_toReal hx, h]
  rfl

/-- Only positive finite numbers have a reciprocal that is finite and positive. -/
theorem pos_of_reciprocal (h : (1 / x).isFinite = true) (h0 : 0 < 1 / x) :
    x.isFinite = true ∧ 0 < toReal x := by
  have hdiv : 1 / x = Float32.ofModel (.pack
    (UnpackedFloat.div Format.binary32 (1 : Float32).toModel.unpack x.toModel.unpack)) := rfl
  cases hu : x.toModel.unpack with
  | notANumber =>
    rw [hdiv, hu] at h
    exact absurd h (by decide +kernel)
  | infinity s =>
    rw [hdiv, hu] at h0
    exact absurd h0 (by cases s <;> decide +kernel)
  | zero s =>
    rw [hdiv, hu] at h
    exact absurd h (by cases s <;> decide +kernel)
  | finite s m e hm =>
    have hx : x.isFinite = true := congrArg UnpackedFloat.isFinite hu
    have hne : toReal x ≠ 0 := by
      intro hzero
      obtain ⟨t, ht⟩ := unpack_of_beq_zero (beq_zero_of_toReal hx hzero)
      rw [hu] at ht
      cases ht
    rw [lt_iff_toReal_lt (by rfl) h, toReal_of_nearest (value_div (by rfl) hx hne) h,
      toReal_one] at h0
    refine ⟨hx, ?_⟩
    by_contra! hneg
    exact (rounded_nonpos (one_div_nonpos.mpr hneg)).not_gt h0

/-- A factor that scales a length to about one. -/
structure IsScale (size r : Float32) : Prop where
  atLeast : AtLeast (-64) r
  atMost : AtMost 75 r
  pos : 0 < toReal r
  mul_le : toReal size * toReal r ≤ 2

theorem isScale_reciprocal (hlow : AtLeast (-75) size) (hhigh : AtMost 64 size)
    (h0 : 0 < toReal size) : IsScale size (1 / size) := by
  have hone : AtMost 0 (1 : Float32) ∧ AtLeast 0 (1 : Float32) := by
    refine ⟨⟨by rfl, ?_⟩, by rfl, ?_⟩ <;> simp [toReal_one]
  have hatMost := hone.1.div hlow (by norm_num) (by norm_num)
  have hatLeast := hone.2.div hhigh h0.ne' hatMost.isFinite (by norm_num)
  have hreal := toReal_of_nearest (value_div hone.1.isFinite hhigh.isFinite h0.ne') hatMost.isFinite
  rw [toReal_one] at hreal
  have hinv : 0 ≤ 1 / toReal size := one_div_nonneg.mpr h0.le
  refine ⟨hatLeast, hatMost, ?_, ?_⟩
  · exact lt_of_le_of_ne (hreal ▸ rounded_nonneg hinv) hatLeast.ne_zero.symm
  · calc toReal size * toReal (1 / size) ≤ toReal size * (2 * (1 / toReal size)) := by
          rw [hreal]
          exact mul_le_mul_of_nonneg_left (rounded_le_two_mul hinv) h0.le
      _ = 2 := by field_simp

/-! ## Scaled components -/

/-- The scaled component `y` of a component `x`. -/
structure IsScaled (x y : Float32) : Prop where
  isFinite : y.isFinite = true
  side : 0 ≤ toReal x * toReal y
  zero : toReal x = 0 → toReal y = 0
  ne_zero : AtLeast (-85) x → toReal y ≠ 0

theorem IsScale.isScaled (hr : IsScale size r) (hx : x.isFinite = true)
    (hle : AtLeast (-63) x → |toReal x| ≤ toReal size) : IsScaled x (x * r) := by
  have hfinite : (x * r).isFinite = true := by
    by_cases hlarge : AtLeast (-63) x
    · apply (AtMost.of_nearest (a := 1) (value_mul hx hr.atLeast.isFinite) _ (by norm_num)
        (by norm_num)).isFinite
      rw [abs_mul, abs_of_pos hr.pos, zpow_one]
      exact (mul_le_mul_of_nonneg_right (hle hlarge) hr.pos.le).trans hr.mul_le
    · -- The square of a small component may be lost, so it need not be below the length.
      have hsmall : AtMost (-63) x := .of_not_atLeast hx hlarge
      exact (hsmall.mul hr.atMost (by norm_num) (by norm_num)).isFinite
  have hreal := toReal_of_nearest (value_mul hx hr.atLeast.isFinite) hfinite
  refine ⟨hfinite, ?_, ?_, ?_⟩
  · have hside := mul_rounded_nonneg (toReal x * toReal r)
    rw [← hreal, mul_right_comm] at hside
    exact nonneg_of_mul_nonneg_left hside hr.pos
  · intro hzero
    rw [hreal, hzero, zero_mul, rounded_zero]
  · intro hlarge
    exact (hlarge.mul hr.atLeast hfinite (by norm_num)).ne_zero

end Binary32

open Binary32

namespace Vec

variable {v : Vec Float32}

theorem isFinite_of_lengthSq (h : v.lengthSq.isFinite = true) : v.IsFinite :=
  ⟨isFinite_of_isFinite_mul (isFinite_of_isFinite_add h),
    isFinite_of_isFinite_mul (isFinite_right_of_add h)⟩

/-- The squared length is one that the vector can be scaled by. -/
structure IsScalable (v : Vec Float32) : Prop where
  isFinite : v.lengthSq.isFinite = true
  pos : 0 < toReal v.lengthSq

theorem isScalable_of_sizes (hx : AtMost 63 v.x) (hy : AtMost 63 v.y)
    (hlarge : AtLeast (-74) v.x ∨ AtLeast (-74) v.y) : v.IsScalable := by
  have hfinite := isFinite_lengthSq hx hy
  obtain ⟨hxx, hyy⟩ := le_lengthSq ⟨hx.isFinite, hy.isFinite⟩
  have hpos {a : Float32} (ha : AtLeast (-74) a) (hle : a * a ≤ v.lengthSq) :
      0 < toReal v.lengthSq := by
    have hnonneg := (sq_spec ha.isFinite).2
    have hsq : (a * a).isFinite = true := isFinite_of_between (by rfl) hfinite hnonneg hle
    rw [le_iff_toReal_le (by rfl) hsq] at hnonneg
    rw [le_iff_toReal_le hsq hfinite] at hle
    exact (lt_of_le_of_ne hnonneg (ha.mul ha hsq (by norm_num)).ne_zero.symm).trans_le hle
  exact ⟨hfinite, hlarge.elim (hpos · hxx) (hpos · hyy)⟩

theorem IsScalable.isScale (h : v.IsScalable) : IsScale v.length (1 / v.length) := by
  have hlow : AtLeast (-75 + -75) v.lengthSq :=
    (AtLeast.of_ne_zero h.isFinite h.pos.ne').mono (by norm_num)
  obtain ⟨hhigh, hreal⟩ := toReal_sqrt h.isFinite h.pos.le
  have hlength : AtLeast (-75) v.length := hlow.sqrt h.pos.le hhigh.isFinite (by norm_num)
  have hnonneg : 0 ≤ toReal v.length := hreal ▸ rounded_nonneg (Real.sqrt_nonneg _)
  exact isScale_reciprocal hlength hhigh (lt_of_le_of_ne hnonneg hlength.ne_zero.symm)

theorem isScalable_of_reciprocal (h : (1 / v.length).isFinite = true) (h0 : 0 < 1 / v.length) :
    v.IsScalable := by
  obtain ⟨hlength, hpos⟩ := pos_of_reciprocal h h0
  obtain ⟨hsq, hnonneg⟩ := isFinite_of_isFinite_sqrt hlength
  refine ⟨hsq, lt_of_le_of_ne hnonneg fun hzero => hpos.ne' ?_⟩
  have hreal : toReal v.length = rounded √(toReal v.lengthSq) := (toReal_sqrt hsq hnonneg).2
  rw [hreal, ← hzero, Real.sqrt_zero, rounded_zero]

/-- The unit vector, where there is one. -/
theorem isScaled_normalizeOrZero (h : v.IsScalable) :
    IsScaled v.x v.normalizeOrZero.x ∧ IsScaled v.y v.normalizeOrZero.y := by
  have hscale := h.isScale
  have hpos : 0 < 1 / v.length := (lt_iff_toReal_lt (by rfl) hscale.atLeast.isFinite).mpr hscale.pos
  have hnormal : v.normalizeOrZero = (1 / v.length) • v := by
    apply if_pos
    rw [Bool.and_eq_true, decide_eq_true_eq]
    exact ⟨hscale.atLeast.isFinite, hpos⟩
  obtain ⟨hx, hy⟩ := isFinite_of_lengthSq h.isFinite
  obtain ⟨hlex, hley⟩ := le_lengthSq ⟨hx, hy⟩
  rw [hnormal]
  exact ⟨hscale.isScaled hx fun hlarge => abs_le_sqrt hlarge h.isFinite hlex,
    hscale.isScaled hy fun hlarge => abs_le_sqrt hlarge h.isFinite hley⟩

theorem normalizeOrZero_of_not (h : ¬ v.IsScalable) : v.normalizeOrZero = 0 := by
  apply if_neg
  rw [Bool.and_eq_true, decide_eq_true_eq]
  exact fun hr => h (isScalable_of_reciprocal hr.1 hr.2)

theorem isFinite_normalizeOrZero (v : Vec Float32) : v.normalizeOrZero.IsFinite := by
  by_cases h : v.IsScalable
  · obtain ⟨hx, hy⟩ := isScaled_normalizeOrZero h
    exact ⟨hx.isFinite, hy.isFinite⟩
  · rw [normalizeOrZero_of_not h]
    exact ⟨rfl, rfl⟩

/-- The squares of very small components are lost. -/
theorem not_isScalable_of_small (hx : AtMost (-76) v.x) (hy : AtMost (-76) v.y) :
    ¬ v.IsScalable := by
  intro h
  obtain ⟨hxx, hxx0⟩ := hx.mul_lost hx (by norm_num)
  obtain ⟨hyy, hyy0⟩ := hy.mul_lost hy (by norm_num)
  have hsum : toReal v.lengthSq = rounded (toReal (v.x * v.x) + toReal (v.y * v.y)) :=
    toReal_of_nearest (value_add hxx hyy) h.isFinite
  rw [hxx0, hyy0, add_zero, rounded_zero] at hsum
  exact h.pos.ne' hsum

/-- A vector has no unit vector if and only if its squared length is zero or not finite. -/
theorem normalizeOrZero_eq_zero_iff : v.normalizeOrZero = 0 ↔ ¬ v.IsScalable := by
  refine ⟨fun hzero h => ?_, normalizeOrZero_of_not⟩
  obtain ⟨hx, hy⟩ := isScaled_normalizeOrZero h
  obtain ⟨hfx, hfy⟩ := isFinite_of_lengthSq h.isFinite
  rw [hzero] at hx hy
  have hlost {a : Float32} (ha : a.isFinite = true) (hs : IsScaled a 0) : AtMost (-76) a :=
    .of_not_atLeast ha fun hlarge => hs.ne_zero (hlarge.mono (by norm_num)) rfl
  exact not_isScalable_of_small (hlost hfx hx) (hlost hfy hy) h

end Vec

end PlanarDynamics
