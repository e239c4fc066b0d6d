import PlanarDynamics.Proofs.Geometry.Normalize

/-!
# The side that a line faces

The normal of a level or upright segment that should face a point is never on the other side of the
line. It is a product of three distances before it is scaled to length one, and the scaling squares
it again: where the distances are from `2 ^ (-20)` to `2 ^ 20` the normal does face the point, but
the sixth power of much larger or smaller ones leaves the format, and the normal is then zero.
-/

namespace PlanarDynamics

open Binary32

/-! ## Exchanging the axes -/

namespace Vec

/-- The vector with its components exchanged. -/
def swap {α : Type} (v : Vec α) : Vec α := ⟨v.y, v.x⟩

theorem lengthSq_swap (v : Vec Float32) : v.swap.lengthSq = v.lengthSq := add_swap ..

theorem dot_swap (v w : Vec Float32) : v.swap.dot w.swap = v.dot w := add_swap ..

theorem normalizeOrZero_swap (v : Vec Float32) :
    v.swap.normalizeOrZero = v.normalizeOrZero.swap := by
  have hlength : v.swap.length = v.length := congrArg Scalar.sqrt (lengthSq_swap v)
  unfold normalizeOrZero
  rw [hlength]
  dsimp only
  split <;> rfl

end Vec

namespace Line

/-- The vector that the normal of a line facing `point` is the direction of. -/
def away {α : Type} [Scalar α] (start stop point : Vec α) : Vec α :=
  (stop - start).lengthSq • (point - start) -
    (stop - start).dot (point - start) • (stop - start)

variable {start stop point : Vec Float32}

theorem normal_facing (start stop point : Vec Float32) :
    (facing start stop point).normal = (away start stop point).normalizeOrZero := rfl

theorem away_swap (start stop point : Vec Float32) :
    away start.swap stop.swap point.swap = (away start stop point).swap := by
  have hsub (v w : Vec Float32) : v.swap - w.swap = (v - w).swap := rfl
  have hsmul (s : Float32) (v : Vec Float32) : s • v.swap = (s • v).swap := rfl
  unfold away
  rw [hsub, hsub, Vec.lengthSq_swap, Vec.dot_swap, hsmul, hsmul, hsub]

/-! ## Level segments -/

/-- The exact way from the start of a level segment to its end. -/
noncomputable def run (start stop : Vec Float32) : ℝ := toReal stop.x - toReal start.x

/-- The exact way from the start of a level segment to the point, along the segment. -/
noncomputable def along (start point : Vec Float32) : ℝ := toReal point.x - toReal start.x

/-- The exact way from the line of a level segment to the point. -/
noncomputable def offset (start point : Vec Float32) : ℝ := toReal point.y - toReal start.y

/-- A level segment with distinct ends, and a point off its line. -/
structure IsLevelBeside (start stop point : Vec Float32) : Prop where
  startFinite : start.IsFinite
  stopFinite : stop.IsFinite
  pointFinite : point.IsFinite
  level : (start.y == stop.y) = true
  distinct : ¬ (start.x == stop.x) = true
  off : ¬ (point.y == start.y) = true

namespace IsLevelBeside

theorem rise (h : IsLevelBeside start stop point) : (stop.y - start.y == 0) = true := by
  have hlevel := (beq_iff_isNaN_value.mp h.level).2.2
  rw [value_eq_toReal h.startFinite.y, value_eq_toReal h.stopFinite.y,
    EReal.coe_eq_coe_iff] at hlevel
  exact beq_zero_of_nearest (value_sub h.stopFinite.y h.startFinite.y) (by rw [hlevel, sub_self])

theorem offset_ne_zero (h : IsLevelBeside start stop point) : offset start point ≠ 0 := by
  intro hzero
  apply h.off
  rw [beq_iff_value_eq (isNaN_of_isFinite h.pointFinite.y) (isNaN_of_isFinite h.startFinite.y),
    value_eq_toReal h.pointFinite.y, value_eq_toReal h.startFinite.y, sub_eq_zero.mp hzero]

/-- The squared length is the square of the run. -/
theorem alike_lengthSq (h : IsLevelBeside start stop point) :
    Alike (stop - start).lengthSq ((stop.x - start.x) * (stop.x - start.x)) :=
  alike_add_of_beq_zero _ (mul_beq_zero h.rise (isFinite_of_beq_zero h.rise))

/-- The component across the segment, where nothing overflows. -/
theorem alike_away (h : IsLevelBeside start stop point)
    (hdot : ((stop - start).dot (point - start)).isFinite = true) :
    Alike (away start stop point).y
      ((point.y - start.y) * ((stop.x - start.x) * (stop.x - start.x))) :=
  (alike_sub_of_beq_zero _ (mul_beq_zero h.rise hdot)).trans
    ((Alike.refl (point.y - start.y)).mul h.alike_lengthSq)

/-- What can be scaled to length one has overflowed nowhere. -/
theorem isFinite_of_isScalable (h : IsLevelBeside start stop point)
    (hscalable : (away start stop point).IsScalable) :
    (stop.x - start.x).isFinite = true ∧ (point.y - start.y).isFinite = true ∧
      ((stop.x - start.x) * (stop.x - start.x)).isFinite = true ∧
      ((stop - start).dot (point - start)).isFinite = true := by
  have hy := (Vec.isFinite_of_lengthSq hscalable.isFinite).y
  have hproduct := isFinite_of_isFinite_sub hy
  have hsq := isFinite_right_of_mul hproduct
  have hrun := h.alike_lengthSq.isFinite ▸ hsq
  exact ⟨isFinite_of_isFinite_mul hrun, isFinite_of_isFinite_mul hproduct, hrun,
    isFinite_right_of_mul (isFinite_right_of_sub hy)⟩

theorem toReal_away (h : IsLevelBeside start stop point)
    (hscalable : (away start stop point).IsScalable) :
    toReal (away start stop point).y = rounded (rounded (offset start point) *
      toReal ((stop.x - start.x) * (stop.x - start.x))) := by
  obtain ⟨-, hoff, hsq, hdot⟩ := h.isFinite_of_isScalable hscalable
  have halike := h.alike_away hdot
  have hy := (Vec.isFinite_of_lengthSq hscalable.isFinite).y
  rw [halike.toReal, toReal_of_nearest (value_mul hoff hsq) (halike.isFinite ▸ hy),
    toReal_of_nearest (value_sub h.pointFinite.y h.startFinite.y) hoff, offset]

/-- The normal is not on the other side of the line. -/
theorem side_of_isScalable (h : IsLevelBeside start stop point)
    (hscalable : (away start stop point).IsScalable) :
    0 ≤ offset start point * toReal (facing start stop point).normal.y := by
  have hscaled := (Vec.isScaled_normalizeOrZero hscalable).2
  rw [← normal_facing] at hscaled
  by_cases hzero : toReal (away start stop point).y = 0
  · rw [hscaled.zero hzero, mul_zero]
  · obtain ⟨hrun, -, hsq, -⟩ := h.isFinite_of_isScalable hscalable
    have hsq0 : 0 ≤ toReal ((stop.x - start.x) * (stop.x - start.x)) :=
      (le_iff_toReal_le (by rfl) hsq).mp (sq_spec hrun).2
    have haway : 0 ≤ offset start point * toReal (away start stop point).y := by
      rw [h.toReal_away hscalable]
      rcases le_total 0 (offset start point) with hoff | hoff
      · exact mul_nonneg hoff (rounded_nonneg (mul_nonneg (rounded_nonneg hoff) hsq0))
      · exact mul_nonneg_of_nonpos_of_nonpos hoff
          (rounded_nonpos (mul_nonpos_of_nonpos_of_nonneg (rounded_nonpos hoff) hsq0))
    -- The normal is on the side of the component, and the component on the side of the point.
    have hproduct := mul_nonneg haway hscaled.side
    have hsquare : 0 < toReal (away start stop point).y ^ 2 := by positivity
    apply nonneg_of_mul_nonneg_left _ hsquare
    calc 0 ≤ _ := hproduct
      _ = _ := by ring

/-! ## Sizes -/

/-- The scalar product is that of the components along the segment. -/
theorem alike_dot (h : IsLevelBeside start stop point)
    (hoff : (point.y - start.y).isFinite = true) :
    Alike ((stop - start).dot (point - start)) ((stop.x - start.x) * (point.x - start.x)) :=
  alike_add_of_beq_zero _ (mul_beq_zero h.rise hoff)

/-- A bound on the distances is one on the vector before it is scaled. -/
theorem atMost_away (h : IsLevelBeside start stop point) {a b : ℤ}
    (hrun : AtMost a (stop.x - start.x)) (hoff : AtMost b (point.y - start.y))
    (halong : AtMost b (point.x - start.x)) (ha : -74 ≤ a ∧ a ≤ 63)
    (hab : -149 ≤ a + b ∧ a + b ≤ 127) (hlow : -149 ≤ b + (a + a)) (hhigh : b + (a + a) ≤ 126) :
    AtMost (b + (a + a) + 1) (away start stop point).x ∧
      AtMost (b + (a + a)) (away start stop point).y := by
  have hsq := hrun.mul hrun (by omega) (by omega)
  have hlengthSq : AtMost (a + a) (stop - start).lengthSq := hsq.of_alike h.alike_lengthSq
  have hdot : AtMost (a + b) ((stop - start).dot (point - start)) :=
    (hrun.mul halong hab.1 hab.2).of_alike (h.alike_dot hoff.isFinite)
  -- Along the segment two products of one size should cancel; rounding may leave a rest.
  have hfirst : AtMost (b + (a + a)) ((point.x - start.x) * (stop - start).lengthSq) :=
    halong.mul hlengthSq hlow (by omega)
  have hsecond : AtMost (b + (a + a))
      ((stop.x - start.x) * (stop - start).dot (point - start)) := by
    have hsum : b + (a + a) = a + (a + b) := by ring
    rw [hsum] at hlow hhigh ⊢
    exact hrun.mul hdot hlow (by omega)
  exact ⟨hfirst.sub hsecond (by omega) hhigh,
    (hoff.mul hsq hlow (by omega)).of_alike (h.alike_away hdot.isFinite)⟩

/-- Bounds on the exact distances are bounds on the differences that stand for them. -/
theorem atMost_distances (h : IsLevelBeside start stop point) {a b : ℤ}
    (hrun : |run start stop| ≤ 2 ^ a) (hoff : |offset start point| ≤ 2 ^ b)
    (halong : |along start point| ≤ 2 ^ b) (ha : -149 ≤ a ∧ a ≤ 127) (hb : -149 ≤ b ∧ b ≤ 127) :
    AtMost a (stop.x - start.x) ∧ AtMost b (point.y - start.y) ∧ AtMost b (point.x - start.x) :=
  ⟨.of_nearest (value_sub h.stopFinite.x h.startFinite.x) hrun ha.1 ha.2,
    .of_nearest (value_sub h.pointFinite.y h.startFinite.y) hoff hb.1 hb.2,
    .of_nearest (value_sub h.pointFinite.x h.startFinite.x) halong hb.1 hb.2⟩

/-- Distances whose sixth power is in the format have a normal, and it faces the point. -/
theorem faces (h : IsLevelBeside start stop point)
    (hrun : 2 ^ (-20 : ℤ) ≤ |run start stop| ∧ |run start stop| ≤ 2 ^ (20 : ℤ))
    (hoff : 2 ^ (-20 : ℤ) ≤ |offset start point| ∧ |offset start point| ≤ 2 ^ (20 : ℤ))
    (halong : |along start point| ≤ 2 ^ (20 : ℤ)) :
    0 < offset start point * toReal (facing start stop point).normal.y := by
  obtain ⟨hrun_le, hoff_le, halong_le⟩ := h.atMost_distances hrun.2 hoff.2 halong (by norm_num)
    (by norm_num)
  have hrun_ge := AtLeast.of_nearest (value_sub h.stopFinite.x h.startFinite.x) hrun_le.isFinite
    hrun.1 (by norm_num)
  have hoff_ge := AtLeast.of_nearest (value_sub h.pointFinite.y h.startFinite.y) hoff_le.isFinite
    hoff.1 (by norm_num)
  obtain ⟨hx, hy⟩ := h.atMost_away hrun_le hoff_le halong_le (by norm_num) (by norm_num)
    (by norm_num) (by norm_num)
  have hdot : ((stop - start).dot (point - start)).isFinite = true :=
    (h.alike_dot hoff_le.isFinite).isFinite.trans
      (hrun_le.mul halong_le (by norm_num) (by norm_num)).isFinite
  have haway := h.alike_away hdot
  have hsq := hrun_ge.mul hrun_ge (hrun_le.mul hrun_le (by norm_num) (by norm_num)).isFinite
    (by norm_num)
  have hlarge : AtLeast (-20 + (-20 + -20)) (away start stop point).y :=
    (hoff_ge.mul hsq (haway.isFinite ▸ hy.isFinite) (by norm_num)).of_alike haway
  have hscalable : (away start stop point).IsScalable :=
    Vec.isScalable_of_sizes (hx.mono (by norm_num)) (hy.mono (by norm_num))
      (.inr (hlarge.mono (by norm_num)))
  have hnormal := (Vec.isScaled_normalizeOrZero hscalable).2.ne_zero (hlarge.mono (by norm_num))
  exact lt_of_le_of_ne (h.side_of_isScalable hscalable)
    (mul_ne_zero h.offset_ne_zero hnormal).symm

/-- The square of a product of three large distances overflows. -/
theorem not_isScalable_of_large (h : IsLevelBeside start stop point) {k j : ℕ}
    (hkj : 64 ≤ 2 * k + j) (hrun : 2 ^ k ≤ |run start stop|) (hoff : 2 ^ j ≤ |offset start point|) :
    ¬ (away start stop point).IsScalable := by
  intro hscalable
  obtain ⟨hrun_finite, hoff_finite, hsq_finite, hdot⟩ := h.isFinite_of_isScalable hscalable
  have haway := h.alike_away hdot
  have hy := (Vec.isFinite_of_lengthSq hscalable.isFinite).y
  have hrun' : AtLeast k (stop.x - start.x) :=
    .of_nearest (value_sub h.stopFinite.x h.startFinite.x) hrun_finite
      (by rwa [zpow_natCast]) (by omega)
  have hoff' : AtLeast j (point.y - start.y) :=
    .of_nearest (value_sub h.pointFinite.y h.startFinite.y) hoff_finite
      (by rwa [zpow_natCast]) (by omega)
  have hlarge : AtLeast (j + (k + k)) (away start stop point).y :=
    (hoff'.mul (hrun'.mul hrun' hsq_finite (by omega)) (haway.isFinite ▸ hy) (by omega)).of_alike
      haway
  have hsquare := isFinite_right_of_add hscalable.isFinite
  rw [hlarge.mul_infinite hlarge (by omega)] at hsquare
  cases hsquare

/-- The square of a product of three small distances is lost. -/
theorem not_isScalable_of_small (h : IsLevelBeside start stop point)
    (hrun : |run start stop| ≤ 2 ^ (-26 : ℤ)) (hoff : |offset start point| ≤ 2 ^ (-26 : ℤ))
    (halong : |along start point| ≤ 2 ^ (-26 : ℤ)) : ¬ (away start stop point).IsScalable := by
  obtain ⟨hrun', hoff', halong'⟩ := h.atMost_distances hrun hoff halong (by norm_num)
    (by norm_num)
  obtain ⟨hx, hy⟩ := h.atMost_away hrun' hoff' halong' (by norm_num) (by norm_num) (by norm_num)
    (by norm_num)
  exact Vec.not_isScalable_of_small (hx.mono (by norm_num)) (hy.mono (by norm_num))

end IsLevelBeside

/-- What holds of the normal `n` of a level segment that should face the point, where `w` is the
vector that it is the direction of. -/
structure FacesInRange (start stop point n w : Vec Float32) : Prop where
  isFinite : n.IsFinite
  side : 0 ≤ offset start point * toReal n.y
  eq_zero_iff : n = 0 ↔ ¬ w.IsScalable
  faces : 2 ^ (-20 : ℤ) ≤ |run start stop| ∧ |run start stop| ≤ 2 ^ (20 : ℤ) →
    2 ^ (-20 : ℤ) ≤ |offset start point| ∧ |offset start point| ≤ 2 ^ (20 : ℤ) →
      |along start point| ≤ 2 ^ (20 : ℤ) → 0 < offset start point * toReal n.y
  large : ∀ k j : ℕ, 64 ≤ 2 * k + j → 2 ^ k ≤ |run start stop| →
    2 ^ j ≤ |offset start point| → n = 0
  small : |run start stop| ≤ 2 ^ (-26 : ℤ) → |offset start point| ≤ 2 ^ (-26 : ℤ) →
    |along start point| ≤ 2 ^ (-26 : ℤ) → n = 0

theorem IsLevelBeside.facesInRange (h : IsLevelBeside start stop point) :
    FacesInRange start stop point (facing start stop point).normal (away start stop point) where
  isFinite := Vec.isFinite_normalizeOrZero _
  side := by
    by_cases hscalable : (away start stop point).IsScalable
    · exact h.side_of_isScalable hscalable
    · rw [normal_facing, Vec.normalizeOrZero_of_not hscalable]
      exact (mul_zero _).ge
  eq_zero_iff := Vec.normalizeOrZero_eq_zero_iff
  faces := h.faces
  large _ _ hkj hrun hoff := Vec.normalizeOrZero_of_not (h.not_isScalable_of_large hkj hrun hoff)
  small hrun hoff halong :=
    Vec.normalizeOrZero_of_not (h.not_isScalable_of_small hrun hoff halong)

/-- The normal of a level segment, and that of an upright one with the axes exchanged, is never on
the other side than the point that it should face. It faces the point where the distances are from
`2 ^ (-20)` to `2 ^ 20`. It is zero if and only if the squared length of what it is the direction of
is zero or not finite, as it is where the square of the run times the offset reaches `2 ^ 64`, and
where no distance is above `2 ^ (-26)`. -/
theorem facing_level_and_upright (start stop point : Vec Float32) :
    (IsLevelBeside start stop point → FacesInRange start stop point
      (facing start stop point).normal (away start stop point)) ∧
    (IsLevelBeside start.swap stop.swap point.swap →
      FacesInRange start.swap stop.swap point.swap (facing start stop point).normal.swap
        (away start stop point).swap) := by
  refine ⟨IsLevelBeside.facesInRange, fun h => ?_⟩
  have hswapped := h.facesInRange
  rwa [normal_facing, away_swap, Vec.normalizeOrZero_swap] at hswapped

/-- A level segment with a point above it, and the upright one with a point to its right. -/
theorem facing_level_and_upright_both :
    FacesInRange ⟨0, 0⟩ ⟨2, 0⟩ ⟨1, 3⟩ (facing ⟨0, 0⟩ ⟨2, 0⟩ ⟨1, 3⟩).normal
        (away ⟨0, 0⟩ ⟨2, 0⟩ ⟨1, 3⟩) ∧
      FacesInRange ⟨0, 0⟩ ⟨2, 0⟩ ⟨1, 3⟩ (facing ⟨0, 0⟩ ⟨0, 2⟩ ⟨3, 1⟩).normal.swap
        (away ⟨0, 0⟩ ⟨0, 2⟩ ⟨3, 1⟩).swap := by
  have hbeside : IsLevelBeside ⟨0, 0⟩ ⟨2, 0⟩ ⟨1, 3⟩ := by
    constructor <;> first | decide +kernel | constructor <;> decide +kernel
  exact ⟨(facing_level_and_upright ⟨0, 0⟩ ⟨2, 0⟩ ⟨1, 3⟩).1 hbeside,
    (facing_level_and_upright ⟨0, 0⟩ ⟨0, 2⟩ ⟨3, 1⟩).2 hbeside⟩

/-- A level segment of length `1e7` does not face a point that is as far above it. -/
theorem long_segment_faces_nowhere :
    IsLevelBeside ⟨0, 0⟩ ⟨1e7, 0⟩ ⟨0, 1e7⟩ ∧ (facing ⟨0, 0⟩ ⟨1e7, 0⟩ ⟨0, 1e7⟩).normal =
      (0 : Vec Float32) := by
  constructor
  · constructor <;> first | decide +kernel | constructor <;> decide +kernel
  · decide +kernel

end Line

end PlanarDynamics
