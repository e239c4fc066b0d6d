import Mathlib.Algebra.Field.Subfield.Basic
import Mathlib.Order.Bounds.Basic
import PlanarDynamics.Proofs.Exact.Bounds

/-!
# Distance to a segment in exact arithmetic

The squared distance to the points of a segment is a square function of the place on it, lowest at
the foot of the perpendicular. Where the foot is beyond an end, the end is the nearest place, and a
segment without length is at the same distance everywhere.
-/

namespace PlanarDynamics

/-- Both coordinates are numbers of a field. -/
structure Vec.IsOver (K : Subfield ℝ) (v : Vec Exact) : Prop where
  x : v.x.val ∈ K
  y : v.y.val ∈ K

namespace Segment

variable (start stop p : Vec Exact)

/-- The point of a segment at the share `s` of the way from its start to its end. -/
noncomputable def point (s : ℝ) : Vec Exact := start + (⟨s⟩ : Exact) • (stop - start)

/-- The squared distance of `p` to the point of a segment at the share `s` of the way. -/
noncomputable def distSqAt (s : ℝ) : ℝ := (p - point start stop s).lengthSq.val

/-- The share of the way at which the perpendicular through `p` meets the line of a segment. -/
noncomputable def foot : ℝ := ((p - start).dot (stop - start) / (stop - start).lengthSq).val

/-- The share of the way that is nearest to the foot of the perpendicular, between the ends. -/
noncomputable def nearest : ℝ := max 0 (min (foot start stop p) 1)

theorem distSqAt_eq (s : ℝ) : distSqAt start stop p s =
    (p.x.val - (start.x.val + (stop.x.val - start.x.val) * s)) ^ 2 +
      (p.y.val - (start.y.val + (stop.y.val - start.y.val) * s)) ^ 2 :=
  Vec.val_lengthSq _

theorem distSqAt_zero : distSqAt start stop p 0 = (p - start).lengthSq.val := by
  rw [distSqAt_eq, Vec.val_lengthSq, mul_zero, mul_zero, add_zero, add_zero]
  rfl

theorem distSqAt_one : distSqAt start stop p 1 = (p - stop).lengthSq.val := by
  rw [distSqAt_eq, Vec.val_lengthSq, mul_one, mul_one, add_sub_cancel, add_sub_cancel]
  rfl

theorem lengthSq_sub_comm (p q : Vec Exact) : (p - q).lengthSq.val = (q - p).lengthSq.val := by
  simp only [Vec.val_lengthSq, Vec.x_sub, Vec.y_sub, Exact.val_sub]
  ring

variable {start stop p}

/-- Away from the foot of the perpendicular, distances grow with the square of the way. -/
theorem distSqAt_eq_add (h : (stop - start).lengthSq.val ≠ 0) (s : ℝ) :
    distSqAt start stop p s = distSqAt start stop p (foot start stop p) +
      (stop - start).lengthSq.val * (s - foot start stop p) ^ 2 := by
  have hfoot : foot start stop p * (stop - start).lengthSq.val =
      ((p - start).dot (stop - start)).val := div_mul_cancel₀ _ h
  rw [distSqAt_eq, distSqAt_eq]
  simp only [Vec.val_lengthSq, Vec.val_dot, Vec.x_sub, Vec.y_sub, Exact.val_sub] at hfoot ⊢
  linear_combination 2 * (s - foot start stop p) * hfoot

/-- A segment without length is one point. -/
theorem distSqAt_eq_zero (h : (stop - start).lengthSq.val = 0) (s : ℝ) :
    distSqAt start stop p s = (p - start).lengthSq.val := by
  rw [Vec.val_lengthSq, add_eq_zero_iff_of_nonneg (sq_nonneg _) (sq_nonneg _), sq_eq_zero_iff,
    sq_eq_zero_iff] at h
  have hx : stop.x.val - start.x.val = 0 := h.1
  have hy : stop.y.val - start.y.val = 0 := h.2
  rw [← distSqAt_zero start stop, distSqAt_eq, distSqAt_eq, hx, hy, zero_mul, zero_mul]

theorem nearest_mem : nearest start stop p ∈ Set.Icc 0 1 :=
  ⟨le_max_left .., max_le zero_le_one (min_le_right ..)⟩

/-- Between the ends nothing is nearer to the foot than what is nearest to it. -/
theorem abs_nearest_sub_le {s : ℝ} (hs : s ∈ Set.Icc (0 : ℝ) 1) :
    |nearest start stop p - foot start stop p| ≤ |s - foot start stop p| := by
  obtain ⟨hs₀, hs₁⟩ := hs
  unfold nearest
  rcases lt_or_ge (foot start stop p) 0 with hlow | hlow
  · rw [min_eq_left (hlow.le.trans zero_le_one), max_eq_left hlow.le, abs_of_pos (by linarith),
      abs_of_pos (by linarith)]
    linarith
  · rcases le_or_gt (foot start stop p) 1 with hhigh | hhigh
    · rw [min_eq_left hhigh, max_eq_right hlow, sub_self, abs_zero]
      exact abs_nonneg _
    · rw [min_eq_right hhigh.le, max_eq_right zero_le_one, abs_of_neg (by linarith),
        abs_of_neg (by linarith)]
      linarith

theorem distSqAt_nearest_le {s : ℝ} (hs : s ∈ Set.Icc (0 : ℝ) 1) :
    distSqAt start stop p (nearest start stop p) ≤ distSqAt start stop p s := by
  by_cases hzero : (stop - start).lengthSq.val = 0
  · rw [distSqAt_eq_zero hzero, distSqAt_eq_zero hzero]
  · have hnonneg : 0 ≤ (stop - start).lengthSq.val := by
      rw [Vec.val_lengthSq]
      positivity
    rw [distSqAt_eq_add hzero, distSqAt_eq_add hzero s]
    have hsq : (nearest start stop p - foot start stop p) ^ 2 ≤ (s - foot start stop p) ^ 2 :=
      sq_le_sq.mpr (abs_nearest_sub_le hs)
    exact add_le_add_right (mul_le_mul_of_nonneg_left hsq hnonneg) _

variable (start stop p)

/-- The distance is measured to the nearest place. -/
theorem distSqToSegment_eq : (distSqToSegment start stop p).val =
    distSqAt start stop p (nearest start stop p) := by
  unfold distSqToSegment
  dsimp only
  split
  case isTrue hzero => exact (distSqAt_eq_zero ((Exact.beq_iff ..).mp hzero) _).symm
  split
  case isTrue hlow =>
    have hlow : foot start stop p < 0 := hlow
    rw [nearest, min_eq_left (hlow.le.trans zero_le_one), max_eq_left hlow.le, distSqAt_zero,
      lengthSq_sub_comm]
  split
  case isTrue hhigh =>
    have hhigh : 1 < foot start stop p := hhigh
    rw [nearest, min_eq_right hhigh.le, max_eq_right zero_le_one, distSqAt_one, lengthSq_sub_comm]
  case isFalse hlow hhigh =>
    have hlow : 0 ≤ foot start stop p := not_lt.mp hlow
    have hhigh : foot start stop p ≤ 1 := not_lt.mp hhigh
    rw [nearest, min_eq_left hhigh, max_eq_right hlow]
    rfl

variable {start stop p}

/-- The nearest place is found with the four operations. -/
theorem nearest_mem_subfield {K : Subfield ℝ} (hstart : start.IsOver K) (hstop : stop.IsOver K)
    (hp : p.IsOver K) : nearest start stop p ∈ K := by
  have hfoot : foot start stop p ∈ K := by
    simp only [foot, Exact.val_div, Vec.val_dot, Vec.val_lengthSq, Vec.x_sub, Vec.y_sub,
      Exact.val_sub]
    have hx := K.sub_mem hstop.x hstart.x
    have hy := K.sub_mem hstop.y hstart.y
    exact K.div_mem
      (K.add_mem (K.mul_mem (K.sub_mem hp.x hstart.x) hx) (K.mul_mem (K.sub_mem hp.y hstart.y) hy))
      (K.add_mem (K.pow_mem hx 2) (K.pow_mem hy 2))
  unfold nearest
  rcases max_choice 0 (min (foot start stop p) 1) with h | h
  · rw [h]
    exact K.zero_mem
  · rw [h]
    rcases min_choice (foot start stop p) 1 with h | h
    · rw [h]
      exact hfoot
    · rw [h]
      exact K.one_mem

/-- The squared distance to a segment is the least of those to its points, segments without length
included. A place on the segment where it is taken is a rational share of the way if the coordinates
are rational, and lies with them in every other field of numbers. -/
theorem distSqToSegment_isLeast (start stop p : Vec Exact) :
    IsLeast {d | ∃ s ∈ Set.Icc (0 : ℝ) 1,
      d = (p - (start + (⟨s⟩ : Exact) • (stop - start))).lengthSq.val}
      (distSqToSegment start stop p).val ∧
    ∀ K : Subfield ℝ, start.IsOver K → stop.IsOver K → p.IsOver K → ∃ s ∈ Set.Icc (0 : ℝ) 1, s ∈ K ∧
      (distSqToSegment start stop p).val =
        (p - (start + (⟨s⟩ : Exact) • (stop - start))).lengthSq.val := by
  refine ⟨⟨⟨_, nearest_mem, distSqToSegment_eq start stop p⟩, ?_⟩, fun K hstart hstop hp => ?_⟩
  · rintro d ⟨s, hs, rfl⟩
    rw [distSqToSegment_eq]
    exact distSqAt_nearest_le hs
  · exact ⟨_, nearest_mem, nearest_mem_subfield hstart hstop hp, distSqToSegment_eq start stop p⟩

end Segment

end PlanarDynamics
