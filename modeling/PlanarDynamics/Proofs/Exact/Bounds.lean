import PlanarDynamics.Contact
import PlanarDynamics.Proofs.Candidates.AllPairs
import PlanarDynamics.Proofs.Exact.Scalar

/-!
# Bounds in exact arithmetic

Bounds overlap as soon as they reach far enough from a point inside each of them. Those of a circle
reach as far as its radius, whatever its motion is, and those of a line reach its padding beyond
each point of the segment, among them the one that the distance is measured to.
-/

namespace PlanarDynamics

namespace Vec

section Components

variable {α : Type} [Scalar α] (v w : Vec α) (s : α)

@[simp] theorem x_add : (v + w).x = v.x + w.x := rfl
@[simp] theorem y_add : (v + w).y = v.y + w.y := rfl
@[simp] theorem x_sub : (v - w).x = v.x - w.x := rfl
@[simp] theorem y_sub : (v - w).y = v.y - w.y := rfl
@[simp] theorem x_smul : (s • v).x = v.x * s := rfl
@[simp] theorem y_smul : (s • v).y = v.y * s := rfl

omit [Scalar α] in
@[simp] theorem x_splat : (splat s).x = s := rfl

omit [Scalar α] in
@[simp] theorem y_splat : (splat s).y = s := rfl

end Components

variable (v w : Vec Exact)

@[simp] theorem val_dot : (v.dot w).val = v.x.val * w.x.val + v.y.val * w.y.val := rfl

@[simp] theorem val_lengthSq : v.lengthSq.val = v.x.val ^ 2 + v.y.val ^ 2 := by
  rw [lengthSq, val_dot, sq, sq]

@[simp] theorem val_x_min : (v.min w).x.val = Min.min v.x.val w.x.val := by
  simp only [Vec.min, Exact.val_ite, Exact.lt_iff]
  exact (min_def_lt ..).symm

@[simp] theorem val_y_min : (v.min w).y.val = Min.min v.y.val w.y.val := by
  simp only [Vec.min, Exact.val_ite, Exact.lt_iff]
  exact (min_def_lt ..).symm

@[simp] theorem val_x_max : (v.max w).x.val = Max.max v.x.val w.x.val := by
  simp only [Vec.max, Exact.val_ite, Exact.lt_iff]
  exact (max_def_lt ..).symm.trans (max_comm ..)

@[simp] theorem val_y_max : (v.max w).y.val = Max.max v.y.val w.y.val := by
  simp only [Vec.max, Exact.val_ite, Exact.lt_iff]
  exact (max_def_lt ..).symm.trans (max_comm ..)

end Vec

namespace Aabb

/-- The bounds reach at least `rx` and `ry` from a point on either side. -/
structure Reaches (a : Aabb Exact) (p : Vec Exact) (rx ry : ℝ) : Prop where
  left : a.left.val ≤ p.x.val - rx
  right : p.x.val + rx ≤ a.right.val
  bottom : a.bottom.val ≤ p.y.val - ry
  top : p.y.val + ry ≤ a.top.val

theorem Reaches.left_le_right {a : Aabb Exact} {p : Vec Exact} {rx ry : ℝ} (h : a.Reaches p rx ry)
    (hx : 0 ≤ rx) : a.left.val ≤ a.right.val := by
  linarith [h.left, h.right]

theorem intersects_of_reaches {a b : Aabb Exact} {p q : Vec Exact} {rx ry sx sy : ℝ}
    (ha : a.Reaches p rx ry) (hb : b.Reaches q sx sy) (hx : |p.x.val - q.x.val| ≤ rx + sx)
    (hy : |p.y.val - q.y.val| ≤ ry + sy) : a.intersects b = true := by
  rw [intersects_iff]
  simp only [Exact.lt_iff, not_lt]
  obtain ⟨hx₁, hx₂⟩ := abs_le.mp hx
  obtain ⟨hy₁, hy₂⟩ := abs_le.mp hy
  obtain ⟨hleft, hright, hbottom, htop⟩ := ha
  obtain ⟨hleft', hright', hbottom', htop'⟩ := hb
  refine ⟨?_, ?_, ?_, ?_⟩ <;> linarith

/-- A motion takes bounds further out, on one side of each axis. -/
theorem reaches_swept {lo hi p : Vec Exact} {rx ry : ℝ} (motion : Vec Exact)
    (hx : lo.x.val ≤ p.x.val - rx ∧ p.x.val + rx ≤ hi.x.val)
    (hy : lo.y.val ≤ p.y.val - ry ∧ p.y.val + ry ≤ hi.y.val) :
    (swept lo hi motion).Reaches p rx ry := by
  constructor <;> simp only [swept, Exact.val_add, Exact.val_minNum, Exact.val_maxNum,
    Exact.val_zero]
  · linarith [min_le_right motion.x.val 0]
  · linarith [le_max_right motion.x.val 0]
  · linarith [min_le_right motion.y.val 0]
  · linarith [le_max_right motion.y.val 0]

theorem reaches_circleBounds (pos : Vec Exact) (radius : Exact) (motion : Vec Exact) :
    (circleBounds pos radius motion).Reaches pos radius.val radius.val :=
  reaches_swept motion ⟨le_rfl, le_rfl⟩ ⟨le_rfl, le_rfl⟩

/-- Each coordinate of a difference is at most as large as the difference. -/
theorem abs_le_of_sq_add_sq_le {x y r : ℝ} (hr : 0 ≤ r) (h : x ^ 2 + y ^ 2 ≤ r ^ 2) :
    |x| ≤ r ∧ |y| ≤ r :=
  ⟨abs_le_of_sq_le_sq (by linarith [sq_nonneg y]) hr,
    abs_le_of_sq_le_sq (by linarith [sq_nonneg x]) hr⟩

end Aabb

namespace Line

variable (start stop normal p : Vec Exact)

theorem padding_pos : 0 < (padding : Exact).val := by
  rw [padding, Exact.val_ofScientific]
  norm_num

/-- The bounds of a line reach its padding beyond each point between the ends of the segment. -/
theorem reaches_aabb {c : Vec Exact} (hx : c.x.val ∈ Set.uIcc start.x.val stop.x.val)
    (hy : c.y.val ∈ Set.uIcc start.y.val stop.y.val) :
    (withNormal start stop normal).aabb.Reaches c (padding : Exact).val (padding : Exact).val := by
  obtain ⟨hx₁, hx₂⟩ := hx
  obtain ⟨hy₁, hy₂⟩ := hy
  constructor <;> simp only [withNormal, Vec.x_sub, Vec.y_sub, Vec.x_add, Vec.y_add, Vec.x_splat,
    Vec.y_splat, Exact.val_sub, Exact.val_add, Vec.val_x_min, Vec.val_y_min, Vec.val_x_max,
    Vec.val_y_max]
  · linarith
  · linarith
  · linarith
  · linarith

theorem add_mul_mem_uIcc {a b t : ℝ} (h0 : 0 ≤ t) (h1 : t ≤ 1) :
    a + (b - a) * t ∈ Set.uIcc a b := by
  rw [Set.mem_uIcc]
  rcases le_total a b with hab | hab
  · left
    constructor <;> nlinarith
  · right
    constructor <;> nlinarith

/-- The distance to a segment is that to one of its points: to an end, or to the foot of the
perpendicular, which lies between them. -/
theorem exists_nearest : ∃ c : Vec Exact,
    c.x.val ∈ Set.uIcc start.x.val stop.x.val ∧ c.y.val ∈ Set.uIcc start.y.val stop.y.val ∧
      (distSqToSegment start stop p).val =
        (p.x.val - c.x.val) ^ 2 + (p.y.val - c.y.val) ^ 2 := by
  unfold distSqToSegment
  dsimp only
  split
  case isTrue => exact ⟨start, Set.left_mem_uIcc, Set.left_mem_uIcc, by simp⟩
  split
  case isTrue =>
    refine ⟨start, Set.left_mem_uIcc, Set.left_mem_uIcc, ?_⟩
    simp only [Vec.val_lengthSq, Vec.x_sub, Vec.y_sub, Exact.val_sub]
    ring
  split
  case isTrue =>
    refine ⟨stop, Set.right_mem_uIcc, Set.right_mem_uIcc, ?_⟩
    simp only [Vec.val_lengthSq, Vec.x_sub, Vec.y_sub, Exact.val_sub]
    ring
  case isFalse hlow hhigh =>
    rw [Exact.lt_iff, not_lt] at hlow hhigh
    exact ⟨_, add_mul_mem_uIcc hlow hhigh, add_mul_mem_uIcc hlow hhigh,
      Vec.val_lengthSq _⟩

/-- The distance to a level segment of a point above or below it. -/
theorem distSq_level {a b x y z : Exact} (ha : a.val ≤ x.val) (hb : x.val ≤ b.val)
    (hab : a.val < b.val) :
    (distSqToSegment ⟨a, z⟩ ⟨b, z⟩ ⟨x, y⟩).val = (y.val - z.val) ^ 2 := by
  have hlength : 0 < b.val - a.val := sub_pos.mpr hab
  have hfoot : (x.val - a.val) * (b.val - a.val) / (b.val - a.val) ^ 2 =
      (x.val - a.val) / (b.val - a.val) := by
    rw [sq, mul_div_mul_right _ _ hlength.ne']
  have hlow : ¬ (x.val - a.val) / (b.val - a.val) < 0 :=
    (div_nonneg (sub_nonneg.mpr ha) hlength.le).not_gt
  have hhigh : ¬ 1 < (x.val - a.val) / (b.val - a.val) := by
    rw [one_lt_div hlength]
    linarith
  unfold distSqToSegment
  simp only [Exact.beq_iff, Exact.lt_iff, Vec.val_lengthSq, Vec.x_sub, Vec.y_sub, Vec.x_add,
    Vec.y_add, Vec.x_smul, Vec.y_smul, Exact.val_ite, Vec.val_dot, Exact.val_div, Exact.val_sub,
    Exact.val_add, Exact.val_mul, Exact.val_zero, Exact.val_one, sub_self, zero_pow two_ne_zero,
    add_zero, mul_zero, zero_mul]
  rw [if_neg (pow_pos hlength 2).ne', hfoot, if_neg hlow, if_neg hhigh,
    mul_div_cancel₀ _ hlength.ne']
  ring

/-- Distances do not depend on which axis comes first. -/
theorem distSq_swap (start stop p : Vec Exact) :
    (distSqToSegment ⟨start.y, start.x⟩ ⟨stop.y, stop.x⟩ ⟨p.y, p.x⟩).val =
      (distSqToSegment start stop p).val := by
  unfold distSqToSegment
  simp only [Exact.beq_iff, Exact.lt_iff, Vec.val_lengthSq, Vec.x_sub, Vec.y_sub, Vec.x_add,
    Vec.y_add, Vec.x_smul, Vec.y_smul, Exact.val_ite, Vec.val_dot, Exact.val_div, Exact.val_sub,
    Exact.val_add, Exact.val_mul, Exact.val_zero, Exact.val_one]
  simp only [add_comm]

/-- Bounds that reach far enough around a point overlap those of each line that a circle around the
point touches. -/
theorem intersects_of_touching {a : Aabb Exact} {rx ry r : ℝ} (ha : a.Reaches p rx ry) (hr : 0 ≤ r)
    (hx : r ≤ rx + (padding : Exact).val) (hy : r ≤ ry + (padding : Exact).val)
    (h : (distSqToSegment start stop p).val ≤ r ^ 2) :
    a.intersects (withNormal start stop normal).aabb = true := by
  obtain ⟨c, hcx, hcy, hdist⟩ := exists_nearest start stop p
  rw [hdist] at h
  obtain ⟨habs, habs'⟩ := Aabb.abs_le_of_sq_add_sq_le hr h
  exact Aabb.intersects_of_reaches ha (reaches_aabb start stop normal hcx hcy) (habs.trans hx)
    (habs'.trans hy)

end Line

namespace Corners

/-- How far a turned rectangle reaches to the left and to the right of its centre. -/
noncomputable def halfWidth (width height angle : Exact) : ℝ :=
  (|width.val * Real.cos angle.val| + |height.val * Real.sin angle.val|) * 0.5

/-- How far a turned rectangle reaches below and above its centre. -/
noncomputable def halfHeight (width height angle : Exact) : ℝ :=
  (|width.val * Real.sin angle.val| + |height.val * Real.cos angle.val|) * 0.5

theorem halfWidth_nonneg (width height angle : Exact) : 0 ≤ halfWidth width height angle := by
  unfold halfWidth
  positivity

theorem max_corners (c u v : ℝ) :
    max (max (max (c + u) (c + v)) (c - u)) (c - v) = c + max |u| |v| := by
  simp only [abs_eq_max_neg, sub_eq_add_neg, max_add_add_left]
  rw [max_assoc, max_max_max_comm]

theorem min_corners (c u v : ℝ) :
    min (min (min (c + u) (c + v)) (c - u)) (c - v) = c - max |u| |v| := by
  have hpair (x : ℝ) : min (c + x) (c - x) = c - |x| := by
    rw [abs_eq_max_neg, ← min_sub_sub_left, sub_neg_eq_add, min_comm]
  rw [min_assoc, min_min_min_comm, hpair, hpair, min_sub_sub_left]

theorem max_abs_eq (p q : ℝ) : max |p - q| |-p - q| = |p| + |q| := by
  apply le_antisymm
  · apply max_le
    · exact abs_sub p q
    · rw [← abs_neg p]
      exact abs_sub (-p) q
  · rcases abs_cases p with ⟨hp, -⟩ | ⟨hp, -⟩ <;>
      rcases abs_cases q with ⟨hq, -⟩ | ⟨hq, -⟩ <;> rw [hp, hq]
    · exact le_max_of_le_right (le_abs.mpr (.inr (by linarith)))
    · exact le_max_of_le_left (le_abs.mpr (.inl (by linarith)))
    · exact le_max_of_le_left (le_abs.mpr (.inr (by linarith)))
    · exact le_max_of_le_right (le_abs.mpr (.inl (by linarith)))

/-- Of the two half diagonals, one reaches as far as both sides together. -/
theorem max_abs_half (p q : ℝ) : max |(p - q) * 0.5| |(-p - q) * 0.5| = (|p| + |q|) * 0.5 := by
  have hhalf : |(0.5 : ℝ)| = 0.5 := abs_of_pos (by norm_num)
  rw [abs_mul, abs_mul, hhalf, ← max_mul_of_nonneg _ _ (by norm_num), max_abs_eq]

variable (center : Vec Exact) (width height angle : Exact)

theorem val_x_lowest : (ofPose center width height angle).lowest.x.val =
    center.x.val - halfWidth width height angle := by
  rw [halfWidth, ← max_abs_half, ← min_corners]
  simp only [lowest, ofPose, Vec.rotateSC, Vec.val_x_min, Vec.x_add, Vec.x_sub, Vec.x_smul,
    Exact.val_add, Exact.val_sub, Exact.val_mul, Exact.val_neg, Exact.val_sin, Exact.val_cos,
    Exact.val_ofScientific, neg_mul]

theorem val_x_highest : (ofPose center width height angle).highest.x.val =
    center.x.val + halfWidth width height angle := by
  rw [halfWidth, ← max_abs_half, ← max_corners]
  simp only [highest, ofPose, Vec.rotateSC, Vec.val_x_max, Vec.x_add, Vec.x_sub, Vec.x_smul,
    Exact.val_add, Exact.val_sub, Exact.val_mul, Exact.val_neg, Exact.val_sin, Exact.val_cos,
    Exact.val_ofScientific, neg_mul]

theorem val_y_lowest : (ofPose center width height angle).lowest.y.val =
    center.y.val - halfHeight width height angle := by
  rw [halfHeight, ← abs_neg (height.val * _), ← max_abs_half, ← min_corners]
  simp only [lowest, ofPose, Vec.rotateSC, Vec.val_y_min, Vec.y_add, Vec.y_sub, Vec.y_smul,
    Exact.val_add, Exact.val_sub, Exact.val_mul, Exact.val_neg, Exact.val_sin, Exact.val_cos,
    Exact.val_ofScientific, neg_mul, sub_neg_eq_add]

theorem val_y_highest : (ofPose center width height angle).highest.y.val =
    center.y.val + halfHeight width height angle := by
  rw [halfHeight, ← abs_neg (height.val * _), ← max_abs_half, ← max_corners]
  simp only [highest, ofPose, Vec.rotateSC, Vec.val_y_max, Vec.y_add, Vec.y_sub, Vec.y_smul,
    Exact.val_add, Exact.val_sub, Exact.val_mul, Exact.val_neg, Exact.val_sin, Exact.val_cos,
    Exact.val_ofScientific, neg_mul, sub_neg_eq_add]

/-- The bounds of a rectangle reach as far as its corners, whatever its motion is. -/
theorem reaches_bounds (motion : Vec Exact) :
    ((ofPose center width height angle).bounds motion).Reaches center
      (halfWidth width height angle) (halfHeight width height angle) :=
  Aabb.reaches_swept motion ⟨(val_x_lowest ..).le, (val_x_highest ..).ge⟩
    ⟨(val_y_lowest ..).le, (val_y_highest ..).ge⟩

end Corners

end PlanarDynamics
