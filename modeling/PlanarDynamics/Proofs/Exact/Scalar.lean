import Mathlib.Analysis.SpecialFunctions.Trigonometric.Basic
import PlanarDynamics.Geometry.Aabb
import PlanarDynamics.Proofs.LawfulScalar

/-!
# Exact scalars

The real numbers as scalars: no operation rounds or overflows, and all values are numbers. What is
proved here about the geometry of the simulation holds up to the rounding of the machine numbers.
-/

namespace PlanarDynamics

/-- A number that is computed with exactly. -/
@[ext] structure Exact where
  val : ℝ

namespace Exact

noncomputable instance : Scalar Exact where
  zero := ⟨0⟩
  one := ⟨1⟩
  add a b := ⟨a.val + b.val⟩
  sub a b := ⟨a.val - b.val⟩
  mul a b := ⟨a.val * b.val⟩
  div a b := ⟨a.val / b.val⟩
  neg a := ⟨-a.val⟩
  natCast n := ⟨n⟩
  ofScientific m s e := ⟨OfScientific.ofScientific m s e⟩
  lt a b := a.val < b.val
  le a b := a.val ≤ b.val
  beq a b := decide (a.val = b.val)
  decidableLT a b := inferInstanceAs (Decidable (a.val < b.val))
  decidableLE a b := inferInstanceAs (Decidable (a.val ≤ b.val))
  abs a := ⟨|a.val|⟩
  sqrt a := ⟨√a.val⟩
  sin a := ⟨Real.sin a.val⟩
  cos a := ⟨Real.cos a.val⟩
  isFinite _ := true
  totalCmp := compareOn val
  totalCmp_trans := inferInstance
  epsilon := ⟨((2 ^ 23 : ℕ) : ℝ)⁻¹⟩
  minPositive := ⟨((2 ^ 126 : ℕ) : ℝ)⁻¹⟩

variable (a b : Exact)

@[simp] theorem val_zero : (0 : Exact).val = 0 := rfl
@[simp] theorem val_one : (1 : Exact).val = 1 := rfl
@[simp] theorem val_add : (a + b).val = a.val + b.val := rfl
@[simp] theorem val_sub : (a - b).val = a.val - b.val := rfl
@[simp] theorem val_mul : (a * b).val = a.val * b.val := rfl
@[simp] theorem val_div : (a / b).val = a.val / b.val := rfl
@[simp] theorem val_neg : (-a).val = -a.val := rfl
@[simp] theorem val_ofNat (n : ℕ) [n.AtLeastTwo] : (ofNat(n) : Exact).val = ofNat(n) := rfl
@[simp] theorem val_ofScientific (m : ℕ) (s : Bool) (e : ℕ) :
    (OfScientific.ofScientific m s e : Exact).val = OfScientific.ofScientific m s e := rfl
@[simp] theorem val_abs : (Scalar.abs a).val = |a.val| := rfl
@[simp] theorem val_sqrt : (Scalar.sqrt a).val = √a.val := rfl
@[simp] theorem val_sin : (Scalar.sin a).val = Real.sin a.val := rfl
@[simp] theorem val_cos : (Scalar.cos a).val = Real.cos a.val := rfl

@[simp] theorem lt_iff : a < b ↔ a.val < b.val := Iff.rfl
@[simp] theorem le_iff : a ≤ b ↔ a.val ≤ b.val := Iff.rfl
theorem not_lt_iff : ¬ a < b ↔ b ≤ a := not_lt (a := a.val) (b := b.val)
@[simp] theorem beq_iff : (a == b) = true ↔ a.val = b.val := decide_eq_true_iff

@[simp] theorem val_ite {P : Prop} [Decidable P] :
    (if P then a else b).val = if P then a.val else b.val := apply_ite val P a b

@[simp] theorem val_minNum : (Scalar.minNum a b).val = min a.val b.val := by
  simp only [Scalar.minNum, lt_iff, beq_iff, if_true, val_ite]
  exact (min_def_lt b.val a.val).symm.trans (min_comm ..)

@[simp] theorem val_maxNum : (Scalar.maxNum a b).val = max a.val b.val := by
  simp only [Scalar.maxNum, lt_iff, beq_iff, if_true, val_ite]
  exact (max_def_lt a.val b.val).symm

/-- Almost zero is what is below the smallest number of full precision. -/
theorem almostEqual_zero_iff :
    Scalar.almostEqual a 0 = true ↔ |a.val| < (Scalar.minPositive : Exact).val := by
  have hmin : (0 : ℝ) < (Scalar.minPositive : Exact).val :=
    inv_pos.mpr (Nat.cast_pos.mpr (Nat.two_pow_pos 126))
  have heps : (Scalar.epsilon : Exact).val < 1 :=
    inv_lt_one_of_one_lt₀ (by norm_num)
  simp only [Scalar.almostEqual, Bool.or_eq_true, decide_eq_true_eq, le_iff, lt_iff, val_abs,
    val_sub, val_add, val_mul, val_zero, sub_zero, add_zero]
  refine or_iff_right_of_imp fun h => ?_
  have hzero : |a.val| = 0 := by
    by_contra hne
    have hpos := (abs_nonneg a.val).lt_of_ne' hne
    nlinarith
  rwa [hzero]

theorem isKey : IsKey a := le_refl a.val

theorem totalCmp_eq : Scalar.totalCmp a b = compare a.val b.val := rfl

instance : LawfulScalar Exact where
  isKey_of_le {a b} _ := ⟨isKey a, isKey b⟩
  le_trans {a b c} hab hbc := le_trans (α := ℝ) hab hbc
  le_total {a b} _ _ := le_total a.val b.val
  lt_iff {a b} := by
    rw [lt_iff, le_iff, not_le]
    exact ⟨fun h => ⟨isKey a, isKey b, h⟩, fun h => h.2.2⟩
  totalCmp_of_lt {a b} h := by
    rw [totalCmp_eq]
    exact compare_lt_iff_lt.mpr h
  totalCmp_add_zero {a b} _ _ := by
    simp only [totalCmp_eq, val_add, val_zero, add_zero, IntervalEntry.compareKeys, lt_iff]
    rcases lt_trichotomy a.val b.val with h | h | h
    · rw [if_pos h, compare_lt_iff_lt.mpr h]
    · rw [if_neg h.not_lt, if_neg h.not_gt, compare_eq_iff_eq.mpr h]
    · rw [if_neg h.not_gt, if_pos h, compare_gt_iff_gt.mpr h]

end Exact

end PlanarDynamics
