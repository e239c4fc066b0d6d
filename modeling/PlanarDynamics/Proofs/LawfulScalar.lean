import PlanarDynamics.Proofs.Binary32.Arithmetic

/-!
# Laws of scalars

What the sorted structures need of a scalar type: the numeric comparisons order all values that
take part in them, and the total order agrees with them where they are strict. Numbers that compare
as equal may still have places of their own in the total order, until zero is added to them.
-/

namespace PlanarDynamics

/-- The total order puts a smaller number before a larger one, and equal numbers in one place once
zero is added to them. -/
class LawfulScalar (α : Type) [Scalar α] : Prop extends OrderedKeys α where
  totalCmp_of_lt {a b : α} : a < b → Scalar.totalCmp a b = .lt
  totalCmp_add_zero {a b : α} : IsKey a → IsKey b →
    Scalar.totalCmp (a + 0) (b + 0) = IntervalEntry.compareKeys a b

namespace LawfulScalar

variable {α : Type} [Scalar α] [LawfulScalar α] {a b c : α}

/-- Among numbers, one that the total order does not put behind another is not greater. -/
theorem le_of_totalCmp (ha : IsKey a) (hb : IsKey b) (h : Scalar.totalCmp a b ≠ .gt) : a ≤ b := by
  rw [← hb.not_lt ha]
  intro hlt
  exact h (Std.OrientedCmp.gt_of_lt (totalCmp_of_lt hlt))

/-- A value that the total order does not put before one above `b` is not at most `b`, be it a
number or not. -/
theorem not_le_of_lt_of_totalCmp (hb : b < a) (h : Scalar.totalCmp a c ≠ .gt) : ¬ c ≤ b := by
  intro hcb
  exact h (Std.OrientedCmp.gt_of_lt (totalCmp_of_lt (OrderedKeys.lt_of_le_of_lt hcb hb)))

/-- A value that the total order does not put behind one below `b` is not at least `b`, be it a
number or not. -/
theorem not_ge_of_lt_of_totalCmp (hb : a < b) (h : Scalar.totalCmp c a ≠ .gt) : ¬ b ≤ c := by
  intro hbc
  exact h (Std.OrientedCmp.gt_of_lt (totalCmp_of_lt (OrderedKeys.lt_of_lt_of_le hb hbc)))

end LawfulScalar

namespace Binary32

instance : LawfulScalar Float32 where
  toOrderedKeys := inferInstanceAs (OrderedKeys Float32)
  totalCmp_of_lt {a b} h := by
    obtain ⟨ha, hb⟩ := isNaN_eq_false_of_lt h
    have hrank := rank_lt_of_value_lt ha hb ((lt_iff_value_lt ha hb).mp h)
    show compareOn rank a b = .lt
    rw [compareOn]
    exact Int.compare_eq_lt.mpr hrank
  totalCmp_add_zero ha hb := compare_rank_add_zero (isKey_iff.mp ha) (isKey_iff.mp hb)

end Binary32

end PlanarDynamics
