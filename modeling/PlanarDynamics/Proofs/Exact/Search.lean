import PlanarDynamics.Proofs.Candidates.IndexQuery
import PlanarDynamics.Proofs.Candidates.SortedSweep
import PlanarDynamics.Proofs.Candidates.SweepCoverage
import PlanarDynamics.Proofs.Exact.Bounds

/-!
# Searches in exact arithmetic

Every strategy finds the overlapping bounds that have their left and right edges in order. The range
that an index is asked for contains the corners of all overlapping boxes without being widened.
-/

namespace PlanarDynamics

namespace Candidates

variable {shapes : Array (Proxy Exact)}

theorem val_foldl_maxNum {β : Type} (f : β → Exact) (l : List β) (m : Exact) :
    m.val ≤ (l.foldl (fun m b => Scalar.maxNum m (f b)) m).val ∧
      ∀ b ∈ l, (f b).val ≤ (l.foldl (fun m b => Scalar.maxNum m (f b)) m).val := by
  induction l generalizing m with
  | nil => exact ⟨le_rfl, nofun⟩
  | cons b l ih =>
    obtain ⟨hle, hl⟩ := ih (Scalar.maxNum m (f b))
    rw [Exact.val_maxNum] at hle
    rw [List.forall_mem_cons]
    exact ⟨(le_max_left _ _).trans hle, (le_max_right _ _).trans hle, hl⟩

theorem width_le (shapes : Array (Proxy Exact)) {p : Proxy Exact} (hp : p ∈ shapes) :
    p.aabb.right.val - p.aabb.left.val ≤ (largestExtent shapes).1.val := by
  rw [largestExtent_eq]
  exact (val_foldl_maxNum (fun p : Proxy Exact => p.aabb.width) shapes.toList 0).2 p
    (Array.mem_toList_iff.mpr hp)

theorem height_le (shapes : Array (Proxy Exact)) {p : Proxy Exact} (hp : p ∈ shapes) :
    p.aabb.top.val - p.aabb.bottom.val ≤ (largestExtent shapes).2.val := by
  rw [largestExtent_eq]
  exact (val_foldl_maxNum (fun p : Proxy Exact => p.aabb.height) shapes.toList 0).2 p
    (Array.mem_toList_iff.mpr hp)

theorem val_widen_le (v extent : Exact) : (widen v extent).val ≤ v.val := by
  have hsize : 0 ≤ max |v.val| extent.val := (abs_nonneg v.val).trans (le_max_left _ _)
  have hspread : 0 ≤ max |v.val| extent.val * (4.0 : ℝ) * ((2 ^ 23 : ℕ) : ℝ)⁻¹ := by positivity
  have hval : (widen v extent).val =
      v.val - max |v.val| extent.val * (4.0 : ℝ) * ((2 ^ 23 : ℕ) : ℝ)⁻¹ := by
    rw [widen, Exact.val_sub, Exact.val_mul, Exact.val_mul, Exact.val_maxNum,
      Exact.val_ofScientific]
    rfl
  rw [hval]
  exact sub_le_self _ hspread

/-- The range on one axis contains the lower end `b` of every box from `b` to `c` that overlaps the
one from `a` to `d` and is not wider than `w`. -/
theorem contains_ofEnds_exact {a b c d w : Exact} (hwidth : c.val - b.val ≤ w.val)
    (hac : a.val ≤ c.val) (hbd : b.val ≤ d.val) :
    (Span.ofEnds (widen (a - w) w) d).contains b = true := by
  have hwiden := val_widen_le (a - w) w
  rw [Exact.val_sub] at hwiden
  rw [Span.contains_iff, Span.ofEnds]
  simp only [Exact.le_iff, Exact.val_minNum, Exact.val_maxNum]
  exact ⟨min_le_of_left_le (by linarith), le_max_of_le_right hbd⟩

theorem cornerRange_contains_exact {p q : Proxy Exact} (hq : q ∈ shapes)
    (hpq : p.aabb.intersects q.aabb = true) :
    (cornerRange p.aabb (largestExtent shapes)).contains q.aabb.minCorner = true := by
  obtain ⟨hright, hleft, htop, hbottom⟩ := Aabb.intersects_iff.mp hpq
  simp only [Exact.lt_iff, not_lt] at hright hleft htop hbottom
  rw [Rect.contains_iff]
  exact ⟨contains_ofEnds_exact (width_le shapes hq) hleft hright,
    contains_ofEnds_exact (height_le shapes hq) hbottom htop⟩

theorem indexQuery_eq_exact (shapes : Array (Proxy Exact)) (ι : Type → Type)
    [PointIndex ι Exact]
    (hindex : Indexes ι (shapes.toList.map fun p => p.aabb.minCorner) (List.range shapes.size)) :
    indexQuery ι shapes = allPairs shapes :=
  indexQuery_eq_of_indexes ι hindex (fun _ _ => Exact.isKey _)
    fun _ _ _ hq => cornerRange_contains_exact hq

end Candidates

namespace Strategy

/-- The other strategies than the interval sweep agree on all bounds. -/
theorem pairs_eq_allPairs_exact {strategy : Strategy} (h : strategy ≠ .intervalSweep)
    (shapes : Array (Proxy Exact)) : strategy.pairs shapes = Candidates.allPairs shapes := by
  cases strategy with
  | allPairs => rfl
  | sortedSweep => exact Candidates.sortedSweep_eq fun p _ => Exact.isKey _
  | intervalSweep => exact absurd rfl h
  | kdTree =>
    exact Candidates.indexQuery_eq_exact shapes _
      (KdTree.indexes .bySorting Candidates.length_corners)
  | rangeTree =>
    exact Candidates.indexQuery_eq_exact shapes _
      (RangeTree.indexes Candidates.length_corners fun _ _ => ⟨Exact.isKey _, Exact.isKey _⟩)

/-- Each strategy finds the bounds that overlap and have their left and right edges in order,
whatever other bounds there are. -/
theorem mem_pairs_exact (strategy : Strategy) {shapes : Array (Proxy Exact)} {p q : Proxy Exact}
    {i j : Nat} (hp : shapes[i]? = some p) (hq : shapes[j]? = some q) (hij : i ≠ j)
    (horder : p.aabb.left ≤ p.aabb.right) (horder' : q.aabb.left ≤ q.aabb.right)
    (htouch : p.mayTouch q = true) : Pair.ordered i j ∈ strategy.pairs shapes := by
  by_cases h : strategy = .intervalSweep
  · rw [h]
    exact Candidates.mem_intervalSweep (fun _ _ => ⟨Exact.isKey _, Exact.isKey _⟩) hp hq hij
      ⟨horder, Exact.isKey _, Exact.isKey _⟩ ⟨horder', Exact.isKey _, Exact.isKey _⟩ htouch
  · rw [pairs_eq_allPairs_exact h]
    exact Candidates.ordered_mem_allPairs hij ⟨p, q, hp, hq, htouch⟩

end Strategy

end PlanarDynamics
