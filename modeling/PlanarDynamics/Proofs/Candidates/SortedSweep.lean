import PlanarDynamics.Candidates.Strategy
import PlanarDynamics.Proofs.Candidates.AllPairs
import PlanarDynamics.Proofs.LawfulScalar

/-!
# The sorted sweep against the plain search

In order of the left edges, a shape that begins beyond the end of another is followed only by shapes
that do so too, and none of them overlaps it. So a scan that stops there finds the pairs of the
plain search in the same list, and these are the same in whatever order the shapes are listed, up to
the order within each pair. Only left edges need to be numbers: a right edge that is none never
stops a scan, and edges that are none keep no pair apart.
-/

namespace PlanarDynamics.Candidates

variable {α : Type} [Scalar α]

instance : Std.TransCmp (leftOrder : Proxy α × Nat → Proxy α × Nat → Ordering) :=
  transCmp_comap Scalar.totalCmp fun p : Proxy α × Nat => p.1.aabb.left

/-- The pairs of the plain search do not depend on the order of the shapes. -/
theorem perm_ordered_pairsWithin {l m : List (Proxy α × Nat)} (h : l.Perm m) :
    ((pairsWithin l).map (Function.uncurry Pair.ordered)).Perm
      ((pairsWithin m).map (Function.uncurry Pair.ordered)) := by
  induction h with
  | nil => exact .refl _
  | cons p hperm ih =>
    simp only [pairsWithin, List.map_append]
    exact (((hperm.filter _).map _).map _).append ih
  | swap p q l =>
    obtain ⟨p, i⟩ := p
    obtain ⟨q, j⟩ := q
    simp only [pairsWithin, List.filter_cons, List.map_append, p.mayTouch_comm q]
    split
    · simp only [List.map_cons, Function.uncurry_apply_pair, Pair.ordered_comm i j,
        List.cons_append]
      exact (List.perm_append_comm_assoc ..).cons _
    · exact List.perm_append_comm_assoc ..
  | trans _ _ ihl ihm => exact ihl.trans ihm

/-- The plain search puts the lower position of a pair first. -/
theorem map_ordered_allPairs (shapes : Array (Proxy α)) :
    (allPairs shapes).map (Function.uncurry Pair.ordered) = allPairs shapes := by
  conv_rhs => rw [← List.map_id (allPairs shapes)]
  apply List.map_congr_left
  rintro ⟨i, j⟩ hij
  exact Pair.ordered_of_lt ((mem_allPairs shapes i j).mp hij).1

variable [LawfulScalar α]

/-- Behind a shape that begins beyond the end of `p`, no shape may touch `p`. -/
theorem scan_eq {l : List (Proxy α × Nat)}
    (hsorted : l.Pairwise fun p q => p.1.aabb.left ≤ q.1.aabb.left) :
    scan l = (pairsWithin l).map (Function.uncurry Pair.ordered) := by
  induction l with
  | nil => rfl
  | cons p rest ih =>
    obtain ⟨p, i⟩ := p
    have hrest := (List.pairwise_cons.mp hsorted).2
    have hnear : (rest.takeWhile fun q => !decide (p.aabb.right < q.1.aabb.left)).filter
        (fun q => p.mayTouch q.1) = rest.filter fun q => p.mayTouch q.1 := by
      apply filter_takeWhile
      · refine hrest.imp fun hle hnext => ?_
        rw [Bool.not_eq_true', decide_eq_false_iff_not] at hnext ⊢
        exact fun hlt => hnext (OrderedKeys.lt_of_lt_of_le hlt hle)
      · intro q _ htouch
        rw [Proxy.mayTouch, Bool.and_eq_true, Aabb.intersects_iff] at htouch
        rw [Bool.not_eq_true', decide_eq_false_iff_not]
        exact htouch.2.1
    simp only [scan, hnear, ih hrest, pairsWithin, List.map_append, List.map_map]
    rfl

theorem sortedSweep_eq {shapes : Array (Proxy α)} (h : ∀ p ∈ shapes, IsKey p.aabb.left) :
    sortedSweep shapes = allPairs shapes := by
  let sorted := shapes.toList.zipIdx.mergeSort fun p q => (leftOrder p q).isLE
  have hperm : sorted.Perm shapes.toList.zipIdx := List.mergeSort_perm ..
  have hkeys : ∀ p ∈ sorted, IsKey p.1.aabb.left := fun p hp =>
    h p.1 (Array.mem_toList_iff.mp (List.fst_mem_of_mem_zipIdx (hperm.mem_iff.mp hp)))
  have hsorted : sorted.Pairwise fun p q => p.1.aabb.left ≤ q.1.aabb.left :=
    (pairwise_mergeSort leftOrder shapes.toList.zipIdx).imp_of_mem fun hp hq hle =>
      LawfulScalar.le_of_totalCmp (hkeys _ hp) (hkeys _ hq) (Ordering.isLE_iff_ne_gt.mp hle)
  apply Pair.sort_eq_of_perm _ (pairwise_allPairs shapes)
  rw [scan_eq hsorted, ← map_ordered_allPairs]
  exact perm_ordered_pairsWithin hperm

/-- For boxes whose left edges are numbers, whatever their other edges are, the early end of the
scans leaves out no pair, and no pair is found twice. -/
theorem sortedSweep_eq_allPairs {shapes : Array (Proxy Float32)}
    (h : ∀ p ∈ shapes, p.aabb.left.isNaN = false) :
    Strategy.sortedSweep.pairs shapes = Strategy.allPairs.pairs shapes ∧
    (∀ i j, i < j → MayTouch shapes i j → (i, j) ∈ Strategy.sortedSweep.pairs shapes) ∧
    (Strategy.sortedSweep.pairs shapes).Nodup := by
  have heq : Strategy.sortedSweep.pairs shapes = allPairs shapes :=
    sortedSweep_eq fun p hp => Binary32.isKey_iff.mpr (h p hp)
  refine ⟨heq, ?_, ?_⟩
  · intro i j hij htouch
    rw [heq]
    exact (mem_allPairs shapes i j).mpr ⟨hij, htouch⟩
  · rw [heq]
    exact (pairwise_allPairs shapes).imp Pair.ne_of_lt

/-- The right edge of the first box is not a number, the left edges of the second and the third are
the two zeros, and the third ends where the second begins. -/
theorem sortedSweep_notANumber :
    let shapes : Array (Proxy Float32) :=
      #[⟨⟨.ofBits 0xff800000, 0, .ofBits 0x7fc00000, 1⟩, .line⟩, ⟨⟨0, 3, 2, 1⟩, .ball⟩,
        ⟨⟨.ofBits 0x80000000, 1, .ofBits 0x80000000, .ofBits 0x7fc00000⟩, .ball⟩,
        ⟨⟨5, 0, .ofBits 0x7f800000, 1⟩, .line⟩]
    (∀ p ∈ shapes, p.aabb.left.isNaN = false) ∧
      Strategy.sortedSweep.pairs shapes = [(0, 2), (1, 2)] := by
  intro shapes
  have hleft : ∀ p ∈ shapes, p.aabb.left.isNaN = false := by
    simp only [shapes, List.mem_toArray, List.forall_mem_cons]
    exact ⟨rfl, rfl, rfl, rfl, nofun⟩
  have hball : ShapeKind.ball.isStatic = false := by cbv
  have hline : ShapeKind.line.isStatic = true := by cbv
  have hpairs : allPairs shapes = [(0, 2), (1, 2)] := by
    simp only [shapes, allPairs, List.zipIdx, pairsWithin, List.filter_cons, List.filter_nil,
      Proxy.mayTouch, Proxy.bothStatic, Proxy.isStatic, hball, hline]
    decide
  exact ⟨hleft, (sortedSweep_eq_allPairs hleft).1.trans hpairs⟩

end PlanarDynamics.Candidates
