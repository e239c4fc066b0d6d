import PlanarDynamics.Candidates.Pair

/-!
# Sorted sweep

The shapes in order of their left edges, each against those that follow as long as they begin
within it.
-/

namespace PlanarDynamics.Candidates

variable {α : Type} [Scalar α]

/-- Total order of shapes by left edge. -/
def leftOrder (p q : Proxy α × Nat) : Ordering := Scalar.totalCmp p.1.aabb.left q.1.aabb.left

/-- Scans from each shape to the first one that begins beyond its right edge. -/
def scan : List (Proxy α × Nat) → List Pair
  | [] => []
  | (p, i) :: rest =>
    let near := rest.takeWhile fun q => !decide (p.aabb.right < q.1.aabb.left)
    (near.filter fun q => p.mayTouch q.1).map (fun q => Pair.ordered i q.2) ++ scan rest

/-- Sorts by left edge, those at the same edge by position, then scans. -/
def sortedSweep (shapes : Array (Proxy α)) : List Pair :=
  Pair.sort (scan (shapes.toList.zipIdx.mergeSort fun p q => (leftOrder p q).isLE))

end PlanarDynamics.Candidates
