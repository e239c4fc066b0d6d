import PlanarDynamics.Candidates.Pair
import PlanarDynamics.PointIndex.Basic

/-!
# Index query

The lower left corners of all boxes go into a point index, and each box asks for the corners that a
box overlapping it could have. What the index reports is checked against the boxes themselves, so a
range that is too large does no harm.
-/

namespace PlanarDynamics.Candidates

variable {α : Type} [Scalar α]

/-- The largest width and height of the boxes, and at least zero. -/
def largestExtent (shapes : Array (Proxy α)) : α × α :=
  shapes.foldl (fun m p =>
    (Scalar.maxNum m.1 p.aabb.width, Scalar.maxNum m.2 p.aabb.height)) (0, 0)

/-- Lowers a bound by a few roundings of the larger of its size and an extent. -/
def widen (v extent : α) : α := v - Scalar.maxNum (Scalar.abs v) extent * 4.0 * Scalar.epsilon

/-- The corners that a box overlapping `box` could have, if no box is larger than `extent`. -/
def cornerRange (box : Aabb α) (extent : α × α) : Rect α :=
  .ofEnds (widen (box.left - extent.1) extent.1) box.right
    (widen (box.bottom - extent.2) extent.2) box.top

/-- The candidates of one shape among those at the reported positions, each with a later shape. -/
def pairsOf (shapes : Array (Proxy α)) (i : Nat) (p : Proxy α) (reported : List Nat) : List Pair :=
  reported.filterMap fun j =>
    match shapes[j]? with
    | some q => if i < j && p.mayTouch q then some (i, j) else none
    | none => none

/-- Asks an index of the kind `ι` once per shape. -/
def indexQuery (ι : Type → Type) [PointIndex ι α] (shapes : Array (Proxy α)) : List Pair :=
  let corners := shapes.toList.map fun p => p.aabb.minCorner
  match (PointIndex.build corners (List.range shapes.size) : Except LengthMismatch (ι Nat)) with
  | .error _ => []
  | .ok index =>
    let extent := largestExtent shapes
    Pair.sort <| shapes.toList.zipIdx.flatMap fun (p, i) =>
      pairsOf shapes i p (PointIndex.query index (cornerRange p.aabb extent))

end PlanarDynamics.Candidates
