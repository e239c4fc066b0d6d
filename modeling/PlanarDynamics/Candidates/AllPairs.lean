import PlanarDynamics.Candidates.Pair

/-!
# All pairs

The plain search: every pair of shapes is looked at. It says which pairs the others are to find.
-/

namespace PlanarDynamics.Candidates

variable {α : Type} [Scalar α]

/-- The candidates among shapes with their positions, each shape against all that follow it. -/
def pairsWithin : List (Proxy α × Nat) → List Pair
  | [] => []
  | (p, i) :: rest =>
    (rest.filter fun q => p.mayTouch q.1).map (fun q => (i, q.2)) ++ pairsWithin rest

/-- Looks at every pair. -/
def allPairs (shapes : Array (Proxy α)) : List Pair := pairsWithin shapes.toList.zipIdx

end PlanarDynamics.Candidates
