import PlanarDynamics.Candidates.AllPairs
import PlanarDynamics.Candidates.IndexQuery
import PlanarDynamics.Candidates.IntervalSweep
import PlanarDynamics.Candidates.SortedSweep
import PlanarDynamics.PointIndex.KdTree
import PlanarDynamics.PointIndex.RangeTree

/-!
# Strategies

The ways to search for candidate pairs.
-/

namespace PlanarDynamics

/-- A way to search for candidate pairs. -/
inductive Strategy where
  | allPairs
  | sortedSweep
  | intervalSweep
  | kdTree
  | rangeTree
  deriving DecidableEq

/-- The candidate pairs that a strategy finds, in ascending order. -/
def Strategy.pairs {α : Type} [Scalar α] (strategy : Strategy) (shapes : Array (Proxy α)) :
    List Pair :=
  match strategy with
  | allPairs => Candidates.allPairs shapes
  | sortedSweep => Candidates.sortedSweep shapes
  | intervalSweep => Candidates.intervalSweep shapes
  | kdTree => Candidates.indexQuery (KdTree α) shapes
  | rangeTree => Candidates.indexQuery (RangeTree α) shapes

end PlanarDynamics
