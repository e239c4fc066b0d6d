/-!
# Interval entries

Closed intervals with a value, in lexicographic order of lower end, upper end and value. Keys that
neither precede each other, such as a key that is not a number and any other, count as equal.
-/

namespace PlanarDynamics

/-- The interval from `low` to `high`, in either order, with a value. -/
structure IntervalEntry (K V : Type) where
  low : K
  high : K
  value : V
  deriving DecidableEq

namespace IntervalEntry

variable {K V : Type}

/-- The order of two keys; unordered keys are equal. -/
def compareKeys [LT K] [DecidableLT K] (a b : K) : Ordering :=
  if a < b then .lt else if b < a then .gt else .eq

/-- The larger of two keys, and the first where they are unordered. -/
def maxKey [LT K] [DecidableLT K] (a b : K) : K := if a < b then b else a

/-- Lexicographic order by lower end, upper end and value. -/
def order [LT K] [DecidableLT K] [Ord V] (e f : IntervalEntry K V) : Ordering :=
  (compareKeys e.low f.low).then ((compareKeys e.high f.high).then (compare e.value f.value))

/-- The interval and the closed range from `low` to `high` have a point in common. -/
def overlaps [LE K] [DecidableLE K] (e : IntervalEntry K V) (low high : K) : Bool :=
  decide (e.low ≤ high) && decide (low ≤ e.high)

end IntervalEntry

end PlanarDynamics
