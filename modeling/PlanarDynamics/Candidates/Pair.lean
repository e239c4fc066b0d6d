import PlanarDynamics.Shape.Proxy

/-!
# Candidate pairs

Pairs of positions in a list of shapes, the lower one first. Every strategy of this folder lists
its pairs in ascending lexicographic order.
-/

namespace PlanarDynamics

/-- Two positions in a list of shapes. -/
abbrev Pair := Nat × Nat

namespace Pair

/-- The pair of two positions, the lower one first. -/
def ordered (i j : Nat) : Pair := if i < j then (i, j) else (j, i)

/-- Lexicographic order. -/
def le (p q : Pair) : Bool := decide (p.1 < q.1) || (p.1 == q.1 && decide (p.2 ≤ q.2))

/-- Ascending lexicographic order. -/
def sort (pairs : List Pair) : List Pair := pairs.mergeSort le

end Pair

end PlanarDynamics
