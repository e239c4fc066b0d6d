/-!
# Partition points

Binary search for the end of the leading elements that pass a test.
-/

namespace PlanarDynamics

/-- Narrows the `size` elements from `base` on to one, keeping the upper half where its first
element passes, and tells the position after that element or the element's own. -/
def partitionFrom {β : Type} (passes : β → Bool) (xs : Array β) (base size : Nat) : Nat :=
  if 1 < size then
    let half := size / 2
    let mid := base + half
    partitionFrom passes xs (if xs[mid]?.any passes then mid else base) (size - half)
  else if xs[base]?.any passes then
    base + 1
  else
    base
termination_by size

/-- The number of leading elements that pass, if no element that fails comes before one that
passes. -/
def partitionPoint {β : Type} (passes : β → Bool) (xs : Array β) : Nat :=
  partitionFrom passes xs 0 xs.size

end PlanarDynamics
