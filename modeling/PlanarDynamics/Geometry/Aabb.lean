import PlanarDynamics.Vec

/-!
# Axis-aligned bounding boxes

A box is given by its four edges. Boxes with edges in the wrong order, or with an edge that is not
a number, are values like any other; `isValid` tells them apart.
-/

namespace PlanarDynamics

/-- An axis-aligned box, `y` pointing up. -/
structure Aabb (α : Type) where
  left : α
  bottom : α
  right : α
  top : α
  deriving DecidableEq

namespace Aabb

variable {α : Type} [Scalar α]

/-- The bounds `lo` to `hi`, extended by `motion` on the side it points to. -/
def swept (lo hi motion : Vec α) : Aabb α where
  left := lo.x + Scalar.minNum motion.x 0
  bottom := lo.y + Scalar.minNum motion.y 0
  right := hi.x + Scalar.maxNum motion.x 0
  top := hi.y + Scalar.maxNum motion.y 0

/-- Neither box lies strictly beyond an edge of the other; common edges count as overlap. -/
def intersects (a b : Aabb α) : Bool :=
  !(decide (a.right < b.left) || decide (b.right < a.left) ||
    decide (a.top < b.bottom) || decide (b.top < a.bottom))

/-- The distance from the left to the right edge, negative if they are in the wrong order. -/
def width (a : Aabb α) : α := a.right - a.left

/-- The distance from the lower to the upper edge, negative if they are in the wrong order. -/
def height (a : Aabb α) : α := a.top - a.bottom

/-- The lower left corner. -/
def minCorner (a : Aabb α) : Vec α := ⟨a.left, a.bottom⟩

/-- The edges of each axis are in order. -/
def isValid (a : Aabb α) : Bool := decide (a.left ≤ a.right) && decide (a.bottom ≤ a.top)

end Aabb

end PlanarDynamics
