import PlanarDynamics.Geometry.Aabb

/-!
# Lines

Fixed segments with a unit normal on the side that bodies are kept on.
-/

namespace PlanarDynamics

/-- A fixed segment. -/
structure Line (α : Type) where
  start : Vec α
  stop : Vec α
  normal : Vec α
  aabb : Aabb α
  deriving DecidableEq

namespace Line

variable {α : Type} [Scalar α]

/-- The margin around a segment, so that the bounds of an upright or level one have an inside. -/
def padding : α := 0.05

/-- The segment with the given normal, and its padded bounds. -/
def withNormal (start stop normal : Vec α) : Line α :=
  let lo := start.min stop - Vec.splat padding
  let hi := start.max stop + Vec.splat padding
  ⟨start, stop, normal, ⟨lo.x, lo.y, hi.x, hi.y⟩⟩

/-- The normal is the direction from `start` to `stop` after a quarter turn counter-clockwise, so
the order of the ends picks the side. -/
def create (start stop : Vec α) : Line α :=
  withNormal start stop ((stop - start).rotateSC 1 0).normalizeOrZero

/-- The normal is on the side of `point`. -/
def facing (start stop point : Vec α) : Line α :=
  let d := stop - start
  let rel := point - start
  withNormal start stop (d.lengthSq • rel - d.dot rel • d).normalizeOrZero

end Line

end PlanarDynamics
