import PlanarDynamics.Geometry.Aabb
import PlanarDynamics.Shape.Body

/-!
# Boxes

Rotating rectangles around their position, with moment of inertia `m (w² + h²) / 12`.
-/

namespace PlanarDynamics

variable {α : Type} [Scalar α]

/-- The four corners of a rectangle, counter-clockwise from the one that is upper right before
turning. -/
structure Corners (α : Type) where
  first : Vec α
  second : Vec α
  third : Vec α
  fourth : Vec α
  deriving DecidableEq

namespace Corners

/-- The corners of a `width` by `height` rectangle around `center`, turned by `angle`. -/
def ofPose (center : Vec α) (width height angle : α) : Corners α :=
  let sin := Scalar.sin angle
  let cos := Scalar.cos angle
  let u := (0.5 : α) • (⟨width, height⟩ : Vec α).rotateSC sin cos
  let v := (0.5 : α) • (⟨-width, height⟩ : Vec α).rotateSC sin cos
  ⟨center + u, center + v, center - u, center - v⟩

/-- The corners in their order. -/
def toList (c : Corners α) : List (Vec α) := [c.first, c.second, c.third, c.fourth]

/-- The lowest coordinate on each axis. -/
def lowest (c : Corners α) : Vec α := ((c.first.min c.second).min c.third).min c.fourth

/-- The highest coordinate on each axis. -/
def highest (c : Corners α) : Vec α := ((c.first.max c.second).max c.third).max c.fourth

/-- The bounds of the corners when they move by `motion`. -/
def bounds (c : Corners α) (motion : Vec α) : Aabb α := Aabb.swept c.lowest c.highest motion

end Corners

/-- A rectangle that turns. Its corners and bounds are those of the last refresh. -/
structure Box (α : Type) where
  body : Body α
  spin : Spin α
  width : α
  height : α
  corners : Corners α
  aabb : Aabb α
  deriving DecidableEq

namespace Box

/-- The corners at the current pose, and their bounds swept along the velocity for the time
`dt`. -/
def refreshBounds (b : Box α) (dt : α) : Box α :=
  let corners := Corners.ofPose b.body.pos b.width b.height b.spin.angle
  { b with corners, aabb := corners.bounds (dt • b.body.vel) }

/-- A box with corners and bounds around its position, unless it has no proper mass. -/
def create (pos vel : Vec α) (mass width height angle angVel : α) :
    Except (MassError α) (Box α) := do
  let body ← Body.create pos vel mass
  let inertia := mass * (width * width + height * height) / 12.0
  let corners := Corners.ofPose pos width height angle
  let spin := Spin.create inertia angle angVel
  return ⟨body, spin, width, height, corners, corners.bounds ((0 : α) • vel)⟩

/-- An impulse at `contact` turns the box and pushes it. -/
def applyImpulse (b : Box α) (impulse contact : Vec α) : Box α :=
  { b with spin := b.spin.twist (contact - b.body.pos) impulse, body := b.body.push impulse }

/-- Moves and turns for the time `dt`, then refreshes the bounds. -/
def advance (b : Box α) (dt : α) : Box α :=
  refreshBounds { b with body := b.body.drift dt, spin := b.spin.drift dt } dt

end Box

end PlanarDynamics
