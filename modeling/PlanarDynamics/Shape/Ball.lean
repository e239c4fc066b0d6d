import PlanarDynamics.Shape.Particle

/-!
# Balls

Rotating discs, with moment of inertia `m r² / 2`.
-/

namespace PlanarDynamics

variable {α : Type} [Scalar α]

/-- A disc that turns. Its bounds are those of the last refresh. -/
structure Ball (α : Type) where
  body : Body α
  spin : Spin α
  radius : α
  aabb : Aabb α
  deriving DecidableEq

namespace Ball

/-- The bounds at the current position, swept along the velocity for the time `dt`. -/
def refreshBounds (b : Ball α) (dt : α) : Ball α :=
  { b with aabb := circleBounds b.body.pos b.radius (dt • b.body.vel) }

/-- A ball with bounds around its position, unless it has no proper mass. -/
def create (pos vel : Vec α) (mass radius angle angVel : α) :
    Except (MassError α) (Ball α) := do
  let body ← Body.create pos vel mass
  let spin := Spin.create (mass * radius * radius * 0.5) angle angVel
  return ⟨body, spin, radius, circleBounds pos radius ((0 : α) • vel)⟩

/-- An impulse at `contact` turns the ball and pushes it. -/
def applyImpulse (b : Ball α) (impulse contact : Vec α) : Ball α :=
  { b with spin := b.spin.twist (contact - b.body.pos) impulse, body := b.body.push impulse }

/-- Moves and turns for the time `dt`, then refreshes the bounds. -/
def advance (b : Ball α) (dt : α) : Ball α :=
  refreshBounds { b with body := b.body.drift dt, spin := b.spin.drift dt } dt

end Ball

end PlanarDynamics
