import PlanarDynamics.Geometry.Aabb
import PlanarDynamics.Shape.Body

/-!
# Particles

Circular point masses without rotation.
-/

namespace PlanarDynamics

variable {α : Type} [Scalar α]

/-- The bounds of a circle that moves by `motion`. -/
def circleBounds (pos : Vec α) (radius : α) (motion : Vec α) : Aabb α :=
  Aabb.swept (pos - Vec.splat radius) (pos + Vec.splat radius) motion

/-- A disc that does not turn. Its bounds are those of the last refresh. -/
structure Particle (α : Type) where
  body : Body α
  radius : α
  aabb : Aabb α
  deriving DecidableEq

namespace Particle

/-- The bounds at the current position, swept along the velocity for the time `dt`. -/
def refreshBounds (p : Particle α) (dt : α) : Particle α :=
  { p with aabb := circleBounds p.body.pos p.radius (dt • p.body.vel) }

/-- A particle with bounds around its position, unless it has no proper mass. -/
def create (pos vel : Vec α) (mass radius : α) : Except (MassError α) (Particle α) := do
  let body ← Body.create pos vel mass
  return ⟨body, radius, circleBounds pos radius ((0 : α) • vel)⟩

/-- A point mass takes an impulse whole, wherever it acts. -/
def applyImpulse (p : Particle α) (impulse _contact : Vec α) : Particle α :=
  { p with body := p.body.push impulse }

/-- Moves for the time `dt`, then refreshes the bounds. -/
def advance (p : Particle α) (dt : α) : Particle α :=
  refreshBounds { p with body := p.body.drift dt } dt

end Particle

end PlanarDynamics
