import PlanarDynamics.Vec

/-!
# Bodies

The linear state that every moving shape has and the angular state of the rigid ones. A body has a
finite positive mass: nothing else is accepted.
-/

namespace PlanarDynamics

/-- The mass that a moving shape was refused for. -/
structure MassError (α : Type) where
  mass : α
  deriving DecidableEq

variable {α : Type} [Scalar α]

/-- A mass that a moving shape may have: finite and positive. -/
def isMass (mass : α) : Bool := Scalar.isFinite mass && decide (0 < mass)

/-- Position, velocity and mass. -/
structure Body (α : Type) where
  pos : Vec α
  vel : Vec α
  mass : α
  invMass : α
  deriving DecidableEq

namespace Body

/-- A body of the given mass, unless that is no mass. -/
def create (pos vel : Vec α) (mass : α) : Except (MassError α) (Body α) :=
  if isMass mass then .ok ⟨pos, vel, mass, 1 / mass⟩ else .error ⟨mass⟩

/-- The velocity gains the impulse over the mass. -/
def push (b : Body α) (impulse : Vec α) : Body α := { b with vel := b.vel + b.invMass • impulse }

/-- Moves the body along its velocity for the time `dt`. -/
def drift (b : Body α) (dt : α) : Body α := { b with pos := b.pos + dt • b.vel }

end Body

/-- Moment of inertia, orientation and angular velocity. -/
structure Spin (α : Type) where
  inertia : α
  invInertia : α
  angle : α
  angVel : α
  deriving DecidableEq

namespace Spin

/-- A spin of the given inertia. Without positive inertia nothing turns the shape. -/
def create (inertia angle angVel : α) : Spin α :=
  ⟨inertia, if 0 < inertia then 1 / inertia else 0, angle, angVel⟩

/-- The angular velocity gains the torque of `impulse` at the offset `arm` over the inertia. -/
def twist (s : Spin α) (arm impulse : Vec α) : Spin α :=
  { s with angVel := s.angVel + arm.perpDot impulse * s.invInertia }

/-- Turns at the angular velocity for the time `dt`. -/
def drift (s : Spin α) (dt : α) : Spin α := { s with angle := s.angle + s.angVel * dt }

end Spin

end PlanarDynamics
