import PlanarDynamics.Shape.Ball
import PlanarDynamics.Shape.Box

/-!
# Moving shapes

The three kinds of shapes that move, as one type and as one interface. Force fields and mutual
attraction see a shape as a `Mover`; stepping treats each kind through `Moving`.
-/

namespace PlanarDynamics

/-- Any shape that moves. -/
inductive Mover (α : Type) where
  | particle (p : Particle α)
  | ball (b : Ball α)
  | box (b : Box α)
  deriving DecidableEq

/-- What stepping needs of a shape. -/
class Moving (σ : Type) (α : outParam Type) where
  body : σ → Body α
  /-- Replaces the linear state; the bounds stay as they were. -/
  setBody : σ → Body α → σ
  refreshBounds : σ → α → σ
  applyImpulse : σ → Vec α → Vec α → σ
  advance : σ → α → σ
  toMover : σ → Mover α

variable {α : Type} [Scalar α]

instance : Moving (Particle α) α where
  body := Particle.body
  setBody p body := { p with body }
  refreshBounds := Particle.refreshBounds
  applyImpulse := Particle.applyImpulse
  advance := Particle.advance
  toMover := .particle

instance : Moving (Ball α) α where
  body := Ball.body
  setBody b body := { b with body }
  refreshBounds := Ball.refreshBounds
  applyImpulse := Ball.applyImpulse
  advance := Ball.advance
  toMover := .ball

instance : Moving (Box α) α where
  body := Box.body
  setBody b body := { b with body }
  refreshBounds := Box.refreshBounds
  applyImpulse := Box.applyImpulse
  advance := Box.advance
  toMover := .box

namespace Mover

/-- The linear state of a shape. -/
def body : Mover α → Body α
  | particle p => p.body
  | ball b => b.body
  | box b => b.body

/-- Applies an impulse in the way of the shape's kind. -/
def applyImpulse (impulse contact : Vec α) : Mover α → Mover α
  | particle p => particle (p.applyImpulse impulse contact)
  | ball b => ball (b.applyImpulse impulse contact)
  | box b => box (b.applyImpulse impulse contact)

/-- The shape, if it is a particle. -/
def particle? : Mover α → Option (Particle α)
  | particle p => some p
  | _ => none

/-- The shape, if it is a ball. -/
def ball? : Mover α → Option (Ball α)
  | ball b => some b
  | _ => none

/-- The shape, if it is a box. -/
def box? : Mover α → Option (Box α)
  | box b => some b
  | _ => none

end Mover

end PlanarDynamics
