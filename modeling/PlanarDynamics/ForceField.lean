import PlanarDynamics.Shape.Moving

/-!
# Force fields

A field exerts a force on every moving shape. Its law may read the field's position, which can be
moved between steps.
-/

namespace PlanarDynamics

/-- A force field: a point of reference and the force for a given such point and shape. -/
structure ForceField (α : Type) where
  pos : Vec α
  law : Vec α → Mover α → Vec α

namespace ForceField

variable {α : Type} [Scalar α]

/-- The force on a shape. -/
def force (f : ForceField α) (m : Mover α) : Vec α := f.law f.pos m

/-- A field with its point of reference at the origin. -/
def atOrigin (law : Vec α → Mover α → Vec α) : ForceField α := ⟨0, law⟩

/-- The acceleration `g` everywhere. -/
def uniform (g : Vec α) : ForceField α := atOrigin fun _ m => m.body.mass • g

/-- Standard gravity, downwards. -/
def earthAcceleration : Vec α := ⟨0, -9.8⟩

/-- Standard gravity as a field. -/
def earthGravity : ForceField α := uniform earthAcceleration

/-- Attraction towards `pos` by `strength` times the mass over the squared distance; none at the
source itself. -/
def pointGravity (pos : Vec α) (strength : α) : ForceField α where
  pos
  law source m :=
    let (dist, dir) := (source - m.body.pos).magnitudeAndDirection
    if dist == 0 then 0 else (strength * m.body.mass / (dist * dist)) • dir

end ForceField

end PlanarDynamics
