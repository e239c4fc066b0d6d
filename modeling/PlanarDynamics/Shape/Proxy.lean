import PlanarDynamics.Geometry.Aabb
import PlanarDynamics.Shape.Kind

/-!
# Proxies

What the search for candidate pairs sees of a shape: its bounds and its kind.
-/

namespace PlanarDynamics

/-- The bounds and the kind of a shape. -/
structure Proxy (α : Type) where
  aabb : Aabb α
  kind : ShapeKind
  deriving DecidableEq

namespace Proxy

variable {α : Type} [Scalar α]

/-- The shape never moves. -/
def isStatic (p : Proxy α) : Bool := p.kind.isStatic

/-- A pair of shapes that both never move, which is no candidate. -/
def bothStatic (p q : Proxy α) : Bool := p.isStatic && q.isStatic

/-- The pair is a candidate for contact: one of the two moves and their bounds overlap. -/
def mayTouch (p q : Proxy α) : Bool := !p.bothStatic q && p.aabb.intersects q.aabb

end Proxy

end PlanarDynamics
