import PlanarDynamics.Vec

/-!
# Closed spans and rectangles

The ranges that point indices are asked for. Both ends belong to a span, and all four edges to a
rectangle.
-/

namespace PlanarDynamics

/-- The closed range `start ≤ v ≤ stop` of scalars. -/
structure Span (α : Type) where
  start : α
  stop : α
  deriving DecidableEq

namespace Span

variable {α : Type} [Scalar α]

/-- The span between two ends given in either order. -/
def ofEnds (a b : α) : Span α := ⟨Scalar.minNum a b, Scalar.maxNum a b⟩

/-- The value lies in the span. -/
def contains (s : Span α) (v : α) : Bool := decide (s.start ≤ v) && decide (v ≤ s.stop)

/-- Both ends of the span `t` lie in `s`. -/
def containsSpan (s t : Span α) : Bool := decide (s.start ≤ t.start) && decide (t.stop ≤ s.stop)

/-- The spans have a value in common. -/
def intersects (s t : Span α) : Bool := decide (s.start ≤ t.stop) && decide (t.start ≤ s.stop)

end Span

/-- The closed rectangle spanned by a range on each axis. -/
structure Rect (α : Type) where
  x : Span α
  y : Span α
  deriving DecidableEq

namespace Rect

variable {α : Type} [Scalar α]

/-- The rectangle between two ends per axis, each pair in either order. -/
def ofEnds (x₀ x₁ y₀ y₁ : α) : Rect α := ⟨.ofEnds x₀ x₁, .ofEnds y₀ y₁⟩

/-- The point lies in the rectangle. -/
def contains (r : Rect α) (p : Vec α) : Bool := r.x.contains p.x && r.y.contains p.y

/-- The rectangle `s` lies in `r`. -/
def containsRect (r s : Rect α) : Bool := r.x.containsSpan s.x && r.y.containsSpan s.y

end Rect

end PlanarDynamics
