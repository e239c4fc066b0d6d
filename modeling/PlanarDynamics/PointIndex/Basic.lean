import PlanarDynamics.Geometry.Rect

/-!
# Point indices

Fixed sets of points with values that answer which values lie in a rectangle. An index is built
from as many values as points.
-/

namespace PlanarDynamics

/-- The numbers of points and values, where they differ. -/
structure LengthMismatch where
  points : Nat
  values : Nat
  deriving DecidableEq

/-- The wording of the refusal. -/
def LengthMismatch.message (e : LengthMismatch) : String :=
  s!"points and values must have equal length (got {e.points} points, {e.values} values)"

/-- Points with their values, if there are as many of the one as of the other. -/
def pairPoints {α V : Type} (points : List (Vec α)) (values : List V) :
    Except LengthMismatch (List (Vec α × V)) :=
  if points.length = values.length then .ok (points.zip values)
  else .error ⟨points.length, values.length⟩

/-- A structure `ι` of values over points with coordinates in `α`. -/
class PointIndex (ι : Type → Type) (α : outParam Type) where
  build {V : Type} : List (Vec α) → List V → Except LengthMismatch (ι V)
  /-- The values of the points in a rectangle, edges included. -/
  query {V : Type} : ι V → Rect α → List V

end PlanarDynamics
