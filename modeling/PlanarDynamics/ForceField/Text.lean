import PlanarDynamics.Decimal.Binary32
import PlanarDynamics.ForceField

/-!
# Force fields as text

A field is shown by its point of reference. Its law cannot be shown.
-/

namespace PlanarDynamics.ForceField

/-- The field as text. -/
def describe (f : ForceField Float32) : String :=
  let x := Binary32.text .detailed f.pos.x
  let y := Binary32.text .detailed f.pos.y
  "ForceField \x7b pos: Vec2(" ++ x ++ ", " ++ y ++ "), .. \x7d"

end PlanarDynamics.ForceField
