import PlanarDynamics.Scalar

/-!
# Plane vectors

Vectors with the component arithmetic, projections and rotations of the solver. Every operation
rounds once per scalar operation, in the order written here.
-/

namespace PlanarDynamics

/-- A vector of the plane, also used for points. -/
structure Vec (α : Type) where
  x : α
  y : α
  deriving DecidableEq

namespace Vec

variable {α : Type} [Scalar α]

/-- The vector with both components equal to `s`. -/
def splat (s : α) : Vec α := ⟨s, s⟩

instance : Zero (Vec α) := ⟨⟨0, 0⟩⟩

instance : Add (Vec α) := ⟨fun v w => ⟨v.x + w.x, v.y + w.y⟩⟩

instance : Sub (Vec α) := ⟨fun v w => ⟨v.x - w.x, v.y - w.y⟩⟩

instance : Neg (Vec α) := ⟨fun v => ⟨-v.x, -v.y⟩⟩

instance : SMul α (Vec α) := ⟨fun s v => ⟨v.x * s, v.y * s⟩⟩

/-- Divides each component by `s`. -/
def div (v : Vec α) (s : α) : Vec α := ⟨v.x / s, v.y / s⟩

/-- The scalar product. -/
def dot (v w : Vec α) : α := v.x * w.x + v.y * w.y

/-- The signed area spanned by two vectors. -/
def perpDot (v w : Vec α) : α := v.x * w.y - v.y * w.x

/-- The squared length. -/
def lengthSq (v : Vec α) : α := v.dot v

/-- The length. -/
def length (v : Vec α) : α := Scalar.sqrt v.lengthSq

/-- The smaller component on each axis; where the two are unordered, that of the second. -/
def min (v w : Vec α) : Vec α :=
  ⟨if v.x < w.x then v.x else w.x, if v.y < w.y then v.y else w.y⟩

/-- The larger component on each axis; where the two are unordered, that of the second. -/
def max (v w : Vec α) : Vec α :=
  ⟨if w.x < v.x then v.x else w.x, if w.y < v.y then v.y else w.y⟩

/-- The unit vector in the direction of `v`, or zero if the reciprocal of the length is not a
positive finite number. -/
def normalizeOrZero (v : Vec α) : Vec α :=
  let r := 1 / v.length
  if Scalar.isFinite r && decide (0 < r) then r • v else 0

/-- The projection of `v` onto a vector that is not zero. -/
def proj (v onto : Vec α) : Vec α := (v.dot onto / onto.lengthSq) • onto

/-- The projection of `v` onto a vector of length one. -/
def projOnUnit (v unit : Vec α) : Vec α := v.dot unit • unit

/-- Counter-clockwise rotation by an angle given by its sine and cosine. -/
def rotateSC (v : Vec α) (sin cos : α) : Vec α :=
  ⟨v.x * cos - v.y * sin, v.x * sin + v.y * cos⟩

/-- Counter-clockwise rotation by an angle in radians. -/
def rotated (v : Vec α) (angle : α) : Vec α := v.rotateSC (Scalar.sin angle) (Scalar.cos angle)

/-- The length of a vector and its direction; both zero where the length is almost zero. -/
def magnitudeAndDirection (v : Vec α) : α × Vec α :=
  let magnitude := v.length
  if Scalar.almostEqual magnitude 0 then (0, 0) else (magnitude, v.div magnitude)

end Vec

end PlanarDynamics
