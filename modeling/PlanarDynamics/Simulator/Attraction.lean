import PlanarDynamics.Shape.Moving

/-!
# Mutual attraction

Equal and opposite impulses of size `g m₁ m₂ / d² · dt` between every two shapes that move. Two
shapes at almost the same point do not attract each other.
-/

namespace PlanarDynamics.Attraction

variable {α : Type} [Scalar α]

/-- The impulses of two shapes on each other. -/
def attract (g dt : α) (a b : Mover α) : Mover α × Mover α :=
  let (dist, dir) := (b.body.pos - a.body.pos).magnitudeAndDirection
  if dist == 0 then
    (a, b)
  else
    let impulse := dt • ((g * a.body.mass * b.body.mass / (dist * dist)) • dir)
    (a.applyImpulse impulse a.body.pos, b.applyImpulse (-impulse) b.body.pos)

/-- One shape with each of the others in turn. -/
def attractEach (g dt : α) (a : Mover α) : List (Mover α) → Mover α × List (Mover α)
  | [] => (a, [])
  | b :: rest =>
    let (a, b) := attract g dt a b
    let (a, rest) := attractEach g dt a rest
    (a, b :: rest)

/-- Attraction changes shapes but not their number. -/
theorem length_attractEach (g dt : α) (a : Mover α) (others : List (Mover α)) :
    (attractEach g dt a others).2.length = others.length := by
  induction others generalizing a with
  | nil => rfl
  | cons b rest ih => simp [attractEach, ih]

/-- Every shape with those that follow it. -/
def attractAll (g dt : α) : List (Mover α) → List (Mover α)
  | [] => []
  | a :: rest =>
    let result := attractEach g dt a rest
    result.1 :: attractAll g dt result.2
termination_by shapes => shapes.length
decreasing_by simp only [length_attractEach, List.length_cons]; omega

end PlanarDynamics.Attraction
