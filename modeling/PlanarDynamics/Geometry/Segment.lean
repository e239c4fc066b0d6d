import PlanarDynamics.Vec

/-!
# Distance to a segment
-/

namespace PlanarDynamics

variable {α : Type} [Scalar α]

/-- The squared distance from `p` to the segment from `start` to `stop`, ends included. A segment
without length is its start. -/
def distSqToSegment (start stop p : Vec α) : α :=
  let d := stop - start
  let lenSq := d.lengthSq
  if lenSq == 0 then
    (p - start).lengthSq
  else
    let t := (p - start).dot d / lenSq
    if t < 0 then (start - p).lengthSq
    else if 1 < t then (stop - p).lengthSq
    else (p - (start + t • d)).lengthSq

end PlanarDynamics
