import PlanarDynamics.Geometry.Segment
import PlanarDynamics.Shape.Line
import PlanarDynamics.Shape.Moving

/-!
# Contacts

The response of two shapes in contact. Each contact is resolved once, on its own: shapes that
overlap are moved apart by position, and shapes that approach each other by an impulse. A pair that
does not touch has no response (`none`).
-/

namespace PlanarDynamics

/-- How contacts respond: the share of the approach speed that is given back, and the share of the
normal impulse that friction may reach. -/
structure ContactLaw (α : Type) where
  restitution : α
  friction : α

namespace ContactLaw

variable {α : Type} [Scalar α]

/-- The impulse on a circle at a line: the normal part of the momentum reversed, less what
restitution swallows, and friction against the sliding part, at most its size. `spinTerm` is what
a turning shape adds to the sliding. -/
def lineImpulse (c : ContactLaw α) (momentum normal spinTerm : Vec α) : Vec α :=
  let normalPart := momentum.projOnUnit normal
  let bounce := (-(1 + c.restitution)) • normalPart
  let (slideSize, slideDir) := (momentum - normalPart - spinTerm).magnitudeAndDirection
  bounce + (-c.friction * Scalar.minNum normalPart.length slideSize) • slideDir

/-- The position of a circle at a line: out of the line along its normal by the depth of overlap.
`none` if the circle does not reach the segment. -/
def pushOut (pos : Vec α) (radius : α) (line : Line α) : Option (Vec α) :=
  let distSq := distSqToSegment line.start line.stop pos
  if radius * radius < distSq then
    none
  else
    let depth := Scalar.sqrt distSq - radius
    some (if depth < 0 then pos - depth • line.normal else pos)

/-- Two particles in contact. Both move by the whole depth of overlap, and if they approach, the
impulse along the line of centres leaves the given share of their relative speed. Particles at one
point have no such line and no contact. -/
def particles (c : ContactLaw α) (p q : Particle α) : Option (Particle α × Particle α) :=
  let reach := p.radius + q.radius
  let offset := q.body.pos - p.body.pos
  let distSq := offset.lengthSq
  if reach * reach < distSq then
    none
  else
    let dist := Scalar.sqrt distSq
    if dist == 0 then
      none
    else
      let n := offset.div dist
      let depth := dist - reach
      let a := if depth < 0 then { p.body with pos := p.body.pos + depth • n } else p.body
      let b := if depth < 0 then { q.body with pos := q.body.pos - depth • n } else q.body
      if b.vel.dot n < a.vel.dot n then
        let relative := b.vel - a.vel
        let impulse := ((1 + c.restitution) • relative.projOnUnit n).div (a.invMass + b.invMass)
        some ({ p with body := { a with vel := a.vel + a.invMass • impulse } },
          { q with body := { b with vel := b.vel - b.invMass • impulse } })
      else
        some ({ p with body := a }, { q with body := b })

/-- A particle at a line. -/
def particleLine (c : ContactLaw α) (p : Particle α) (line : Line α) : Option (Particle α) := do
  let pos ← pushOut p.body.pos p.radius line
  let p := { p with body := { p.body with pos } }
  if p.body.vel.dot line.normal < 0 then
    return p.applyImpulse (c.lineImpulse (p.body.mass • p.body.vel) line.normal 0) p.body.pos
  else
    return p

/-- A ball at a line. The impulse acts where the ball touches, so friction turns it. -/
def ballLine (c : ContactLaw α) (b : Ball α) (line : Line α) : Option (Ball α) := do
  let pos ← pushOut b.body.pos b.radius line
  let b := { b with body := { b.body with pos } }
  let n := line.normal
  if b.body.vel.dot n < 0 then
    let spinTerm := (b.spin.angVel * b.spin.inertia * b.radius) • n.rotateSC 1 0
    let impulse := c.lineImpulse (b.body.mass • b.body.vel) n spinTerm
    return b.applyImpulse impulse (b.body.pos - b.radius • n)
  else
    return b

/-- A box at a line, taken as a circle whose radius is the root of the box's area, and without
friction. -/
def boxLine (c : ContactLaw α) (b : Box α) (line : Line α) : Option (Box α) := do
  let radius := Scalar.sqrt (b.width * b.height)
  let pos ← pushOut b.body.pos radius line
  let b := { b with body := { b.body with pos } }
  let n := line.normal
  if b.body.vel.dot n < 0 then
    let impulse := (-(1 + c.restitution) * b.body.mass) • b.body.vel.projOnUnit n
    return b.applyImpulse impulse (b.body.pos - radius • n)
  else
    return b

end ContactLaw

end PlanarDynamics
