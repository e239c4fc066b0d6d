import PlanarDynamics.Contact
import PlanarDynamics.Simulator.Attraction
import PlanarDynamics.Simulator.State

/-!
# Stepping

A run is split into equal steps. In each, every shape moves and takes the impulses of the fields,
mutual attraction acts, and the candidate pairs are resolved one after another, in the order in
which they were found.
-/

namespace PlanarDynamics

variable {α : Type} [Scalar α]

/-- Moves a shape, then applies each field's impulse at the shape's own position. -/
def integrate {σ : Type} [Moving σ α] (fields : Array (ForceField α)) (dt : α) (shape : σ) : σ :=
  fields.foldl
    (fun s field =>
      Moving.applyImpulse s (dt • field.force (Moving.toMover s)) (Moving.body s).pos)
    (Moving.advance shape dt)

namespace Simulator

/-- Moves every shape. -/
def integrateAll (s : Simulator α) (dt : α) : Simulator α :=
  { s with
    particles := s.particles.map (integrate s.fields dt)
    balls := s.balls.map (integrate s.fields dt)
    boxes := s.boxes.map (integrate s.fields dt) }

/-- The shapes that move: particles, balls, boxes. -/
def movers (s : Simulator α) : List (Mover α) :=
  s.particles.toList.map .particle ++ s.balls.toList.map .ball ++ s.boxes.toList.map .box

/-- Puts moving shapes back by kind. -/
def withMovers (s : Simulator α) (movers : List (Mover α)) : Simulator α :=
  { s with
    particles := (movers.filterMap Mover.particle?).toArray
    balls := (movers.filterMap Mover.ball?).toArray
    boxes := (movers.filterMap Mover.box?).toArray }

/-- Mutual attraction of all shapes that move, if its constant is positive. -/
def attractAll (s : Simulator α) (dt : α) : Simulator α :=
  if 0 < s.config.attraction then
    s.withMovers (Attraction.attractAll s.config.attraction dt s.movers)
  else
    s

/-- What the search for pairs sees of the shapes that a list of handles names. -/
def proxies (s : Simulator α) (handles : Array Handle) : Array (Proxy α) :=
  handles.filterMap fun h => (s.aabbOf h).map fun aabb => ⟨aabb, h.kind⟩

/-- Resolves the contact of two particles. -/
def resolveParticles (s : Simulator α) (law : ContactLaw α) (i j : Nat) : Option (Simulator α) := do
  if i = j then
    none
  else
    let p ← s.particles[i]?
    let q ← s.particles[j]?
    let (p, q) ← law.particles p q
    return { s with particles := (s.particles.setIfInBounds i p).setIfInBounds j q }

/-- Resolves the contact of a particle and a line. -/
def resolveParticleLine (s : Simulator α) (law : ContactLaw α) (i l : Nat) :
    Option (Simulator α) := do
  let p ← law.particleLine (← s.particles[i]?) (← s.lines[l]?)
  return { s with particles := s.particles.setIfInBounds i p }

/-- Resolves the contact of a ball and a line. -/
def resolveBallLine (s : Simulator α) (law : ContactLaw α) (i l : Nat) :
    Option (Simulator α) := do
  let b ← law.ballLine (← s.balls[i]?) (← s.lines[l]?)
  return { s with balls := s.balls.setIfInBounds i b }

/-- Resolves the contact of a box and a line. -/
def resolveBoxLine (s : Simulator α) (law : ContactLaw α) (i l : Nat) :
    Option (Simulator α) := do
  let b ← law.boxLine (← s.boxes[i]?) (← s.lines[l]?)
  return { s with boxes := s.boxes.setIfInBounds i b }

/-- Resolves the contact of two shapes, if they touch. Pairs of which neither is a line touch only
if both are particles. -/
def resolve (s : Simulator α) (law : ContactLaw α) : Handle → Handle → Option (Simulator α)
  | .particle i, .particle j => s.resolveParticles law i j
  | .particle i, .line l | .line l, .particle i => s.resolveParticleLine law i l
  | .ball i, .line l | .line l, .ball i => s.resolveBallLine law i l
  | .box i, .line l | .line l, .box i => s.resolveBoxLine law i l
  | _, _ => none

/-- Resolves pairs of positions among the handles in turn, and counts those that touch. -/
def resolvePairs (law : ContactLaw α) (handles : Array Handle) (pairs : List Pair)
    (s : Simulator α) : Simulator α × Nat :=
  pairs.foldl
    (fun (s, contacts) (i, j) =>
      match handles[i]?, handles[j]? with
      | some a, some b =>
        match s.resolve law a b with
        | some s => (s, contacts + 1)
        | none => (s, contacts)
      | _, _ => (s, contacts))
    (s, 0)

/-- One step: move, attract, find candidates, resolve them, count. -/
def step (law : ContactLaw α) (dt : α) (s : Simulator α) : Simulator α :=
  let s := (s.integrateAll dt).attractAll dt
  let handles := s.references.shapes
  let pairs := s.config.strategy.pairs (s.proxies handles)
  let (s, contacts) := resolvePairs law handles pairs s
  { s with
    stats := { s.stats with
      candidates := s.stats.candidates + pairs.length
      contacts := s.stats.contacts + contacts } }

/-- The state at the start of a run: references are kept, there is at least one step, and the
counts begin anew. -/
def beginRun (s : Simulator α) : Simulator α :=
  let s := s.keepReferences
  { s with
    config := { s.config with subSteps := if s.config.subSteps = 0 then 1 else s.config.subSteps }
    stats := ⟨s.references.moving.size, s.lines.size, 0, 0⟩ }

/-- Runs for `seconds`, in the number of steps that the settings give. -/
def simulate (s : Simulator α) (seconds : α) : Simulator α :=
  let s := s.beginRun
  let law : ContactLaw α := ⟨s.config.restitution, s.config.friction⟩
  let dt := seconds / (s.config.subSteps : α)
  let s := s.config.subSteps.repeat (step law dt) s
  { s with hasTiming := s.hasTiming || s.config.timed }

end Simulator

end PlanarDynamics
