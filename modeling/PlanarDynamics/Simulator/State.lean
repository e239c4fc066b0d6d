import PlanarDynamics.ForceField
import PlanarDynamics.Shape.Line
import PlanarDynamics.Simulator.Config

/-!
# State of a simulation

The shapes, one collection per kind, the force fields and the settings. Shapes are named by handles,
which stay valid as long as the simulation is not cleared. The references to all shapes in order of
their left edges are computed when they are first needed after a shape was added, and kept until
the next one is.
-/

namespace PlanarDynamics

/-- The name of a shape: its kind and its position among the shapes of that kind. -/
inductive Handle where
  | line (i : Nat)
  | particle (i : Nat)
  | ball (i : Nat)
  | box (i : Nat)
  deriving DecidableEq

/-- The kind of the shape that a handle names. -/
def Handle.kind : Handle → ShapeKind
  | line _ => .line
  | particle _ => .particle
  | ball _ => .ball
  | box _ => .box

/-- Handles of all shapes and of those that move, in order of left edges when they were sorted. -/
structure References where
  shapes : Array Handle
  moving : Array Handle
  deriving DecidableEq

/-- Counts of the last run: shapes that move and that do not, and candidate pairs and contacts
summed over its steps. -/
structure Stats where
  moving : Nat
  fixed : Nat
  candidates : Nat
  contacts : Nat
  deriving DecidableEq

/-- The state of a simulation. -/
structure Simulator (α : Type) where
  config : Config α
  lines : Array (Line α)
  particles : Array (Particle α)
  balls : Array (Ball α)
  boxes : Array (Box α)
  fields : Array (ForceField α)
  /-- The references, unless a shape was added since they were sorted. -/
  refs : Option References
  stats : Stats
  /-- A run was timed. -/
  hasTiming : Bool

namespace Simulator

variable {α : Type}

/-- A simulation without shapes and fields. -/
def create (config : Config α) : Simulator α where
  config
  lines := #[]
  particles := #[]
  balls := #[]
  boxes := #[]
  fields := #[]
  refs := some ⟨#[], #[]⟩
  stats := ⟨0, 0, 0, 0⟩
  hasTiming := false

/-- Removes all shapes and fields and forgets what was counted and timed. -/
def clear (s : Simulator α) : Simulator α := create s.config

/-- There are no shapes. -/
def isEmpty (s : Simulator α) : Bool :=
  s.lines.isEmpty && s.particles.isEmpty && s.balls.isEmpty && s.boxes.isEmpty

/-- The bounds of a shape as of its last refresh. -/
def aabbOf (s : Simulator α) : Handle → Option (Aabb α)
  | .line i => s.lines[i]?.map (·.aabb)
  | .particle i => s.particles[i]?.map (·.aabb)
  | .ball i => s.balls[i]?.map (·.aabb)
  | .box i => s.boxes[i]?.map (·.aabb)

/-- Adds a field; the result is its position among the fields. -/
def addField (s : Simulator α) (field : ForceField α) : Simulator α × Nat :=
  ({ s with fields := s.fields.push field }, s.fields.size)

/-- Moves the point of reference of a field. -/
def moveField (s : Simulator α) (i : Nat) (pos : Vec α) : Simulator α :=
  { s with fields := s.fields.modify i fun f => { f with pos } }

variable [Scalar α]

/-- Adds a finished line; the result is its position among the lines. -/
def pushLine (s : Simulator α) (line : Line α) : Simulator α × Nat :=
  ({ s with lines := s.lines.push line, refs := none }, s.lines.size)

/-- Adds a segment; the result is its position among the lines. -/
def addLine (s : Simulator α) (start stop : Vec α) : Simulator α × Nat :=
  s.pushLine (.create start stop)

/-- Adds a segment with its normal on the side of `point`. -/
def addLineFacing (s : Simulator α) (start stop point : Vec α) : Simulator α × Nat :=
  s.pushLine (.facing start stop point)

/-- Adds a particle; the result is its position among the particles. -/
def addParticle (s : Simulator α) (mass radius : α) (pos vel : Vec α) :
    Except (MassError α) (Simulator α × Nat) := do
  let p ← Particle.create pos vel mass radius
  return ({ s with particles := s.particles.push p, refs := none }, s.particles.size)

/-- Adds a ball; the result is its position among the balls. -/
def addBall (s : Simulator α) (mass radius : α) (pos vel : Vec α) (angle angVel : α) :
    Except (MassError α) (Simulator α × Nat) := do
  let b ← Ball.create pos vel mass radius angle angVel
  return ({ s with balls := s.balls.push b, refs := none }, s.balls.size)

/-- Adds a box; the result is its position among the boxes. -/
def addBox (s : Simulator α) (mass width height : α) (pos vel : Vec α) (angle angVel : α) :
    Except (MassError α) (Simulator α × Nat) := do
  let b ← Box.create pos vel mass width height angle angVel
  return ({ s with boxes := s.boxes.push b, refs := none }, s.boxes.size)

/-- Handles with left edges in the order of the edges, those at the same edge as they were. -/
def sortByLeft (entries : List (Handle × α)) : List (Handle × α) :=
  entries.mergeSort fun a b => (Scalar.totalCmp a.2 b.2).isLE

/-- The handles of shapes that move, with their left edges: particles, balls, boxes. -/
def movingEdges (s : Simulator α) : List (Handle × α) :=
  s.particles.toList.zipIdx.map (fun (p, i) => (.particle i, p.aabb.left)) ++
    s.balls.toList.zipIdx.map (fun (b, i) => (.ball i, b.aabb.left)) ++
      s.boxes.toList.zipIdx.map fun (b, i) => (.box i, b.aabb.left)

/-- The handles of lines, with their left edges. -/
def lineEdges (s : Simulator α) : List (Handle × α) :=
  s.lines.toList.zipIdx.map fun (l, i) => (.line i, l.aabb.left)

/-- References sorted anew. Among shapes at the same left edge the lines come last. -/
def sortReferences (s : Simulator α) : References :=
  let moving := sortByLeft s.movingEdges
  let shapes := sortByLeft (moving ++ s.lineEdges)
  ⟨(shapes.map (·.1)).toArray, (moving.map (·.1)).toArray⟩

/-- The references as they are kept, sorted first if a shape was added. -/
def references (s : Simulator α) : References := s.refs.getD s.sortReferences

/-- Keeps the references. -/
def keepReferences (s : Simulator α) : Simulator α := { s with refs := some s.references }

end Simulator

end PlanarDynamics
