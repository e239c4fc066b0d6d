import PlanarDynamics.Simulator.State

/-!
# Scenes

A scene is a list of steps that populate a simulation, with an optional title and view.
-/

namespace PlanarDynamics

/-- The size of a window and the part of the plane that it shows. -/
structure Viewport (α : Type) where
  width : Nat
  height : Nat
  left : α
  top : α
  right : α
  bottom : α
  deriving DecidableEq

/-- One step of populating a simulation. -/
inductive Command (α : Type) where
  | line (start stop : Vec α) (facing : Option (Vec α))
  | particle (mass radius : α) (pos vel : Vec α)
  | ball (mass radius : α) (pos vel : Vec α) (angle angVel : α)
  | box (mass width height : α) (pos vel : Vec α) (angle angVel : α)
  | gravity (g : Vec α)
  deriving DecidableEq

/-- A scene. The title and the view are those last given. -/
structure Scene (α : Type) where
  title : Option String
  viewport : Option (Viewport α)
  commands : List (Command α)
  deriving DecidableEq

namespace Command

variable {α : Type} [Scalar α]

/-- Carries out one step. A shape without a proper mass is refused. -/
def run (s : Simulator α) : Command α → Except (MassError α) (Simulator α)
  | line start stop none => .ok (s.addLine start stop).1
  | line start stop (some point) => .ok (s.addLineFacing start stop point).1
  | particle mass radius pos vel => (s.addParticle mass radius pos vel).map (·.1)
  | ball mass radius pos vel angle angVel =>
    (s.addBall mass radius pos vel angle angVel).map (·.1)
  | box mass width height pos vel angle angVel =>
    (s.addBox mass width height pos vel angle angVel).map (·.1)
  | gravity g => .ok (s.addField (.uniform g)).1

/-- Carries out steps up to the first that is refused. What was added before it stays. -/
def runAll (s : Simulator α) : List (Command α) → Simulator α × Option (MassError α)
  | [] => (s, none)
  | command :: rest =>
    match command.run s with
    | .ok s => runAll s rest
    | .error e => (s, some e)

end Command

namespace Scene

variable {α : Type}

/-- The scene without steps. -/
def empty : Scene α := ⟨none, none, []⟩

/-- Clears a simulation and populates it. -/
def apply [Scalar α] (scene : Scene α) (s : Simulator α) : Simulator α × Option (MassError α) :=
  Command.runAll s.clear scene.commands

end Scene

end PlanarDynamics
