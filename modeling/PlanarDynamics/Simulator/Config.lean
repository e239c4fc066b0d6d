import PlanarDynamics.Candidates.Strategy

/-!
# Settings of a simulation
-/

namespace PlanarDynamics

/-- What a simulation can be tuned by, at any time between runs. -/
structure Config (α : Type) where
  /-- The number of equal steps that a run is split into. -/
  subSteps : Nat
  /-- The share of the approach speed that a contact gives back. -/
  restitution : α
  /-- The share of the normal impulse that friction may reach. -/
  friction : α
  /-- The constant of mutual attraction, which acts only if positive. -/
  attraction : α
  strategy : Strategy
  /-- Runs are timed. -/
  timed : Bool
  deriving DecidableEq

namespace Config

variable {α : Type} [Scalar α]

/-- The settings of a new simulation. -/
def standard : Config α := ⟨10, 1, 0.5, 0, .sortedSweep, false⟩

/-- Restitution is at least zero and at most one. -/
def setRestitution (c : Config α) (e : α) : Config α :=
  { c with restitution := Scalar.clamp 0 1 e }

/-- Friction is at least zero and at most one. -/
def setFriction (c : Config α) (f : α) : Config α := { c with friction := Scalar.clamp 0 1 f }

/-- Any constant is taken; one that is not positive turns attraction off. -/
def setAttraction (c : Config α) (g : α) : Config α := { c with attraction := g }

/-- There is at least one step. -/
def setSubSteps (c : Config α) (n : Nat) : Config α := { c with subSteps := max n 1 }

/-- Selects how candidate pairs are searched. -/
def setStrategy (c : Config α) (strategy : Strategy) : Config α := { c with strategy }

end Config

end PlanarDynamics
