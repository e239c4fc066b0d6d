import PlanarDynamics.Proofs.Simulator.Frame

/-!
# Runs step by step

A run as the states between its steps, and the state within each step in which pairs are looked for.
-/

namespace PlanarDynamics.Simulator

variable {α : Type} [Scalar α]

/-- How contacts respond during a run. -/
def law (s : Simulator α) : ContactLaw α := ⟨s.config.restitution, s.config.friction⟩

/-- The number of steps of a run. -/
def steps (s : Simulator α) : Nat := s.beginRun.config.subSteps

/-- The time that each step of a run takes. -/
def stepTime (s : Simulator α) (seconds : α) : α := seconds / (s.steps : α)

/-- The state after the first `k` steps of a run. -/
def afterSteps (s : Simulator α) (seconds : α) (k : Nat) : Simulator α :=
  k.repeat (step s.law (s.stepTime seconds)) s.beginRun

/-- Shapes move and attract each other. -/
def move (dt : α) (s : Simulator α) : Simulator α := (s.integrateAll dt).attractAll dt

/-- The state in which the step after the first `k` looks for pairs. -/
def beforeSearch (s : Simulator α) (seconds : α) (k : Nat) : Simulator α :=
  (s.afterSteps seconds k).move (s.stepTime seconds)

/-- What a search for pairs sees of all shapes. -/
def seen (s : Simulator α) : Array (Proxy α) := s.proxies s.references.shapes

/-- Resolves pairs and counts them. -/
def settle (law : ContactLaw α) (s : Simulator α) (pairs : List Pair) : Simulator α :=
  let (t, contacts) := resolvePairs law s.references.shapes pairs s
  { t with
    stats := { t.stats with
      candidates := t.stats.candidates + pairs.length
      contacts := t.stats.contacts + contacts } }

theorem step_eq (law : ContactLaw α) (dt : α) (s : Simulator α) :
    step law dt s = (s.move dt).settle law ((s.move dt).config.strategy.pairs (s.move dt).seen) :=
  rfl

theorem simulate_eq (s : Simulator α) (seconds : α) :
    s.simulate seconds =
      { s.afterSteps seconds s.steps with
        hasTiming := (s.afterSteps seconds s.steps).hasTiming ||
          (s.afterSteps seconds s.steps).config.timed } := rfl

theorem afterSteps_succ (s : Simulator α) (seconds : α) (k : Nat) :
    s.afterSteps seconds (k + 1) = step s.law (s.stepTime seconds) (s.afterSteps seconds k) := rfl

variable {s t : Simulator α}

theorem keeps_move (dt : α) (s : Simulator α) : s.Keeps (s.move dt) :=
  (s.keeps_integrateAll dt).trans (keeps_attractAll _ dt)

theorem keeps_settle (law : ContactLaw α) (s : Simulator α) (pairs : List Pair) :
    s.Keeps (s.settle law pairs) := by
  have h := keeps_resolvePairs law s.references.shapes pairs s
  exact ⟨h.config, h.lines, h.fields, h.refs, h.hasTiming, h.particles, h.balls, h.boxes⟩

theorem keeps_step (law : ContactLaw α) (dt : α) (s : Simulator α) : s.Keeps (step law dt s) :=
  (keeps_move dt s).trans (keeps_settle ..)

theorem keeps_afterSteps (s : Simulator α) (seconds : α) (k : Nat) :
    s.beginRun.Keeps (s.afterSteps seconds k) := by
  induction k with
  | zero => exact .refl _
  | succ k ih => exact ih.trans (keeps_step ..)

theorem keeps_beforeSearch (s : Simulator α) (seconds : α) (k : Nat) :
    s.beginRun.Keeps (s.beforeSearch seconds k) :=
  (keeps_afterSteps s seconds k).trans (keeps_move ..)

/-- A run keeps the references that it begins with. -/
theorem references_beforeSearch (s : Simulator α) (seconds : α) (k : Nat) :
    (s.beforeSearch seconds k).references = s.references := by
  rw [references, (keeps_beforeSearch s seconds k).refs]
  rfl

theorem refs_simulate (s : Simulator α) (seconds : α) :
    (s.simulate seconds).refs = some s.references :=
  (keeps_afterSteps s seconds s.steps).refs

end PlanarDynamics.Simulator
