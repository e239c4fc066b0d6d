import PlanarDynamics.Scene.Command
import PlanarDynamics.Simulator.Step

/-!
# Calls of a simulation

All that can be done to a simulation from outside, with arguments of any kind, and the states that
it leads to. A call that is refused leaves the state as it was.
-/

namespace PlanarDynamics

variable {α : Type} [Scalar α]

/-- A change of the settings: one of them through its setter, or all of them as they are given. -/
inductive Setting (α : Type) where
  | restitution (e : α)
  | friction (f : α)
  | attraction (g : α)
  | subSteps (n : Nat)
  | strategy (which : Strategy)
  | all (config : Config α)

/-- The settings after a change. -/
def Setting.apply (config : Config α) : Setting α → Config α
  | restitution e => config.setRestitution e
  | friction f => config.setFriction f
  | attraction g => config.setAttraction g
  | subSteps n => config.setSubSteps n
  | strategy which => config.setStrategy which
  | all config => config

/-- A call of a simulation. -/
inductive Call (α : Type) where
  | add (command : Command α)
  | addField (field : ForceField α)
  /-- Puts a field in the place of another. -/
  | setField (i : Nat) (field : ForceField α)
  | moveField (i : Nat) (pos : Vec α)
  | set (setting : Setting α)
  | clear
  | apply (scene : Scene α)
  /-- Asks for the references to all shapes or to those that move. -/
  | references
  | simulate (seconds : α)

namespace Simulator

/-- The state after a call. -/
def call (s : Simulator α) : Call α → Simulator α
  | .add command => (Command.runAll s [command]).1
  | .addField field => (s.addField field).1
  | .setField i field => { s with fields := s.fields.setIfInBounds i field }
  | .moveField i pos => s.moveField i pos
  | .set setting => { s with config := setting.apply s.config }
  | .clear => s.clear
  | .apply scene => (scene.apply s).1
  | .references => s.keepReferences
  | .simulate seconds => s.simulate seconds

/-- The states that calls lead to. -/
inductive Reachable : Simulator α → Prop
  | create (config : Config α) : Reachable (.create config)
  | call {s : Simulator α} (c : Call α) : Reachable s → Reachable (s.call c)

variable {P : Simulator α → Prop}

theorem runAll_induction {s : Simulator α}
    (hadd : ∀ {s t : Simulator α} (command : Command α), P s → command.run s = .ok t → P t)
    (hs : P s) (commands : List (Command α)) : P (Command.runAll s commands).1 := by
  induction commands generalizing s with
  | nil => exact hs
  | cons command rest ih =>
    rw [Command.runAll]
    split
    case h_1 t ht => exact ih (hadd command hs ht)
    case h_2 => exact hs

/-- What holds of every new simulation and is kept by each way to change one holds of every state
that calls lead to. -/
theorem Reachable.invariant {s : Simulator α} (h : s.Reachable)
    (hcreate : ∀ config : Config α, P (.create config))
    (hadd : ∀ {s t : Simulator α} (command : Command α), P s → command.run s = .ok t → P t)
    (hfields : ∀ {s : Simulator α} (fields : Array (ForceField α)), P s → P { s with fields })
    (hconfig : ∀ {s : Simulator α} (config : Config α), P s → P { s with config })
    (hkeep : ∀ {s : Simulator α}, P s → P s.keepReferences)
    (hsimulate : ∀ {s : Simulator α} (seconds : α), P s → P (s.simulate seconds)) : P s := by
  induction h with
  | create config => exact hcreate config
  | call c _ ih =>
    cases c with
    | add command => exact runAll_induction hadd ih [command]
    | addField field => exact hfields _ ih
    | setField i field => exact hfields _ ih
    | moveField i pos => exact hfields _ ih
    | set setting => exact hconfig _ ih
    | clear => exact hcreate _
    | apply scene => exact runAll_induction hadd (hcreate _) scene.commands
    | references => exact hkeep ih
    | simulate seconds => exact hsimulate seconds ih

end Simulator

end PlanarDynamics
