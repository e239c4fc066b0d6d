import PlanarDynamics.Proofs.Candidates.IndexQuery
import PlanarDynamics.Proofs.Candidates.IntervalSweep
import PlanarDynamics.Proofs.Candidates.SortedSweep
import PlanarDynamics.Proofs.Simulator.Adjust
import PlanarDynamics.Proofs.Simulator.References

/-!
# Switching strategies

Contacts are resolved in the order of the pairs, so a simulation depends on its strategy as soon as
two strategies list different pairs or the same pairs in different order. On proper bounds they
all list those of the plain search. Nothing else reads the strategy.
-/

namespace PlanarDynamics

/-- All edges are finite, and the left one is not beyond the right one. -/
structure Aabb.IsProper (a : Aabb Float32) : Prop extends a.IsFinite where
  left_le_right : a.left ≤ a.right

theorem Strategy.pairs_eq_allPairs (strategy : Strategy) {shapes : Array (Proxy Float32)}
    (h : ∀ p ∈ shapes, p.aabb.IsProper) : strategy.pairs shapes = Candidates.allPairs shapes := by
  have hfinite : ∀ p ∈ shapes, p.aabb.IsFinite := fun p hp => (h p hp).toIsFinite
  have hkey {x : Float32} (hx : x.isFinite = true) : IsKey x :=
    Binary32.isKey_iff.mpr (Binary32.isNaN_of_isFinite hx)
  cases strategy with
  | allPairs => rfl
  | sortedSweep => exact Candidates.sortedSweep_eq fun p hp => hkey (h p hp).left
  | intervalSweep =>
    exact Candidates.intervalSweep_eq fun p hp =>
      ⟨(h p hp).left_le_right, hkey (h p hp).bottom, hkey (h p hp).top⟩
  | kdTree =>
    exact Candidates.indexQuery_eq_of_isFinite hfinite _
      (KdTree.indexes .bySorting Candidates.length_corners)
  | rangeTree =>
    exact Candidates.indexQuery_eq_of_isFinite hfinite _
      (RangeTree.indexes Candidates.length_corners (Candidates.isKeyed_corners hfinite))

namespace Simulator

section Commutes

variable {α : Type} [Scalar α]

/-- The state with another strategy. -/
def withStrategy (s : Simulator α) (k : Strategy) : Simulator α :=
  { s with config := s.config.setStrategy k }

variable (s : Simulator α) (k : Strategy)

omit [Scalar α] in
theorem withStrategy_eq : s.withStrategy k = s.adjust (·.setStrategy k) id id := rfl

theorem move_withStrategy (dt : α) :
    (s.withStrategy k).move dt = (s.move dt).withStrategy k := by
  rw [withStrategy_eq, withStrategy_eq, move_adjust]
  exact fun _ => rfl

theorem settle_withStrategy (law : ContactLaw α) (pairs : List Pair) :
    (s.withStrategy k).settle law pairs = (s.settle law pairs).withStrategy k := by
  rw [withStrategy_eq, withStrategy_eq, settle_adjust]
  exact fun _ _ _ => rfl

theorem run_withStrategy (command : Command α) :
    command.run (s.withStrategy k) = (command.run s).map (·.withStrategy k) := by
  cases command with
  | line start stop facing => cases facing <;> rfl
  | particle mass radius pos vel =>
    simp only [Command.run, addParticle]
    cases Particle.create pos vel mass radius <;> rfl
  | ball mass radius pos vel angle angVel =>
    simp only [Command.run, addBall]
    cases Ball.create pos vel mass radius angle angVel <;> rfl
  | box mass width height pos vel angle angVel =>
    simp only [Command.run, addBox]
    cases Box.create pos vel mass width height angle angVel <;> rfl
  | gravity g => rfl

theorem runAll_withStrategy (commands : List (Command α)) :
    (Command.runAll (s.withStrategy k) commands).1 =
      (Command.runAll s commands).1.withStrategy k := by
  induction commands generalizing s with
  | nil => rfl
  | cons command rest ih =>
    simp only [Command.runAll, run_withStrategy]
    cases command.run s with
    | ok t => exact ih t
    | error e => rfl

/-- Settings apply in the same way, whatever the strategies are. -/
theorem set_withStrategy (setting : Setting α) : ∃ l,
    (s.withStrategy k).call (.set setting) = (s.call (.set setting)).withStrategy l := by
  cases setting with
  | strategy which => exact ⟨which, rfl⟩
  | all config => exact ⟨config.strategy, rfl⟩
  | _ => exact ⟨k, rfl⟩

end Commutes

section Proper

variable {s t : Simulator Float32}

/-- The search for pairs in a state is given proper bounds. -/
def SeesProper (s : Simulator Float32) : Prop := ∀ p ∈ s.seen, p.aabb.IsProper

/-- Every search for pairs during a call is given proper bounds. Only runs search. -/
def ProperDuring (s : Simulator Float32) : Call Float32 → Prop
  | .simulate seconds => ∀ k < s.steps, (s.beforeSearch seconds k).SeesProper
  | _ => True

theorem step_withStrategy {law : ContactLaw Float32} {dt : Float32} (h : (s.move dt).SeesProper)
    (k : Strategy) : step law dt (s.withStrategy k) = (step law dt s).withStrategy k := by
  have hpairs : ((s.move dt).withStrategy k).config.strategy.pairs
      ((s.move dt).withStrategy k).seen = (s.move dt).config.strategy.pairs (s.move dt).seen :=
    (Strategy.pairs_eq_allPairs k h).trans (Strategy.pairs_eq_allPairs _ h).symm
  rw [step_eq, step_eq, move_withStrategy, hpairs, settle_withStrategy]

/-- The strategy makes no difference to the steps of a run that sees proper bounds. -/
theorem afterSteps_withStrategy {seconds : Float32} {n : Nat}
    (h : ∀ j < n, (s.beforeSearch seconds j).SeesProper) (k : Strategy) :
    (s.withStrategy k).afterSteps seconds n = (s.afterSteps seconds n).withStrategy k := by
  induction n with
  | zero => rfl
  | succ n ih =>
    rw [afterSteps_succ, afterSteps_succ, ih fun j hj => h j (Nat.lt_succ_of_lt hj)]
    exact step_withStrategy (h n (Nat.lt_succ_self n)) k

theorem simulate_withStrategy {seconds : Float32} (h : s.ProperDuring (.simulate seconds))
    (k : Strategy) : (s.withStrategy k).simulate seconds = (s.simulate seconds).withStrategy k := by
  have hsteps : (s.withStrategy k).steps = s.steps := rfl
  rw [simulate_eq, simulate_eq, hsteps, afterSteps_withStrategy h]
  rfl

/-- A call has the same effect whatever the strategy is. -/
theorem call_withStrategy {c : Call Float32} (h : s.ProperDuring c) (k : Strategy) :
    ∃ l, (s.withStrategy k).call c = (s.call c).withStrategy l := by
  cases c with
  | add command => exact ⟨k, runAll_withStrategy s k [command]⟩
  | set setting => exact set_withStrategy s k setting
  | apply scene => exact ⟨k, runAll_withStrategy s.clear k scene.commands⟩
  | simulate seconds => exact ⟨k, simulate_withStrategy h k⟩
  | _ => exact ⟨k, rfl⟩

/-- Two simulations that begin with the same settings up to the strategies and are given the same
calls, each switching its strategy on its own in between. All searches are given proper bounds. -/
inductive Twins : Simulator Float32 → Simulator Float32 → Prop
  | create (config : Config Float32) (k l : Strategy) :
      Twins (.create (config.setStrategy k)) (.create (config.setStrategy l))
  | switch {s t : Simulator Float32} (k l : Strategy) : Twins s t →
      Twins (s.withStrategy k) (t.withStrategy l)
  | call {s t : Simulator Float32} (c : Call Float32) : Twins s t → s.ProperDuring c →
      Twins (s.call c) (t.call c)

theorem Twins.eq_withStrategy (h : Twins s t) : ∃ k, t = s.withStrategy k := by
  induction h with
  | create config k l => exact ⟨l, rfl⟩
  | switch k l _ ih =>
    obtain ⟨j, rfl⟩ := ih
    exact ⟨l, rfl⟩
  | call c _ hproper ih =>
    obtain ⟨j, rfl⟩ := ih
    exact call_withStrategy hproper j

/-- Simulations that differ in their strategies only, at the start and after any switch, hold the
same shapes, references and counts after each of the same calls. -/
theorem Twins.hold_the_same (h : Twins s t) :
    t.lines = s.lines ∧ t.particles = s.particles ∧ t.balls = s.balls ∧ t.boxes = s.boxes ∧
      t.references.shapes = s.references.shapes ∧ t.references.moving = s.references.moving ∧
        t.stats = s.stats := by
  obtain ⟨k, rfl⟩ := h.eq_withStrategy
  exact ⟨rfl, rfl, rfl, rfl, rfl, rfl, rfl⟩

theorem properDuring_chase : (chase .allPairs).keepReferences.ProperDuring (.simulate 1) := by
  have hseen : ((chase .allPairs).keepReferences.beforeSearch 1 0).seen =
      #[⟨⟨9, -1, 21, 1⟩, .particle⟩, ⟨⟨7, -1, 9, 1⟩, .particle⟩] := by
    rw [keepReferences_chase]
    decide +kernel
  intro k hk
  obtain rfl : k = 0 := Nat.lt_one_iff.mp hk
  rw [SeesProper, hseen]
  simp only [List.mem_toArray, List.forall_mem_cons]
  exact ⟨⟨⟨rfl, rfl, rfl, rfl⟩, by decide +kernel⟩, ⟨⟨rfl, rfl, rfl, rfl⟩, by decide +kernel⟩,
    nofun⟩

/-- One simulation searches plainly, the other one with a range tree, which takes the place of an
interval sweep before the particles meet. -/
theorem Twins.hold_the_same_chase :
    let s := (chase .allPairs).keepReferences
    let t := (chase .intervalSweep).keepReferences.withStrategy .rangeTree
    Twins (s.simulate 1) (t.simulate 1) ∧ (t.simulate 1).stats = ⟨2, 0, 1, 1⟩ := by
  intro s t
  have hcreated := Twins.create ⟨1, 1, 0, 0, .allPairs, false⟩ .allPairs .intervalSweep
  have hkept : Twins s (chase .intervalSweep).keepReferences :=
    ((hcreated.call (.add (.particle 1 1 ⟨0, 0⟩ ⟨10, 0⟩)) trivial).call
      (.add (.particle 1 1 ⟨8, 0⟩ ⟨0, 0⟩)) trivial).call .references trivial
  have hrun : Twins (s.simulate 1) (t.simulate 1) :=
    (hkept.switch .allPairs .rangeTree).call (.simulate 1) properDuring_chase
  obtain ⟨-, -, -, -, -, -, hstats⟩ := hrun.hold_the_same
  refine ⟨hrun, hstats.trans ?_⟩
  simp only [s, keepReferences_chase]
  decide +kernel

end Proper

end Simulator

end PlanarDynamics
