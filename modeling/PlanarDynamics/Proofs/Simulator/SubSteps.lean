import Mathlib.Algebra.BigOperators.Intervals
import PlanarDynamics.Proofs.Binary32.Quotient
import PlanarDynamics.Proofs.Simulator.Adjust
import PlanarDynamics.Proofs.Simulator.References

/-!
# Steps of a run as runs of one step

Nothing is prepared at the start of a run that a step does not keep: the references stay, the bounds
are read anew, the response to contacts depends on the settings only. A run in `n` steps therefore
does what `n` runs of one step do, which last as long as one of its steps each. Only the counts,
which begin anew with each run, have to be summed.
-/

namespace PlanarDynamics.Simulator

variable {α : Type}

/-- The state with another number of steps. -/
def withSubSteps (s : Simulator α) (n : Nat) : Simulator α :=
  { s with config := { s.config with subSteps := n } }

variable [Scalar α]

/-- The state after `k` runs of the same length. -/
def afterRuns (s : Simulator α) (seconds : α) (k : Nat) : Simulator α :=
  k.repeat (·.simulate seconds) s

/-- The candidates that `k` runs count. -/
def candidatesOfRuns (s : Simulator α) (seconds : α) (k : Nat) : Nat :=
  ∑ j ∈ Finset.range k, (s.afterRuns seconds (j + 1)).stats.candidates

/-- The contacts that `k` runs count. -/
def contactsOfRuns (s : Simulator α) (seconds : α) (k : Nat) : Nat :=
  ∑ j ∈ Finset.range k, (s.afterRuns seconds (j + 1)).stats.contacts

theorem afterRuns_succ (s : Simulator α) (seconds : α) (k : Nat) :
    s.afterRuns seconds (k + 1) = (s.afterRuns seconds k).simulate seconds := rfl

theorem candidatesOfRuns_succ (s : Simulator α) (seconds : α) (k : Nat) :
    s.candidatesOfRuns seconds (k + 1) =
      s.candidatesOfRuns seconds k + (s.afterRuns seconds (k + 1)).stats.candidates :=
  Finset.sum_range_succ ..

theorem contactsOfRuns_succ (s : Simulator α) (seconds : α) (k : Nat) :
    s.contactsOfRuns seconds (k + 1) =
      s.contactsOfRuns seconds k + (s.afterRuns seconds (k + 1)).stats.contacts :=
  Finset.sum_range_succ ..

/-- Where the number of steps is positive, a run begins with the settings as they are. -/
theorem beginRun_eq {s : Simulator α} (hs : s.config.subSteps ≠ 0) :
    s.beginRun = { s.keepReferences with
      stats := ⟨s.references.moving.size, s.lines.size, 0, 0⟩ } := by
  have hbegin : s.beginRun = { s.keepReferences with
      config := { s.config with
        subSteps := if s.config.subSteps = 0 then 1 else s.config.subSteps }
      stats := ⟨s.references.moving.size, s.lines.size, 0, 0⟩ } := rfl
  rw [hbegin, if_neg hs]
  rfl

/-- The first step of a run. -/
def firstStep (s : Simulator α) (dt : α) : Simulator α := step s.law dt s.beginRun

theorem keeps_firstStep (s : Simulator α) (dt : α) : s.beginRun.Keeps (s.firstStep dt) :=
  keeps_step ..

theorem stats_firstStep (s : Simulator α) (dt : α) :
    (s.firstStep dt).stats.moving = s.references.moving.size ∧
      (s.firstStep dt).stats.fixed = s.lines.size := by
  obtain ⟨candidates, contacts, hstats⟩ := exists_stats_step s.law dt s.beginRun
  rw [firstStep, hstats]
  exact ⟨rfl, rfl⟩

section Single

variable {s : Simulator α} {dt : α} (hs : s.config.subSteps = 1) (hdt : dt / ((1 : ℕ) : α) = dt)

include hs

theorem config_firstStep : (s.firstStep dt).config = s.config := by
  rw [(s.keeps_firstStep dt).config, beginRun_eq (hs.trans_ne one_ne_zero)]
  rfl

include hdt

/-- A run of one step, which lasts as long as the run. -/
theorem simulate_of_single :
    s.simulate dt = { s.firstStep dt with hasTiming := s.hasTiming || s.config.timed } := by
  have hsteps : s.steps = 1 := by
    rw [steps, beginRun_eq (hs.trans_ne one_ne_zero)]
    exact hs
  have hafter : s.afterSteps dt 1 = s.firstStep dt := by
    rw [afterSteps_succ, stepTime, hsteps, hdt]
    rfl
  rw [simulate_eq, hsteps, hafter, config_firstStep hs, (s.keeps_firstStep dt).hasTiming]
  rfl

/-- The next run begins where the step ended, with new counts. -/
theorem beginRun_simulate_of_single : (s.simulate dt).beginRun =
    { s.firstStep dt with
      stats := ⟨(s.firstStep dt).stats.moving, (s.firstStep dt).stats.fixed, 0, 0⟩
      hasTiming := s.hasTiming || s.config.timed } := by
  have hconfig : (s.firstStep dt).config.subSteps ≠ 0 := by
    rw [config_firstStep hs, hs]
    exact one_ne_zero
  have hrefs : (s.firstStep dt).refs = some s.references := (s.keeps_firstStep dt).refs
  have hlines : (s.firstStep dt).lines = s.lines := (s.keeps_firstStep dt).lines
  rw [simulate_of_single hs hdt, beginRun_eq (by exact hconfig), (s.stats_firstStep dt).1,
    (s.stats_firstStep dt).2]
  simp only [keepReferences, references, hrefs, hlines, Option.getD_some]

end Single

theorem steps_withSubSteps (s : Simulator α) {n : Nat} (hn : n ≠ 0) :
    (s.withSubSteps n).steps = n := by
  rw [steps, beginRun_eq (by exact hn)]
  rfl

section Singles

variable {s : Simulator α} {dt : α} (hs : s.config.subSteps = 1) (hdt : dt / ((1 : ℕ) : α) = dt)

include hs hdt

theorem config_afterRuns (k : Nat) : (s.afterRuns dt k).config = s.config := by
  induction k with
  | zero => rfl
  | succ k ih =>
    have hk : (s.afterRuns dt k).config.subSteps = 1 := by rw [ih, hs]
    rw [afterRuns_succ, simulate_of_single hk hdt]
    exact (config_firstStep hk).trans ih

omit hs hdt in
theorem references_afterRuns (s : Simulator α) (dt : α) (k : Nat) :
    (s.afterRuns dt k).references = s.references := by
  induction k with
  | zero => rfl
  | succ k ih => rw [afterRuns_succ, references, refs_simulate, Option.getD_some, ih]

theorem lines_afterRuns (k : Nat) : (s.afterRuns dt k).lines = s.lines := by
  induction k with
  | zero => rfl
  | succ k ih =>
    have hk : (s.afterRuns dt k).config.subSteps = 1 := by rw [config_afterRuns hs hdt, hs]
    rw [afterRuns_succ, simulate_of_single hk hdt]
    exact (keeps_firstStep _ dt).lines.trans ih

/-- Each run counts the same shapes. -/
theorem stats_afterRuns_succ (k : Nat) :
    (s.afterRuns dt (k + 1)).stats.moving = s.references.moving.size ∧
      (s.afterRuns dt (k + 1)).stats.fixed = s.lines.size := by
  have hk : (s.afterRuns dt k).config.subSteps = 1 := by rw [config_afterRuns hs hdt, hs]
  rw [afterRuns_succ, simulate_of_single hk hdt, ← references_afterRuns s dt k,
    ← lines_afterRuns hs hdt k]
  exact stats_firstStep _ dt

theorem hasTiming_afterRuns_succ (k : Nat) :
    (s.afterRuns dt (k + 1)).hasTiming = (s.hasTiming || s.config.timed) := by
  induction k with
  | zero =>
    show (s.simulate dt).hasTiming = _
    rw [simulate_of_single hs hdt]
  | succ k ih =>
    have hconfig := config_afterRuns hs hdt (k + 1)
    rw [afterRuns_succ, simulate_of_single (by rw [hconfig, hs]) hdt, ih, hconfig, Bool.or_assoc,
      Bool.or_self]

/-- A run in `n` steps stands after `k` of them where `k` runs of one step lead to, but for the
number of steps, the counts of the runs before and the mark of a timed run. -/
theorem afterSteps_withSubSteps {seconds : α} {n : Nat} (hn : n ≠ 0)
    (hseconds : seconds / (n : α) = dt) (k : Nat) :
    (s.withSubSteps n).afterSteps seconds k =
      (s.afterRuns dt k).beginRun.adjust ({ · with subSteps := n })
        (·.plus (s.candidatesOfRuns dt k) (s.contactsOfRuns dt k)) fun _ => s.hasTiming := by
  induction k with
  | zero =>
    have hbegin : (s.withSubSteps n).afterSteps seconds 0 = (s.withSubSteps n).beginRun := rfl
    have hsingle : s.afterRuns dt 0 = s := rfl
    rw [hbegin, hsingle, beginRun_eq (by exact hn), beginRun_eq (hs.trans_ne one_ne_zero)]
    rfl
  | succ k ih =>
    have hconfig := config_afterRuns hs hdt k
    have hk : (s.afterRuns dt k).config.subSteps = 1 := by rw [hconfig, hs]
    have hlaw : (s.withSubSteps n).law = (s.afterRuns dt k).law := by
      rw [law, law, hconfig]
      rfl
    have htime : (s.withSubSteps n).stepTime seconds = dt := by
      rw [stepTime, steps_withSubSteps s hn, hseconds]
    have hstep : (s.withSubSteps n).afterSteps seconds (k + 1) =
        ((s.afterRuns dt k).firstStep dt).adjust ({ · with subSteps := n })
          (·.plus (s.candidatesOfRuns dt k) (s.contactsOfRuns dt k)) fun _ => s.hasTiming := by
      rw [afterSteps_succ, ih, hlaw, htime, step_adjust]
      · rfl
      · exact fun _ => rfl
      · exact fun _ => rfl
      · exact fun _ _ _ => Stats.plus_plus ..
    have hstats : (s.afterRuns dt (k + 1)).stats = ((s.afterRuns dt k).firstStep dt).stats := by
      rw [afterRuns_succ, simulate_of_single hk hdt]
    rw [hstep, candidatesOfRuns_succ, contactsOfRuns_succ, hstats, afterRuns_succ,
      beginRun_simulate_of_single hk hdt]
    simp only [adjust, Stats.plus, Nat.zero_add, Nat.add_comm]

/-- After at least one run, the next one begins with the state as it is and new counts. -/
theorem beginRun_afterRuns_succ (k : Nat) : (s.afterRuns dt (k + 1)).beginRun =
    { s.afterRuns dt (k + 1) with
      stats := ⟨s.references.moving.size, s.lines.size, 0, 0⟩ } := by
  have hsteps : (s.afterRuns dt (k + 1)).config.subSteps ≠ 0 := by
    rw [config_afterRuns hs hdt, hs]
    exact one_ne_zero
  have hrefs : (s.afterRuns dt (k + 1)).refs = some (s.afterRuns dt (k + 1)).references := by
    rw [references_afterRuns, afterRuns_succ, refs_simulate, references_afterRuns]
  rw [beginRun_eq hsteps, references_afterRuns, lines_afterRuns hs hdt, keepReferences, ← hrefs]

end Singles

theorem simulate_succ_of_single {s : Simulator α} {seconds dt : α} {n : Nat}
    (hs : s.config.subSteps = 1) (hdt : dt / ((1 : ℕ) : α) = dt)
    (hseconds : seconds / ((n + 1 : ℕ) : α) = dt) :
    (s.withSubSteps (n + 1)).simulate seconds =
      { s.afterRuns dt (n + 1) with
        config := { s.config with subSteps := n + 1 }
        stats := ⟨s.references.moving.size, s.lines.size, s.candidatesOfRuns dt (n + 1),
          s.contactsOfRuns dt (n + 1)⟩ } := by
  rw [simulate_eq, steps_withSubSteps s n.succ_ne_zero,
    afterSteps_withSubSteps hs hdt n.succ_ne_zero hseconds,
    beginRun_afterRuns_succ hs hdt]
  simp only [adjust, Stats.plus, Nat.zero_add, config_afterRuns hs hdt,
    hasTiming_afterRuns_succ hs hdt]

theorem config_simulate (s : Simulator α) (seconds : α) :
    (s.simulate seconds).config = s.beginRun.config := (keeps_afterSteps s seconds s.steps).config

theorem simulate_withSubSteps_zero (s : Simulator α) (seconds : α) :
    (s.withSubSteps 0).simulate seconds = (s.withSubSteps 1).simulate seconds := by
  have hbegin : (s.withSubSteps 0).beginRun = (s.withSubSteps 1).beginRun := rfl
  rw [simulate, simulate, hbegin]

/-- A run in `n` steps is `n` runs of one step: it leaves the same state, and its counts are their
sums. A number of zero steps is one step, also in the settings that the run leaves. -/
theorem simulate_withSubSteps (s : Simulator Float32) (seconds : Float32) :
    (∀ n : ℕ, 1 ≤ n →
      let single := s.withSubSteps 1
      let dt := seconds / (n : Float32)
      (s.withSubSteps n).simulate seconds =
          { single.afterRuns dt n with
            config := { s.config with subSteps := n }
            stats := ⟨s.references.moving.size, s.lines.size, single.candidatesOfRuns dt n,
              single.contactsOfRuns dt n⟩ } ∧
        ∀ k < n, (single.afterRuns dt (k + 1)).stats.moving = s.references.moving.size ∧
          (single.afterRuns dt (k + 1)).stats.fixed = s.lines.size) ∧
      (s.withSubSteps 0).simulate seconds = (s.withSubSteps 1).simulate seconds ∧
        ((s.withSubSteps 0).simulate seconds).config.subSteps = 1 := by
  refine ⟨?_, simulate_withSubSteps_zero s seconds, ?_⟩
  · intro n hn single dt
    obtain ⟨m, rfl⟩ := Nat.exists_eq_add_of_le' hn
    have hsingle : single.config.subSteps = 1 := rfl
    have hdt : dt / ((1 : ℕ) : Float32) = dt := Binary32.div_one dt
    have hseconds : seconds / ((m + 1 : ℕ) : Float32) = dt := rfl
    have hreferences : single.references = s.references := rfl
    have hrun := simulate_succ_of_single hsingle hdt hseconds
    have hstats := stats_afterRuns_succ hsingle hdt
    rw [hreferences] at hrun hstats
    exact ⟨hrun, fun k _ => hstats k⟩
  · rw [config_simulate]
    rfl

/-- Both steps find the two particles, and in the second one they touch. -/
theorem simulate_withSubSteps_chase :
    let s := (chase .allPairs).keepReferences
    let single := s.withSubSteps 1
    let dt : Float32 := 1 / ((2 : ℕ) : Float32)
    1 ≤ 2 ∧
      (s.withSubSteps 2).simulate 1 =
        { single.afterRuns dt 2 with
          config := { s.config with subSteps := 2 }
          stats := ⟨s.references.moving.size, s.lines.size, single.candidatesOfRuns dt 2,
            single.contactsOfRuns dt 2⟩ } ∧
        ((s.withSubSteps 2).simulate 1).stats = ⟨2, 0, 2, 1⟩ := by
  intro s single dt
  have hrun := ((simulate_withSubSteps s 1).1 2 (by decide)).1
  refine ⟨by decide, hrun, ?_⟩
  simp only [s, keepReferences_chase]
  decide +kernel

end PlanarDynamics.Simulator
