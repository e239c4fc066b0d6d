import PlanarDynamics.Proofs.Simulator.Runs

/-!
# What a step does not read

A step looks at the counts only to add to them, and of the settings it reads the constant of
attraction and the strategy. Other settings can be exchanged before the step or after it, and so can
the counts and the mark of a timed run.
-/

namespace PlanarDynamics

/-- Counts with more candidates and contacts. -/
def Stats.plus (stats : Stats) (candidates contacts : Nat) : Stats :=
  { stats with
    candidates := stats.candidates + candidates
    contacts := stats.contacts + contacts }

theorem Stats.plus_plus (stats : Stats) (i j k l : Nat) :
    (stats.plus i j).plus k l = (stats.plus k l).plus i j := by
  simp only [plus, Nat.add_right_comm]

namespace Simulator

variable {α : Type} [Scalar α]

theorem settle_eq (law : ContactLaw α) (s : Simulator α) (pairs : List Pair) :
    s.settle law pairs =
      { (resolvePairs law s.references.shapes pairs s).1 with
        stats := (resolvePairs law s.references.shapes pairs s).1.stats.plus pairs.length
          (resolvePairs law s.references.shapes pairs s).2 } := rfl

/-- The state with other settings, other counts and another mark of a timed run. -/
def adjust (settings : Config α → Config α) (counts : Stats → Stats) (timing : Bool → Bool)
    (s : Simulator α) : Simulator α :=
  { s with
    config := settings s.config
    stats := counts s.stats
    hasTiming := timing s.hasTiming }

variable {settings : Config α → Config α} {counts : Stats → Stats} {timing : Bool → Bool}

section Resolve

variable (law : ContactLaw α) (s : Simulator α)

theorem resolveParticles_adjust (i j : Nat) :
    (s.adjust settings counts timing).resolveParticles law i j =
      (s.resolveParticles law i j).map (adjust settings counts timing) := by
  unfold resolveParticles
  split
  · rfl
  · simp only [Option.bind_eq_bind, Option.map_bind, Function.comp_def]
    rfl

theorem resolveParticleLine_adjust (i l : Nat) :
    (s.adjust settings counts timing).resolveParticleLine law i l =
      (s.resolveParticleLine law i l).map (adjust settings counts timing) := by
  simp only [resolveParticleLine, Option.bind_eq_bind, Option.map_bind, Function.comp_def]
  rfl

theorem resolveBallLine_adjust (i l : Nat) :
    (s.adjust settings counts timing).resolveBallLine law i l =
      (s.resolveBallLine law i l).map (adjust settings counts timing) := by
  simp only [resolveBallLine, Option.bind_eq_bind, Option.map_bind, Function.comp_def]
  rfl

theorem resolveBoxLine_adjust (i l : Nat) :
    (s.adjust settings counts timing).resolveBoxLine law i l =
      (s.resolveBoxLine law i l).map (adjust settings counts timing) := by
  simp only [resolveBoxLine, Option.bind_eq_bind, Option.map_bind, Function.comp_def]
  rfl

theorem resolve_adjust (a b : Handle) :
    (s.adjust settings counts timing).resolve law a b =
      (s.resolve law a b).map (adjust settings counts timing) := by
  unfold resolve
  split
  · exact resolveParticles_adjust ..
  · exact resolveParticleLine_adjust ..
  · exact resolveParticleLine_adjust ..
  · exact resolveBallLine_adjust ..
  · exact resolveBallLine_adjust ..
  · exact resolveBoxLine_adjust ..
  · exact resolveBoxLine_adjust ..
  · rfl

theorem resolvePair_adjust (handles : Array Handle) (contacts : Nat) (pair : Pair) :
    resolvePair law handles (s.adjust settings counts timing, contacts) pair =
      (resolvePair law handles (s, contacts) pair).map (adjust settings counts timing) id := by
  simp only [resolvePair, resolve_adjust]
  split
  · split <;> split <;> simp_all
  · rfl

theorem resolvePairs_adjust (handles : Array Handle) (pairs : List Pair) :
    resolvePairs law handles pairs (s.adjust settings counts timing) =
      (resolvePairs law handles pairs s).map (adjust settings counts timing) id := by
  simp only [resolvePairs_eq]
  generalize (0 : Nat) = contacts
  induction pairs generalizing s contacts with
  | nil => rfl
  | cons pair pairs ih =>
    rw [List.foldl_cons, List.foldl_cons, resolvePair_adjust]
    exact ih _ _

/-- Counts that are not read are not written either. -/
theorem stats_resolvePairs (handles : Array Handle) (pairs : List Pair) :
    (resolvePairs law handles pairs s).1.stats = s.stats := by
  calc (resolvePairs law handles pairs s).1.stats =
        (resolvePairs law handles pairs (s.adjust id (fun _ => s.stats) id)).1.stats := rfl
    _ = s.stats := by
      rw [resolvePairs_adjust]
      rfl

theorem settle_adjust (hcounts : ∀ stats candidates contacts,
    counts (stats.plus candidates contacts) = (counts stats).plus candidates contacts)
    (pairs : List Pair) : (s.adjust settings counts timing).settle law pairs =
      (s.settle law pairs).adjust settings counts timing := by
  have hreferences : (s.adjust settings counts timing).references = s.references := rfl
  rw [settle_eq, settle_eq, hreferences, resolvePairs_adjust]
  simp only [adjust, Prod.map_fst, Prod.map_snd, hcounts, id_eq]

end Resolve

theorem attractAll_adjust (hsettings : ∀ c, (settings c).attraction = c.attraction)
    (dt : α) (s : Simulator α) : (s.adjust settings counts timing).attractAll dt =
      (s.attractAll dt).adjust settings counts timing := by
  have hsame : (s.adjust settings counts timing).config.attraction = s.config.attraction :=
    hsettings s.config
  unfold attractAll
  rw [hsame]
  split <;> rfl

theorem move_adjust (hsettings : ∀ c, (settings c).attraction = c.attraction) (dt : α)
    (s : Simulator α) : (s.adjust settings counts timing).move dt =
      (s.move dt).adjust settings counts timing :=
  attractAll_adjust hsettings dt (s.integrateAll dt)

theorem stats_move (dt : α) (s : Simulator α) : (s.move dt).stats = s.stats := by
  calc (s.move dt).stats = ((s.adjust id (fun _ => s.stats) id).move dt).stats := rfl
    _ = s.stats := by
      rw [move_adjust]
      · rfl
      · exact fun _ => rfl

/-- A step in exchanged settings, counts and timing is the step, with these exchanged after it. -/
theorem step_adjust (hattraction : ∀ c, (settings c).attraction = c.attraction)
    (hstrategy : ∀ c, (settings c).strategy = c.strategy) (hcounts : ∀ stats candidates contacts,
      counts (stats.plus candidates contacts) = (counts stats).plus candidates contacts)
    (law : ContactLaw α) (dt : α) (s : Simulator α) :
    step law dt (s.adjust settings counts timing) =
      (step law dt s).adjust settings counts timing := by
  have hpairs : ((s.move dt).adjust settings counts timing).config.strategy =
      (s.move dt).config.strategy := hstrategy _
  have hseen : ((s.move dt).adjust settings counts timing).seen = (s.move dt).seen := rfl
  rw [step_eq, step_eq, move_adjust hattraction, hpairs, hseen, settle_adjust law _ hcounts]

/-- A step adds to the counts of candidates and contacts. -/
theorem exists_stats_step (law : ContactLaw α) (dt : α) (s : Simulator α) :
    ∃ candidates contacts, (step law dt s).stats = s.stats.plus candidates contacts := by
  rw [step_eq, settle_eq, stats_resolvePairs, stats_move]
  exact ⟨_, _, rfl⟩

end Simulator

end PlanarDynamics
