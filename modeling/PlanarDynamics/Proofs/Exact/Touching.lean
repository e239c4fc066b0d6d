import PlanarDynamics.Proofs.Exact.Candidates

/-!
# Circles that touch are candidates

Two particles, or a particle or a ball and a line, that touch have overlapping bounds, whatever
their motion is. The search leaves out no contact of theirs.
-/

namespace PlanarDynamics

section Bounds

theorem Line.IsPadded.intersects {line : Line Exact} (h : line.IsPadded) {a : Aabb Exact}
    {pos : Vec Exact} {rx ry r : ℝ} (ha : a.Reaches pos rx ry) (hr : 0 ≤ r)
    (hx : r ≤ rx + (padding : Exact).val) (hy : r ≤ ry + (padding : Exact).val)
    (hdist : (distSqToSegment line.start line.stop pos).val ≤ r ^ 2) :
    a.intersects line.aabb = true := by
  rw [h]
  exact intersects_of_touching line.start line.stop line.normal pos ha hr hx hy hdist

variable {pos : Vec Exact} {radius : Exact} {a : Aabb Exact}

/-- The bounds of a circle overlap those of each line that it touches. -/
theorem intersects_line_of_le (ha : a.Reaches pos radius.val radius.val) (hradius : 0 ≤ radius)
    {line : Line Exact} (hline : line.IsPadded)
    (h : distSqToSegment line.start line.stop pos ≤ radius * radius) :
    a.intersects line.aabb = true := by
  rw [Exact.le_iff, Exact.val_mul, ← sq] at h
  have hpad := (Line.padding_pos).le
  exact hline.intersects ha hradius (by linarith) (by linarith) h

/-- The bounds of two circles that touch overlap. -/
theorem intersects_circle_of_le {pos' : Vec Exact} {radius' : Exact} {a' : Aabb Exact}
    (ha : a.Reaches pos radius.val radius.val) (ha' : a'.Reaches pos' radius'.val radius'.val)
    (hradius : 0 ≤ radius) (hradius' : 0 ≤ radius')
    (h : (pos' - pos).lengthSq ≤ (radius + radius') * (radius + radius')) :
    a.intersects a' = true := by
  simp only [Exact.le_iff, Vec.val_lengthSq, Vec.x_sub, Vec.y_sub, Exact.val_sub, Exact.val_mul,
    Exact.val_add, Exact.val_zero, ← sq] at h hradius hradius'
  obtain ⟨hx, hy⟩ := Aabb.abs_le_of_sq_add_sq_le (add_nonneg hradius hradius') h
  rw [abs_sub_comm] at hx hy
  exact Aabb.intersects_of_reaches ha ha' hx hy

end Bounds

namespace ContactLaw

variable {α : Type} [Scalar α] {law : ContactLaw α} {line : Line α}

theorem isSome_pushOut {pos : Vec α} {radius : α} : (pushOut pos radius line).isSome = true ↔
    ¬ radius * radius < distSqToSegment line.start line.stop pos := by
  unfold pushOut
  dsimp only
  split
  case isTrue h => exact iff_of_false nofun (not_not_intro h)
  case isFalse h => exact iff_of_true rfl h

theorem isSome_bind {β γ : Type} {x : Option β} {f : β → Option γ}
    (hf : ∀ b, (f b).isSome = true) : (x >>= f).isSome = x.isSome := by
  cases x with
  | none => rfl
  | some b => exact hf b

/-- The contact at a line is decided before there is any response. -/
theorem isSome_particleLine (p : Particle α) : (law.particleLine p line).isSome = true ↔
    ¬ p.radius * p.radius < distSqToSegment line.start line.stop p.body.pos := by
  rw [← isSome_pushOut, particleLine, isSome_bind]
  intro pos
  dsimp only
  split <;> rfl

theorem isSome_ballLine (b : Ball α) : (law.ballLine b line).isSome = true ↔
    ¬ b.radius * b.radius < distSqToSegment line.start line.stop b.body.pos := by
  rw [← isSome_pushOut, ballLine, isSome_bind]
  intro pos
  dsimp only
  split <;> rfl

theorem not_lt_of_particles {p q : Particle α} {pair : Particle α × Particle α}
    (h : law.particles p q = some pair) : ¬ (p.radius + q.radius) * (p.radius + q.radius) <
      (q.body.pos - p.body.pos).lengthSq := by
  intro hlt
  unfold particles at h
  dsimp only at h
  rw [if_pos hlt] at h
  cases h

end ContactLaw

namespace Simulator

/-- What the shapes of two handles are to each other when they touch: particles whose distance is at
most the sum of their radii, or a particle or a ball whose distance to a line is at most its
radius. -/
inductive Touching {α : Type} [Scalar α] (s : Simulator α) : Handle → Handle → Prop
  | particles {i j : Nat} {p q : Particle α} : i ≠ j → s.particles[i]? = some p →
      s.particles[j]? = some q →
      (q.body.pos - p.body.pos).lengthSq ≤ (p.radius + q.radius) * (p.radius + q.radius) →
      Touching s (.particle i) (.particle j)
  | particleLine {i l : Nat} {p : Particle α} {line : Line α} : s.particles[i]? = some p →
      s.lines[l]? = some line →
      distSqToSegment line.start line.stop p.body.pos ≤ p.radius * p.radius →
      Touching s (.particle i) (.line l)
  | ballLine {i l : Nat} {b : Ball α} {line : Line α} : s.balls[i]? = some b →
      s.lines[l]? = some line →
      distSqToSegment line.start line.stop b.body.pos ≤ b.radius * b.radius →
      Touching s (.ball i) (.line l)
  | flip {a : Handle} {l : Nat} : Touching s a (.line l) → Touching s (.line l) a

variable {s t : Simulator Exact} {a b : Handle}

/-- A contact of other shapes than boxes is one of shapes that touch. -/
theorem Contact.touching {law : ContactLaw Exact} (h : Contact law s a b t) (ha : a.kind ≠ .box)
    (hb : b.kind ≠ .box) : s.Touching a b := by
  induction h with
  | particles hij hp hq hcontact =>
    exact .particles hij hp hq ((Exact.not_lt_iff ..).mp (ContactLaw.not_lt_of_particles hcontact))
  | particleLine hp hline hcontact =>
    have hreach := (ContactLaw.isSome_particleLine _).mp (Option.isSome_of_eq_some hcontact)
    exact .particleLine hp hline ((Exact.not_lt_iff ..).mp hreach)
  | ballLine hball hline hcontact =>
    have hreach := (ContactLaw.isSome_ballLine _).mp (Option.isSome_of_eq_some hcontact)
    exact .ballLine hball hline ((Exact.not_lt_iff ..).mp hreach)
  | boxLine => exact absurd rfl ha
  | flip _ ih => exact .flip (ih hb ha)

theorem IsCurrent.isCandidate_of_touching (h : s.IsCurrent) (htouch : s.Touching a b)
    (ha : s.HasRadius a) (hb : s.HasRadius b) : s.IsCandidate a b := by
  induction htouch with
  | @particles i j p q hij hp hq hdist =>
    refine h.isCandidate (aabbOf_particle hp) (aabbOf_particle hq)
      (fun heq => hij (Handle.particle.inj heq)) rfl ha hb ?_
    exact intersects_circle_of_le (h.reaches_particle hp) (h.reaches_particle hq)
      (ha p hp) (hb q hq) hdist
  | @particleLine i l p line hp hline hdist =>
    refine h.isCandidate (aabbOf_particle hp) (aabbOf_line hline)
      (fun heq => Handle.noConfusion heq) rfl ha hb ?_
    exact intersects_line_of_le (h.reaches_particle hp) (ha p hp) (h.padded_line hline) hdist
  | @ballLine i l c line hc hline hdist =>
    refine h.isCandidate (aabbOf_ball hc) (aabbOf_line hline)
      (fun heq => Handle.noConfusion heq) rfl ha hb ?_
    exact intersects_line_of_le (h.reaches_ball hc) (ha c hc) (h.padded_line hline) hdist
  | flip _ ih => exact (ih hb ha).symm

/-- Computed exactly, the bounds of a particle or a ball of no negative radius, as of a refresh at
its position, overlap those of each line that it touches, and the bounds of two such particles that
touch overlap. In each search of a run such shapes that touch are therefore candidates, and a
contact in which there is no box is one of shapes that touch. -/
theorem touching_shapes_are_candidates :
    (∀ (p : Particle Exact) (dt : Exact) (line : Line Exact), line.IsPadded → 0 ≤ p.radius →
      distSqToSegment line.start line.stop p.body.pos ≤ p.radius * p.radius →
      (p.refreshBounds dt).aabb.intersects line.aabb = true) ∧
    (∀ (b : Ball Exact) (dt : Exact) (line : Line Exact), line.IsPadded → 0 ≤ b.radius →
      distSqToSegment line.start line.stop b.body.pos ≤ b.radius * b.radius →
      (b.refreshBounds dt).aabb.intersects line.aabb = true) ∧
    (∀ (p q : Particle Exact) (dt dt' : Exact), 0 ≤ p.radius → 0 ≤ q.radius →
      (q.body.pos - p.body.pos).lengthSq ≤ (p.radius + q.radius) * (p.radius + q.radius) →
      (p.refreshBounds dt).aabb.intersects (q.refreshBounds dt').aabb = true) ∧
    ∀ s : Simulator Exact, s.Reachable → s.IsPadded ∧
      ∀ (seconds : Exact) (k : ℕ) (a b : Handle),
        let t := s.beforeSearch seconds k
        (t.Touching a b → t.HasRadius a → t.HasRadius b → t.IsCandidate a b) ∧
          ∀ (law : ContactLaw Exact) (u : Simulator Exact), t.resolve law a b = some u →
            a.kind ≠ .box → b.kind ≠ .box → t.Touching a b := by
  refine ⟨?_, ?_, ?_, ?_⟩
  · intro p dt line hline hradius hdist
    exact intersects_line_of_le (Aabb.reaches_circleBounds ..) hradius hline hdist
  · intro b dt line hline hradius hdist
    exact intersects_line_of_le (Aabb.reaches_circleBounds ..) hradius hline hdist
  · intro p q dt dt' hp hq hdist
    exact intersects_circle_of_le (Aabb.reaches_circleBounds ..) (Aabb.reaches_circleBounds ..)
      hp hq hdist
  · intro s hs
    refine ⟨hs.isPadded, fun seconds k a b => ⟨?_, ?_⟩⟩
    · exact (hs.isCurrent seconds k).isCandidate_of_touching
    · exact fun law u hresolve ha hb => (contact_of_resolve hresolve).touching ha hb

theorem isMass_one : isMass (1 : Exact) = true := by
  rw [isMass, Bool.and_eq_true, decide_eq_true_eq]
  exact ⟨rfl, zero_lt_one (α := ℝ)⟩

/-- Without fields and attraction the shapes come to the first search as they advance. -/
theorem beforeSearch_zero {α : Type} [Scalar α] {s : Simulator α} (hfields : s.fields = #[])
    (hoff : ¬ 0 < s.config.attraction) (seconds : α) : s.beforeSearch seconds 0 =
      { s.beginRun with
        particles := s.particles.map fun p => p.advance (s.stepTime seconds)
        balls := s.balls.map fun b => b.advance (s.stepTime seconds)
        boxes := s.boxes.map fun b => b.advance (s.stepTime seconds) } := by
  have hmove : s.beforeSearch seconds 0 = s.beginRun.integrateAll (s.stepTime seconds) :=
    if_neg hoff
  rw [hmove]
  cases s
  cases hfields
  rfl

/-- A particle at rest half a unit above a line, and of radius one. -/
noncomputable def resting (strategy : Strategy) : Simulator Exact :=
  ((create ⟨1, 1, 0, 0, strategy, false⟩).call (.add (.line ⟨-1, 0⟩ ⟨1, 0⟩ none))).call
    (.add (.particle 1 1 ⟨0, 0.5⟩ ⟨0, 0⟩))

theorem resting_eq (strategy : Strategy) : resting strategy =
    { create ⟨1, 1, 0, 0, strategy, false⟩ with
      lines := #[.create ⟨-1, 0⟩ ⟨1, 0⟩]
      particles := #[⟨⟨⟨0, 0.5⟩, ⟨0, 0⟩, 1, 1 / 1⟩, 1,
        circleBounds ⟨0, 0.5⟩ 1 ((0 : Exact) • ⟨0, 0⟩)⟩]
      refs := none } := by
  have hbody : Body.create ⟨0, 0.5⟩ ⟨0, 0⟩ (1 : Exact) = .ok ⟨⟨0, 0.5⟩, ⟨0, 0⟩, 1, 1 / 1⟩ :=
    if_pos isMass_one
  simp only [resting, call, Command.runAll, Command.run, addParticle, Particle.create, hbody]
  rfl

/-- Before the first search the particle stays where it is. -/
theorem beforeSearch_resting (strategy : Strategy) : ∃ p : Particle Exact,
    ((resting strategy).beforeSearch 1 0).particles[0]? = some p ∧ p.radius = 1 ∧
      p.body.pos.x.val = 0 ∧ p.body.pos.y.val = 0.5 ∧
        ((resting strategy).beforeSearch 1 0).lines[0]? = some (.create ⟨-1, 0⟩ ⟨1, 0⟩) := by
  let p : Particle Exact :=
    ⟨⟨⟨0, 0.5⟩, ⟨0, 0⟩, 1, 1 / 1⟩, 1, circleBounds ⟨0, 0.5⟩ 1 ((0 : Exact) • ⟨0, 0⟩)⟩
  let dt := (resting strategy).stepTime 1
  rw [beforeSearch_zero (by rw [resting_eq]; rfl) (by rw [resting_eq]; exact lt_irrefl (0 : ℝ))]
  refine ⟨p.advance dt, ?_, rfl, ?_, ?_, ?_⟩
  · show ((resting strategy).particles.map fun p => p.advance dt)[0]? = some (p.advance dt)
    rw [Array.getElem?_map, resting_eq]
    rfl
  · show (0 + 0 * dt.val : ℝ) = 0
    norm_num
  · show ((0.5 : Exact).val + 0 * dt.val : ℝ) = 0.5
    norm_num
  · show (resting strategy).lines[0]? = _
    rw [resting_eq]
    rfl

theorem touching_resting (strategy : Strategy) :
    let t := (resting strategy).beforeSearch 1 0
    t.Touching (.particle 0) (.line 0) ∧ t.HasRadius (.particle 0) := by
  intro t
  obtain ⟨p, hp, hradius, hx, hy, hline⟩ := beforeSearch_resting strategy
  constructor
  · refine .particleLine hp hline ?_
    have hdist := Line.distSq_level (a := -1) (b := 1) (x := p.body.pos.x) (y := p.body.pos.y)
      (z := 0) (by rw [hx]; norm_num) (by rw [hx]; norm_num) (by norm_num)
    rw [Exact.le_iff, hradius]
    refine hdist.trans_le ?_
    rw [hy]
    norm_num
  · intro q hq
    obtain rfl := Option.some.inj (hp.symm.trans hq)
    rw [hradius]
    exact zero_le_one (α := ℝ)

/-- A particle at rest, one that moves, and a ball at a line, and the search of a run. -/
theorem touching_shapes_are_candidates_resting :
    let line : Line Exact := .create ⟨-1, 0⟩ ⟨1, 0⟩
    let p : Particle Exact := ⟨⟨⟨0, 0.5⟩, ⟨3, -4⟩, 1, 1⟩, 1, ⟨0, 0, 0, 0⟩⟩
    let b : Ball Exact := ⟨p.body, ⟨1, 1, 0, 0⟩, 1, ⟨0, 0, 0, 0⟩⟩
    let s := resting .kdTree
    (p.refreshBounds 2).aabb.intersects line.aabb = true ∧
      (b.refreshBounds 2).aabb.intersects line.aabb = true ∧
        (p.refreshBounds 2).aabb.intersects (p.refreshBounds 0).aabb = true ∧
          s.Reachable ∧ (s.beforeSearch 1 0).IsCandidate (.particle 0) (.line 0) := by
  intro line p b s
  obtain ⟨hparticle, hball, hparticles, hsearch⟩ := touching_shapes_are_candidates
  have hdist : (distSqToSegment line.start line.stop p.body.pos).val =
      ((0.5 : Exact).val - Exact.val 0) ^ 2 :=
    Line.distSq_level (by norm_num) (by norm_num) (by norm_num)
  have hline : distSqToSegment line.start line.stop p.body.pos ≤ 1 * 1 := by
    rw [Exact.le_iff, hdist]
    norm_num
  have hself :
      (p.body.pos - p.body.pos).lengthSq ≤ (p.radius + p.radius) * (p.radius + p.radius) := by
    rw [Exact.le_iff, Vec.val_lengthSq]
    norm_num [p]
  have hone : (0 : Exact) ≤ 1 := zero_le_one (α := ℝ)
  have hreach : s.Reachable := ((Reachable.create _).call _).call _
  obtain ⟨htouch, hradius⟩ := touching_resting .kdTree
  exact ⟨hparticle p 2 line rfl hone hline, hball b 2 line rfl hone hline,
    hparticles p p 2 0 hone hone hself, hreach,
    ((hsearch s hreach).2 1 0 _ _).1 htouch hradius trivial⟩

end Simulator

end PlanarDynamics
