import PlanarDynamics.Proofs.Exact.LineContact

/-!
# Balls at lines

The impulse of a line acts where the ball touches it, so that friction turns the ball. The sliding
that friction is to take is a momentum along the line less the term of the spin, and not the speed
of the point of contact: friction may take more than brings that point to rest, and the excess goes
into the spin. What a contact does to the kinetic energy is a closed formula in the friction, the
slip of the point of contact and the approach.
-/

namespace PlanarDynamics

/-- At the point of contact only the part of an impulse along the line has a torque. -/
theorem Vec.perpDot_contact {n : Vec Exact} (hn : n.x.val ^ 2 + n.y.val ^ 2 = 1) (pos : Vec Exact)
    (radius across along : Exact) :
    ((pos - radius • n - pos).perpDot (across • n + along • n.tangent)).val =
      -(radius.val * along.val) := by
  simp only [perpDot, x_sub, y_sub, x_add, y_add, x_smul, y_smul, Exact.val_sub, Exact.val_add,
    Exact.val_mul, val_x_tangent, val_y_tangent]
  linear_combination -radius.val * along.val * hn

namespace Ball

/-- The ball has a mass, a radius and the inertia of a disc. -/
structure IsDisc (b : Ball Exact) : Prop where
  body : b.body.HasMass
  radius : 0 < b.radius.val
  inertia : b.spin.inertia.val = b.body.mass.val * b.radius.val ^ 2 / 2
  invInertia : b.spin.invInertia.val = 1 / b.spin.inertia.val

/-- Balls that are created with a radius are discs. -/
theorem isDisc_of_create {pos vel : Vec Exact} {mass radius angle angVel : Exact} {b : Ball Exact}
    (hradius : 0 < radius.val) (h : create pos vel mass radius angle angVel = .ok b) :
    b.IsDisc := by
  obtain ⟨body, hbody, hb⟩ := Simulator.exists_of_bind_ok h
  obtain ⟨rfl, hmass⟩ := Body.create_eq_ok_iff.mp hbody
  obtain rfl := Except.ok.inj hb
  have hinertia : (0 : Exact) < mass * radius * radius * 0.5 := by
    have := hmass.pos
    simp only [Exact.lt_iff, Exact.val_zero, Exact.val_mul, Exact.val_ofScientific]
    positivity
  refine ⟨hmass, hradius, ?_, ?_⟩
  · simp only [Spin.create, Exact.val_mul, Exact.val_ofScientific]
    ring
  · simp only [Spin.create, if_pos hinertia]
    rfl

/-- The kinetic energy of the motion and of the spin. -/
noncomputable def energy (b : Ball Exact) : ℝ :=
  b.body.energy + 0.5 * b.spin.inertia.val * b.spin.angVel.val ^ 2

/-- The momentum along the line, less what the spin adds. -/
noncomputable def slide (b : Ball Exact) (n : Vec Exact) : Exact :=
  b.body.momentum.dot n.tangent - b.spin.angVel * b.spin.inertia * b.radius

/-- The speed along the line of the point where the ball touches it. -/
noncomputable def slip (b : Ball Exact) (n : Vec Exact) : ℝ :=
  (b.body.vel.dot n.tangent).val - b.spin.angVel.val * b.radius.val

/-- The impulse of friction on the ball. -/
noncomputable def friction (b : Ball Exact) (law : ContactLaw Exact) (n : Vec Exact) : Exact :=
  law.frictionImpulse (b.body.momentum.dot n) (b.slide n)

/-- The energy that the ball gains from friction: the work at the point of contact before it, and
the energy of the impulse itself, of which the spin takes two parts and the motion one. -/
noncomputable def frictionWork (b : Ball Exact) (law : ContactLaw Exact) (n : Vec Exact) : ℝ :=
  (b.friction law n).val * b.slip n + 1.5 * (b.friction law n).val ^ 2 / b.body.mass.val

/-- The energy that restitution swallows. -/
noncomputable def swallowed (b : Ball Exact) (law : ContactLaw Exact) (n : Vec Exact) : ℝ :=
  0.5 * (1 - law.restitution.val ^ 2) * b.body.mass.val * (b.body.vel.dot n).val ^ 2

end Ball

namespace ContactLaw

variable {law : ContactLaw Exact} {line : Line Exact} {b b' : Ball Exact}

/-- A ball that does not approach the line is moved only. -/
theorem energy_ballLine_of_not_approach (happroach : ¬ b.body.vel.dot line.normal < 0)
    (h : law.ballLine b line = some b') : b'.energy = b.energy := by
  obtain ⟨pos, -, hb'⟩ := Option.bind_eq_some_iff.mp h
  rw [if_neg happroach] at hb'
  obtain rfl := Option.some.inj hb'
  rfl

/-- A ball that approaches a line bounces, and friction brakes its sliding and turns it. -/
theorem bounced_ballLine (hb : b.body.HasMass)
    (hn : line.normal.x.val ^ 2 + line.normal.y.val ^ 2 = 1)
    (happroach : b.body.vel.dot line.normal < 0) (h : law.ballLine b line = some b') :
    b.body.Bounced law.restitution (b.friction law line.normal) line.normal b'.body ∧
      b'.spin.inertia = b.spin.inertia ∧
      b'.spin.angVel.val = b.spin.angVel.val -
        b.radius.val * (b.friction law line.normal).val * b.spin.invInertia.val := by
  obtain ⟨pos, -, hb'⟩ := Option.bind_eq_some_iff.mp h
  rw [if_pos happroach] at hb'
  obtain rfl := Option.some.inj hb'
  have himpulse := lineImpulse_eq hn law b.body.momentum
    (b.spin.angVel * b.spin.inertia * b.radius)
  have htorque := Vec.perpDot_contact hn pos b.radius (-(1 + law.restitution) *
    b.body.momentum.dot line.normal) (b.friction law line.normal)
  refine ⟨Body.bounced_of_vel hb hn rfl (congrArg (b.body.vel + b.body.invMass • ·) himpulse), rfl,
    ?_⟩
  show (b.spin.angVel + (pos - b.radius • line.normal - pos).perpDot
    (law.lineImpulse b.body.momentum line.normal
      ((b.spin.angVel * b.spin.inertia * b.radius) • line.normal.tangent)) *
        b.spin.invInertia).val = _
  rw [himpulse, Exact.val_add, Exact.val_mul]
  refine (congrArg (b.spin.angVel.val + · * b.spin.invInertia.val) htorque).trans ?_
  ring

/-- The energy of a ball after a bounce: restitution swallows its share, and friction adds its
work. -/
theorem energy_ballLine (hb : b.IsDisc)
    (hn : line.normal.x.val ^ 2 + line.normal.y.val ^ 2 = 1)
    (happroach : b.body.vel.dot line.normal < 0) (h : law.ballLine b line = some b') :
    b'.energy = b.energy - b.swallowed law line.normal + b.frictionWork law line.normal := by
  obtain ⟨hbounced, hinertia, hangVel⟩ := bounced_ballLine hb.body hn happroach h
  have hmass := hb.body.pos.ne'
  have hradius := hb.radius.ne'
  rw [Ball.energy, Ball.energy, hbounced.energy_eq hb.body hn, hinertia, hangVel, Ball.swallowed,
    Ball.frictionWork, Ball.slip, hb.invInertia, hb.inertia]
  field_simp
  ring

theorem swallowed_nonneg (hb : b.IsDisc) (hrest : 0 ≤ law.restitution)
    (hrest' : law.restitution ≤ 1) (n : Vec Exact) : 0 ≤ b.swallowed law n := by
  have hmass := hb.body.pos.le
  have hsq : 0 ≤ 1 - law.restitution.val ^ 2 := sub_nonneg.mpr (pow_le_one₀ hrest hrest')
  rw [Ball.swallowed]
  positivity

/-- Friction adds no energy if its coefficient is zero, or if the sliding that it brakes is on the
side of the slip and small against it. -/
theorem frictionWork_nonpos (hb : b.IsDisc) (hfriction : 0 ≤ law.friction) {n : Vec Exact}
    (h : law.friction.val = 0 ∨ 3 * law.friction.val * (b.slide n).val ^ 2 ≤
      2 * b.body.mass.val * ((b.slide n).val * b.slip n)) : b.frictionWork law n ≤ 0 := by
  obtain ⟨grip, hgrip, hgrip', -, -, himpulse⟩ :=
    law.exists_frictionImpulse_eq (b.body.momentum.dot n) (b.slide n)
  have hmass := hb.body.pos
  have hwork : b.frictionWork law n = law.friction.val * grip / (2 * b.body.mass.val) *
      (3 * (law.friction.val * grip) * (b.slide n).val ^ 2 -
        2 * b.body.mass.val * ((b.slide n).val * b.slip n)) := by
    rw [Ball.frictionWork, Ball.friction, himpulse]
    field_simp
    ring
  rw [hwork]
  rcases h with hzero | hslip
  · rw [hzero, zero_mul, zero_div, zero_mul]
  · rw [Exact.le_iff, Exact.val_zero] at hfriction
    refine mul_nonpos_of_nonneg_of_nonpos (by positivity) (sub_nonpos.mpr (le_trans ?_ hslip))
    have hless : law.friction.val * grip ≤ law.friction.val :=
      mul_le_of_le_one_right hfriction hgrip'
    gcongr

/-- A contact with a line leaves the energy of a ball that does not approach it. Of one that does,
it swallows a share of the energy across the line and adds the work of friction, which is positive
where friction spins the ball up by more than it brakes it. There is no gain without friction, or
where friction is small against the slip, as it is with a coefficient of at most two thirds if the
ball does not spin. -/
theorem ball_energy_at_line (hline : line.IsBuilt) (hnormal : line.normal ≠ 0)
    (hrest : 0 ≤ law.restitution) (hrest' : law.restitution ≤ 1) (hfriction : 0 ≤ law.friction)
    (hb : b.IsDisc) (h : law.ballLine b line = some b') :
    let n := line.normal
    (¬ b.body.vel.dot n < 0 → b'.energy = b.energy) ∧
    (b.body.vel.dot n < 0 → 0 ≤ b.swallowed law n ∧
      b'.energy = b.energy - b.swallowed law n + b.frictionWork law n ∧
        (b'.energy ≤ b.energy ↔ b.frictionWork law n ≤ b.swallowed law n)) ∧
    (law.friction.val = 0 ∨ 3 * law.friction.val * (b.slide n).val ^ 2 ≤
      2 * b.body.mass.val * ((b.slide n).val * b.slip n) → b'.energy ≤ b.energy) ∧
    (b.spin.angVel = 0 → 3 * law.friction ≤ 2 → b'.energy ≤ b.energy) := by
  intro n
  have hn : n.x.val ^ 2 + n.y.val ^ 2 = 1 := hline.sq_add_sq_normal hnormal
  have hswallowed := swallowed_nonneg hb hrest hrest' n
  have hle (hwork : b.frictionWork law n ≤ 0) : b'.energy ≤ b.energy := by
    by_cases happroach : b.body.vel.dot n < 0
    · rw [energy_ballLine hb hn happroach h]
      linarith
    · exact (energy_ballLine_of_not_approach happroach h).le
  refine ⟨fun happroach => energy_ballLine_of_not_approach happroach h, fun happroach => ?_,
    fun hslip => hle (frictionWork_nonpos hb hfriction hslip), fun hspin hsmall => ?_⟩
  · have henergy := energy_ballLine hb hn happroach h
    refine ⟨hswallowed, henergy, ?_⟩
    rw [henergy]
    constructor <;> intro hgain <;> linarith
  · apply hle
    apply frictionWork_nonpos hb hfriction
    right
    have hslide : (b.slide n).val = b.body.mass.val * b.slip n := by
      rw [Ball.slide, Ball.slip, hspin, Exact.val_sub, Body.momentum_dot]
      simp
    rw [Exact.le_iff, Exact.val_mul, Exact.val_ofNat, Exact.val_ofNat] at hsmall
    rw [hslide]
    linear_combination
      mul_le_mul_of_nonneg_right hsmall (sq_nonneg (b.body.mass.val * b.slip n))

/-- A ball without spin that falls onto a level line from the left. -/
noncomputable def fallingBall : Ball Exact where
  body := ⟨⟨0, 1⟩, ⟨3, -3⟩, 1, 1 / 1⟩
  spin := Spin.create (1 * 1 * 1 * 0.5) 0 0
  radius := 1
  aabb := circleBounds ⟨0, 1⟩ 1 ((0 : Exact) • ⟨3, -3⟩)

theorem create_fallingBall : Ball.create ⟨0, 1⟩ ⟨3, -3⟩ 1 1 0 0 = .ok fallingBall := by
  have hbody : Body.create (⟨0, 1⟩ : Vec Exact) ⟨3, -3⟩ 1 = .ok fallingBall.body :=
    Body.create_eq_ok_iff.mpr ⟨rfl, ⟨by norm_num [fallingBall], rfl⟩⟩
  rw [Ball.create, hbody]
  rfl

theorem normal_level (x y : Exact) : (Line.level x y).normal = ⟨0, 1⟩ := by
  have hnormal : (Line.level x y).normal =
      (((⟨x + 1, y⟩ : Vec Exact) - ⟨x - 1, y⟩).rotateSC 1 0).normalizeOrZero := rfl
  have hlength : (((⟨x + 1, y⟩ : Vec Exact) - ⟨x - 1, y⟩).rotateSC 1 0).length.val = 2 := by
    rw [Vec.length, Exact.val_sqrt, Vec.val_lengthSq,
      Real.sqrt_eq_iff_mul_self_eq (by positivity) (by norm_num)]
    norm_num [Vec.rotateSC]
  rw [hnormal, Vec.normalizeOrZero_eq, hlength, if_pos two_pos]
  apply Vec.ext_val <;>
  · simp only [Vec.x_smul, Vec.y_smul, Exact.val_mul, Exact.val_div, hlength]
    norm_num [Vec.rotateSC]

theorem exists_ballLine_fallingBall (law : ContactLaw Exact) :
    ∃ b', law.ballLine fallingBall (Line.level 0 0) = some b' := by
  rw [← Option.isSome_iff_exists, isSome_ballLine, Exact.not_lt_iff, Exact.le_iff]
  have hdist := Line.distSq_to_level 0 fallingBall.body.pos
  refine hdist.trans_le ?_
  norm_num [fallingBall]

theorem isBuilt_level (x y : Exact) : (Line.level x y).IsBuilt ∧ (Line.level x y).normal ≠ 0 := by
  refine ⟨⟨_, _, .inl rfl⟩, fun hzero => ?_⟩
  have hy := congrArg (fun v => v.y.val) ((normal_level x y).symm.trans hzero)
  exact one_ne_zero hy

theorem fallingBall_at_level : fallingBall.IsDisc ∧ fallingBall.energy = 9 ∧
    (fallingBall.body.vel.dot ⟨0, 1⟩).val = -3 ∧ (fallingBall.slide ⟨0, 1⟩).val = -3 ∧
      fallingBall.slip ⟨0, 1⟩ = -3 := by
  refine ⟨Ball.isDisc_of_create one_pos create_fallingBall, ?_, ?_, ?_, ?_⟩
  · norm_num [Ball.energy, Body.energy, fallingBall, Spin.create]
  · norm_num [fallingBall]
  · rw [Ball.slide, Exact.val_sub, Body.momentum_dot]
    norm_num [fallingBall, Spin.create]
  · norm_num [Ball.slip, fallingBall, Spin.create]

/-- With a coefficient of one half the ball loses energy. -/
theorem ball_energy_at_line_falling :
    let law : ContactLaw Exact := ⟨0.5, 0.5⟩
    (Line.level 0 0).IsBuilt ∧ (Line.level 0 0).normal ≠ 0 ∧
      Ball.create ⟨0, 1⟩ ⟨3, -3⟩ 1 1 0 0 = .ok fallingBall ∧ fallingBall.IsDisc ∧
        ∃ b', law.ballLine fallingBall (Line.level 0 0) = some b' ∧ b'.energy ≤ 9 := by
  intro law
  obtain ⟨hline, hnormal⟩ := isBuilt_level 0 0
  obtain ⟨hdisc, henergy, -⟩ := fallingBall_at_level
  obtain ⟨b', hb'⟩ := exists_ballLine_fallingBall law
  obtain ⟨-, -, -, hslow⟩ := ball_energy_at_line hline hnormal (by norm_num [law])
    (by norm_num [law]) (by norm_num [law]) hdisc hb'
  refine ⟨hline, hnormal, create_fallingBall, hdisc, b', hb', henergy ▸ hslow rfl ?_⟩
  norm_num [law]

/-- With a coefficient of one the ball gains half of its energy. -/
theorem friction_spins_up_ball :
    let law : ContactLaw Exact := ⟨1, 1⟩
    (Line.level 0 0).IsBuilt ∧ (Line.level 0 0).normal ≠ 0 ∧
      Ball.create ⟨0, 1⟩ ⟨3, -3⟩ 1 1 0 0 = .ok fallingBall ∧ fallingBall.IsDisc ∧
        ∃ b', law.ballLine fallingBall (Line.level 0 0) = some b' ∧ fallingBall.energy = 9 ∧
          b'.energy = 13.5 := by
  intro law
  obtain ⟨hline, hnormal⟩ := isBuilt_level 0 0
  obtain ⟨hdisc, henergy, hspeed, hslide, hslip⟩ := fallingBall_at_level
  obtain ⟨b', hb'⟩ := exists_ballLine_fallingBall law
  refine ⟨hline, hnormal, create_fallingBall, hdisc, b', hb', henergy, ?_⟩
  have happroach : fallingBall.body.vel.dot (Line.level 0 0).normal < 0 := by
    rw [normal_level, Exact.lt_iff, hspeed]
    norm_num
  have hfriction : (fallingBall.friction law ⟨0, 1⟩).val = 3 := by
    have hlarge : ¬ Scalar.almostEqual (Scalar.abs (fallingBall.slide ⟨0, 1⟩)) 0 = true := by
      rw [Exact.almostEqual_zero_iff, Exact.val_abs, hslide, abs_abs, not_lt]
      exact (inv_le_one_of_one_le₀ (by norm_num)).trans (by norm_num)
    rw [Ball.friction, frictionImpulse, if_neg hlarge]
    simp only [Exact.val_mul, Exact.val_neg, Exact.val_minNum, Exact.val_abs, Exact.val_div, hslide,
      Body.momentum_dot, hspeed]
    norm_num [law, fallingBall]
  rw [energy_ballLine hdisc (hline.sq_add_sq_normal hnormal) happroach hb', henergy, normal_level,
    Ball.swallowed, Ball.frictionWork, hfriction, hslip]
  norm_num [law, fallingBall]

end ContactLaw

end PlanarDynamics
