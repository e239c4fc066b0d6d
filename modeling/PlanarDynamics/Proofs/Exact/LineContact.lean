import PlanarDynamics.Proofs.Exact.BoxCircle
import PlanarDynamics.Proofs.Exact.ParticleContact

/-!
# Contacts with a line

Computed exactly, the impulse of a line has a part along the normal, which turns the normal velocity
around and takes it to the given share, and a part along the line, which friction takes from the
sliding. Friction takes at most the sliding and at most its share of the normal momentum, so that
without spin it slows a body down and never turns it around.
-/

namespace PlanarDynamics

/-! ## Directions along and across a line -/

namespace Vec

/-- The direction along a line with the given normal. -/
noncomputable def tangent (n : Vec Exact) : Vec Exact := n.rotateSC 1 0

/-- The part of `v` across a direction of length one. -/
noncomputable def across (v n : Vec Exact) : Vec Exact := v - v.projOnUnit n

variable {v n : Vec Exact}

@[simp] theorem x_zero : (0 : Vec Exact).x = 0 := rfl
@[simp] theorem y_zero : (0 : Vec Exact).y = 0 := rfl

@[simp] theorem val_x_tangent (n : Vec Exact) : n.tangent.x.val = -n.y.val := by
  simp [tangent, rotateSC]

@[simp] theorem val_y_tangent (n : Vec Exact) : n.tangent.y.val = n.x.val := by
  simp [tangent, rotateSC]

theorem sq_add_sq_tangent (hn : n.x.val ^ 2 + n.y.val ^ 2 = 1) :
    n.tangent.x.val ^ 2 + n.tangent.y.val ^ 2 = 1 := by
  rw [val_x_tangent, val_y_tangent, neg_sq, add_comm, hn]

theorem across_eq (hn : n.x.val ^ 2 + n.y.val ^ 2 = 1) (v : Vec Exact) :
    v.across n = v.dot n.tangent • n.tangent := by
  apply ext_val
  · simp only [across, projOnUnit, x_sub, x_smul, Exact.val_sub, Exact.val_mul, val_dot,
      val_x_tangent, val_y_tangent]
    linear_combination -v.x.val * hn
  · simp only [across, projOnUnit, y_sub, y_smul, Exact.val_sub, Exact.val_mul, val_dot,
      val_x_tangent, val_y_tangent]
    linear_combination -v.y.val * hn

theorem lengthSq_eq (hn : n.x.val ^ 2 + n.y.val ^ 2 = 1) (v : Vec Exact) :
    v.lengthSq.val = (v.dot n).val ^ 2 + (v.dot n.tangent).val ^ 2 := by
  simp only [val_lengthSq, val_dot, val_x_tangent, val_y_tangent]
  linear_combination -(v.x.val ^ 2 + v.y.val ^ 2) * hn

theorem normalizeOrZero_eq (v : Vec Exact) :
    v.normalizeOrZero = if 0 < v.length.val then (1 / v.length) • v else 0 := by
  have hpos : (Scalar.isFinite (1 / v.length) && decide (0 < 1 / v.length)) = true ↔
      0 < v.length.val := by
    rw [Bool.and_eq_true, decide_eq_true_eq, Exact.lt_iff, Exact.val_div, Exact.val_one,
      Exact.val_zero, one_div_pos]
    exact and_iff_right rfl
  simp only [normalizeOrZero, hpos]

end Vec

/-- Lines are built between two points, with the normal on the left or on the side of a point. -/
def Line.IsBuilt (line : Line Exact) : Prop :=
  ∃ start stop, line = .create start stop ∨ ∃ point, line = .facing start stop point

/-- A normal that is not zero has length one. -/
theorem Line.IsBuilt.sq_add_sq_normal {line : Line Exact} (h : line.IsBuilt)
    (hnormal : line.normal ≠ 0) : line.normal.x.val ^ 2 + line.normal.y.val ^ 2 = 1 := by
  obtain ⟨v, hv⟩ : ∃ v : Vec Exact, line.normal = v.normalizeOrZero := by
    obtain ⟨start, stop, rfl | ⟨point, rfl⟩⟩ := h
    · exact ⟨_, rfl⟩
    · exact ⟨_, rfl⟩
  rw [hv, Vec.normalizeOrZero_eq] at hnormal ⊢
  split at hnormal
  case isFalse => exact absurd rfl hnormal
  case isTrue hlength =>
    rw [if_pos hlength]
    have hunit := Vec.sq_add_sq_div hlength.ne'
    simp only [Vec.div, Exact.val_div] at hunit
    simpa only [Vec.x_smul, Vec.y_smul, Exact.val_mul, Exact.val_div, Exact.val_one, mul_one_div]
      using hunit

/-! ## Friction -/

namespace ContactLaw

variable {law : ContactLaw Exact}

/-- The impulse of friction along the line, for the momentum across it and the sliding along it. -/
noncomputable def frictionImpulse (law : ContactLaw Exact) (normal slide : Exact) : Exact :=
  if Scalar.almostEqual (Scalar.abs slide) 0 then 0
  else -law.friction * Scalar.minNum (Scalar.abs normal) (Scalar.abs slide) *
    (slide / Scalar.abs slide)

/-- Friction takes a share of the sliding, and of the momentum across the line. It takes nothing of
what is almost zero. -/
theorem exists_frictionImpulse_eq (law : ContactLaw Exact) (normal slide : Exact) : ∃ grip : ℝ,
    0 ≤ grip ∧ grip ≤ 1 ∧ grip * |slide.val| ≤ |normal.val| ∧
      (normal.val ≠ 0 → (Scalar.minPositive : Exact).val ≤ |slide.val| → 0 < grip) ∧
        (law.frictionImpulse normal slide).val = -(law.friction.val * grip) * slide.val := by
  unfold frictionImpulse
  split
  case isTrue hsmall =>
    rw [Exact.almostEqual_zero_iff, Exact.val_abs, abs_abs] at hsmall
    refine ⟨0, le_rfl, zero_le_one, ?_, fun _ h => absurd hsmall h.not_gt, ?_⟩
    · rw [zero_mul]
      exact abs_nonneg _
    · simp
  case isFalse hlarge =>
    rw [Exact.almostEqual_zero_iff, Exact.val_abs, abs_abs, not_lt] at hlarge
    have hmin : (0 : ℝ) < (Scalar.minPositive : Exact).val :=
      inv_pos.mpr (Nat.cast_pos.mpr (Nat.two_pow_pos 126))
    have hslide : 0 < |slide.val| := hmin.trans_le hlarge
    refine ⟨min |normal.val| |slide.val| / |slide.val|, ?_, ?_, ?_, fun hne _ => ?_, ?_⟩
    · exact div_nonneg (le_min (abs_nonneg _) hslide.le) hslide.le
    · exact div_le_one_of_le₀ (min_le_right _ _) hslide.le
    · rw [div_mul_cancel₀ _ hslide.ne']
      exact min_le_left _ _
    · exact div_pos (lt_min (abs_pos.mpr hne) hslide) hslide
    · simp only [Exact.val_mul, Exact.val_neg, Exact.val_minNum, Exact.val_abs, Exact.val_div]
      ring

theorem magnitudeAndDirection_smul {t : Vec Exact} (ht : t.x.val ^ 2 + t.y.val ^ 2 = 1)
    (s : Exact) : (s • t).magnitudeAndDirection =
      if Scalar.almostEqual (Scalar.abs s) 0 then (0, 0)
      else (Scalar.abs s, (s • t).div (Scalar.abs s)) := by
  unfold Vec.magnitudeAndDirection
  dsimp only
  rw [Vec.length_smul_abs ht]

/-- The impulse of a line in its parts across and along the line. -/
theorem lineImpulse_eq {n : Vec Exact} (hn : n.x.val ^ 2 + n.y.val ^ 2 = 1)
    (law : ContactLaw Exact) (momentum : Vec Exact) (spin : Exact) :
    law.lineImpulse momentum n (spin • n.tangent) =
      (-(1 + law.restitution) * momentum.dot n) • n +
        law.frictionImpulse (momentum.dot n) (momentum.dot n.tangent - spin) • n.tangent := by
  have ht := Vec.sq_add_sq_tangent hn
  have hslide : momentum - momentum.projOnUnit n - spin • n.tangent =
      (momentum.dot n.tangent - spin) • n.tangent := by
    have hacross := Vec.across_eq hn momentum
    rw [Vec.across] at hacross
    rw [hacross]
    apply Vec.ext_val <;>
    · simp only [Vec.x_sub, Vec.y_sub, Vec.x_smul, Vec.y_smul, Exact.val_sub, Exact.val_mul]
      ring
  have himpulse : law.lineImpulse momentum n (spin • n.tangent) =
      (-(1 + law.restitution)) • momentum.projOnUnit n +
        (-law.friction * Scalar.minNum (momentum.projOnUnit n).length
          (momentum - momentum.projOnUnit n - spin • n.tangent).magnitudeAndDirection.1) •
          (momentum - momentum.projOnUnit n - spin • n.tangent).magnitudeAndDirection.2 := rfl
  rw [himpulse, hslide, magnitudeAndDirection_smul ht, Vec.projOnUnit, Vec.length_smul_abs hn,
    frictionImpulse]
  split
  case isTrue =>
    apply Vec.ext_val <;>
    · simp only [Vec.x_add, Vec.y_add, Vec.x_smul, Vec.y_smul, Vec.x_zero, Vec.y_zero,
        Exact.val_add, Exact.val_mul, Exact.val_neg, Exact.val_one, Exact.val_zero]
      ring
  case isFalse =>
    apply Vec.ext_val <;>
    · simp only [Vec.div, Vec.x_add, Vec.y_add, Vec.x_smul, Vec.y_smul, Exact.val_add,
        Exact.val_mul, Exact.val_neg, Exact.val_one, Exact.val_div]
      ring

end ContactLaw

/-! ## Bodies at a line -/

namespace Body

theorem momentum_dot (b : Body Exact) (n : Vec Exact) :
    (b.momentum.dot n).val = b.mass.val * (b.vel.dot n).val := by
  simp only [momentum, Vec.val_dot, Vec.x_smul, Vec.y_smul, Exact.val_mul]
  ring

/-- What a line does to a body: the velocity across the line is turned around and takes the share
`e`, and the momentum along it gains `friction`. -/
structure Bounced (e friction : Exact) (n : Vec Exact) (a b : Body Exact) : Prop where
  mass : b.mass = a.mass
  normal : (b.vel.dot n).val = -e.val * (a.vel.dot n).val
  along : a.mass.val * (b.vel.dot n.tangent).val =
    a.mass.val * (a.vel.dot n.tangent).val + friction.val

variable {a b : Body Exact} {e friction : Exact} {n : Vec Exact}

theorem bounced_of_vel (ha : a.HasMass) (hn : n.x.val ^ 2 + n.y.val ^ 2 = 1)
    (hmass : b.mass = a.mass) (hvel : b.vel = a.vel + a.invMass •
      ((-(1 + e) * a.momentum.dot n) • n + friction • n.tangent)) : Bounced e friction n a b := by
  have hmass₀ := ha.pos.ne'
  refine ⟨hmass, ?_, ?_⟩
  · simp only [hvel, momentum, Vec.val_dot, Vec.x_add, Vec.y_add, Vec.x_smul, Vec.y_smul,
      Exact.val_add, Exact.val_mul, Exact.val_neg, Exact.val_one, Vec.val_x_tangent,
      Vec.val_y_tangent, ha.invMass]
    field_simp
    linear_combination
      -(1 + e.val) * a.mass.val * (a.vel.x.val * n.x.val + a.vel.y.val * n.y.val) * hn
  · simp only [hvel, momentum, Vec.val_dot, Vec.x_add, Vec.y_add, Vec.x_smul, Vec.y_smul,
      Exact.val_add, Exact.val_mul, Exact.val_neg, Exact.val_one, Vec.val_x_tangent,
      Vec.val_y_tangent, ha.invMass]
    field_simp
    linear_combination friction.val * hn

namespace Bounced

variable (h : Bounced e friction n a b)

include h

theorem along_eq (ha : a.HasMass) : (b.vel.dot n.tangent).val =
    (a.vel.dot n.tangent).val + friction.val / a.mass.val := by
  have hmass := ha.pos.ne'
  field_simp
  linear_combination h.along

/-- Restitution takes energy and friction does work on the sliding. -/
theorem energy_eq (ha : a.HasMass) (hn : n.x.val ^ 2 + n.y.val ^ 2 = 1) :
    b.energy = a.energy - (1 - e.val ^ 2) * a.mass.val * (a.vel.dot n).val ^ 2 / 2 +
      (friction.val * (a.vel.dot n.tangent).val + friction.val ^ 2 / (2 * a.mass.val)) := by
  have hmass := ha.pos.ne'
  rw [energy, energy, Vec.lengthSq_eq hn, Vec.lengthSq_eq hn, h.mass, h.normal, h.along_eq ha]
  field_simp
  ring

theorem energy_le (ha : a.HasMass) (hn : n.x.val ^ 2 + n.y.val ^ 2 = 1) (he : 0 ≤ e.val)
    (he' : e.val ≤ 1) (hwork : friction.val * (a.vel.dot n.tangent).val +
      friction.val ^ 2 / (2 * a.mass.val) ≤ 0) : b.energy ≤ a.energy := by
  have hlost : 0 ≤ (1 - e.val ^ 2) * a.mass.val * (a.vel.dot n).val ^ 2 / 2 := by
    have hsq : 0 ≤ 1 - e.val ^ 2 := sub_nonneg.mpr (pow_le_one₀ he he')
    have := ha.pos.le
    positivity
  rw [h.energy_eq ha hn]
  linarith

theorem dot_eq : b.vel.dot n = -e * a.vel.dot n := Exact.ext h.normal

/-- Friction that takes a share of the momentum along the line leaves the rest of the velocity. -/
theorem across_eq (ha : a.HasMass) (hn : n.x.val ^ 2 + n.y.val ^ 2 = 1) {share : ℝ}
    (hfriction : friction.val = -share * (a.momentum.dot n.tangent).val) :
    b.vel.across n = (⟨1 - share⟩ : Exact) • a.vel.across n := by
  have hmass := ha.pos.ne'
  have hkept : (b.vel.dot n.tangent).val = (1 - share) * (a.vel.dot n.tangent).val := by
    rw [h.along_eq ha, hfriction, momentum_dot]
    field_simp
    ring
  rw [Vec.across_eq hn, Vec.across_eq hn]
  apply Vec.ext_val <;>
  · simp only [Vec.x_smul, Vec.y_smul, Exact.val_mul, hkept]
    ring

/-- The momentum that the body loses along the line is what friction takes. -/
theorem momentum_across (hn : n.x.val ^ 2 + n.y.val ^ 2 = 1) :
    a.momentum.across n - b.momentum.across n = (-friction) • n.tangent := by
  have halong := h.along
  rw [Vec.across_eq hn, Vec.across_eq hn]
  simp only [Vec.val_dot] at halong
  apply Vec.ext_val
  · simp only [momentum, h.mass, Vec.x_sub, Vec.x_smul, Vec.y_smul, Vec.val_dot, Exact.val_sub,
      Exact.val_mul, Exact.val_neg]
    linear_combination -n.tangent.x.val * halong
  · simp only [momentum, h.mass, Vec.y_sub, Vec.x_smul, Vec.y_smul, Vec.val_dot, Exact.val_sub,
      Exact.val_mul, Exact.val_neg]
    linear_combination -n.tangent.y.val * halong

end Bounced

end Body

/-! ## Contacts -/

namespace ContactLaw

variable {law : ContactLaw Exact} {line : Line Exact}

/-- A particle that approaches a line bounces, and friction brakes its sliding. -/
theorem bounced_particleLine {p p' : Particle Exact} (hp : p.body.HasMass)
    (hn : line.normal.x.val ^ 2 + line.normal.y.val ^ 2 = 1)
    (happroach : p.body.vel.dot line.normal < 0) (h : law.particleLine p line = some p') :
    p.body.Bounced law.restitution (law.frictionImpulse (p.body.momentum.dot line.normal)
      (p.body.momentum.dot line.normal.tangent)) line.normal p'.body := by
  obtain ⟨pos, -, hp'⟩ := Option.bind_eq_some_iff.mp h
  rw [if_pos happroach] at hp'
  obtain rfl := Option.some.inj hp'
  have hzero : (0 : Vec Exact) = (0 : Exact) • line.normal.tangent :=
    Vec.ext_val (by simp) (by simp)
  have hslide : p.body.momentum.dot line.normal.tangent - 0 =
      p.body.momentum.dot line.normal.tangent := Exact.ext (sub_zero _)
  have himpulse := lineImpulse_eq hn law p.body.momentum 0
  rw [← hzero, hslide] at himpulse
  exact Body.bounced_of_vel hp hn rfl (congrArg (p.body.vel + p.body.invMass • ·) himpulse)

/-- A box that approaches a line bounces without friction. The impulse points to the centre, so
that it does not turn the box. -/
theorem bounced_boxLine {b b' : Box Exact} (hb : b.body.HasMass)
    (hn : line.normal.x.val ^ 2 + line.normal.y.val ^ 2 = 1)
    (happroach : b.body.vel.dot line.normal < 0) (h : law.boxLine b line = some b') :
    b.body.Bounced law.restitution 0 line.normal b'.body ∧ b'.spin = b.spin := by
  obtain ⟨pos, -, hb'⟩ := Option.bind_eq_some_iff.mp h
  rw [if_pos happroach] at hb'
  obtain rfl := Option.some.inj hb'
  constructor
  · refine Body.bounced_of_vel hb hn rfl (congrArg (b.body.vel + b.body.invMass • ·) ?_)
    apply Vec.ext_val <;>
    · simp only [Vec.projOnUnit, Body.momentum, Vec.x_smul, Vec.y_smul, Vec.x_add, Vec.y_add,
        Vec.val_dot, Exact.val_add, Exact.val_mul, Exact.val_neg, Exact.val_one, Exact.val_zero]
      ring
  · have hangVel (s : Spin Exact) {arm impulse : Vec Exact} (h : (arm.perpDot impulse).val = 0) :
        s.twist arm impulse = s := by
      have hsame : s.angVel + arm.perpDot impulse * s.invInertia = s.angVel := by
        apply Exact.ext
        rw [Exact.val_add, Exact.val_mul, h, zero_mul, add_zero]
      rw [Spin.twist, hsame]
    apply hangVel
    simp only [Vec.perpDot, Vec.projOnUnit, Vec.x_sub, Vec.y_sub, Vec.x_smul, Vec.y_smul,
      Exact.val_sub, Exact.val_mul]
    ring

/-- Friction against the momentum along the line brakes it, by no more than the given share of the
momentum across the line, and does not turn it around. -/
theorem brakes {n : Vec Exact} {a b : Body Exact} (ha : a.HasMass)
    (hn : n.x.val ^ 2 + n.y.val ^ 2 = 1) (h : a.Bounced law.restitution
      (law.frictionImpulse (a.momentum.dot n) (a.momentum.dot n.tangent)) n b)
    (hrest : 0 ≤ law.restitution) (hrest' : law.restitution ≤ 1) (hfriction : 0 ≤ law.friction)
    (hfriction' : law.friction ≤ 1) (happroach : a.vel.dot n < 0) :
    (∃ kept : Exact, 0 ≤ kept ∧ kept ≤ 1 ∧ b.vel.across n = kept • a.vel.across n ∧
      (0 < law.friction → Scalar.minPositive ≤ (a.momentum.across n).length → kept < 1)) ∧
    (a.momentum.across n - b.momentum.across n).length ≤
      law.friction * (a.momentum.projOnUnit n).length ∧
    b.energy ≤ a.energy := by
  obtain ⟨grip, hgrip, hgrip', hcap, hslides, himpulse⟩ :=
    law.exists_frictionImpulse_eq (a.momentum.dot n) (a.momentum.dot n.tangent)
  have ht := Vec.sq_add_sq_tangent hn
  rw [Exact.le_iff, Exact.val_zero] at hfriction
  rw [Exact.le_iff, Exact.val_one] at hfriction'
  have hshare : 0 ≤ law.friction.val * grip := mul_nonneg hfriction hgrip
  have hshare' : law.friction.val * grip ≤ 1 := mul_le_one₀ hfriction' hgrip hgrip'
  refine ⟨⟨⟨1 - law.friction.val * grip⟩, ?_, ?_, h.across_eq ha hn himpulse, ?_⟩, ?_, ?_⟩
  · exact sub_nonneg.mpr hshare'
  · exact sub_le_self 1 hshare
  · intro hpos hlarge
    rw [Vec.across_eq hn, Vec.length_smul_abs ht] at hlarge
    have hnormal : (a.momentum.dot n).val ≠ 0 := by
      rw [Body.momentum_dot]
      exact (mul_neg_of_pos_of_neg ha.pos happroach).ne
    exact sub_lt_self 1 (mul_pos hpos (hslides hnormal hlarge))
  · rw [h.momentum_across hn, Vec.length_smul_abs ht, Vec.projOnUnit, Vec.length_smul_abs hn,
      Exact.le_iff, Exact.val_mul, Exact.val_abs, Exact.val_abs, Exact.val_neg, abs_neg, himpulse,
      abs_mul, abs_neg, abs_of_nonneg hshare, mul_assoc]
    exact mul_le_mul_of_nonneg_left hcap hfriction
  · apply h.energy_le ha hn hrest hrest'
    have hmass := ha.pos
    have hwork : (law.frictionImpulse (a.momentum.dot n) (a.momentum.dot n.tangent)).val *
          (a.vel.dot n.tangent).val +
        (law.frictionImpulse (a.momentum.dot n) (a.momentum.dot n.tangent)).val ^ 2 /
          (2 * a.mass.val) =
        -(law.friction.val * grip * (1 - law.friction.val * grip / 2) * a.mass.val *
          (a.vel.dot n.tangent).val ^ 2) := by
      rw [himpulse, Body.momentum_dot]
      field_simp
      ring
    rw [hwork, neg_nonpos]
    have hhalf : 0 ≤ 1 - law.friction.val * grip / 2 := by linarith
    positivity

/-- A line turns the normal velocity of a particle or box that approaches it around and takes it to
the given share. It brakes the sliding of a particle, but does not turn it around, and takes at most
the given share of the normal momentum for that; a box slides on and keeps its spin. Neither gains
energy. -/
theorem line_contacts_brake (hline : line.IsBuilt) (hnormal : line.normal ≠ 0)
    (hrest : 0 ≤ law.restitution) (hrest' : law.restitution ≤ 1) (hfriction : 0 ≤ law.friction)
    (hfriction' : law.friction ≤ 1) :
    let n := line.normal
    n.lengthSq = 1 ∧
    (∀ p p' : Particle Exact, p.body.HasMass → p.body.vel.dot n < 0 →
      law.particleLine p line = some p' →
        p'.body.vel.dot n = -law.restitution * p.body.vel.dot n ∧
        (∃ kept : Exact, 0 ≤ kept ∧ kept ≤ 1 ∧
          p'.body.vel.across n = kept • p.body.vel.across n ∧
          (0 < law.friction → Scalar.minPositive ≤ (p.body.momentum.across n).length →
            kept < 1)) ∧
        (p.body.momentum.across n - p'.body.momentum.across n).length ≤
          law.friction * (p.body.momentum.projOnUnit n).length ∧
        p'.body.energy ≤ p.body.energy) ∧
    ∀ b b' : Box Exact, b.body.HasMass → b.body.vel.dot n < 0 → law.boxLine b line = some b' →
      b'.body.vel.dot n = -law.restitution * b.body.vel.dot n ∧
      b'.body.vel.across n = b.body.vel.across n ∧
      b'.body.energy ≤ b.body.energy ∧ b'.spin = b.spin := by
  intro n
  have hn : n.x.val ^ 2 + n.y.val ^ 2 = 1 := hline.sq_add_sq_normal hnormal
  refine ⟨Exact.ext ((Vec.val_lengthSq n).trans hn), ?_, ?_⟩
  · intro p p' hp happroach h
    have hbounced := bounced_particleLine hp hn happroach h
    exact ⟨hbounced.dot_eq, brakes hp hn hbounced hrest hrest' hfriction hfriction' happroach⟩
  · intro b b' hb happroach h
    obtain ⟨hbounced, hspin⟩ := bounced_boxLine hb hn happroach h
    have hnone : (0 : Exact).val = -0 * (b.body.momentum.dot n.tangent).val := by simp
    have hall : (⟨1 - 0⟩ : Exact) • b.body.vel.across n = b.body.vel.across n :=
      Vec.ext_val (by simp) (by simp)
    have hacross := hbounced.across_eq hb hn hnone
    rw [hall] at hacross
    exact ⟨hbounced.dot_eq, hacross, hbounced.energy_le hb hn hrest hrest' (by simp), hspin⟩

/-- A particle and a box that fall onto a slope. -/
theorem line_contacts_brake_slope :
    let law : ContactLaw Exact := ⟨0.5, 0.5⟩
    let line : Line Exact := .create ⟨0, 0⟩ ⟨4, 3⟩
    let body : Body Exact := ⟨⟨2, 1.5⟩, ⟨1, -2⟩, 2, 1 / 2⟩
    let p : Particle Exact := ⟨body, 1, ⟨0, 0, 0, 0⟩⟩
    let b : Box Exact := ⟨body, ⟨1, 1, 0, 3⟩, 1, 1, ⟨0, 0, 0, 0⟩, ⟨0, 0, 0, 0⟩⟩
    line.IsBuilt ∧ line.normal = ⟨-0.6, 0.8⟩ ∧ body.HasMass ∧ body.vel.dot line.normal = -2.2 ∧
      (∃ p', law.particleLine p line = some p' ∧ p'.body.vel.dot line.normal = 1.1 ∧
        p'.body.energy ≤ 5) ∧
      ∃ b', law.boxLine b line = some b' ∧ b'.body.vel.dot line.normal = 1.1 ∧
        b'.spin = ⟨1, 1, 0, 3⟩ := by
  intro law line body p b
  have hline : line.IsBuilt := ⟨_, _, .inl rfl⟩
  have hlength : (((⟨4, 3⟩ : Vec Exact) - ⟨0, 0⟩).rotateSC 1 0).length.val = 5 := by
    rw [Vec.length, Exact.val_sqrt, Vec.val_lengthSq,
      Real.sqrt_eq_iff_mul_self_eq (by positivity) (by norm_num)]
    norm_num [Vec.rotateSC]
  have hnormal : line.normal = ⟨-0.6, 0.8⟩ := by
    have hunit : line.normal = (((⟨4, 3⟩ : Vec Exact) - ⟨0, 0⟩).rotateSC 1 0).normalizeOrZero := rfl
    rw [hunit, Vec.normalizeOrZero_eq, hlength, if_pos (by norm_num)]
    apply Vec.ext_val <;>
    · simp only [Vec.x_smul, Vec.y_smul, Exact.val_mul, Exact.val_div, hlength]
      norm_num [Vec.rotateSC]
  have hne : line.normal ≠ 0 := by
    intro hzero
    have hx := congrArg (fun v => v.x.val) (hnormal.symm.trans hzero)
    norm_num at hx
  have hmass : body.HasMass := ⟨by norm_num [body], rfl⟩
  have hspeed : body.vel.dot line.normal = -2.2 := by
    apply Exact.ext
    rw [hnormal]
    norm_num [body]
  have happroach : body.vel.dot line.normal < 0 := by
    rw [hspeed]
    norm_num
  have hon : (distSqToSegment line.start line.stop body.pos).val = 0 := by
    unfold distSqToSegment
    simp only [line, body, Line.create, Line.withNormal, Exact.beq_iff, Exact.lt_iff,
      Vec.val_lengthSq, Vec.val_dot, Vec.x_sub, Vec.y_sub, Vec.x_add, Vec.y_add, Vec.x_smul,
      Vec.y_smul, Exact.val_ite, Exact.val_sub, Exact.val_add, Exact.val_mul, Exact.val_div]
    norm_num
  obtain ⟨-, hparticle, hbox⟩ := @line_contacts_brake law line hline hne (by norm_num [law])
    (by norm_num [law]) (by norm_num [law]) (by norm_num [law])
  have hp : (law.particleLine p line).isSome = true := by
    rw [isSome_particleLine, Exact.not_lt_iff, Exact.le_iff, hon]
    norm_num [p]
  have hb : (law.boxLine b line).isSome = true := by
    rw [Box.isSome_boxLine_iff, hon]
    positivity
  obtain ⟨p', hp'⟩ := Option.isSome_iff_exists.mp hp
  obtain ⟨b', hb'⟩ := Option.isSome_iff_exists.mp hb
  obtain ⟨hbounce, -, -, henergy⟩ := hparticle p p' hmass happroach hp'
  obtain ⟨hbounce', -, -, hspin⟩ := hbox b b' hmass happroach hb'
  have hhalf : -law.restitution * body.vel.dot line.normal = 1.1 := by
    apply Exact.ext
    rw [hspeed]
    norm_num [law]
  refine ⟨hline, hnormal, hmass, hspeed, ⟨p', hp', hbounce.trans hhalf, henergy.trans ?_⟩,
    b', hb', hbounce'.trans hhalf, hspin⟩
  norm_num [p, body, Body.energy]

end ContactLaw

end PlanarDynamics
