import PlanarDynamics.Proofs.Exact.Bounds

/-!
# Contacts of two particles

Computed exactly, a contact of two particles pushes both along the line of their centres, by the
same distance and with the same impulse in opposite directions. From that form alone follow the
conservation of momentum and of all that is across the line; the sizes of the push decide the rest.
Each particle is moved by the whole depth of the overlap, so that in the end they are as far beyond
touching as they were short of it.
-/

namespace PlanarDynamics

theorem Vec.ext_val {v w : Vec Exact} (hx : v.x.val = w.x.val) (hy : v.y.val = w.y.val) :
    v = w := by
  obtain ⟨x, y⟩ := v
  obtain ⟨x', y'⟩ := w
  exact congrArg₂ Vec.mk (Exact.ext hx) (Exact.ext hy)

theorem Vec.sub_smul_neg (v n : Vec Exact) (m j : Exact) : v - m • (-j) • n = v + m • j • n :=
  Vec.ext_val (by simp) (by simp)

namespace Body

/-- The mass is positive and the inverse mass is its inverse. -/
structure HasMass (b : Body Exact) : Prop where
  pos : 0 < b.mass.val
  invMass : b.invMass.val = 1 / b.mass.val

/-- Bodies that are created have a mass, and those of each positive mass are. -/
theorem create_eq_ok_iff {pos vel : Vec Exact} {mass : Exact} {b : Body Exact} :
    create pos vel mass = .ok b ↔ b = ⟨pos, vel, mass, 1 / mass⟩ ∧ b.HasMass := by
  unfold create isMass
  split
  case isTrue h =>
    rw [Bool.and_eq_true, decide_eq_true_eq] at h
    constructor
    · intro hb
      obtain rfl := Except.ok.inj hb
      exact ⟨rfl, ⟨h.2, rfl⟩⟩
    · rintro ⟨rfl, -⟩
      rfl
  case isFalse h =>
    refine iff_of_false nofun ?_
    rintro ⟨rfl, hmass⟩
    exact h (Bool.and_eq_true_iff.mpr ⟨rfl, decide_eq_true hmass.pos⟩)

/-- The momentum of the body. -/
noncomputable def momentum (b : Body Exact) : Vec Exact := b.mass • b.vel

/-- The kinetic energy of the body. -/
noncomputable def energy (b : Body Exact) : ℝ := 0.5 * b.mass.val * b.vel.lengthSq.val

end Body

namespace Vec

variable {v n : Vec Exact} {c : Exact}

theorem sq_length (v : Vec Exact) : v.length.val ^ 2 = v.x.val ^ 2 + v.y.val ^ 2 := by
  rw [length, Exact.val_sqrt, val_lengthSq]
  exact Real.sq_sqrt (by positivity)

theorem length_nonneg (v : Vec Exact) : 0 ≤ v.length.val := Real.sqrt_nonneg _

/-- A direction has length one. -/
theorem sq_add_sq_div (h : v.length.val ≠ 0) :
    (v.div v.length).x.val ^ 2 + (v.div v.length).y.val ^ 2 = 1 := by
  simp only [div, Exact.val_div]
  rw [div_pow, div_pow, ← add_div, ← sq_length]
  exact div_self (pow_ne_zero 2 h)

theorem smul_div (h : c.val ≠ 0) : c • v.div c = v :=
  ext_val (div_mul_cancel₀ _ h) (div_mul_cancel₀ _ h)

theorem div_smul (h : c.val ≠ 0) : (c • n).div c = n :=
  ext_val (mul_div_cancel_right₀ _ h) (mul_div_cancel_right₀ _ h)

theorem length_smul_abs (hn : n.x.val ^ 2 + n.y.val ^ 2 = 1) (c : Exact) :
    (c • n).length = Scalar.abs c := by
  apply Exact.ext
  rw [Exact.val_abs, ← sq_eq_sq₀ (length_nonneg _) (abs_nonneg _), sq_length, sq_abs, x_smul,
    y_smul, Exact.val_mul, Exact.val_mul]
  linear_combination c.val ^ 2 * hn

theorem length_smul (hn : n.x.val ^ 2 + n.y.val ^ 2 = 1) (hc : 0 ≤ c.val) : (c • n).length = c := by
  rw [length_smul_abs hn]
  exact Exact.ext (abs_of_nonneg hc)

end Vec

namespace Particle

/-- The particle, moved by `shift` along `n` and pushed by the impulse of the given size. -/
noncomputable def pushed (p : Particle Exact) (n : Vec Exact) (shift impulse : Exact) :
    Particle Exact :=
  { p with body := { p.body with
      pos := p.body.pos + shift • n
      vel := p.body.vel + p.body.invMass • impulse • n } }

variable {p q : Particle Exact} {n : Vec Exact} {shift impulse : Exact}

theorem eq_pushed {pos vel : Vec Exact} (hpos : pos = p.body.pos + shift • n)
    (hvel : vel = p.body.vel + p.body.invMass • impulse • n) :
    { p with body := { p.body with pos, vel } } = p.pushed n shift impulse := by
  rw [hpos, hvel]
  rfl

theorem momentum_pushed (hp : p.body.HasMass) :
    (p.pushed n shift impulse).body.momentum = p.body.momentum + impulse • n := by
  have hmass := hp.pos.ne'
  apply Vec.ext_val <;>
  · simp only [Body.momentum, pushed, Vec.x_smul, Vec.y_smul, Vec.x_add, Vec.y_add, Exact.val_mul,
      Exact.val_add, hp.invMass]
    field_simp

/-- An impulse along a direction of length one adds to the energy as its work does. -/
theorem energy_pushed (hp : p.body.HasMass) (hn : n.x.val ^ 2 + n.y.val ^ 2 = 1) :
    (p.pushed n shift impulse).body.energy = p.body.energy +
      (impulse.val * (p.body.vel.dot n).val + p.body.invMass.val * impulse.val ^ 2 / 2) := by
  have hmass := hp.pos.ne'
  simp only [Body.energy, pushed, Vec.val_lengthSq, Vec.val_dot, Vec.x_add, Vec.y_add, Vec.x_smul,
    Vec.y_smul, Exact.val_add, Exact.val_mul, hp.invMass]
  field_simp
  linear_combination impulse.val ^ 2 * hn

end Particle

/-! ## The response of a contact -/

/-- The direction from the centre of `p` to that of `q`. -/
noncomputable def contactNormal (p q : Particle Exact) : Vec Exact :=
  (q.body.pos - p.body.pos).div (q.body.pos - p.body.pos).length

namespace ContactLaw

variable {law : ContactLaw Exact} {p q p' q' : Particle Exact} {shift impulse : Exact}

/-- What a contact does to two particles: both are moved by the depth of the overlap and pushed by
an impulse against their approach, if there is any. -/
structure Rebound (law : ContactLaw Exact) (p q p' q' : Particle Exact) (shift impulse : Exact) :
    Prop where
  apart : (q.body.pos - p.body.pos).length.val ≠ 0
  first : p' = p.pushed (contactNormal p q) (-shift) (-impulse)
  second : q' = q.pushed (contactNormal p q) shift impulse
  shift_eq : shift.val =
    max (p.radius.val + q.radius.val - (q.body.pos - p.body.pos).length.val) 0
  impulse_eq : impulse.val * (p.body.invMass.val + q.body.invMass.val) =
    -(1 + law.restitution.val) * min ((q.body.vel - p.body.vel).dot (contactNormal p q)).val 0

/-- An overlap is left by the whole depth, taken along or against the normal. -/
theorem moved_out (b : Body Exact) (depth : Exact) (n : Vec Exact) :
    (if depth < 0 then { b with pos := b.pos + depth • n } else b) =
      { b with pos := b.pos + Scalar.minNum depth 0 • n } ∧
    (if depth < 0 then { b with pos := b.pos - depth • n } else b) =
      { b with pos := b.pos + (-Scalar.minNum depth 0) • n } := by
  have hmove (t : Exact) (pos : Vec Exact)
      (hx : pos.x.val = b.pos.x.val + n.x.val * t.val)
      (hy : pos.y.val = b.pos.y.val + n.y.val * t.val) :
      { b with pos := pos } = { b with pos := b.pos + t • n } := by
    rw [Vec.ext_val (w := b.pos + t • n) hx hy]
  split
  case isTrue hneg =>
    have hmin : (Scalar.minNum depth 0).val = depth.val := by
      rw [Exact.val_minNum]
      exact min_eq_left hneg.le
    constructor <;> apply hmove <;> simp [hmin, sub_eq_add_neg]
  case isFalse hneg =>
    have hmin : (Scalar.minNum depth 0).val = 0 := by
      rw [Exact.val_minNum]
      exact min_eq_right ((Exact.not_lt_iff _ _).mp hneg)
    exact ⟨hmove _ b.pos (by simp [hmin]) (by simp [hmin]),
      hmove _ b.pos (by simp [hmin]) (by simp [hmin])⟩

/-- The impulse of a contact is along the normal. -/
theorem bounce_eq (e m : Exact) (relative n : Vec Exact) :
    ((1 + e) • relative.projOnUnit n).div m = (-(-(1 + e) * relative.dot n / m)) • n := by
  apply Vec.ext_val <;>
  · simp only [Vec.div, Vec.projOnUnit, Vec.x_smul, Vec.y_smul, Exact.val_div, Exact.val_mul,
      Exact.val_neg]
    ring

theorem rebound_of_particles (hp : p.body.HasMass) (hq : q.body.HasMass)
    (h : law.particles p q = some (p', q')) :
    ∃ shift impulse, law.Rebound p q p' q' shift impulse := by
  have hmass : p.body.invMass.val + q.body.invMass.val ≠ 0 := by
    rw [hp.invMass, hq.invMass]
    have := hp.pos
    have := hq.pos
    positivity
  unfold particles at h
  dsimp only at h
  split at h
  case isTrue => cases h
  case isFalse =>
    split at h
    case isTrue => cases h
    case isFalse hdist =>
      rw [Exact.beq_iff] at hdist
      rw [(moved_out _ _ _).1, (moved_out _ _ _).2] at h
      let n := contactNormal p q
      let relative := q.body.vel - p.body.vel
      let depth := Scalar.minNum ((q.body.pos - p.body.pos).length - (p.radius + q.radius)) 0
      have hdepth : (-depth).val =
          max (p.radius.val + q.radius.val - (q.body.pos - p.body.pos).length.val) 0 := by
        rw [Exact.val_neg, Exact.val_minNum, ← max_neg_neg, Exact.val_zero, neg_zero]
        simp
      have hneg : depth = - -depth := Exact.ext (neg_neg depth.val).symm
      have hrelative : (relative.dot n).val = (q.body.vel.dot n).val - (p.body.vel.dot n).val := by
        simp only [relative, Vec.val_dot, Vec.x_sub, Vec.y_sub, Exact.val_sub]
        ring
      -- Positions are settled the same way in both cases; only an approach gives an impulse.
      split at h
      case isTrue happroach =>
        cases h
        have hmin : min (relative.dot n).val 0 = (relative.dot n).val :=
          min_eq_left (hrelative.trans_lt (sub_neg.mpr happroach)).le
        let impulse : Exact :=
          -(1 + law.restitution) * relative.dot n / (p.body.invMass + q.body.invMass)
        refine ⟨-depth, impulse, hdist, ?_, ?_, hdepth, ?_⟩
        · rw [← hneg]
          exact Particle.eq_pushed rfl (congrArg (p.body.vel + p.body.invMass • ·) (bounce_eq ..))
        · refine Particle.eq_pushed rfl ?_
          exact (congrArg (q.body.vel - q.body.invMass • ·) (bounce_eq ..)).trans
            (Vec.sub_smul_neg ..)
        · rw [hmin]
          exact div_mul_cancel₀ _ hmass
      case isFalse happroach =>
        cases h
        have hmin : min (relative.dot n).val 0 = 0 :=
          min_eq_right (hrelative.trans_ge (sub_nonneg.mpr ((Exact.not_lt_iff _ _).mp happroach)))
        refine ⟨-depth, 0, hdist, ?_, ?_, hdepth, ?_⟩
        · rw [← hneg]
          exact Particle.eq_pushed rfl (Vec.ext_val (by simp) (by simp))
        · exact Particle.eq_pushed rfl (Vec.ext_val (by simp) (by simp))
        · rw [hmin, Exact.val_zero, zero_mul, mul_zero]

/-- The work of an impulse that takes the approach speed to its share. -/
theorem work_nonpos {e speed impulse invMass : ℝ} (he : 0 ≤ e) (he' : e ≤ 1) (hmass : 0 < invMass)
    (himpulse : impulse * invMass = -(1 + e) * min speed 0) :
    impulse * speed + invMass * impulse ^ 2 / 2 ≤ 0 := by
  have hwork : impulse * speed + invMass * impulse ^ 2 / 2 =
      impulse * (speed + impulse * invMass / 2) := by ring
  rw [hwork, himpulse]
  rcases le_total 0 speed with hspeed | hspeed
  · rw [min_eq_right hspeed, mul_zero, mul_eq_zero] at himpulse
    rw [himpulse.resolve_right hmass.ne', zero_mul]
  · rw [min_eq_left hspeed] at himpulse ⊢
    have hnonneg : 0 ≤ impulse := by
      refine nonneg_of_mul_nonneg_left ?_ hmass
      rw [himpulse, neg_mul, ← mul_neg]
      exact mul_nonneg (by linarith) (by linarith)
    refine mul_nonpos_of_nonneg_of_nonpos hnonneg ?_
    have hleft : speed * (1 - e) ≤ 0 := mul_nonpos_of_nonpos_of_nonneg hspeed (by linarith)
    linarith

namespace Rebound

variable (h : law.Rebound p q p' q' shift impulse)

include h

theorem sq_add_sq_normal : (contactNormal p q).x.val ^ 2 + (contactNormal p q).y.val ^ 2 = 1 :=
  Vec.sq_add_sq_div h.apart

/-! ### Velocities -/

theorem momentum (hp : p.body.HasMass) (hq : q.body.HasMass) :
    p'.body.momentum + q'.body.momentum = p.body.momentum + q.body.momentum := by
  rw [h.first, h.second, Particle.momentum_pushed hp, Particle.momentum_pushed hq]
  apply Vec.ext_val <;>
  · simp only [Vec.x_add, Vec.y_add, Vec.x_smul, Vec.y_smul, Exact.val_add, Exact.val_mul,
      Exact.val_neg]
    ring

/-- The relative velocity changes along the normal only. -/
theorem relative_vel : ∃ gain : Exact,
    q'.body.vel - p'.body.vel = q.body.vel - p.body.vel + gain • contactNormal p q ∧
      gain.val = -(1 + law.restitution.val) *
        min ((q.body.vel - p.body.vel).dot (contactNormal p q)).val 0 := by
  refine ⟨impulse * (p.body.invMass + q.body.invMass), ?_, h.impulse_eq⟩
  rw [h.first, h.second]
  apply Vec.ext_val <;>
  · simp only [Particle.pushed, Vec.x_add, Vec.y_add, Vec.x_sub, Vec.y_sub, Vec.x_smul, Vec.y_smul,
      Exact.val_add, Exact.val_sub, Exact.val_mul, Exact.val_neg]
    ring

theorem dot_relative_vel :
    ((q'.body.vel - p'.body.vel).dot (contactNormal p q)).val =
      ((q.body.vel - p.body.vel).dot (contactNormal p q)).val -
        (1 + law.restitution.val) *
          min ((q.body.vel - p.body.vel).dot (contactNormal p q)).val 0 := by
  obtain ⟨gain, hvel, hgain⟩ := h.relative_vel
  have hn := h.sq_add_sq_normal
  have hdot (v n : Vec Exact) (hn : n.x.val ^ 2 + n.y.val ^ 2 = 1) :
      ((v + gain • n).dot n).val = (v.dot n).val + gain.val := by
    simp only [Vec.val_dot, Vec.x_add, Vec.y_add, Vec.x_smul, Vec.y_smul, Exact.val_add,
      Exact.val_mul]
    linear_combination gain.val * hn
  rw [hvel, hdot _ _ hn, hgain, neg_mul, sub_eq_add_neg]

theorem tangential_vel :
    q'.body.vel - p'.body.vel - (q'.body.vel - p'.body.vel).projOnUnit (contactNormal p q) =
      q.body.vel - p.body.vel - (q.body.vel - p.body.vel).projOnUnit (contactNormal p q) := by
  obtain ⟨gain, hvel, -⟩ := h.relative_vel
  have hn := h.sq_add_sq_normal
  rw [hvel]
  apply Vec.ext_val
  · simp only [Vec.projOnUnit, Vec.val_dot, Vec.x_add, Vec.y_add, Vec.x_sub, Vec.x_smul, Vec.y_smul,
      Exact.val_add, Exact.val_sub, Exact.val_mul]
    linear_combination -(contactNormal p q).x.val * gain.val * hn
  · simp only [Vec.projOnUnit, Vec.val_dot, Vec.x_add, Vec.y_add, Vec.y_sub, Vec.x_smul, Vec.y_smul,
      Exact.val_add, Exact.val_sub, Exact.val_mul]
    linear_combination -(contactNormal p q).y.val * gain.val * hn

/-- The energy that restitution swallows is not negative. -/
theorem energy_le (hp : p.body.HasMass) (hq : q.body.HasMass) (hrest : 0 ≤ law.restitution)
    (hrest' : law.restitution ≤ 1) :
    p'.body.energy + q'.body.energy ≤ p.body.energy + q.body.energy := by
  have hn := h.sq_add_sq_normal
  have hmass : 0 < p.body.invMass.val + q.body.invMass.val := by
    rw [hp.invMass, hq.invMass]
    exact add_pos (one_div_pos.mpr hp.pos) (one_div_pos.mpr hq.pos)
  have hspeed : ((q.body.vel - p.body.vel).dot (contactNormal p q)).val =
      (q.body.vel.dot (contactNormal p q)).val - (p.body.vel.dot (contactNormal p q)).val := by
    simp only [Vec.val_dot, Vec.x_sub, Vec.y_sub, Exact.val_sub]
    ring
  have himpulse := h.impulse_eq
  rw [Exact.le_iff, Exact.val_zero] at hrest
  rw [Exact.le_iff, Exact.val_one] at hrest'
  rw [hspeed] at himpulse
  rw [h.first, h.second, Particle.energy_pushed hp hn, Particle.energy_pushed hq hn, Exact.val_neg]
  linarith [work_nonpos hrest hrest' hmass himpulse]

/-! ### Positions -/

theorem offset_eq : q'.body.pos - p'.body.pos =
    ((q.body.pos - p.body.pos).length + 2 * shift) • contactNormal p q := by
  have hoffset : q.body.pos - p.body.pos =
      (q.body.pos - p.body.pos).length • contactNormal p q := (Vec.smul_div h.apart).symm
  have hx := congrArg (fun v => v.x.val) hoffset
  have hy := congrArg (fun v => v.y.val) hoffset
  simp only [Vec.x_sub, Vec.y_sub, Vec.x_smul, Vec.y_smul, Exact.val_sub, Exact.val_mul] at hx hy
  rw [h.first, h.second]
  apply Vec.ext_val
  · simp only [Particle.pushed, Vec.x_add, Vec.x_sub, Vec.x_smul, Exact.val_add, Exact.val_sub,
      Exact.val_mul, Exact.val_neg, Exact.val_ofNat]
    linear_combination hx
  · simp only [Particle.pushed, Vec.y_add, Vec.y_sub, Vec.y_smul, Exact.val_add, Exact.val_sub,
      Exact.val_mul, Exact.val_neg, Exact.val_ofNat]
    linear_combination hy

theorem shift_nonneg : 0 ≤ shift.val := h.shift_eq ▸ le_max_right _ _

/-- The new distance exceeds the sum of the radii by as much as the old one fell short of it. -/
theorem length_offset :
    (q'.body.pos - p'.body.pos).length = (q.body.pos - p.body.pos).length + 2 * shift := by
  rw [h.offset_eq]
  refine Vec.length_smul h.sq_add_sq_normal ?_
  exact add_nonneg (Vec.length_nonneg _) (mul_nonneg zero_le_two h.shift_nonneg)

theorem reach_le_length : p.radius + q.radius ≤ (q'.body.pos - p'.body.pos).length := by
  rw [h.length_offset, Exact.le_iff, Exact.val_add, Exact.val_add, Exact.val_mul, Exact.val_ofNat]
  have hoverlap := h.shift_eq ▸ le_max_left
    (p.radius.val + q.radius.val - (q.body.pos - p.body.pos).length.val) 0
  linarith [h.shift_nonneg]

theorem contactNormal_eq : contactNormal p' q' = contactNormal p q := by
  rw [contactNormal, h.length_offset, h.offset_eq]
  refine Vec.div_smul (ne_of_gt ?_)
  exact add_pos_of_pos_of_nonneg ((Vec.length_nonneg _).lt_of_ne' h.apart)
    (mul_nonneg zero_le_two h.shift_nonneg)

end Rebound

/-- Particles are in contact if their centres are apart by no more than the sum of the radii. -/
theorem isSome_particles : (law.particles p q).isSome = true ↔
    (q.body.pos - p.body.pos).lengthSq ≤ (p.radius + q.radius) * (p.radius + q.radius) ∧
      (q.body.pos - p.body.pos).length.val ≠ 0 := by
  rw [← Exact.not_lt_iff]
  unfold particles
  dsimp only
  split
  case isTrue h => exact iff_of_false nofun fun hle => hle.1 h
  case isFalse h =>
    split
    case isTrue hzero => exact iff_of_false nofun fun hne => hne.2 ((Exact.beq_iff _ _).mp hzero)
    case isFalse hzero =>
      refine iff_of_true ?_ ⟨h, fun hz => hzero ((Exact.beq_iff _ _).mpr hz)⟩
      rw [(moved_out _ _ _).1, (moved_out _ _ _).2]
      split <;> rfl

/-- A contact of two particles conserves momentum and the relative velocity across the normal, turns
an approach along it into the given share of a departure and leaves a departure as it is. It takes
energy away, if it changes any, and moves both particles apart along the normal until they overlap
no longer. -/
theorem particles_rebound_apart (hrest : 0 ≤ law.restitution) (hrest' : law.restitution ≤ 1)
    (hp : p.body.HasMass) (hq : q.body.HasMass) (h : law.particles p q = some (p', q')) :
    let n := contactNormal p q
    let old := q.body.vel - p.body.vel
    let new := q'.body.vel - p'.body.vel
    n.lengthSq = 1 ∧
    p'.body.momentum + q'.body.momentum = p.body.momentum + q.body.momentum ∧
    (old.dot n < 0 → new.dot n = -law.restitution * old.dot n) ∧
    (¬ old.dot n < 0 → new.dot n = old.dot n) ∧
    new - new.projOnUnit n = old - old.projOnUnit n ∧
    p'.body.energy + q'.body.energy ≤ p.body.energy + q.body.energy ∧
    p.radius + q.radius ≤ (q'.body.pos - p'.body.pos).length ∧
    contactNormal p' q' = n ∧
    ∃ shift : Exact, 0 ≤ shift ∧
      p'.body.pos = p.body.pos + (-shift) • n ∧ q'.body.pos = q.body.pos + shift • n := by
  intro n old new
  obtain ⟨shift, impulse, h⟩ := rebound_of_particles hp hq h
  have hdot := h.dot_relative_vel
  refine ⟨?_, h.momentum hp hq, fun happroach => ?_, fun hdepart => ?_, h.tangential_vel,
    h.energy_le hp hq hrest hrest', h.reach_le_length, h.contactNormal_eq, shift, h.shift_nonneg,
    ?_, ?_⟩
  · exact Exact.ext ((Vec.val_lengthSq _).trans h.sq_add_sq_normal)
  · rw [min_eq_left (le_of_lt happroach)] at hdot
    apply Exact.ext
    rw [hdot, Exact.val_mul, Exact.val_neg]
    ring
  · rw [min_eq_right ((Exact.not_lt_iff _ _).mp hdepart), mul_zero, sub_zero] at hdot
    exact Exact.ext hdot
  · rw [h.first]
    rfl
  · rw [h.second]
    rfl

/-- A heavy particle runs into a light one at rest, off their line of centres. -/
theorem particles_rebound_apart_oblique :
    let law : ContactLaw Exact := ⟨0.5, 0⟩
    let p : Particle Exact := ⟨⟨⟨0, 0⟩, ⟨1, 0⟩, 2, 1 / 2⟩, 3, ⟨0, 0, 0, 0⟩⟩
    let q : Particle Exact := ⟨⟨⟨3, 4⟩, ⟨0, 0⟩, 1, 1 / 1⟩, 3, ⟨0, 0, 0, 0⟩⟩
    Body.create ⟨0, 0⟩ ⟨1, 0⟩ 2 = .ok p.body ∧ Body.create ⟨3, 4⟩ ⟨0, 0⟩ 1 = .ok q.body ∧
      p.body.HasMass ∧ q.body.HasMass ∧ ∃ p' q', law.particles p q = some (p', q') ∧
      (q'.body.vel - p'.body.vel).dot (contactNormal p q) = 0.3 ∧
      p'.body.energy + q'.body.energy ≤ 1 ∧
      6 ≤ (q'.body.pos - p'.body.pos).length := by
  intro law p q
  have hp : p.body.HasMass := ⟨by norm_num [p], rfl⟩
  have hq : q.body.HasMass := ⟨by norm_num [q], rfl⟩
  have hlength : (q.body.pos - p.body.pos).length.val = 5 := by
    rw [Vec.length, Exact.val_sqrt, Vec.val_lengthSq, Real.sqrt_eq_iff_mul_self_eq (by positivity)
      (by norm_num)]
    norm_num [p, q]
  have hcontact : (law.particles p q).isSome = true := by
    rw [isSome_particles, hlength]
    norm_num [p, q]
  have hold : ((q.body.vel - p.body.vel).dot (contactNormal p q)).val = -0.6 := by
    rw [Vec.val_dot, contactNormal, Vec.div, Exact.val_div, Exact.val_div, hlength]
    norm_num [p, q]
  obtain ⟨⟨p', q'⟩, hsome⟩ := Option.isSome_iff_exists.mp hcontact
  obtain ⟨-, -, happroach, -, -, henergy, hreach, -⟩ :=
    particles_rebound_apart (by norm_num [law]) (by norm_num [law]) hp hq hsome
  refine ⟨Body.create_eq_ok_iff.mpr ⟨rfl, hp⟩, Body.create_eq_ok_iff.mpr ⟨rfl, hq⟩, hp, hq, p', q',
    hsome, ?_, ?_, ?_⟩
  · rw [happroach (hold.trans_lt (by norm_num))]
    apply Exact.ext
    rw [Exact.val_mul, hold]
    norm_num [law]
  · refine henergy.trans ?_
    norm_num [p, q, Body.energy]
  · refine OrderedKeys.le_trans ?_ hreach
    norm_num [p, q]

end ContactLaw

end PlanarDynamics
