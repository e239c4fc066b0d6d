import PlanarDynamics.Proofs.Binary32.Opposite
import PlanarDynamics.Simulator.Step

/-!
# The order of two particles

A contact of two particles treats the first and the second by different operations: what one body
gains the other loses, along a normal that points from the first to the second. Taken the other way
round, every intermediate quantity is the same or the opposite one, in machine numbers up to the
sign of zeros, so that the two particles end in the same states.
-/

namespace PlanarDynamics

/-! ## Vectors -/

namespace Vec

/-- The same vector, up to the signs of zeros. -/
structure Alike (v w : Vec Float32) : Prop where
  x : Binary32.Alike v.x w.x
  y : Binary32.Alike v.y w.y

variable {v v' w w' : Vec Float32} {s s' : Float32}

namespace Alike

theorem refl (v : Vec Float32) : v.Alike v := ⟨.refl _, .refl _⟩

theorem symm (h : v.Alike w) : w.Alike v := ⟨h.x.symm, h.y.symm⟩

theorem smul (hs : Binary32.Alike s s') (hv : v.Alike w) : (s • v).Alike (s' • w) :=
  ⟨hv.x.mul hs, hv.y.mul hs⟩

theorem div (h : v.Alike w) (s : Float32) : (v.div s).Alike (w.div s) := ⟨h.x.div s, h.y.div s⟩

theorem dot (hv : v.Alike v') (hw : w.Alike w') : Binary32.Alike (v.dot w) (v'.dot w') :=
  (hv.x.mul hw.x).add (hv.y.mul hw.y)

theorem ite {P Q : Prop} [Decidable P] [Decidable Q] (h : P ↔ Q) (hv : v.Alike v')
    (hw : w.Alike w') : (if P then v else w).Alike (if Q then v' else w') := by
  by_cases hP : P
  · rwa [if_pos hP, if_pos (h.mp hP)]
  · rwa [if_neg hP, if_neg (h.not.mp hP)]

/-- Adding what is opposite to `w` is taking `w` away. -/
theorem add_opposite (h : w'.Alike (-w)) (v : Vec Float32) : (v + w').Alike (v - w) := by
  have hsub : v - w = v + -w := congrArg₂ Vec.mk (Binary32.sub_eq_add_opposite ..)
    (Binary32.sub_eq_add_opposite ..)
  rw [hsub]
  exact ⟨(Binary32.Alike.refl _).add h.x, (Binary32.Alike.refl _).add h.y⟩

end Alike

/-- What is opposite to `w` has `w` for its opposite. -/
theorem Alike.opposite (h : v.Alike (-w)) : w.Alike (-v) := by
  have hneg : (-w).x = -w.x ∧ (-w).y = -w.y := ⟨rfl, rfl⟩
  refine ⟨?_, ?_⟩
  · have hx := h.x.neg
    rw [hneg.1, Binary32.opposite_opposite] at hx
    exact hx.symm
  · have hy := h.y.neg
    rw [hneg.2, Binary32.opposite_opposite] at hy
    exact hy.symm

theorem alike_sub_swap (v w : Vec Float32) : (w - v).Alike (-(v - w)) :=
  ⟨Binary32.alike_sub_swap .., Binary32.alike_sub_swap ..⟩

theorem smul_opposite (s : Float32) (v : Vec Float32) : s • -v = -(s • v) :=
  congrArg₂ Vec.mk (Binary32.opposite_mul ..) (Binary32.opposite_mul ..)

theorem opposite_div (v : Vec Float32) (s : Float32) : (-v).div s = -v.div s :=
  congrArg₂ Vec.mk (Binary32.opposite_div ..) (Binary32.opposite_div ..)

theorem alike_dot_opposite (v w : Vec Float32) : Binary32.Alike (v.dot (-w)) (-v.dot w) := by
  have hdot : v.dot (-w) = -(v.x * w.x) + -(v.y * w.y) :=
    congrArg₂ (· + ·) (Binary32.mul_opposite ..) (Binary32.mul_opposite ..)
  rw [hdot]
  exact Binary32.alike_opposite_add_opposite ..

theorem opposite_dot_opposite (v w : Vec Float32) : (-v).dot (-w) = v.dot w := by
  have hmul (a b : Float32) : -a * -b = a * b := by
    rw [Binary32.opposite_mul, Binary32.mul_opposite, Binary32.opposite_opposite]
  exact congrArg₂ (· + ·) (hmul ..) (hmul ..)

/-- The projection onto an opposite direction of an opposite vector is the opposite one. -/
theorem Alike.projOnUnit_opposite (hv : v'.Alike (-v)) (hw : w'.Alike (-w)) :
    (v'.projOnUnit w').Alike (-v.projOnUnit w) := by
  have hdot := hv.dot hw
  rw [opposite_dot_opposite] at hdot
  have hproj := Alike.smul hdot hw
  rwa [smul_opposite] at hproj

end Vec

/-! ## Bodies -/

/-- The same body, up to the signs of zeros in its position and its velocity. -/
structure Body.Alike (a b : Body Float32) : Prop where
  pos : a.pos.Alike b.pos
  vel : a.vel.Alike b.vel
  mass : a.mass = b.mass
  invMass : a.invMass = b.invMass

theorem Body.Alike.refl (a : Body Float32) : a.Alike a := ⟨.refl _, .refl _, rfl, rfl⟩

theorem Body.Alike.symm {a b : Body Float32} (h : a.Alike b) : b.Alike a :=
  ⟨h.pos.symm, h.vel.symm, h.mass.symm, h.invMass.symm⟩

/-- The same particle, up to the signs of zeros in its position and its velocity. -/
structure Particle.Alike (p q : Particle Float32) : Prop where
  body : p.body.Alike q.body
  radius : p.radius = q.radius
  aabb : p.aabb = q.aabb

theorem Particle.Alike.refl (p : Particle Float32) : p.Alike p := ⟨.refl _, rfl, rfl⟩

namespace ContactLaw

section Bodies

variable {α : Type} [Scalar α]

/-- The impulse of two bodies on each other along the normal from the first to the second. -/
def impulse (c : ContactLaw α) (n : Vec α) (a b : Body α) : Vec α :=
  ((1 + c.restitution) • (b.vel - a.vel).projOnUnit n).div (a.invMass + b.invMass)

/-- What a contact makes of the first body. -/
def first (c : ContactLaw α) (n : Vec α) (depth : α) (a b : Body α) : Body α :=
  { a with
    pos := if depth < 0 then a.pos + depth • n else a.pos
    vel := if b.vel.dot n < a.vel.dot n then a.vel + a.invMass • c.impulse n a b else a.vel }

/-- What a contact makes of the second body. -/
def second (c : ContactLaw α) (n : Vec α) (depth : α) (a b : Body α) : Body α :=
  { b with
    pos := if depth < 0 then b.pos - depth • n else b.pos
    vel := if b.vel.dot n < a.vel.dot n then b.vel - b.invMass • c.impulse n a b else b.vel }

/-- The response of two particles by what becomes of either. -/
theorem particles_eq (c : ContactLaw α) (p q : Particle α) : c.particles p q =
    let offset := q.body.pos - p.body.pos
    let reach := p.radius + q.radius
    let dist := Scalar.sqrt offset.lengthSq
    if reach * reach < offset.lengthSq then none
    else if dist == 0 then none
    else some ({ p with body := c.first (offset.div dist) (dist - reach) p.body q.body },
      { q with body := c.second (offset.div dist) (dist - reach) p.body q.body }) := by
  unfold particles first second impulse
  dsimp only
  split_ifs <;> rfl

end Bodies

variable {c : ContactLaw Float32} {n n' : Vec Float32} {depth depth' : Float32}

theorem alike_impulse_swap (hn : n'.Alike (-n)) (a b : Body Float32) :
    (c.impulse n' b a).Alike (-c.impulse n a b) := by
  have hproj := (Vec.alike_sub_swap b.vel a.vel).projOnUnit_opposite hn
  have hscaled := (Vec.Alike.smul (.refl (1 + c.restitution)) hproj).div (b.invMass + a.invMass)
  rw [Vec.smul_opposite, Vec.opposite_div, Binary32.add_swap b.invMass] at hscaled
  rwa [impulse, Binary32.add_swap b.invMass]

theorem alike_dot_normal (hn : n'.Alike (-n)) (v : Vec Float32) :
    Binary32.Alike (v.dot n') (-v.dot n) :=
  ((Vec.Alike.refl v).dot hn).trans (Vec.alike_dot_opposite v n)

/-- The first body of a contact fares as the second one of the contact taken the other way round. -/
theorem alike_first_second (hn : n'.Alike (-n)) (hdepth : Binary32.Alike depth' depth)
    (a b : Body Float32) : (c.first n' depth' b a).Alike (c.second n depth a b) := by
  have hoverlap : depth' < 0 ↔ depth < 0 := hdepth.lt_iff (.refl 0)
  have happroach : a.vel.dot n' < b.vel.dot n' ↔ b.vel.dot n < a.vel.dot n := by
    rw [(alike_dot_normal hn a.vel).lt_iff (alike_dot_normal hn b.vel),
      Binary32.opposite_lt_opposite]
  have hshift := Vec.Alike.smul hdepth hn
  have hgain := Vec.Alike.smul (.refl b.invMass) (alike_impulse_swap (c := c) hn a b)
  rw [Vec.smul_opposite] at hshift hgain
  exact ⟨.ite hoverlap (hshift.add_opposite b.pos) (.refl _),
    .ite happroach (hgain.add_opposite b.vel) (.refl _), rfl, rfl⟩

theorem rel_ite_none {β : Type} {r : β → β → Prop} {P Q : Prop} [Decidable P] [Decidable Q]
    {o o' : Option β} (h : P ↔ Q) (hrel : ¬ P → Option.Rel r o o') :
    Option.Rel r (if P then none else o) (if Q then none else o') := by
  by_cases hP : P
  · rw [if_pos hP, if_pos (h.mp hP)]
    exact .none
  · rw [if_neg hP, if_neg (h.not.mp hP)]
    exact hrel hP

/-- A contact of two particles touches and ends in the same states whichever of them comes first. -/
theorem rel_particles_swap (c : ContactLaw Float32) (p q : Particle Float32) :
    Option.Rel (fun r r' => r.1.Alike r'.2 ∧ r.2.Alike r'.1) (c.particles p q)
      (c.particles q p) := by
  have hoffset := Vec.alike_sub_swap q.body.pos p.body.pos
  have hlength : Binary32.Alike (p.body.pos - q.body.pos).lengthSq
      (q.body.pos - p.body.pos).lengthSq := by
    have hdot := hoffset.dot hoffset
    rwa [Vec.opposite_dot_opposite] at hdot
  have hdist := hlength.sqrt
  rw [particles_eq, particles_eq, Binary32.add_swap q.radius]
  dsimp only
  refine rel_ite_none (Binary32.Alike.lt_iff (.refl _) hlength.symm) fun _ => ?_
  refine rel_ite_none (Bool.eq_iff_iff.mp (hdist.symm.beq_eq (.refl 0))) fun hapart => ?_
  -- The distance divides the offset, so that the sign of a zero would not be lost on it.
  have hdist_eq := hdist.eq_of_ne_zero hapart
  rw [hdist_eq]
  have hn := hoffset.div (Scalar.sqrt (q.body.pos - p.body.pos).lengthSq)
  rw [Vec.opposite_div] at hn
  exact .some ⟨⟨alike_first_second hn.opposite (.refl _) .., rfl, rfl⟩,
    ⟨(alike_first_second hn (.refl _) ..).symm, rfl, rfl⟩⟩

end ContactLaw

/-! ## Simulations -/

namespace Simulator

/-- The same simulation, but for the signs of zeros in positions and velocities of particles. -/
structure ParticlesAlike (s t : Simulator Float32) : Prop where
  particles (k : ℕ) : Option.Rel Particle.Alike s.particles[k]? t.particles[k]?
  others : t = { s with particles := t.particles }

theorem rel_map {β γ : Type} {r : β → β → Prop} {r' : γ → γ → Prop} {f g : β → γ}
    (hfg : ∀ a b, r a b → r' (f a) (g b)) {o o' : Option β} (h : Option.Rel r o o') :
    Option.Rel r' (o.map f) (o'.map g) := by
  cases h with
  | none => exact .none
  | some hab => exact .some (hfg _ _ hab)

variable {s : Simulator Float32} {i j : ℕ} {p q p' q' p'' q'' : Particle Float32}

theorem particlesAlike_setIfInBounds_swap (hij : i ≠ j) (hp : p'.Alike p'') (hq : q'.Alike q'') :
    ParticlesAlike { s with particles := (s.particles.setIfInBounds i p').setIfInBounds j q' }
      { s with particles := (s.particles.setIfInBounds j q'').setIfInBounds i p'' } := by
  refine ⟨fun k => ?_, rfl⟩
  simp only [Array.getElem?_setIfInBounds, Array.size_setIfInBounds]
  by_cases hi : i = k
  · have hj : j ≠ k := fun hj => hij (hi.trans hj.symm)
    rw [if_pos hi, if_neg hj, if_pos hi]
    split
    · exact .some hp
    · exact .none
  · rw [if_neg hi, if_neg hi]
    split
    · split
      · exact .some hq
      · exact .none
    · cases s.particles[k]? with
      | none => exact .none
      | some p => exact .some (.refl p)

theorem resolveParticles_eq {c : ContactLaw Float32} (hij : i ≠ j)
    (hp : s.particles[i]? = some p) (hq : s.particles[j]? = some q) :
    s.resolveParticles c i j = (c.particles p q).map fun r =>
      { s with particles := (s.particles.setIfInBounds i r.1).setIfInBounds j r.2 } := by
  simp only [resolveParticles, if_neg hij, hp, hq, Option.bind_eq_bind, Option.bind_some]
  cases c.particles p q <;> rfl

/-- Without two particles there is no contact. -/
theorem resolveParticles_eq_none {c : ContactLaw Float32}
    (h : i = j ∨ s.particles[i]? = none ∨ s.particles[j]? = none) :
    s.resolveParticles c i j = none := by
  unfold resolveParticles
  split
  case isTrue => rfl
  case isFalse hij =>
    rcases h with h | h | h
    · exact absurd h hij
    · rw [h]
      rfl
    · rw [h]
      cases s.particles[i]? <;> rfl

/-- In machine numbers, and up to the signs of zeros, a contact of two particles does not depend on
which of them comes first: both orders find a contact or neither, and they leave both particles, and
with them the simulation, in the same state. -/
theorem particles_contact_in_either_order (c : ContactLaw Float32) :
    (∀ p q : Particle Float32, Option.Rel (fun r r' => r.1.Alike r'.2 ∧ r.2.Alike r'.1)
      (c.particles p q) (c.particles q p)) ∧
    ∀ (s : Simulator Float32) (i j : ℕ), Option.Rel ParticlesAlike
      (s.resolve c (.particle i) (.particle j)) (s.resolve c (.particle j) (.particle i)) := by
  refine ⟨c.rel_particles_swap, fun s i j => ?_⟩
  show Option.Rel ParticlesAlike (s.resolveParticles c i j) (s.resolveParticles c j i)
  by_cases hij : i = j
  · rw [resolveParticles_eq_none (.inl hij), resolveParticles_eq_none (.inl hij.symm)]
    exact .none
  · cases hp : s.particles[i]? with
    | none =>
      rw [resolveParticles_eq_none (.inr (.inl hp)), resolveParticles_eq_none (.inr (.inr hp))]
      exact .none
    | some p =>
      cases hq : s.particles[j]? with
      | none =>
        rw [resolveParticles_eq_none (.inr (.inr hq)), resolveParticles_eq_none (.inr (.inl hq))]
        exact .none
      | some q =>
        rw [resolveParticles_eq hij hp hq, resolveParticles_eq (Ne.symm hij) hq hp]
        exact rel_map (fun _ _ h => particlesAlike_setIfInBounds_swap hij h.1 h.2)
          (c.rel_particles_swap p q)

end Simulator

end PlanarDynamics
