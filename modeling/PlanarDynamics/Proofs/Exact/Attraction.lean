import Mathlib.Data.Finset.Prod
import PlanarDynamics.Proofs.Exact.ParticleContact
import PlanarDynamics.Proofs.Simulator.Refreshed

/-!
# Attraction in exact arithmetic

Attraction visits every pair of shapes once. An impulse at the position of a shape has no arm, so
that a visit changes two velocities and nothing that a later visit reads: each visit adds its own
share, and the order of the visits does not matter. What a body gains in the end is the sum of the
accelerations towards all others, and the gains in momentum cancel in pairs.
-/

namespace PlanarDynamics

namespace Attraction

/-! ## Visits of pairs -/

section Visits

variable {α : Type} [Scalar α]

/-- Lets the shapes at two positions attract each other. -/
def visit (g dt : α) (shapes : List (Mover α)) (pair : ℕ × ℕ) : List (Mover α) :=
  match shapes[pair.1]?, shapes[pair.2]? with
  | some a, some b =>
    let pulled := attract g dt a b
    (shapes.set pair.1 pulled.1).set pair.2 pulled.2
  | _, _ => shapes

/-- Visits pairs one after another. -/
def visitAll (g dt : α) (pairs : List (ℕ × ℕ)) (shapes : List (Mover α)) : List (Mover α) :=
  pairs.foldl (visit g dt) shapes

/-- Every two of `n` positions stand in one of the pairs, and in one only. -/
def VisitsOnce (n : ℕ) (pairs : List (ℕ × ℕ)) : Prop :=
  Multiset.ofList (pairs ++ pairs.map Prod.swap) = (Finset.range n).offDiag.val

/-- The pairs of `n` positions from `i` on, row by row. -/
def rows (i : ℕ) : ℕ → List (ℕ × ℕ)
  | 0 => []
  | n + 1 => (List.range' (i + 1) n).map (Prod.mk i) ++ rows (i + 1) n

theorem mem_rows {i n : ℕ} {p : ℕ × ℕ} : p ∈ rows i n ↔ i ≤ p.1 ∧ p.1 < p.2 ∧ p.2 < i + n := by
  induction n generalizing i with
  | zero => exact iff_of_false List.not_mem_nil (by omega)
  | succ n ih =>
    obtain ⟨a, b⟩ := p
    simp only [rows, List.mem_append, List.mem_map, List.mem_range'_1, Prod.mk.injEq, ih]
    grind

theorem nodup_rows (i n : ℕ) : (rows i n).Nodup := by
  induction n generalizing i with
  | zero => exact .nil
  | succ n ih =>
    refine ((List.nodup_range' ..).map (Prod.mk_right_injective i)).append (ih (i + 1)) ?_
    intro p hp hp'
    have hlt := (mem_rows.mp hp').1
    simp only [List.mem_map] at hp
    grind

theorem visitsOnce_rows (n : ℕ) : VisitsOnce n (rows 0 n) := by
  have hswap : ((rows 0 n).map Prod.swap).Nodup := (nodup_rows 0 n).map Prod.swap_injective
  have hmem (p : ℕ × ℕ) : p ∈ (rows 0 n).map Prod.swap ↔ p.swap ∈ rows 0 n :=
    List.mem_map_of_involutive Prod.swap_swap
  have hdisjoint : (rows 0 n).Disjoint ((rows 0 n).map Prod.swap) := by
    intro p hp hp'
    rw [hmem, mem_rows] at hp'
    exact (mem_rows.mp hp).2.1.asymm hp'.2.1
  refine (Multiset.Nodup.ext ?_ (Finset.nodup _)).mpr fun p => ?_
  · exact Multiset.coe_nodup.mpr ((nodup_rows 0 n).append hswap hdisjoint)
  · rw [Multiset.mem_coe, List.mem_append, hmem, mem_rows, mem_rows, Finset.mem_val,
      Finset.mem_offDiag, Finset.mem_range, Finset.mem_range, Prod.fst_swap, Prod.snd_swap]
    omega

/-- One shape with each of those that follow it is a row of visits. -/
theorem visitAll_row (g dt : α) (before : List (Mover α)) (a : Mover α)
    (visited others : List (Mover α)) :
    visitAll g dt ((List.range' (before.length + 1 + visited.length) others.length).map
        (Prod.mk before.length)) (before ++ a :: (visited ++ others)) =
      before ++ (attractEach g dt a others).1 :: (visited ++ (attractEach g dt a others).2) := by
  induction others generalizing a visited with
  | nil => rfl
  | cons b others ih =>
    have hvisit : visit g dt (before ++ a :: (visited ++ b :: others))
        (before.length, before.length + 1 + visited.length) =
        before ++ (attract g dt a b).1 :: (visited ++ [(attract g dt a b).2] ++ others) := by
      simp [visit, Nat.add_assoc, Nat.add_comm 1]
    have hrow := ih (attract g dt a b).1 (visited ++ [(attract g dt a b).2])
    rw [List.length_append, List.length_singleton, ← Nat.add_assoc] at hrow
    rw [List.length_cons, List.range'_succ, List.map_cons, visitAll, List.foldl_cons, hvisit]
    refine hrow.trans ?_
    simp only [attractEach, List.append_assoc, List.singleton_append]

/-- Attraction visits every pair once, row by row. -/
theorem visitAll_rows (g dt : α) (before shapes : List (Mover α)) :
    visitAll g dt (rows before.length shapes.length) (before ++ shapes) =
      before ++ attractAll g dt shapes := by
  fun_induction attractAll g dt shapes generalizing before with
  | case1 => rfl
  | case2 a rest result ih =>
    have hrow := visitAll_row g dt before a [] rest
    have hrows := ih (before ++ [result.1])
    rw [List.length_append, List.length_singleton, length_attractEach] at hrows
    rw [List.length_cons, rows, visitAll, List.foldl_append]
    refine (congrArg (visitAll g dt _) hrow).trans ?_
    rw [List.append_assoc] at hrows
    exact hrows.trans (List.append_assoc ..)

end Visits

end Attraction

theorem Exact.minPositive_pos : 0 < (Scalar.minPositive : Exact).val :=
  inv_pos.mpr (Nat.cast_pos.mpr (Nat.two_pow_pos 126))

namespace Vec

/-- The two components, to be added up over many bodies. -/
def coords (v : Vec Exact) : ℝ × ℝ := (v.x.val, v.y.val)

variable (v w : Vec Exact) (c : Exact)

@[simp] theorem coords_add : (v + w).coords = v.coords + w.coords := rfl
@[simp] theorem coords_sub : (v - w).coords = v.coords - w.coords := rfl
@[simp] theorem coords_neg : (-v).coords = -v.coords := rfl

@[simp] theorem coords_smul : (c • v).coords = c.val • v.coords :=
  Prod.ext (mul_comm ..) (mul_comm ..)

theorem coords_div : (v.div c).coords = c.val⁻¹ • v.coords :=
  Prod.ext (div_eq_inv_mul ..) (div_eq_inv_mul ..)

theorem coords_injective : Function.Injective coords := by
  intro v w h
  exact ext_val (congrArg Prod.fst h) (congrArg Prod.snd h)

/-- The distance of two points is almost zero, so that they have no direction. -/
def Coincides (p q : Vec Exact) : Prop := (q - p).length < Scalar.minPositive

noncomputable instance (p q : Vec Exact) : Decidable (p.Coincides q) :=
  Scalar.decidableLT (q - p).length Scalar.minPositive

theorem length_eq_of_sq {v : Vec Exact} {r : ℝ} (hr : 0 ≤ r)
    (h : v.x.val ^ 2 + v.y.val ^ 2 = r ^ 2) : v.length.val = r := by
  rw [length, Exact.val_sqrt, val_lengthSq, h, Real.sqrt_sq hr]

theorem length_sub_comm (p q : Vec Exact) : (p - q).length = (q - p).length := by
  have hsq : (p - q).lengthSq = (q - p).lengthSq :=
    Exact.ext (by simp only [val_lengthSq, x_sub, y_sub, Exact.val_sub]; ring)
  rw [length, hsq, length]

theorem coincides_self (p : Vec Exact) : p.Coincides p := by
  have hzero : (p - p).length.val = 0 := by simp [length]
  exact hzero.trans_lt Exact.minPositive_pos

theorem coincides_comm {p q : Vec Exact} : p.Coincides q ↔ q.Coincides p := by
  rw [Coincides, length_sub_comm, Coincides]

theorem not_coincides {p q : Vec Exact} (h : 1 ≤ (q - p).length.val) : ¬ p.Coincides q :=
  not_lt.mpr (le_trans (inv_le_one_of_one_le₀ (by norm_num)) h)

/-- Apart from what coincides, every vector has its length and its direction. -/
theorem magnitudeAndDirection_eq (p q : Vec Exact) :
    (q - p).magnitudeAndDirection =
      if p.Coincides q then (0, 0) else ((q - p).length, (q - p).div (q - p).length) := by
  have hzero : Scalar.almostEqual (q - p).length 0 = true ↔ p.Coincides q := by
    rw [Exact.almostEqual_zero_iff, abs_of_nonneg (length_nonneg _)]
    rfl
  simp only [magnitudeAndDirection, hzero]

end Vec

/-! ## Shares of a visit -/

namespace Body

/-- The body with more velocity. -/
def accelerated (b : Body Exact) (gain : ℝ × ℝ) : Body Exact :=
  { b with vel := ⟨⟨b.vel.x.val + gain.1⟩, ⟨b.vel.y.val + gain.2⟩⟩ }

/-- The acceleration of a body towards another by the inverse square of their distance, none where
the two coincide. -/
noncomputable def gravity (g : Exact) (a b : Body Exact) : ℝ × ℝ :=
  if a.pos.Coincides b.pos then 0 else
    (g.val * b.mass.val / (b.pos - a.pos).length.val ^ 3) • (b.pos - a.pos).coords

theorem gravity_self (g : Exact) (a : Body Exact) : a.gravity g a = 0 := if_pos a.pos.coincides_self

theorem hasMass_iff {b : Body Exact} :
    b.HasMass ↔ 0 < b.mass.val ∧ b.invMass.val = 1 / b.mass.val :=
  ⟨fun h => ⟨h.pos, h.invMass⟩, fun h => ⟨h.1, h.2⟩⟩

theorem momentum_accelerated (b : Body Exact) (gain : ℝ × ℝ) :
    (b.accelerated gain).momentum.coords = b.momentum.coords + b.mass.val • gain := by
  rw [momentum, momentum, Vec.coords_smul, Vec.coords_smul, ← smul_add]
  rfl

theorem gravity_accelerated (g : Exact) (a b : Body Exact) (v w : ℝ × ℝ) :
    (a.accelerated v).gravity g (b.accelerated w) = a.gravity g b := rfl

/-- The forces of two bodies on each other are opposite. -/
theorem mass_smul_gravity (g : Exact) (a b : Body Exact) :
    a.mass.val • a.gravity g b = -(b.mass.val • b.gravity g a) := by
  have hcomm := Vec.coincides_comm (p := a.pos) (q := b.pos)
  unfold gravity
  by_cases h : a.pos.Coincides b.pos
  · rw [if_pos h, if_pos (hcomm.mp h), smul_zero, smul_zero, neg_zero]
  · rw [if_neg h, if_neg (mt hcomm.mpr h), Vec.length_sub_comm a.pos b.pos, Vec.coords_sub,
      Vec.coords_sub, smul_smul, smul_smul]
    module

theorem sum_gravity (g : Exact) (a : Body Exact) {n : ℕ} (bodies : Fin n → Body Exact)
    (others : Finset (Fin n)) : ∑ j ∈ others, a.gravity g (bodies j) =
      ∑ j ∈ others with ¬ a.pos.Coincides (bodies j).pos,
        (g.val * (bodies j).mass.val / ((bodies j).pos - a.pos).length.val ^ 3) •
          ((bodies j).pos - a.pos).coords := by
  rw [Finset.sum_filter]
  simp only [ite_not]
  rfl

/-- The forces of any bodies on each other cancel. -/
theorem sum_mass_smul_gravity (g : Exact) {n : ℕ} (bodies : Fin n → Body Exact) :
    ∑ i, (bodies i).mass.val • ∑ j with j.val ≠ i.val, (bodies i).gravity g (bodies j) = 0 := by
  simp only [Finset.smul_sum, Finset.sum_filter, ne_eq, Fin.val_inj]
  rw [← self_eq_neg, ← Finset.sum_neg_distrib]
  refine Finset.sum_comm.trans (Finset.sum_congr rfl fun i _ => ?_)
  rw [← Finset.sum_neg_distrib]
  refine Finset.sum_congr rfl fun j _ => ?_
  by_cases h : i = j
  · simp [h]
  · rw [if_pos h, if_pos (Ne.symm h), mass_smul_gravity]

end Body

namespace Mover

/-- The shape with more velocity. Nothing else about it differs. -/
def accelerated (gain : ℝ × ℝ) : Mover Exact → Mover Exact
  | particle p => particle { p with body := p.body.accelerated gain }
  | ball b => ball { b with body := b.body.accelerated gain }
  | box b => box { b with body := b.body.accelerated gain }

variable (m : Mover Exact) (gain more : ℝ × ℝ)

@[simp] theorem body_accelerated : (m.accelerated gain).body = m.body.accelerated gain := by
  cases m <;> rfl

theorem accelerated_zero : m.accelerated 0 = m := by
  have hbody (b : Body Exact) : b.accelerated 0 = b := by simp [Body.accelerated]
  cases m <;> simp only [accelerated, hbody]

theorem accelerated_accelerated :
    (m.accelerated gain).accelerated more = m.accelerated (gain + more) := by
  have hbody (b : Body Exact) :
      (b.accelerated gain).accelerated more = b.accelerated (gain + more) := by
    simp only [Body.accelerated, Prod.fst_add, Prod.snd_add, add_assoc]
  cases m <;> simp only [accelerated, hbody]

/-- An impulse at the position of a shape turns nothing. -/
theorem applyImpulse_center {m : Mover Exact} {impulse : Vec Exact} {gain : ℝ × ℝ}
    (hm : m.body.HasMass) (himpulse : impulse.coords = m.body.mass.val • gain) :
    m.applyImpulse impulse m.body.pos = m.accelerated gain := by
  have hgain : m.body.invMass.val • impulse.coords = gain := by
    rw [himpulse, hm.invMass, smul_smul, one_div_mul_cancel hm.pos.ne', one_smul]
  have hpush (b : Body Exact) : b.push impulse = b.accelerated (b.invMass.val • impulse.coords) :=
    congrArg (Body.mk b.pos · b.mass b.invMass) (Vec.coords_injective (by
      rw [Vec.coords_add, Vec.coords_smul]; rfl))
  have htwist (spin : Spin Exact) (pos : Vec Exact) : spin.twist (pos - pos) impulse = spin := by
    have hzero : spin.angVel + (pos - pos).perpDot impulse * spin.invInertia = spin.angVel :=
      Exact.ext (by simp [Vec.perpDot])
    rw [Spin.twist, hzero]
  rw [← hgain]
  cases m <;> simp only [applyImpulse, Particle.applyImpulse, Ball.applyImpulse, Box.applyImpulse,
    body, accelerated, hpush, htwist]

end Mover

namespace Attraction

variable {g dt : Exact} {a b : Mover Exact} {shapes : List (Mover Exact)}

/-- Two shapes accelerate each other, whatever their velocities are. -/
theorem attract_eq (ha : a.body.HasMass) (hb : b.body.HasMass) : attract g dt a b =
    (a.accelerated (dt.val • a.body.gravity g b.body),
      b.accelerated (dt.val • b.body.gravity g a.body)) := by
  unfold attract
  rw [Vec.magnitudeAndDirection_eq]
  by_cases h : a.body.pos.Coincides b.body.pos
  · have hzero : ((0 : Exact) == 0) = true := (Exact.beq_iff 0 0).mpr rfl
    simp only [if_pos h, Body.gravity, if_pos (Vec.coincides_comm.mp h), hzero, if_true, smul_zero,
      Mover.accelerated_zero]
  · have hdist : (b.body.pos - a.body.pos).length.val ≠ 0 := fun hzero =>
      h (hzero.trans_lt Exact.minPositive_pos)
    have himpulse : (dt • (g * a.body.mass * b.body.mass / ((b.body.pos - a.body.pos).length *
        (b.body.pos - a.body.pos).length)) • (b.body.pos - a.body.pos).div
          (b.body.pos - a.body.pos).length).coords =
        a.body.mass.val • dt.val • a.body.gravity g b.body := by
      simp only [Vec.coords_smul, Vec.coords_div, Body.gravity, if_neg h, smul_smul, Exact.val_div,
        Exact.val_mul]
      congr 1
      field_simp
    simp only [if_neg h, Exact.beq_iff, Exact.val_zero, hdist, if_false]
    congr 1
    · exact Mover.applyImpulse_center ha himpulse
    · apply Mover.applyImpulse_center hb
      rw [Vec.coords_neg, himpulse, smul_comm, Body.mass_smul_gravity, smul_neg, neg_neg, smul_comm]

/-- The acceleration of a body towards the shape at a position, if there is one. -/
noncomputable def gravityTo (g : Exact) (shapes : List (Mover Exact)) (a : Body Exact) (i : ℕ) :
    ℝ × ℝ :=
  (shapes[i]?.map fun m => a.gravity g m.body).getD 0

/-- What the visit of a pair contributes to the acceleration of the body at position `i`. -/
noncomputable def share (g : Exact) (shapes : List (Mover Exact)) (i : ℕ) (a : Body Exact)
    (pair : ℕ × ℕ) : ℝ × ℝ :=
  (if pair.1 = i then gravityTo g shapes a pair.2 else 0) +
    if pair.2 = i then gravityTo g shapes a pair.1 else 0

/-- A visit adds its share to each velocity. -/
theorem visit_eq (hmass : ∀ m ∈ shapes, m.body.HasMass) (pair : ℕ × ℕ) :
    visit g dt shapes pair =
      shapes.mapIdx fun i a => a.accelerated (dt.val • share g shapes i a.body pair) := by
  apply List.ext_getElem?
  intro k
  rw [List.getElem?_mapIdx]
  unfold visit
  split
  case h_1 a b ha hb =>
    rw [attract_eq (hmass a (List.mem_of_getElem? ha)) (hmass b (List.mem_of_getElem? hb))]
    have hfirst := (List.getElem?_eq_some_iff.mp ha).1
    have hsecond := (List.getElem?_eq_some_iff.mp hb).1
    simp only [List.getElem?_set, List.length_set, share, gravityTo, ha, hb, hfirst, hsecond]
    by_cases hi : pair.1 = k <;> by_cases hj : pair.2 = k
    · -- Both are the same shape, which is no distance away from itself.
      rw [hi] at ha
      obtain rfl : a = b := Option.some.inj (by rw [← ha, ← hb, hj])
      simp [hi, hj, ha, Body.gravity_self, Mover.accelerated_zero]
    · rw [hi] at ha
      simp [hi, hj, ha]
    · rw [hj] at hb
      simp [hi, hj, hb]
    · simp [hi, hj, Mover.accelerated_zero]
  case h_2 hnone =>
    cases hk : shapes[k]? with
    | none => rfl
    | some a =>
      have hnothing {i : ℕ} (h : ∀ b, shapes[i]? ≠ some b) : gravityTo g shapes a.body i = 0 := by
        rw [gravityTo, Option.eq_none_iff_forall_ne_some.mpr h]
        rfl
      have hzero : share g shapes k a.body pair = 0 := by
        have hfirst : (if pair.1 = k then gravityTo g shapes a.body pair.2 else 0) = 0 :=
          ite_eq_right_iff.mpr fun hi => hnothing fun b hb => hnone a b (hi ▸ hk) hb
        have hsecond : (if pair.2 = k then gravityTo g shapes a.body pair.1 else 0) = 0 :=
          ite_eq_right_iff.mpr fun hj => hnothing fun b hb => hnone b a hb (hj ▸ hk)
        rw [share, hfirst, hsecond, add_zero]
      rw [Option.map_some, hzero, smul_zero, Mover.accelerated_zero]

/-- What a visit contributes does not depend on velocities. -/
theorem share_mapIdx_accelerated (gain : ℕ → Mover Exact → ℝ × ℝ) (i : ℕ) (a : Body Exact)
    (dv : ℝ × ℝ) : share g (shapes.mapIdx fun i a => a.accelerated (gain i a)) i
      (a.accelerated dv) = share g shapes i a := by
  have hgravity (j : ℕ) : gravityTo g (shapes.mapIdx fun i a => a.accelerated (gain i a))
      (a.accelerated dv) j = gravityTo g shapes a j := by
    simp only [gravityTo, List.getElem?_mapIdx, Option.map_map, Function.comp_def,
      Mover.body_accelerated, Body.gravity_accelerated]
  funext pair
  simp only [share, hgravity]

/-- Visits add up. -/
theorem visitAll_eq (hmass : ∀ m ∈ shapes, m.body.HasMass) (pairs : List (ℕ × ℕ)) :
    visitAll g dt pairs shapes = shapes.mapIdx fun i a =>
      a.accelerated (dt.val • (pairs.map (share g shapes i a.body)).sum) := by
  induction pairs generalizing shapes with
  | nil => simp [visitAll, Mover.accelerated_zero, List.mapIdx_eq_zipIdx_map]
  | cons pair pairs ih =>
    have hmass' : ∀ m ∈ visit g dt shapes pair, m.body.HasMass := by
      intro m hm
      rw [visit_eq hmass, List.mem_mapIdx] at hm
      obtain ⟨i, hi, rfl⟩ := hm
      have hmass := hmass _ (List.getElem_mem hi)
      rw [Mover.body_accelerated]
      exact ⟨hmass.pos, hmass.invMass⟩
    refine (ih hmass').trans ?_
    rw [visit_eq hmass, List.mapIdx_mapIdx]
    simp only [Function.comp_def, Mover.body_accelerated, share_mapIdx_accelerated,
      Mover.accelerated_accelerated, ← smul_add, List.map_cons, List.sum_cons]

/-- Visits of every pair contribute the accelerations towards all other positions. -/
theorem sum_share {pairs : List (ℕ × ℕ)} (h : VisitsOnce shapes.length pairs) {i : ℕ}
    (hi : i < shapes.length) (a : Body Exact) : (pairs.map (share g shapes i a)).sum =
      ∑ j : Fin shapes.length with j.val ≠ i, a.gravity g shapes[j].body := by
  calc (pairs.map (share g shapes i a)).sum
      = ((pairs ++ pairs.map Prod.swap).map
          fun q => if q.1 = i then gravityTo g shapes a q.2 else 0).sum := by
        rw [List.map_append, List.sum_append, List.map_map, ← List.sum_map_add]
        rfl
    _ = ∑ q ∈ (Finset.range shapes.length).offDiag,
          if q.1 = i then gravityTo g shapes a q.2 else 0 := by
        rw [Finset.sum, ← h, Multiset.map_coe, Multiset.sum_coe]
    _ = ∑ j ∈ Finset.range shapes.length with j ≠ i, gravityTo g shapes a j := by
        rw [← Finset.sum_filter]
        refine Finset.sum_nbij' Prod.snd (Prod.mk i) ?_ ?_ ?_ ?_ ?_ <;> grind
    _ = ∑ j : Fin shapes.length with j.val ≠ i, a.gravity g shapes[j].body := by
        rw [Finset.sum_filter, Finset.sum_filter, Finset.sum_range]
        simp [gravityTo]

/-- Visits of every pair accelerate each shape towards all others, in any order. -/
theorem visitAll_of_visitsOnce {pairs : List (ℕ × ℕ)} (hmass : ∀ m ∈ shapes, m.body.HasMass)
    (h : VisitsOnce shapes.length pairs) :
    visitAll g dt pairs shapes = shapes.mapIdx fun i a => a.accelerated (dt.val •
      ∑ j : Fin shapes.length with j.val ≠ i, a.body.gravity g shapes[j].body) := by
  rw [visitAll_eq hmass, List.mapIdx_eq_mapIdx_iff]
  intro i hi
  rw [sum_share h hi]

theorem attractAll_eq (hmass : ∀ m ∈ shapes, m.body.HasMass) :
    attractAll g dt shapes = shapes.mapIdx fun i a => a.accelerated (dt.val •
      ∑ j : Fin shapes.length with j.val ≠ i, a.body.gravity g shapes[j].body) :=
  (visitAll_rows g dt [] shapes).symm.trans
    (visitAll_of_visitsOnce hmass (visitsOnce_rows shapes.length))

end Attraction

namespace Simulator

variable {s : Simulator Exact}

/-- The momentum of all shapes that move. -/
noncomputable def totalMomentum (s : Simulator Exact) : ℝ × ℝ :=
  (s.movers.map fun m => m.body.momentum.coords).sum

theorem withMovers_movers (s t : Simulator Exact) : s.withMovers t.movers =
    { s with particles := t.particles, balls := t.balls, boxes := t.boxes } := by
  obtain ⟨hparticles, hballs, hboxes⟩ := t.filterMap_movers
  rw [withMovers, hparticles, hballs, hboxes]

/-- Shapes with other velocities are the shapes of a state again. -/
theorem exists_movers_eq (s : Simulator Exact) (gain : ℕ → Mover Exact → ℝ × ℝ) :
    ∃ t : Simulator Exact, t.movers = s.movers.mapIdx fun i a => a.accelerated (gain i a) := by
  have hkind {σ : Type} (wrap : σ → Mover Exact) (put : ℝ × ℝ → σ → σ)
      (h : ∀ v x, (wrap x).accelerated v = wrap (put v x)) (first : ℕ) (xs : Array σ) :
      ∃ ys : List σ, (xs.toList.map wrap).mapIdx (fun i a => a.accelerated (gain (i + first) a)) =
        ys.map wrap := by
    refine ⟨xs.toList.mapIdx fun i x => put (gain (i + first) (wrap x)) x, ?_⟩
    apply List.ext_getElem?
    intro i
    simp only [List.getElem?_mapIdx, List.getElem?_map, Option.map_map, Function.comp_def, h]
  rw [movers, List.mapIdx_append, List.mapIdx_append]
  obtain ⟨particles, hparticles⟩ :=
    hkind .particle (fun v p => { p with body := p.body.accelerated v }) (fun _ _ => rfl) 0 _
  obtain ⟨balls, hballs⟩ :=
    hkind .ball (fun v b => { b with body := b.body.accelerated v }) (fun _ _ => rfl) _ _
  obtain ⟨boxes, hboxes⟩ :=
    hkind .box (fun v b => { b with body := b.body.accelerated v }) (fun _ _ => rfl) _ _
  refine ⟨{ s with
    particles := particles.toArray, balls := balls.toArray, boxes := boxes.toArray }, ?_⟩
  exact (congrArg₂ (· ++ ·) (congrArg₂ (· ++ ·) hparticles hballs) hboxes).symm

theorem totalMomentum_of_movers {t : Simulator Exact} {gain : ℕ → Mover Exact → ℝ × ℝ}
    (h : t.movers = s.movers.mapIdx fun i a => a.accelerated (gain i a)) :
    t.totalMomentum = s.totalMomentum +
      ∑ i : Fin s.movers.length, s.movers[i].body.mass.val • gain i s.movers[i] := by
  rw [totalMomentum, totalMomentum, h, List.mapIdx_eq_ofFn, List.map_ofFn, List.sum_ofFn,
    ← Fin.sum_univ_fun_getElem, ← Finset.sum_add_distrib]
  refine Finset.sum_congr rfl fun i _ => ?_
  rw [Function.comp_apply, Mover.body_accelerated, Body.momentum_accelerated]
  rfl

/-- Attraction gives velocity to the shapes that move, and changes nothing else. -/
theorem attractAll_eq (dt : Exact) (hg : 0 < s.config.attraction.val)
    (hmass : ∀ m ∈ s.movers, m.body.HasMass) :
    (s.attractAll dt).movers = Attraction.attractAll s.config.attraction dt s.movers ∧
      s.attractAll dt = { s with
        particles := (s.attractAll dt).particles
        balls := (s.attractAll dt).balls
        boxes := (s.attractAll dt).boxes } := by
  have hattract : s.attractAll dt =
      s.withMovers (Attraction.attractAll s.config.attraction dt s.movers) := if_pos hg
  obtain ⟨t, ht⟩ := s.exists_movers_eq fun i a => dt.val •
    ∑ j : Fin s.movers.length with j.val ≠ i,
      a.body.gravity s.config.attraction s.movers[j].body
  rw [← Attraction.attractAll_eq hmass] at ht
  rw [hattract, ← ht, withMovers_movers]
  exact ⟨rfl, rfl⟩

/-- Attraction accelerates every shape by the inverse-square law towards all others that it does not
coincide with, for the time `dt`, and changes nothing else: no position, no angle and no spin. The
order of the visits does not matter, and the total momentum stays. -/
theorem attraction_is_mutual_gravity (dt : Exact) (hg : 0 < s.config.attraction.val)
    (hmass : ∀ m ∈ s.movers, m.body.HasMass) :
    let t := s.attractAll dt
    t = { s with particles := t.particles, balls := t.balls, boxes := t.boxes } ∧
    t.movers = s.movers.mapIdx (fun i a => a.accelerated (dt.val •
      ∑ j : Fin s.movers.length with j.val ≠ i ∧ ¬ a.body.pos.Coincides s.movers[j].body.pos,
        (s.config.attraction.val * s.movers[j].body.mass.val /
            (s.movers[j].body.pos - a.body.pos).length.val ^ 3) •
          (s.movers[j].body.pos - a.body.pos).coords)) ∧
    (∀ pairs, Attraction.VisitsOnce s.movers.length pairs →
      t.movers = Attraction.visitAll s.config.attraction dt pairs s.movers) ∧
    t.totalMomentum = s.totalMomentum := by
  intro t
  obtain ⟨hmovers, hrest⟩ := attractAll_eq dt hg hmass
  rw [Attraction.attractAll_eq hmass] at hmovers
  refine ⟨hrest, ?_, fun pairs hpairs => ?_, ?_⟩
  · refine hmovers.trans ?_
    simp only [Body.sum_gravity, Finset.filter_filter]
  · exact hmovers.trans (Attraction.visitAll_of_visitsOnce hmass hpairs).symm
  · have hforces := Body.sum_mass_smul_gravity s.config.attraction
      fun i : Fin s.movers.length => s.movers[i].body
    rw [totalMomentum_of_movers hmovers]
    simp only [smul_comm _ dt.val, ← Finset.smul_sum, hforces, smul_zero, add_zero]

/-- Two particles at one point, a ball and a box, which attract each other. -/
noncomputable def attracted : Simulator Exact :=
  { create ⟨1, 1, 0, 1, .allPairs, false⟩ with
    particles := #[⟨⟨⟨0, 0⟩, ⟨1, 0⟩, 1, 1 / 1⟩, 1, ⟨0, 0, 0, 0⟩⟩,
      ⟨⟨⟨0, 0⟩, ⟨0, 0⟩, 1, 1 / 1⟩, 1, ⟨0, 0, 0, 0⟩⟩]
    balls := #[⟨⟨⟨3.0, 4.0⟩, ⟨0, 0⟩, 125.0, 1 / 125.0⟩, ⟨1, 1, 0, 2.0⟩, 1, ⟨0, 0, 0, 0⟩⟩]
    boxes := #[⟨⟨⟨3.0, 0⟩, ⟨0, 0⟩, 9.0, 1 / 9.0⟩, ⟨1, 1, 0, 0⟩, 1, 1, ⟨0, 0, 0, 0⟩, ⟨0, 0, 0, 0⟩⟩] }

/-- The first particle is pulled towards the ball and the box, but not by the particle that it
coincides with, and the ball keeps its spin. -/
theorem attraction_is_mutual_gravity_attracted :
    0 < attracted.config.attraction.val ∧ (∀ m ∈ attracted.movers, m.body.HasMass) ∧
      (attracted.attractAll 1).movers[0]?.map (fun m => m.body.vel.coords) = some (5, 4) ∧
      ((attracted.attractAll 1).movers[2]?.bind Mover.ball?).map (·.spin.angVel.val) = some 2 ∧
      (attracted.attractAll 1).totalMomentum = (1, 0) := by
  have hg : 0 < attracted.config.attraction.val := one_pos
  have hmass : ∀ m ∈ attracted.movers, m.body.HasMass := by
    refine forall_movers.mpr ⟨?_, ?_, ?_⟩ <;>
      norm_num [attracted, create, Mover.body, Body.hasMass_iff]
  obtain ⟨hrest, hmovers, horder, hmomentum⟩ := attraction_is_mutual_gravity 1 hg hmass
  refine ⟨hg, hmass, ?_, ?_, ?_⟩
  · let bodies : Fin 4 → Body Exact := fun j => (attracted.movers.get j).body
    have hsecond : bodies 1 = ⟨⟨0, 0⟩, ⟨0, 0⟩, 1, 1 / 1⟩ := rfl
    have hball : bodies 2 = ⟨⟨3.0, 4.0⟩, ⟨0, 0⟩, 125.0, 1 / 125.0⟩ := rfl
    have hbox : bodies 3 = ⟨⟨3.0, 0⟩, ⟨0, 0⟩, 9.0, 1 / 9.0⟩ := rfl
    have hlength : (⟨3.0, 4.0⟩ - ⟨0, 0⟩ : Vec Exact).length.val = 5 :=
      Vec.length_eq_of_sq (by norm_num) (by norm_num)
    have hlength' : (⟨3.0, 0⟩ - ⟨0, 0⟩ : Vec Exact).length.val = 3 :=
      Vec.length_eq_of_sq (by norm_num) (by norm_num)
    have hfar : ¬ (⟨0, 0⟩ : Vec Exact).Coincides ⟨3.0, 4.0⟩ :=
      Vec.not_coincides (by rw [hlength]; norm_num)
    have hfar' : ¬ (⟨0, 0⟩ : Vec Exact).Coincides ⟨3.0, 0⟩ :=
      Vec.not_coincides (by rw [hlength']; norm_num)
    have hgain : ∑ j with j.val ≠ 0 ∧ ¬ (⟨0, 0⟩ : Vec Exact).Coincides (bodies j).pos,
        (1 * (bodies j).mass.val / ((bodies j).pos - ⟨0, 0⟩).length.val ^ 3) •
          ((bodies j).pos - ⟨0, 0⟩).coords = (4, 4) := by
      simp only [Finset.sum_filter, Fin.sum_univ_four, hsecond, hball, hbox, hfar, hfar', hlength,
        hlength', Vec.coincides_self]
      norm_num [Vec.coords]
    rw [hmovers]
    refine (congrArg (fun gain => some (((1 : ℝ), (0 : ℝ)) + (1 : ℝ) • gain)) hgain).trans ?_
    norm_num
  · rw [hmovers]
    norm_num [attracted, create, movers, Mover.accelerated, Mover.ball?]
  · rw [hmomentum]
    simp [totalMomentum, attracted, movers, create, Body.momentum, Vec.coords, Mover.body]

end Simulator

end PlanarDynamics
