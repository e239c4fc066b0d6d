import PlanarDynamics.Proofs.Exact.Search
import PlanarDynamics.Proofs.Simulator.Checked
import PlanarDynamics.Proofs.Simulator.Refreshed

/-!
# Candidates in exact arithmetic

When pairs are looked for, all bounds are those of the current poses. If the bounds of two shapes
then overlap, the strategy, whichever it is, lists the pair of their places.
-/

namespace PlanarDynamics

theorem Handle.isStatic_kind (a : Handle) : a.kind.isStatic = !a.moves := by
  cases a <;> cbv

namespace Simulator

variable {s t : Simulator Exact} {a b : Handle}

/-- The shape of a handle has no negative radius. -/
def HasRadius (s : Simulator Exact) : Handle → Prop
  | .line _ => True
  | .particle i => ∀ p, s.particles[i]? = some p → 0 ≤ p.radius
  | .ball i => ∀ b, s.balls[i]? = some b → 0 ≤ b.radius
  | .box _ => True

/-- The references name all shapes, and all bounds are those of the current poses. -/
structure IsCurrent (s : Simulator Exact) : Prop where
  names : s.references.Names s
  refreshed : s.IsRefreshed
  padded : s.IsPadded

/-- Each search of a run finds the bounds as they are to be. -/
theorem Reachable.isCurrent (h : s.Reachable) (seconds : Exact) (k : Nat) :
    (s.beforeSearch seconds k).IsCurrent where
  names := h.names_search seconds k
  refreshed := isRefreshed_move (s.afterSteps seconds k) (s.stepTime seconds)
  padded := h.isPadded.congr (keeps_beforeSearch s seconds k).lines

namespace IsCurrent

theorem reaches_particle (h : s.IsCurrent) {i : Nat} {p : Particle Exact}
    (hp : s.particles[i]? = some p) : p.aabb.Reaches p.body.pos p.radius.val p.radius.val := by
  obtain ⟨motion, haabb⟩ := (forall_movers.mp h.refreshed).1 p (Array.mem_of_getElem? hp)
  rw [haabb]
  exact Aabb.reaches_circleBounds ..

theorem reaches_ball (h : s.IsCurrent) {i : Nat} {b : Ball Exact}
    (hb : s.balls[i]? = some b) : b.aabb.Reaches b.body.pos b.radius.val b.radius.val := by
  obtain ⟨motion, haabb⟩ := (forall_movers.mp h.refreshed).2.1 b (Array.mem_of_getElem? hb)
  rw [haabb]
  exact Aabb.reaches_circleBounds ..

theorem reaches_box (h : s.IsCurrent) {i : Nat} {b : Box Exact} (hb : s.boxes[i]? = some b) :
    b.aabb.Reaches b.body.pos (Corners.halfWidth b.width b.height b.spin.angle)
      (Corners.halfHeight b.width b.height b.spin.angle) := by
  obtain ⟨motion, haabb⟩ := (forall_movers.mp h.refreshed).2.2 b (Array.mem_of_getElem? hb)
  rw [haabb]
  exact Corners.reaches_bounds ..

theorem padded_line (h : s.IsCurrent) {l : Nat} {line : Line Exact}
    (hl : s.lines[l]? = some line) : line.IsPadded := h.padded line (Array.mem_of_getElem? hl)

/-- The left and the right edge of a shape are in order, unless its radius is negative. -/
theorem left_le_right (h : s.IsCurrent) {aabb : Aabb Exact} (ha : s.aabbOf a = some aabb)
    (hradius : s.HasRadius a) : aabb.left ≤ aabb.right := by
  cases a with
  | line l =>
    obtain ⟨line, hl, rfl⟩ := Option.map_eq_some_iff.mp ha
    rw [h.padded_line hl]
    exact (Line.reaches_aabb line.start line.stop line.normal Set.left_mem_uIcc
      Set.left_mem_uIcc).left_le_right Line.padding_pos.le
  | particle i =>
    obtain ⟨p, hp, rfl⟩ := Option.map_eq_some_iff.mp ha
    exact (h.reaches_particle hp).left_le_right (hradius p hp)
  | ball i =>
    obtain ⟨b, hb, rfl⟩ := Option.map_eq_some_iff.mp ha
    exact (h.reaches_ball hb).left_le_right (hradius b hb)
  | box i =>
    obtain ⟨b, hb, rfl⟩ := Option.map_eq_some_iff.mp ha
    exact (h.reaches_box hb).left_le_right (Corners.halfWidth_nonneg ..)

end IsCurrent

/-- The pair of the places of two shapes is among those that the strategy finds. -/
def IsCandidate (s : Simulator Exact) (a b : Handle) : Prop :=
  ∃ i j, s.references.shapes[i]? = some a ∧ s.references.shapes[j]? = some b ∧
    Pair.ordered i j ∈ s.config.strategy.pairs s.seen

theorem IsCandidate.symm (h : s.IsCandidate a b) : s.IsCandidate b a := by
  obtain ⟨i, j, ha, hb, hpair⟩ := h
  exact ⟨j, i, hb, ha, Pair.ordered_comm i j ▸ hpair⟩

/-- Two shapes of which one moves are candidates if their bounds overlap. -/
theorem IsCurrent.isCandidate (h : s.IsCurrent) {p q : Aabb Exact} (ha : s.aabbOf a = some p)
    (hb : s.aabbOf b = some q) (hab : a ≠ b) (hmoves : a.moves = true)
    (hradius : s.HasRadius a) (hradius' : s.HasRadius b) (hpq : p.intersects q = true) :
    s.IsCandidate a b := by
  have hsees := seesShapes h.names
  have hplace {c : Handle} {r : Aabb Exact} (hc : s.aabbOf c = some r) :
      ∃ i : Nat, s.references.shapes[i]? = some c ∧ s.seen[i]? = some ⟨r, c.kind⟩ := by
    have hmem : c ∈ s.references.shapes := h.names.mem_shapes.mpr (Option.isSome_of_eq_some hc)
    obtain ⟨i, hi⟩ := Array.mem_iff_getElem?.mp hmem
    obtain ⟨aabb, haabb, hseen⟩ := hsees.place i c hi
    obtain rfl := Option.some.inj (hc.symm.trans haabb)
    exact ⟨i, hi, hseen⟩
  obtain ⟨i, hi, hseen⟩ := hplace ha
  obtain ⟨j, hj, hseen'⟩ := hplace hb
  have hij : i ≠ j := by
    rintro rfl
    exact hab (Option.some.inj (hi.symm.trans hj))
  refine ⟨i, j, hi, hj, s.config.strategy.mem_pairs_exact hseen hseen' hij
    (h.left_le_right ha hradius) (h.left_le_right hb hradius') ?_⟩
  rw [Proxy.mayTouch, Proxy.bothStatic, Proxy.isStatic, a.isStatic_kind, hmoves, hpq]
  rfl

end Simulator

end PlanarDynamics
