import PlanarDynamics.Proofs.Exact.Touching

/-!
# Boxes at lines

The search goes by the corners of a box, the contact by a circle of the same area. The circle leaves
the bounds of the corners unless the box is long and turned, or small against the padding of lines.
Where it does, there are lines at which a contact waits until the corners come near.
-/

namespace PlanarDynamics

theorem ContactLaw.isSome_boxLine {α : Type} [Scalar α] {law : ContactLaw α} {line : Line α}
    (b : Box α) : (law.boxLine b line).isSome = true ↔
      ¬ Scalar.sqrt (b.width * b.height) * Scalar.sqrt (b.width * b.height) <
        distSqToSegment line.start line.stop b.body.pos := by
  rw [← isSome_pushOut, boxLine, isSome_bind]
  intro pos
  dsimp only
  split <;> rfl

namespace Line

/-- An upright line around the height `y`. -/
noncomputable def upright (x y : Exact) : Line Exact := .create ⟨x, y - 1⟩ ⟨x, y + 1⟩

/-- A level line around the place `x`. -/
noncomputable def level (x y : Exact) : Line Exact := .create ⟨x - 1, y⟩ ⟨x + 1, y⟩

variable (x y : Exact)

theorem val_left_upright : (upright x y).aabb.left.val = x.val - (padding : Exact).val := by
  simp [upright, create, withNormal]

theorem val_right_upright : (upright x y).aabb.right.val = x.val + (padding : Exact).val := by
  simp [upright, create, withNormal]

theorem val_bottom_level : (level x y).aabb.bottom.val = y.val - (padding : Exact).val := by
  simp [level, create, withNormal]

theorem val_top_level : (level x y).aabb.top.val = y.val + (padding : Exact).val := by
  simp [level, create, withNormal]

theorem distSq_to_level (p : Vec Exact) :
    (distSqToSegment (level p.x y).start (level p.x y).stop p).val = (p.y.val - y.val) ^ 2 :=
  distSq_level (sub_one_lt _).le (lt_add_one _).le ((sub_one_lt _).trans (lt_add_one _))

theorem distSq_to_upright (p : Vec Exact) :
    (distSqToSegment (upright x p.y).start (upright x p.y).stop p).val =
      (p.x.val - x.val) ^ 2 :=
  (distSq_swap (level p.y x).start (level p.y x).stop ⟨p.y, p.x⟩).trans
    (distSq_to_level x ⟨p.y, p.x⟩)

end Line

namespace Box

/-- The radius of the circle that stands for a box at lines. -/
noncomputable def circleRadius (b : Box Exact) : ℝ := √(b.width.val * b.height.val)

/-- On both axes the circle goes beyond the corners by at most the padding of lines. -/
structure CircleFits (b : Box Exact) : Prop where
  width :
    b.circleRadius ≤ Corners.halfWidth b.width b.height b.spin.angle + (Line.padding : Exact).val
  height :
    b.circleRadius ≤ Corners.halfHeight b.width b.height b.spin.angle + (Line.padding : Exact).val

variable {b : Box Exact} {dt : Exact} {law : ContactLaw Exact} {line : Line Exact}

theorem circleRadius_nonneg (b : Box Exact) : 0 ≤ b.circleRadius := Real.sqrt_nonneg _

theorem reaches_refreshBounds (b : Box Exact) (dt : Exact) :
    (b.refreshBounds dt).aabb.Reaches b.body.pos
      (Corners.halfWidth b.width b.height b.spin.angle)
      (Corners.halfHeight b.width b.height b.spin.angle) := Corners.reaches_bounds ..

/-- A box is in contact with the lines that its circle touches. -/
theorem isSome_boxLine_iff : (law.boxLine b line).isSome = true ↔
    (distSqToSegment line.start line.stop b.body.pos).val ≤ b.circleRadius ^ 2 := by
  rw [ContactLaw.isSome_boxLine, Exact.not_lt_iff, Exact.le_iff, Exact.val_mul, Exact.val_sqrt,
    Exact.val_mul, ← sq]
  rfl

theorem CircleFits.intersects (h : b.CircleFits) {a : Aabb Exact}
    (ha : a.Reaches b.body.pos (Corners.halfWidth b.width b.height b.spin.angle)
      (Corners.halfHeight b.width b.height b.spin.angle))
    (hline : line.IsPadded) (hcontact : (law.boxLine b line).isSome = true) :
    a.intersects line.aabb = true :=
  hline.intersects ha b.circleRadius_nonneg h.width h.height (isSome_boxLine_iff.mp hcontact)

/-! ### Lines right at the circle -/

section Edges

variable (b dt)

theorem val_left_refreshBounds : (b.refreshBounds dt).aabb.left.val =
    b.body.pos.x.val - Corners.halfWidth b.width b.height b.spin.angle +
      min (b.body.vel.x.val * dt.val) 0 := by
  rw [← Corners.val_x_lowest, refreshBounds, Corners.bounds, Aabb.swept, Exact.val_add,
    Exact.val_minNum]
  rfl

theorem val_right_refreshBounds : (b.refreshBounds dt).aabb.right.val =
    b.body.pos.x.val + Corners.halfWidth b.width b.height b.spin.angle +
      max (b.body.vel.x.val * dt.val) 0 := by
  rw [← Corners.val_x_highest, refreshBounds, Corners.bounds, Aabb.swept, Exact.val_add,
    Exact.val_maxNum]
  rfl

theorem val_bottom_refreshBounds : (b.refreshBounds dt).aabb.bottom.val =
    b.body.pos.y.val - Corners.halfHeight b.width b.height b.spin.angle +
      min (b.body.vel.y.val * dt.val) 0 := by
  rw [← Corners.val_y_lowest, refreshBounds, Corners.bounds, Aabb.swept, Exact.val_add,
    Exact.val_minNum]
  rfl

theorem val_top_refreshBounds : (b.refreshBounds dt).aabb.top.val =
    b.body.pos.y.val + Corners.halfHeight b.width b.height b.spin.angle +
      max (b.body.vel.y.val * dt.val) 0 := by
  rw [← Corners.val_y_highest, refreshBounds, Corners.bounds, Aabb.swept, Exact.val_add,
    Exact.val_maxNum]
  rfl

end Edges

/-- The bounds of a box overlap those of each line that its circle touches. -/
def CoversContacts (b : Box Exact) (dt : Exact) : Prop := ∀ line : Line Exact, line.IsPadded →
  (distSqToSegment line.start line.stop b.body.pos).val ≤ b.circleRadius ^ 2 →
  (b.refreshBounds dt).aabb.intersects line.aabb = true

/-- Of the two places at the distance `r` from `p`, the one that the motion `v` does not go to is
reached only by extents of `r`, up to the padding. -/
theorem le_of_reached (p v : ℝ) {extent r padding : ℝ}
    (h : ∀ x, (p - x) ^ 2 ≤ r ^ 2 →
      ¬ p + extent + max v 0 < x - padding ∧ ¬ x + padding < p - extent + min v 0) :
    r ≤ extent + padding := by
  rcases le_total v 0 with hv | hv
  · have hedge := (h (p + r) (by ring_nf; rfl)).1
    rw [max_eq_right hv] at hedge
    linarith
  · have hedge := (h (p - r) (by ring_nf; rfl)).2
    rw [min_eq_right hv] at hedge
    linarith

theorem CoversContacts.width (h : b.CoversContacts dt) : b.circleRadius ≤
    Corners.halfWidth b.width b.height b.spin.angle + (Line.padding : Exact).val := by
  refine le_of_reached b.body.pos.x.val (b.body.vel.x.val * dt.val) fun x hx => ?_
  have hmeet := h (.upright ⟨x⟩ b.body.pos.y) rfl ((Line.distSq_to_upright ..).trans_le hx)
  obtain ⟨hright, hleft, -, -⟩ := Aabb.intersects_iff.mp hmeet
  rw [Exact.lt_iff, val_right_refreshBounds, Line.val_left_upright] at hright
  rw [Exact.lt_iff, val_left_refreshBounds, Line.val_right_upright] at hleft
  exact ⟨hright, hleft⟩

theorem CoversContacts.height (h : b.CoversContacts dt) : b.circleRadius ≤
    Corners.halfHeight b.width b.height b.spin.angle + (Line.padding : Exact).val := by
  refine le_of_reached b.body.pos.y.val (b.body.vel.y.val * dt.val) fun y hy => ?_
  have hmeet := h (.level b.body.pos.x ⟨y⟩) rfl ((Line.distSq_to_level ..).trans_le hy)
  obtain ⟨-, -, htop, hbottom⟩ := Aabb.intersects_iff.mp hmeet
  rw [Exact.lt_iff, val_top_refreshBounds, Line.val_bottom_level] at htop
  rw [Exact.lt_iff, val_bottom_refreshBounds, Line.val_top_level] at hbottom
  exact ⟨htop, hbottom⟩

/-- The bounds of a box cover its contacts at all lines exactly if its circle fits. -/
theorem coversContacts_iff : b.CoversContacts dt ↔ b.CircleFits := by
  constructor
  · exact fun h => ⟨h.width, h.height⟩
  · intro h line hline hdist
    exact hline.intersects (reaches_refreshBounds b dt) b.circleRadius_nonneg h.width h.height hdist

end Box

/-! ### Boxes at rest -/

section Still

variable {α : Type} [Scalar α]

/-- A box of mass one at rest with the given corners. -/
def Box.ofCorners (corners : Corners α) (pos : Vec α) (width height angle : α) : Box α :=
  ⟨⟨pos, ⟨0, 0⟩, 1, 1 / 1⟩, Spin.create (1 * (width * width + height * height) / 12.0) angle 0,
    width, height, corners, corners.bounds ((0 : α) • ⟨0, 0⟩)⟩

/-- The box of mass one that is created at rest. -/
def Box.still (pos : Vec α) (width height angle : α) : Box α :=
  .ofCorners (.ofPose pos width height angle) pos width height angle

theorem Box.create_still (h : isMass (1 : α) = true) (pos : Vec α) (width height angle : α) :
    Box.create pos ⟨0, 0⟩ 1 width height angle 0 = .ok (.still pos width height angle) := by
  have hbody : Body.create pos ⟨0, 0⟩ 1 = .ok ⟨pos, ⟨0, 0⟩, 1, 1 / 1⟩ := if_pos h
  rw [Box.create, hbody]
  rfl

/-- The bounds of a new box are up to date. -/
theorem Box.refreshBounds_still (pos : Vec α) (width height angle : α) :
    (Box.still pos width height angle).refreshBounds 0 = .still pos width height angle := rfl

/-- The bounds of a box and of a line do not overlap, but each law finds a contact of theirs. -/
def Box.ContactWithheld (b : Box α) (line : Line α) : Prop :=
  b.aabb.intersects line.aabb = false ∧
    ∀ law : ContactLaw α, (law.boxLine b line).isSome = true

end Still

/-- Binary32 scalars with the given sine and cosine. -/
@[reducible] def Binary32.withTurns (sin cos : Float32 → Float32) : Scalar Float32 :=
  { (inferInstance : Scalar Float32) with sin, cos }

/-- The corners of a box that is not turned depend on the sine and the cosine of zero. -/
theorem Corners.ofPose_withTurns {sin cos : Float32 → Float32} (hsin : sin 0 = 0)
    (hcos : cos 0 = 1) (pos : Vec Float32) (width height : Float32) :
    @Corners.ofPose _ (Binary32.withTurns sin cos) pos width height 0 =
      @Corners.ofPose _ (Binary32.withTurns (fun _ => 0) fun _ => 1) pos width height 0 := by
  have hturn : @Corners.ofPose _ (Binary32.withTurns sin cos) pos width height 0 =
      @Corners.ofPose _ (Binary32.withTurns (fun _ => sin 0) fun _ => cos 0) pos width height 0 :=
    rfl
  rw [hturn, hsin, hcos]

/-- The circle of a unit square touches a line that its corners are far from. And where rounding
misplaces the end of a very long line, a small square beyond it is in contact though its circle
fits. -/
theorem Box.contactWithheld_square :
    Box.ContactWithheld (.still ⟨0, 0.875⟩ 1 1 0) (.create ⟨-10, 0⟩ ⟨(10 : Exact), 0⟩) ∧
    ∀ sin cos : Float32 → Float32, sin 0 = 0 → cos 0 = 1 →
      let square := fun (y size : Float32) =>
        Box.ofCorners (@Corners.ofPose _ (Binary32.withTurns sin cos) ⟨0, y⟩ size size 0)
          ⟨0, y⟩ size size 0
      Box.ContactWithheld (square 0.875 1) (.create ⟨-10, 0⟩ ⟨10, 0⟩) ∧
      Box.ContactWithheld (square 0 0.0625) (.create ⟨-16777216, 0⟩ ⟨-0.3125, 0⟩) ∧
      Scalar.sqrt (0.0625 * 0.0625 : Float32) ≤ 0.5 * 0.0625 + Line.padding := by
  refine ⟨⟨?_, fun law => ?_⟩, ?_⟩
  · rw [Bool.eq_false_iff, Ne, Aabb.intersects_iff]
    rintro ⟨-, -, -, habove⟩
    have hbottom := Box.val_bottom_refreshBounds (.still ⟨0, 0.875⟩ 1 1 0) 0
    rw [Box.refreshBounds_still] at hbottom
    have htop : (Line.create ⟨-10, 0⟩ ⟨(10 : Exact), 0⟩).aabb.top.val = 0 + (0.05 : ℝ) := by
      simp [Line.create, Line.withNormal, Line.padding]
    refine habove ?_
    rw [Exact.lt_iff, htop, hbottom]
    simp only [Corners.halfHeight, Box.still, Box.ofCorners, Spin.create]
    norm_num
  · rw [Box.isSome_boxLine_iff]
    refine (Line.distSq_level (by norm_num) (by norm_num) (by norm_num)).trans_le ?_
    norm_num [Box.circleRadius, Box.still, Box.ofCorners]
  · intro sin cos hsin hcos square
    simp only [square, Corners.ofPose_withTurns hsin hcos, Box.ContactWithheld,
      ContactLaw.isSome_boxLine]
    have hunit : ¬ Scalar.sqrt (1 * 1 : Float32) * Scalar.sqrt (1 * 1) <
        distSqToSegment ⟨-10, 0⟩ ⟨10, 0⟩ ⟨0, 0.875⟩ := by decide +kernel
    have hsmall : ¬ Scalar.sqrt (0.0625 * 0.0625 : Float32) * Scalar.sqrt (0.0625 * 0.0625) <
        distSqToSegment ⟨-16777216, 0⟩ ⟨-0.3125, 0⟩ ⟨0, 0⟩ := by decide +kernel
    refine ⟨⟨?_, fun _ => hunit⟩, ⟨?_, fun _ => hsmall⟩, ?_⟩ <;> decide +kernel

namespace Simulator

variable {s t : Simulator Exact} {a b : Handle} {law : ContactLaw Exact}

/-- The shape of a handle is no box or one whose circle fits. -/
def FitsCircle (s : Simulator Exact) : Handle → Prop
  | .box i => ∀ b, s.boxes[i]? = some b → b.CircleFits
  | _ => True

/-- The contacts of boxes are those at lines. -/
theorem IsCurrent.isCandidate_of_box (h : s.IsCurrent) (hcontact : Contact law s a b t)
    (hbox : a.kind = .box ∨ b.kind = .box) (ha : s.FitsCircle a) (hb : s.FitsCircle b) :
    s.IsCandidate a b := by
  induction hcontact with
  | particles => rcases hbox with hkind | hkind <;> cases hkind
  | particleLine => rcases hbox with hkind | hkind <;> cases hkind
  | ballLine => rcases hbox with hkind | hkind <;> cases hkind
  | @boxLine i l c c' line hc hline hcontact =>
    refine h.isCandidate (aabbOf_box hc) (aabbOf_line hline)
      (fun heq => Handle.noConfusion heq) rfl trivial trivial ?_
    exact (ha c hc).intersects (h.reaches_box hc) (h.padded_line hline)
      (Option.isSome_of_eq_some hcontact)
  | flip _ ih => exact (ih hbox.symm hb ha).symm

/-- Computed exactly, the bounds of a box, as of a refresh at its position, overlap those of all
lines that it is in contact with exactly if its circle goes beyond its corners by no more than the
padding of lines. In each search of a run the contacts of such boxes are candidates. -/
theorem box_contacts_are_candidates :
    (∀ (b : Box Exact) (dt : Exact), 0 < b.width → 0 < b.height →
      ((∀ (law : ContactLaw Exact) (line : Line Exact), line.IsPadded →
        (law.boxLine (b.refreshBounds dt) line).isSome = true →
          (b.refreshBounds dt).aabb.intersects line.aabb = true) ↔ b.CircleFits)) ∧
    ∀ s : Simulator Exact, s.Reachable → ∀ (seconds : Exact) (k : ℕ) (a b : Handle),
      let t := s.beforeSearch seconds k
      ∀ (law : ContactLaw Exact) (u : Simulator Exact), t.resolve law a b = some u →
        a.kind = .box ∨ b.kind = .box → t.FitsCircle a → t.FitsCircle b → t.IsCandidate a b := by
  constructor
  · intro b dt _ _
    rw [← @Box.coversContacts_iff b dt]
    constructor
    · intro h line hline hdist
      exact h ⟨0, 0⟩ line hline (Box.isSome_boxLine_iff.mpr hdist)
    · intro h law line hline hcontact
      exact h line hline ((Box.isSome_boxLine_iff (b := b.refreshBounds dt)).mp hcontact)
  · intro s hs seconds k a b t law u hresolve hbox ha hb
    exact (hs.isCurrent seconds k).isCandidate_of_box (contact_of_resolve hresolve) hbox ha hb

/-- A long box at rest on one of its corners, and a line under it. -/
noncomputable def leaning (strategy : Strategy) : Simulator Exact :=
  ((create ⟨1, 1, 0, 0, strategy, false⟩).call (.add (.line ⟨-1, 0⟩ ⟨1, 0⟩ none))).call
    (.add (.box 1 0.25 4 ⟨0, 1⟩ ⟨0, 0⟩ ⟨Real.pi / 4⟩ 0))

theorem leaning_eq (strategy : Strategy) : leaning strategy =
    { create ⟨1, 1, 0, 0, strategy, false⟩ with
      lines := #[.create ⟨-1, 0⟩ ⟨1, 0⟩]
      boxes := #[.still ⟨0, 1⟩ 0.25 4 ⟨Real.pi / 4⟩]
      refs := none } := by
  simp only [leaning, call, Command.runAll, Command.run, addBox, Box.create_still isMass_one]
  rfl

/-- The corners of the box are further apart than its circle is wide. -/
theorem circleFits_leaning {b : Box Exact} (hwidth : b.width = 0.25) (hheight : b.height = 4)
    (hangle : b.spin.angle.val = Real.pi / 4) : b.circleRadius = 1 ∧ b.CircleFits := by
  have hradius : b.circleRadius = 1 := by
    rw [Box.circleRadius, hwidth, hheight]
    norm_num
  have hroot : 1 ≤ √(2 : ℝ) := Real.one_le_sqrt.mpr one_le_two
  have hpad := Line.padding_pos.le
  have hreach : (1 : ℝ) ≤ (|0.25 * (√2 / 2)| + |4 * (√2 / 2)|) * 0.5 := by
    rw [abs_of_nonneg (by positivity), abs_of_nonneg (by positivity)]
    linarith
  refine ⟨hradius, ⟨?_, ?_⟩⟩
  · rw [hradius, Corners.halfWidth, hangle, hwidth, hheight, Real.cos_pi_div_four,
      Real.sin_pi_div_four]
    exact hreach.trans (le_add_of_nonneg_right hpad)
  · rw [hradius, Corners.halfHeight, hangle, hwidth, hheight, Real.cos_pi_div_four,
      Real.sin_pi_div_four]
    exact hreach.trans (le_add_of_nonneg_right hpad)

/-- Before the first search the box stays where it is. -/
theorem beforeSearch_leaning (strategy : Strategy) : ∃ b : Box Exact,
    ((leaning strategy).beforeSearch 1 0).boxes[0]? = some b ∧ b.width = 0.25 ∧ b.height = 4 ∧
      b.spin.angle.val = Real.pi / 4 ∧ b.body.pos.x.val = 0 ∧ b.body.pos.y.val = 1 ∧
        ((leaning strategy).beforeSearch 1 0).lines[0]? = some (.create ⟨-1, 0⟩ ⟨1, 0⟩) := by
  let b : Box Exact := .still ⟨0, 1⟩ 0.25 4 ⟨Real.pi / 4⟩
  let dt := (leaning strategy).stepTime 1
  rw [beforeSearch_zero (by rw [leaning_eq]; rfl) (by rw [leaning_eq]; exact lt_irrefl (0 : ℝ))]
  refine ⟨b.advance dt, ?_, rfl, rfl, ?_, ?_, ?_, ?_⟩
  · show ((leaning strategy).boxes.map fun b => b.advance dt)[0]? = some (b.advance dt)
    rw [Array.getElem?_map, leaning_eq]
    rfl
  · show Real.pi / 4 + 0 * dt.val = Real.pi / 4
    rw [zero_mul, add_zero]
  · show (0 + 0 * dt.val : ℝ) = 0
    norm_num
  · show (1 + 0 * dt.val : ℝ) = 1
    norm_num
  · show (leaning strategy).lines[0]? = _
    rw [leaning_eq]
    rfl

/-- The long box is in contact with the line, and a candidate in either order. -/
theorem box_contacts_are_candidates_leaning :
    let line : Line Exact := .create ⟨-1, 0⟩ ⟨1, 0⟩
    let law : ContactLaw Exact := ⟨1, 0⟩
    let s := leaning .intervalSweep
    (∃ b : Box Exact, (s.beforeSearch 1 0).boxes[0]? = some b ∧
      (law.boxLine (b.refreshBounds 2) line).isSome = true ∧
        (b.refreshBounds 2).aabb.intersects line.aabb = true) ∧
      s.Reachable ∧ ∃ u, (s.beforeSearch 1 0).resolve law (.line 0) (.box 0) = some u ∧
        (s.beforeSearch 1 0).IsCandidate (.line 0) (.box 0) := by
  intro line law s
  obtain ⟨b, hb, hwidth, hheight, hangle, hx, hy, hline⟩ := beforeSearch_leaning .intervalSweep
  obtain ⟨hradius, hfits⟩ := circleFits_leaning hwidth hheight hangle
  have htouch : (distSqToSegment line.start line.stop b.body.pos).val ≤ b.circleRadius ^ 2 := by
    have hdist := Line.distSq_level (a := -1) (b := 1) (x := b.body.pos.x) (y := b.body.pos.y)
      (z := 0) (by rw [hx]; norm_num) (by rw [hx]; norm_num) (by norm_num)
    rw [hradius]
    refine hdist.trans_le ?_
    rw [hy]
    norm_num
  have hcontact : (law.boxLine (b.refreshBounds 2) line).isSome = true :=
    Box.isSome_boxLine_iff.mpr htouch
  obtain ⟨b', hb'⟩ : ∃ b', law.boxLine b line = some b' :=
    Option.isSome_iff_exists.mp (Box.isSome_boxLine_iff.mpr htouch)
  have hresolve : (s.beforeSearch 1 0).resolve law (.line 0) (.box 0) =
      some { s.beforeSearch 1 0 with boxes := (s.beforeSearch 1 0).boxes.setIfInBounds 0 b' } := by
    simp only [resolve, resolveBoxLine, s, hb, hline, Option.bind_eq_bind, Option.bind_some]
    rw [hb']
    rfl
  have hpositive : 0 < b.width ∧ 0 < b.height := by
    rw [hwidth, hheight]
    norm_num
  have hreach : s.Reachable := ((Reachable.create _).call _).call _
  have hall : (s.beforeSearch 1 0).FitsCircle (.box 0) := by
    intro c hc
    obtain rfl := Option.some.inj (hb.symm.trans hc)
    exact hfits
  obtain ⟨hbounds, hsearch⟩ := box_contacts_are_candidates
  exact ⟨⟨b, hb, hcontact, (hbounds b 2 hpositive.1 hpositive.2).mpr hfits law line rfl hcontact⟩,
    hreach, _, hresolve, hsearch s hreach 1 0 _ _ law _ hresolve (.inr rfl) trivial hall⟩

end Simulator

end PlanarDynamics
