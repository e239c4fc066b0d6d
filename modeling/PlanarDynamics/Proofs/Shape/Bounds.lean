import PlanarDynamics.Proofs.Binary32.Overflow
import PlanarDynamics.Proofs.Exact.BoxCircle

/-!
# Bounds in binary32

The bounds of a shape enclose it, as its edges are rounded, and nothing that its velocity is makes
them cross: the motion takes an edge outwards or leaves it where it is. All of it holds where a sum
overflows, so an edge may be infinite, but none is ever a value that is no number.
-/

namespace PlanarDynamics

/-! ## Boxes around points -/

namespace Aabb

variable {α : Type} [Scalar α]

/-- The point lies in the box, edges included. -/
structure Contains (a : Aabb α) (p : Vec α) : Prop where
  left : a.left ≤ p.x
  right : p.x ≤ a.right
  bottom : a.bottom ≤ p.y
  top : p.y ≤ a.top

/-- The box from the lower left corner `lo` to the upper right corner `hi`. -/
def between (lo hi : Vec α) : Aabb α := ⟨lo.x, lo.y, hi.x, hi.y⟩

/-- `a` is the box `b` after a motion: it has lost nothing, and the edges that the motion does not
point to are where they were. A component that is no number points nowhere. -/
structure SweptFrom (a b : Aabb α) (motion : Vec α) : Prop where
  contains : ∀ p, b.Contains p → a.Contains p
  left : ¬ motion.x < 0 → (a.left == b.left) = true
  right : ¬ 0 < motion.x → (a.right == b.right) = true
  bottom : ¬ motion.y < 0 → (a.bottom == b.bottom) = true
  top : ¬ 0 < motion.y → (a.top == b.top) = true

/-- The box is the least one around the points. -/
structure IsHull (a : Aabb α) (points : List (Vec α)) : Prop where
  contains : ∀ p ∈ points, a.Contains p
  left : ∃ p ∈ points, a.left = p.x
  right : ∃ p ∈ points, a.right = p.x
  bottom : ∃ p ∈ points, a.bottom = p.y
  top : ∃ p ∈ points, a.top = p.y

theorem Contains.isValid [LawfulScalar α] {a : Aabb α} {p : Vec α} (h : a.Contains p) :
    a.isValid = true := by
  rw [Aabb.isValid, Bool.and_eq_true, decide_eq_true_eq, decide_eq_true_eq]
  exact ⟨OrderedKeys.le_trans h.left h.right, OrderedKeys.le_trans h.bottom h.top⟩

end Aabb

section Hull

variable {α : Type} [Scalar α]

/-- Choosing between two keys, again and again, chooses the best of all. -/
theorem foldl_selects {R : α → α → Prop} {f : α → α → α}
    (htrans : ∀ {a b c}, R a b → R b c → R a c)
    (hf : ∀ {a b}, IsKey a → IsKey b → R (f a b) a ∧ R (f a b) b ∧ (f a b = a ∨ f a b = b))
    {a : α} {others : List α} (ha : IsKey a) (hothers : ∀ b ∈ others, IsKey b) :
    (∀ b ∈ a :: others, R (others.foldl f a) b) ∧ others.foldl f a ∈ a :: others := by
  induction others generalizing a with
  | nil =>
    obtain ⟨hself, -, heq⟩ := hf ha ha
    rw [or_self] at heq
    rw [heq] at hself
    exact ⟨List.forall_mem_singleton.mpr hself, List.mem_singleton_self a⟩
  | cons b others ih =>
    obtain ⟨hb, hothers⟩ := List.forall_mem_cons.mp hothers
    obtain ⟨hfirst, hsecond, hcases⟩ := hf ha hb
    have hkey : IsKey (f a b) := by
      rcases hcases with h | h <;> rw [h] <;> assumption
    obtain ⟨hbest, hmem⟩ := ih hkey hothers
    obtain ⟨hchosen, hrest⟩ := List.forall_mem_cons.mp hbest
    refine ⟨List.forall_mem_cons.mpr ⟨htrans hchosen hfirst,
      List.forall_mem_cons.mpr ⟨htrans hchosen hsecond, hrest⟩⟩, ?_⟩
    rw [List.foldl_cons]
    rcases List.mem_cons.mp hmem with h | h
    · rw [h]
      rcases hcases with h | h <;> rw [h]
      · exact List.mem_cons_self
      · exact List.mem_cons_of_mem a List.mem_cons_self
    · exact List.mem_cons_of_mem a (List.mem_cons_of_mem b h)

variable [LawfulScalar α] {a b : α} {others : List α}

theorem choose_smaller (ha : IsKey a) (hb : IsKey b) :
    (if a < b then a else b) ≤ a ∧ (if a < b then a else b) ≤ b ∧
      ((if a < b then a else b) = a ∨ (if a < b then a else b) = b) := by
  split
  case isTrue h => exact ⟨ha, OrderedKeys.le_of_lt h, .inl rfl⟩
  case isFalse h => exact ⟨(ha.not_lt hb).mp h, hb, .inr rfl⟩

theorem choose_larger (ha : IsKey a) (hb : IsKey b) :
    a ≤ (if b < a then a else b) ∧ b ≤ (if b < a then a else b) ∧
      ((if b < a then a else b) = a ∨ (if b < a then a else b) = b) := by
  split
  case isTrue h => exact ⟨ha, OrderedKeys.le_of_lt h, .inl rfl⟩
  case isFalse h => exact ⟨(hb.not_lt ha).mp h, hb, .inr rfl⟩

theorem foldl_smaller (ha : IsKey a) (hothers : ∀ b ∈ others, IsKey b) :
    (∀ b ∈ a :: others, others.foldl (fun a b => if a < b then a else b) a ≤ b) ∧
      others.foldl (fun a b => if a < b then a else b) a ∈ a :: others :=
  foldl_selects (R := fun a b => a ≤ b) OrderedKeys.le_trans choose_smaller ha hothers

theorem foldl_larger (ha : IsKey a) (hothers : ∀ b ∈ others, IsKey b) :
    (∀ b ∈ a :: others, b ≤ others.foldl (fun a b => if b < a then a else b) a) ∧
      others.foldl (fun a b => if b < a then a else b) a ∈ a :: others :=
  foldl_selects (R := fun a b => b ≤ a) (fun h h' => OrderedKeys.le_trans h' h) choose_larger ha
    hothers

/-- Both components are keys. -/
def Vec.IsKey (v : Vec α) : Prop := PlanarDynamics.IsKey v.x ∧ PlanarDynamics.IsKey v.y

omit [Scalar α] [LawfulScalar α] in
theorem Corners.exists_corner {c : Corners α} {f : Vec α → α} (h : a ∈ c.toList.map f) :
    ∃ p ∈ c.toList, a = f p := by
  obtain ⟨p, hp, heq⟩ := List.mem_map.mp h
  exact ⟨p, hp, heq.symm⟩

theorem Corners.isHull {c : Corners α} (h : ∀ p ∈ c.toList, p.IsKey) :
    (Aabb.between c.lowest c.highest).IsHull c.toList := by
  have hx := List.forall_mem_cons.mp (List.forall_mem_map.mpr fun p hp => (h p hp).1)
  have hy := List.forall_mem_cons.mp (List.forall_mem_map.mpr fun p hp => (h p hp).2)
  obtain ⟨hleft, hleft_mem⟩ := foldl_smaller hx.1 hx.2
  obtain ⟨hbottom, hbottom_mem⟩ := foldl_smaller hy.1 hy.2
  obtain ⟨hright, hright_mem⟩ := foldl_larger hx.1 hx.2
  obtain ⟨htop, htop_mem⟩ := foldl_larger hy.1 hy.2
  constructor
  case contains =>
    intro p hp
    exact ⟨hleft p.x (List.mem_map_of_mem hp), hright p.x (List.mem_map_of_mem hp),
      hbottom p.y (List.mem_map_of_mem hp), htop p.y (List.mem_map_of_mem hp)⟩
  case left => exact exists_corner hleft_mem
  case right => exact exists_corner hright_mem
  case bottom => exact exists_corner hbottom_mem
  case top => exact exists_corner htop_mem

end Hull

/-! ## Motion -/

namespace Binary32

variable {x y p m : Float32}

/-- A choice between a motion and zero that falls on zero where the motion is no number. -/
theorem choose_zero {c : Prop} [Decidable c] {P : Float32 → Prop} (hzero : P 0)
    (hmotion : ¬ c → m.isNaN = false → P m) : P (if c then 0 else if m == m then m else 0) := by
  split
  case isTrue => exact hzero
  case isFalse h =>
    split
    case isTrue hself => exact hmotion h (isNaN_eq_false_of_beq hself).1
    case isFalse => exact hzero

/-- What the motion takes off a lower edge is never positive, also where it is no number, and
nothing if it does not point down. -/
theorem minNum_zero_le (m : Float32) : Scalar.minNum m 0 ≤ 0 ∧
    (¬ m < 0 → value (Scalar.minNum m 0) = 0) := by
  have hzero : IsKey (0 : Float32) := isKey_iff.mpr isNaN_zero
  refine choose_zero (P := fun d => d ≤ 0 ∧ (¬ m < 0 → value d = 0)) ⟨hzero, fun _ => value_zero⟩
    fun h hm => ?_
  have hle : m ≤ 0 := (hzero.not_lt (isKey_iff.mpr hm)).mp h
  refine ⟨hle, fun hnot => le_antisymm ((le_iff_value_le hm isNaN_zero).mp hle) ?_⟩
  exact (le_iff_value_le isNaN_zero hm).mp (((isKey_iff.mpr hm).not_lt hzero).mp hnot)

/-- What the motion adds to an upper edge is never negative, also where it is no number, and
nothing if it does not point up. -/
theorem zero_le_maxNum (m : Float32) : 0 ≤ Scalar.maxNum m 0 ∧
    (¬ 0 < m → value (Scalar.maxNum m 0) = 0) := by
  have hzero : IsKey (0 : Float32) := isKey_iff.mpr isNaN_zero
  refine choose_zero (P := fun d => 0 ≤ d ∧ (¬ 0 < m → value d = 0)) ⟨hzero, fun _ => value_zero⟩
    fun h hm => ?_
  have hle : 0 ≤ m := ((isKey_iff.mpr hm).not_lt hzero).mp h
  refine ⟨hle, fun hnot => le_antisymm ?_ ((le_iff_value_le isNaN_zero hm).mp hle)⟩
  exact (le_iff_value_le hm isNaN_zero).mp ((hzero.not_lt (isKey_iff.mpr hm)).mp hnot)

/-- A lower edge that is below a finite number. -/
theorem add_minNum (hp : p.isFinite = true) (h : x ≤ p) (m : Float32) :
    x + Scalar.minNum m 0 ≤ x ∧ (¬ m < 0 → (x + Scalar.minNum m 0 == x) = true) := by
  obtain ⟨hx, hnan⟩ := isNaN_eq_false_of_le h
  have htop : value x ≠ ⊤ := by
    have hlt := (le_iff_value_le hx hnan).mp h
    rw [value_eq_toReal hp] at hlt
    exact (hlt.trans_lt (EReal.coe_lt_top _)).ne
  obtain ⟨hle, hzero⟩ := minNum_zero_le m
  exact ⟨add_le_of_le_zero hx hle fun h => absurd h htop,
    fun hnot => add_beq_of_value_zero hx (isNaN_eq_false_of_le hle).1 (hzero hnot)⟩

/-- An upper edge that is above a finite number. -/
theorem add_maxNum (hp : p.isFinite = true) (h : p ≤ x) (m : Float32) :
    x ≤ x + Scalar.maxNum m 0 ∧ (¬ 0 < m → (x + Scalar.maxNum m 0 == x) = true) := by
  obtain ⟨hnan, hx⟩ := isNaN_eq_false_of_le h
  have hbot : value x ≠ ⊥ := by
    have hlt := (le_iff_value_le hnan hx).mp h
    rw [value_eq_toReal hp] at hlt
    exact ((EReal.bot_lt_coe _).trans_le hlt).ne'
  obtain ⟨hle, hzero⟩ := zero_le_maxNum m
  exact ⟨le_add_of_zero_le hx hle fun h => absurd h hbot,
    fun hnot => add_beq_of_value_zero hx (isNaN_eq_false_of_le hle).2 (hzero hnot)⟩

end Binary32

open Binary32

/-- Both components are finite. -/
structure Vec.IsFinite (v : Vec Float32) : Prop where
  x : v.x.isFinite = true
  y : v.y.isFinite = true

namespace Aabb

variable {lo hi p : Vec Float32}

theorem sweptFrom_swept (h : (between lo hi).Contains p) (hp : p.IsFinite) (motion : Vec Float32) :
    (swept lo hi motion).SweptFrom (between lo hi) motion := by
  obtain ⟨hleft, hleft_eq⟩ := add_minNum hp.x h.left motion.x
  obtain ⟨hright, hright_eq⟩ := add_maxNum hp.x h.right motion.x
  obtain ⟨hbottom, hbottom_eq⟩ := add_minNum hp.y h.bottom motion.y
  obtain ⟨htop, htop_eq⟩ := add_maxNum hp.y h.top motion.y
  refine ⟨fun q hq => ?_, hleft_eq, hright_eq, hbottom_eq, htop_eq⟩
  exact ⟨OrderedKeys.le_trans hleft hq.left, OrderedKeys.le_trans hq.right hright,
    OrderedKeys.le_trans hbottom hq.bottom, OrderedKeys.le_trans hq.top htop⟩

/-- The bounds of a circle that moves: they enclose it, and the motion moves no other edge than
those that it points to. -/
structure EnclosesCircle (a : Aabb Float32) (pos : Vec Float32) (radius : Float32)
    (motion : Vec Float32) : Prop where
  isValid : a.isValid = true
  center : a.Contains pos
  lowest : a.Contains (pos - Vec.splat radius)
  highest : a.Contains (pos + Vec.splat radius)
  swept : a.SweptFrom (between (pos - Vec.splat radius) (pos + Vec.splat radius)) motion

theorem enclosesCircle_circleBounds {pos : Vec Float32} {radius : Float32} (hpos : pos.IsFinite)
    (hradius : 0 ≤ radius) (motion : Vec Float32) :
    (circleBounds pos radius motion).EnclosesCircle pos radius motion := by
  have hbelow {x : Float32} (hx : x.isFinite = true) : x - radius ≤ x :=
    sub_le_of_zero_le (isNaN_of_isFinite hx) hradius fun h =>
      absurd h (ne_infinite_of_isFinite hx).1
  have habove {x : Float32} (hx : x.isFinite = true) : x ≤ x + radius :=
    le_add_of_zero_le (isNaN_of_isFinite hx) hradius fun h =>
      absurd h (ne_infinite_of_isFinite hx).2
  have hcenter : (between (pos - Vec.splat radius) (pos + Vec.splat radius)).Contains pos :=
    ⟨hbelow hpos.x, habove hpos.x, hbelow hpos.y, habove hpos.y⟩
  have hswept := sweptFrom_swept hcenter hpos motion
  have hself {x y : Float32} (h : x ≤ y) : x ≤ x ∧ y ≤ y := OrderedKeys.isKey_of_le h
  have hx := OrderedKeys.le_trans (hbelow hpos.x) (habove hpos.x)
  have hy := OrderedKeys.le_trans (hbelow hpos.y) (habove hpos.y)
  exact ⟨(hswept.contains pos hcenter).isValid, hswept.contains pos hcenter,
    hswept.contains _ ⟨(hself hx).1, hx, (hself hy).1, hy⟩,
    hswept.contains _ ⟨hx, (hself hx).2, hy, (hself hy).2⟩, hswept⟩

end Aabb

/-! ## Boxes -/

namespace Corners

/-- Corners that lie in pairs opposite to each other around a finite point are points, and their
bounds enclose that point. -/
theorem contains_center {pos u v : Vec Float32} (hpos : pos.IsFinite) (hu : u.IsKey)
    (hv : v.IsKey) :
    let c : Corners Float32 := ⟨pos + u, pos + v, pos - u, pos - v⟩
    (∀ p ∈ c.toList, p.IsKey) ∧ (Aabb.between c.lowest c.highest).Contains pos := by
  intro c
  have hopposite {x y : Float32} (hx : x.isFinite = true) (hy : IsKey y) :
      IsKey (x + y) ∧ IsKey (x - y) := by
    rcases between_sub_add hx (isKey_iff.mp hy) with ⟨hsub, hadd⟩ | ⟨hadd, hsub⟩
    · exact ⟨(OrderedKeys.isKey_of_le hadd).2, (OrderedKeys.isKey_of_le hsub).1⟩
    · exact ⟨(OrderedKeys.isKey_of_le hadd).1, (OrderedKeys.isKey_of_le hsub).2⟩
  have hkeys {w : Vec Float32} (hw : w.IsKey) : (pos + w).IsKey ∧ (pos - w).IsKey := by
    obtain ⟨haddx, hsubx⟩ := hopposite hpos.x hw.1
    obtain ⟨haddy, hsuby⟩ := hopposite hpos.y hw.2
    exact ⟨⟨haddx, haddy⟩, ⟨hsubx, hsuby⟩⟩
  have hall : ∀ p ∈ c.toList, p.IsKey := by
    simp only [toList, List.forall_mem_cons, List.not_mem_nil, IsEmpty.forall_iff, implies_true,
      and_true]
    exact ⟨(hkeys hu).1, (hkeys hv).1, (hkeys hu).2, (hkeys hv).2⟩
  obtain ⟨hcontains, -⟩ := isHull hall
  -- A corner and the one opposite to it are on both sides of the centre on each axis, whatever the
  -- signs are, so two of the four corners are enough.
  have hfirst : (Aabb.between c.lowest c.highest).Contains (pos + u) :=
    hcontains _ List.mem_cons_self
  have hthird : (Aabb.between c.lowest c.highest).Contains (pos - u) :=
    hcontains _ (List.mem_cons_of_mem _ (List.mem_cons_of_mem _ List.mem_cons_self))
  have haxis {x y low high : Float32} (hx : x.isFinite = true) (hy : IsKey y)
      (hadd : low ≤ x + y ∧ x + y ≤ high) (hsub : low ≤ x - y ∧ x - y ≤ high) :
      low ≤ x ∧ x ≤ high := by
    rcases between_sub_add hx (isKey_iff.mp hy) with ⟨hlow, hhigh⟩ | ⟨hlow, hhigh⟩
    · exact ⟨OrderedKeys.le_trans hsub.1 hlow, OrderedKeys.le_trans hhigh hadd.2⟩
    · exact ⟨OrderedKeys.le_trans hadd.1 hlow, OrderedKeys.le_trans hhigh hsub.2⟩
  obtain ⟨hleft, hright⟩ := haxis hpos.x hu.1 ⟨hfirst.left, hfirst.right⟩
    ⟨hthird.left, hthird.right⟩
  obtain ⟨hbottom, htop⟩ := haxis hpos.y hu.2 ⟨hfirst.bottom, hfirst.top⟩
    ⟨hthird.bottom, hthird.top⟩
  exact ⟨hall, ⟨hleft, hright, hbottom, htop⟩⟩

variable {sin cos : Float32 → Float32} {pos : Vec Float32} {width height angle : Float32}

/-- Half of a corner of finite size, turned, is a point, though it may be infinitely far off. -/
theorem isKey_turned (hwidth : width.isFinite = true) (hheight : height.isFinite = true)
    {s c : Float32} (hs : -1 ≤ s ∧ s ≤ 1) (hc : -1 ≤ c ∧ c ≤ 1) :
    ((0.5 : Float32) • (⟨width, height⟩ : Vec Float32).rotateSC s c).IsKey := by
  have hhalf : 0 < toReal 0.5 := toReal_half ▸ one_half_pos
  have hwc := isFinite_mul_of_le_one hwidth hc.1 hc.2
  have hhs := isFinite_mul_of_le_one hheight hs.1 hs.2
  have hws := isFinite_mul_of_le_one hwidth hs.1 hs.2
  have hhc := isFinite_mul_of_le_one hheight hc.1 hc.2
  exact ⟨isKey_iff.mpr (isNaN_mul_of_pos (value_sub hwc hhs).1 rfl hhalf),
    isKey_iff.mpr (isNaN_mul_of_pos (value_add hws hhc).1 rfl hhalf)⟩

theorem contains_center_ofPose (hpos : pos.IsFinite) (hwidth : width.isFinite = true)
    (hheight : height.isFinite = true) (hsin : -1 ≤ sin angle ∧ sin angle ≤ 1)
    (hcos : -1 ≤ cos angle ∧ cos angle ≤ 1) :
    let c := @ofPose _ (withTurns sin cos) pos width height angle
    (∀ p ∈ c.toList, p.IsKey) ∧ (Aabb.between c.lowest c.highest).Contains pos :=
  contains_center hpos (isKey_turned hwidth hheight hsin hcos)
    (isKey_turned ((isFinite_neg_iff width).trans hwidth) hheight hsin hcos)

end Corners

/-- The bounds of a box that moves: they enclose it, and the motion moves no other edge than those
of the least bounds of its corners that it points to. -/
structure Box.IsEnclosed (b : Box Float32) (motion : Vec Float32) : Prop where
  isValid : b.aabb.isValid = true
  center : b.aabb.Contains b.body.pos
  corners : ∀ p ∈ b.corners.toList, b.aabb.Contains p
  swept : ∃ hull : Aabb Float32, hull.IsHull b.corners.toList ∧ b.aabb.SweptFrom hull motion

theorem Box.isEnclosed_refreshBounds {sin cos : Float32 → Float32} {b : Box Float32}
    (hpos : b.body.pos.IsFinite) (hwidth : b.width.isFinite = true)
    (hheight : b.height.isFinite = true)
    (hsin : -1 ≤ sin b.spin.angle ∧ sin b.spin.angle ≤ 1)
    (hcos : -1 ≤ cos b.spin.angle ∧ cos b.spin.angle ≤ 1) (dt : Float32) :
    (@Box.refreshBounds _ (withTurns sin cos) b dt).IsEnclosed (dt • b.body.vel) := by
  obtain ⟨hkeys, hcenter⟩ := Corners.contains_center_ofPose hpos hwidth hheight hsin hcos
  have hhull := Corners.isHull hkeys
  have hswept := Aabb.sweptFrom_swept hcenter hpos (dt • b.body.vel)
  have hcontains := hswept.contains _ hcenter
  exact ⟨hcontains.isValid, hcontains, fun p hp => hswept.contains p (hhull.contains p hp),
    _, hhull, hswept⟩

/-! ## Lines -/

/-- The bounds of a line between two points, be they infinitely far off, enclose both. -/
theorem Line.contains_withNormal {start stop : Vec Float32} (hstart : start.IsKey)
    (hstop : stop.IsKey) (normal : Vec Float32) :
    (Line.withNormal start stop normal).aabb.Contains start ∧
      (Line.withNormal start stop normal).aabb.Contains stop := by
  have hpad : 0 ≤ (padding : Float32) := by decide +kernel
  have hpad_top := (ne_infinite_of_isFinite (x := (padding : Float32)) rfl).1
  have hlow {x y : Float32} (hx : IsKey x) (hy : IsKey y) :
      (if x < y then x else y) - padding ≤ x ∧ (if x < y then x else y) - padding ≤ y := by
    obtain ⟨hle, hle', -⟩ := choose_smaller hx hy
    have hsub := sub_le_of_zero_le (isKey_iff.mp (OrderedKeys.isKey_of_le hle).1) hpad
      fun _ => hpad_top
    exact ⟨OrderedKeys.le_trans hsub hle, OrderedKeys.le_trans hsub hle'⟩
  have hhigh {x y : Float32} (hx : IsKey x) (hy : IsKey y) :
      x ≤ (if y < x then x else y) + padding ∧ y ≤ (if y < x then x else y) + padding := by
    obtain ⟨hle, hle', -⟩ := choose_larger hx hy
    have hadd := le_add_of_zero_le (isKey_iff.mp (OrderedKeys.isKey_of_le hle).2) hpad
      fun _ => hpad_top
    exact ⟨OrderedKeys.le_trans hle hadd, OrderedKeys.le_trans hle' hadd⟩
  obtain ⟨hleft, hleft'⟩ := hlow hstart.1 hstop.1
  obtain ⟨hright, hright'⟩ := hhigh hstart.1 hstop.1
  obtain ⟨hbottom, hbottom'⟩ := hlow hstart.2 hstop.2
  obtain ⟨htop, htop'⟩ := hhigh hstart.2 hstop.2
  exact ⟨⟨hleft, hright, hbottom, htop⟩, ⟨hleft', hright', hbottom', htop'⟩⟩

/-- The bounds of a line are in order and enclose its ends. -/
structure Line.IsEnclosed (line : Line Float32) : Prop where
  isValid : line.aabb.isValid = true
  start : line.aabb.Contains line.start
  stop : line.aabb.Contains line.stop

theorem Line.isEnclosed_withNormal {start stop : Vec Float32} (hstart : start.IsKey)
    (hstop : stop.IsKey) (normal : Vec Float32) :
    (Line.withNormal start stop normal).IsEnclosed := by
  obtain ⟨h, h'⟩ := Line.contains_withNormal hstart hstop normal
  exact ⟨h.isValid, h, h'⟩

/-- A refresh of the bounds of a particle, ball or box at a finite position gives bounds in order
that enclose the shape, whatever its velocity and the time are, and so does the creation of a line
between two points. Boxes turn by the sine and cosine `sin` and `cos`. -/
theorem bounds_enclose_shapes (sin cos : Float32 → Float32) :
    (∀ (p : Particle Float32) (dt : Float32), p.body.pos.IsFinite → 0 ≤ p.radius →
      (p.refreshBounds dt).aabb.EnclosesCircle p.body.pos p.radius (dt • p.body.vel)) ∧
    (∀ (b : Ball Float32) (dt : Float32), b.body.pos.IsFinite → 0 ≤ b.radius →
      (b.refreshBounds dt).aabb.EnclosesCircle b.body.pos b.radius (dt • b.body.vel)) ∧
    (∀ (b : Box Float32) (dt : Float32), b.body.pos.IsFinite → b.width.isFinite = true →
      b.height.isFinite = true → -1 ≤ sin b.spin.angle ∧ sin b.spin.angle ≤ 1 →
      -1 ≤ cos b.spin.angle ∧ cos b.spin.angle ≤ 1 →
      (@Box.refreshBounds _ (withTurns sin cos) b dt).IsEnclosed (dt • b.body.vel)) ∧
    ∀ start stop : Vec Float32, start.IsKey → stop.IsKey →
      (Line.create start stop).IsEnclosed ∧ ∀ point, (Line.facing start stop point).IsEnclosed :=
  ⟨fun _ _ hpos hradius => Aabb.enclosesCircle_circleBounds hpos hradius _,
    fun _ _ hpos hradius => Aabb.enclosesCircle_circleBounds hpos hradius _,
    fun _ dt hpos hwidth hheight hsin hcos =>
      Box.isEnclosed_refreshBounds hpos hwidth hheight hsin hcos dt,
    fun _ _ hstart hstop => ⟨Line.isEnclosed_withNormal hstart hstop _,
      fun _ => Line.isEnclosed_withNormal hstart hstop _⟩⟩

/-- The arithmetic that runs is the one with the sine and cosine of the machine. -/
example : withTurns Float32.sin Float32.cos = (inferInstance : Scalar Float32) := rfl

/-- A particle, a ball and a box far out, with edges that overflow, where the velocity is infinite
on one axis and no number on the other, and a line without ends. -/
theorem bounds_enclose_shapes_overflow :
    let body : Body Float32 := ⟨⟨3e38, -3e38⟩, ⟨notANumber, infinity⟩, 1, 1⟩
    let spin : Spin Float32 := ⟨1, 1, 0, 0⟩
    let stale : Aabb Float32 := ⟨0, 0, 0, 0⟩
    let p : Particle Float32 := ⟨body, 3e38, stale⟩
    let ball : Ball Float32 := ⟨body, spin, infinity, stale⟩
    let box : Box Float32 := ⟨body, spin, -3e38, 3e38, ⟨0, 0, 0, 0⟩, stale⟩
    (body.pos.IsFinite ∧ 0 ≤ p.radius ∧ 0 ≤ ball.radius ∧ box.width.isFinite = true) ∧
    (p.refreshBounds (-infinity)).aabb.EnclosesCircle p.body.pos 3e38 (-infinity • body.vel) ∧
    (ball.refreshBounds (-1)).aabb.EnclosesCircle ball.body.pos infinity
      ((-1 : Float32) • body.vel) ∧
    (@Box.refreshBounds _ (withTurns (fun _ => 0) fun _ => 1) box notANumber).IsEnclosed
      (notANumber • body.vel) ∧
    (Line.create ⟨-infinity, 0⟩ ⟨infinity, 0⟩).IsEnclosed := by
  intro body spin stale p ball box
  obtain ⟨hparticle, hball, hbox, hline⟩ := bounds_enclose_shapes (fun _ => 0) fun _ => 1
  have hpos : body.pos.IsFinite := ⟨by decide +kernel, by decide +kernel⟩
  have hradius : 0 ≤ p.radius ∧ 0 ≤ ball.radius := by decide +kernel
  have hsize : box.width.isFinite = true ∧ box.height.isFinite = true := by decide +kernel
  have hzero : (-1 : Float32) ≤ 0 ∧ (0 : Float32) ≤ 1 := by decide +kernel
  have hone : (-1 : Float32) ≤ 1 ∧ (1 : Float32) ≤ 1 := by decide +kernel
  have hends : Vec.IsKey (⟨-infinity, 0⟩ : Vec Float32) ∧
      Vec.IsKey (⟨infinity, 0⟩ : Vec Float32) := by
    unfold Vec.IsKey IsKey
    decide +kernel
  exact ⟨⟨hpos, hradius.1, hradius.2, hsize.1⟩, hparticle p _ hpos hradius.1,
    hball ball _ hpos hradius.2, hbox box _ hpos hsize.1 hsize.2 hzero hone,
    (hline _ _ hends.1 hends.2).1⟩

end PlanarDynamics
