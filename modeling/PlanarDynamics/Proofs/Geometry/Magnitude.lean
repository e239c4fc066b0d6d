import PlanarDynamics.Proofs.Binary32.Scale
import PlanarDynamics.Proofs.Contact.Order
import PlanarDynamics.Proofs.Shape.Bounds

/-!
# Lengths and directions

The test against zero passes for the numbers below full precision, and for the infinities, whose
tolerance is infinite as well. A vector whose squared length overflows is therefore taken for zero:
it has no length and no direction, and what depends on them is left out. All other vectors with a
component of size one or more have a length that is not below any component, and a direction that
points where they do.
-/

namespace PlanarDynamics

namespace Binary32

variable {x y s : Float32}

/-! ## The test against zero -/

theorem almostEqual_zero_eq (x : Float32) : Scalar.almostEqual x 0 =
    (decide (x.abs ≤ Scalar.epsilon * x.abs) || decide (x.abs < Scalar.minPositive)) := by
  have hsub := (alike_sub_of_beq_zero x (y := 0) (by decide +kernel)).abs
  have hadd := (alike_add_of_beq_zero x (y := 0) (by decide +kernel)).abs
  exact congrArg₂ (· || ·) (decide_eq_decide.mpr (hsub.le_iff ((Alike.refl _).mul hadd)))
    (decide_eq_decide.mpr (hsub.lt_iff (.refl _)))

theorem isNaN_abs (x : Float32) : x.abs.isNaN = x.isNaN := by
  show x.abs.toModel.unpack.isNaN = x.toModel.unpack.isNaN
  rw [unpack_abs]
  cases x.toModel.unpack <;> rfl

/-- Rounding does not more than double a number, so no finite one but zero is within its own
tolerance. -/
theorem toReal_of_abs_le_epsilon_mul (hx : x.isFinite = true)
    (h : x.abs ≤ Scalar.epsilon * x.abs) : toReal x = 0 := by
  obtain ⟨hepsilon, hepsilon_real⟩ := epsilon_spec
  obtain ⟨habs, habs_real⟩ := toReal_abs hx
  have hproduct : (x.abs * Scalar.epsilon).isFinite = true :=
    isFinite_mul_of_le_one habs (by decide +kernel) (by decide +kernel)
  rw [mul_swap, le_iff_toReal_le habs hproduct,
    toReal_of_nearest (value_mul habs hepsilon) hproduct, habs_real, hepsilon_real] at h
  have hdouble := rounded_le_two_mul (by positivity : 0 ≤ |toReal x| * 2 ^ (-23 : ℤ))
  norm_num at h hdouble
  have : |toReal x| ≤ 0 := by linarith
  exact abs_nonpos_iff.mp this

/-- What is taken for zero: the numbers below full precision, and the infinities. -/
theorem almostEqual_zero_iff : Scalar.almostEqual x 0 = true ↔
    x.isNaN = false ∧ (x.isFinite = true → |toReal x| < 2 ^ (-126 : ℤ)) := by
  obtain ⟨hmin, hmin_real⟩ := minPositive_spec
  rw [almostEqual_zero_eq, Bool.or_eq_true, decide_eq_true_eq, decide_eq_true_eq]
  constructor
  · intro h
    constructor
    · rw [← isNaN_abs]
      exact h.elim (fun h => (isNaN_eq_false_of_le h).1) (fun h => (isNaN_eq_false_of_lt h).1)
    · intro hx
      obtain ⟨habs, habs_real⟩ := toReal_abs hx
      rcases h with h | h
      · rw [toReal_of_abs_le_epsilon_mul hx h, abs_zero]
        exact zpow_pos two_pos _
      · rwa [lt_iff_toReal_lt habs hmin, habs_real, hmin_real] at h
  · rintro ⟨hnan, hsmall⟩
    cases hx : x.isFinite with
    | true =>
      obtain ⟨habs, habs_real⟩ := toReal_abs hx
      right
      rw [lt_iff_toReal_lt habs hmin, habs_real, hmin_real]
      exact hsmall hx
    | false =>
      left
      obtain ⟨hnan', htop⟩ : x.abs.isNaN = false ∧ value x.abs = ⊤ := by
        apply value_abs_of_infinite hnan
        by_contra! hne
        rw [isFinite_of_value hnan hne.1 hne.2] at hx
        cases hx
      obtain ⟨hproduct, hproduct_top⟩ := value_top_mul hnan' htop epsilon_spec.1 (by
        rw [epsilon_spec.2]
        positivity)
      rw [mul_swap, le_iff_value_le hnan' hproduct, htop, hproduct_top]

/-! ## Squares, roots and quotients -/

theorem sq_spec (hx : x.isFinite = true) : (x * x).isNaN = false ∧ 0 ≤ x * x := by
  obtain ⟨hnan, hvalue⟩ := value_mul hx hx
  refine ⟨hnan, ?_⟩
  rw [le_iff_value_le isNaN_zero hnan, hvalue, value_zero]
  exact nearest_nonneg (mul_self_nonneg _)

theorem toReal_sqrt (hx : x.isFinite = true) (hx0 : 0 ≤ toReal x) :
    AtMost 64 (Scalar.sqrt x) ∧ toReal (Scalar.sqrt x) = rounded √(toReal x) := by
  have hbound : AtMost 64 (Scalar.sqrt x) :=
    (AtMost.of_isFinite hx).sqrt hx0 (by norm_num) (by norm_num)
  exact ⟨hbound, toReal_of_nearest (value_sqrt hx hx0) hbound.isFinite⟩

/-- A number is not above the root of what its square is not above. -/
theorem abs_le_sqrt (hx : AtLeast (-63) x) (hs : s.isFinite = true) (h : x * x ≤ s) :
    |toReal x| ≤ toReal (Scalar.sqrt s) := by
  obtain ⟨hnan, hnonneg⟩ := sq_spec hx.isFinite
  have hsq : (x * x).isFinite = true := isFinite_of_between (by rfl) hs hnonneg h
  rw [le_iff_toReal_le hsq hs, toReal_of_nearest (value_mul hx.isFinite hx.isFinite) hsq, ← sq,
    ← sq_abs] at h
  have hs0 : 0 ≤ toReal s := (rounded_nonneg (sq_nonneg _)).trans h
  have hgrid : OnGrid |toReal x| := by
    rw [← (toReal_abs hx.isFinite).2]
    exact onGrid_toReal _
  calc |toReal x| ≤ rounded √(rounded (|toReal x| ^ 2)) :=
        le_rounded_sqrt_rounded_sq hgrid hx.le_abs
    _ ≤ rounded √(toReal s) := rounded_mono (Real.sqrt_le_sqrt h)
    _ = toReal (Scalar.sqrt s) := (toReal_sqrt hs hs0).2.symm

/-- Dividing by a positive number that is not smaller. -/
theorem isFinite_div_of_abs_le (hx : x.isFinite = true) (hy : y.isFinite = true)
    (hy0 : 0 < toReal y) (h : |toReal x| ≤ toReal y) : (x / y).isFinite = true := by
  apply (AtMost.of_nearest (a := 0) (value_div hx hy hy0.ne') _ (by norm_num)
    (by norm_num)).isFinite
  rw [abs_div, abs_of_pos hy0, zpow_zero]
  exact div_le_one_of_le₀ h hy0.le

/-- A quotient that is not too small is on the side of zero that the numerator is on. -/
theorem mul_toReal_div_pos (hx : AtLeast 0 x) (hy : AtMost 64 y) (h : |toReal x| ≤ toReal y) :
    0 < toReal x * toReal (x / y) := by
  have hy0 : 0 < toReal y := hx.size_pos.trans_le h
  have hfinite := isFinite_div_of_abs_le hx.isFinite hy.isFinite hy0 h
  have hne := (hx.div hy hy0.ne' hfinite (by norm_num)).ne_zero
  rw [toReal_of_nearest (value_div hx.isFinite hy.isFinite hy0.ne') hfinite] at hne ⊢
  have hside := mul_rounded_nonneg (toReal x / toReal y)
  rw [div_mul_eq_mul_div, le_div_iff₀ hy0, zero_mul] at hside
  exact lt_of_le_of_ne hside (mul_ne_zero hx.ne_zero hne).symm

end Binary32

open Binary32

/-! ## Vectors -/

namespace Vec

variable {v : Vec Float32}

theorem le_lengthSq (hv : v.IsFinite) : v.x * v.x ≤ v.lengthSq ∧ v.y * v.y ≤ v.lengthSq := by
  obtain ⟨hx, hx0⟩ := sq_spec hv.x
  obtain ⟨hy, hy0⟩ := sq_spec hv.y
  have hbot {a : Float32} (ha : 0 ≤ a) : value a ≠ ⊥ := by
    rw [le_iff_isNaN_value, value_zero] at ha
    exact (EReal.bot_lt_zero.trans_le ha.2.2).ne'
  constructor
  · exact le_add_of_zero_le hx hy0 fun h => absurd h (hbot hx0)
  · have hswap : v.lengthSq = v.y * v.y + v.x * v.x := add_swap ..
    rw [hswap]
    exact le_add_of_zero_le hy hx0 fun h => absurd h (hbot hy0)

theorem zero_le_lengthSq (hv : v.IsFinite) : 0 ≤ v.lengthSq :=
  OrderedKeys.le_trans (sq_spec hv.x).2 (le_lengthSq hv).1

/-- A size and a direction as the length and direction of `v` should be. -/
structure IsMeasuredBy (v : Vec Float32) (size : Float32) (dir : Vec Float32) : Prop where
  size_isFinite : size.isFinite = true
  size_ne_zero : ¬ (size == 0) = true
  x_le : v.x.abs ≤ size
  y_le : v.y.abs ≤ size
  dir_isFinite : dir.IsFinite
  dir_x : 1 ≤ v.x.abs → 0 < toReal v.x * toReal dir.x
  dir_y : 1 ≤ v.y.abs → 0 < toReal v.y * toReal dir.y

theorem one_le_abs_iff {x : Float32} (hx : x.isFinite = true) : 1 ≤ x.abs ↔ AtLeast 0 x := by
  obtain ⟨habs, habs_real⟩ := toReal_abs hx
  rw [le_iff_toReal_le rfl habs, toReal_one, habs_real]
  exact ⟨fun h => ⟨hx, by rwa [zpow_zero]⟩, fun h => by simpa using h.le_abs⟩

/-- The length is finite where the squared length is, and no component is larger. -/
theorem abs_le_length (hv : v.IsFinite) (hlarge : 1 ≤ v.x.abs ∨ 1 ≤ v.y.abs)
    (h : v.lengthSq.isFinite = true) :
    AtMost 64 v.length ∧ 1 ≤ toReal v.length ∧ |toReal v.x| ≤ toReal v.length ∧
      |toReal v.y| ≤ toReal v.length := by
  obtain ⟨hx, hy⟩ := le_lengthSq hv
  have hnonneg := (le_iff_toReal_le (by rfl) h).mp (zero_le_lengthSq hv)
  have hsize : AtMost 64 v.length := (toReal_sqrt h hnonneg).1
  have hle {a : Float32} (ha : AtLeast 0 a) (hsq : a * a ≤ v.lengthSq) :
      |toReal a| ≤ toReal v.length := abs_le_sqrt (ha.mono (by norm_num)) h hsq
  rw [one_le_abs_iff hv.x, one_le_abs_iff hv.y] at hlarge
  have hone : 1 ≤ toReal v.length := by
    rcases hlarge with hlarge | hlarge
    · simpa using hlarge.le_abs.trans (hle hlarge hx)
    · simpa using hlarge.le_abs.trans (hle hlarge hy)
  have hbound {a : Float32} (ha : a.isFinite = true) (hsq : a * a ≤ v.lengthSq) :
      |toReal a| ≤ toReal v.length := by
    by_cases hlarge : AtLeast 0 a
    · exact hle hlarge hsq
    · by_contra! hlt
      exact hlarge ⟨ha, by rw [zpow_zero]; exact (hone.trans_lt hlt).le⟩
  exact ⟨hsize, hone, hbound hv.x hx, hbound hv.y hy⟩

theorem isMeasuredBy (hv : v.IsFinite) (hlarge : 1 ≤ v.x.abs ∨ 1 ≤ v.y.abs)
    (h : v.lengthSq.isFinite = true) :
    v.IsMeasuredBy v.magnitudeAndDirection.1 v.magnitudeAndDirection.2 := by
  obtain ⟨hsize, hone, hx, hy⟩ := abs_le_length hv hlarge h
  have hpos : 0 < toReal v.length := one_pos.trans_le hone
  have hnonzero : ¬ Scalar.almostEqual v.length 0 = true := by
    rw [almostEqual_zero_iff]
    intro hsmall
    have hlt := hsmall.2 hsize.isFinite
    rw [abs_of_pos hpos] at hlt
    norm_num at hlt
    linarith
  have heq : v.magnitudeAndDirection = (v.length, v.div v.length) := if_neg hnonzero
  have hle {a : Float32} (ha : a.isFinite = true) (h : |toReal a| ≤ toReal v.length) :
      a.abs ≤ v.length := by
    rwa [le_iff_toReal_le (toReal_abs ha).1 hsize.isFinite, (toReal_abs ha).2]
  rw [heq]
  exact {
    size_isFinite := hsize.isFinite
    size_ne_zero := fun hzero => hpos.ne' (toReal_of_beq_zero hzero)
    x_le := hle hv.x hx
    y_le := hle hv.y hy
    dir_isFinite := ⟨isFinite_div_of_abs_le hv.x hsize.isFinite hpos hx,
      isFinite_div_of_abs_le hv.y hsize.isFinite hpos hy⟩
    dir_x := fun h => mul_toReal_div_pos ((one_le_abs_iff hv.x).mp h) hsize hx
    dir_y := fun h => mul_toReal_div_pos ((one_le_abs_iff hv.y).mp h) hsize hy }

/-- A squared length that overflows is taken for that of the zero vector. -/
theorem magnitudeAndDirection_of_overflow (hv : v.IsFinite) (h : v.lengthSq.isFinite = false) :
    v.magnitudeAndDirection = (0, 0) := by
  have hzero : Scalar.almostEqual v.length 0 = true := by
    have hnonneg := zero_le_lengthSq hv
    rw [le_iff_isNaN_value, value_zero] at hnonneg
    obtain ⟨-, hnan, hvalue⟩ := hnonneg
    have htop := (value_top_or_isFinite hnan hvalue).resolve_right (Bool.not_eq_true _ ▸ h)
    obtain ⟨hnan', htop'⟩ : v.length.isNaN = false ∧ value v.length = ⊤ := value_sqrt_top hnan htop
    rw [almostEqual_zero_iff]
    exact ⟨hnan', fun hfinite => absurd htop' (ne_infinite_of_isFinite hfinite).1⟩
  exact if_pos hzero

/-- What depends on the length and the direction of `v` is left out: the force of a point, the
attraction of two shapes, and friction. -/
structure HasNoEffect (v : Vec Float32) : Prop where
  pointGravity : ∀ (source : Vec Float32) (strength : Float32) (m : Mover Float32),
    source - m.body.pos = v → (ForceField.pointGravity source strength).force m = 0
  attraction : ∀ (g dt : Float32) (a b : Mover Float32),
    b.body.pos - a.body.pos = v → Attraction.attract g dt a b = (a, b)
  friction : ∀ (c : ContactLaw Float32) (momentum normal spinTerm : Vec Float32),
    momentum - momentum.projOnUnit normal - spinTerm = v → c.friction.isFinite = true →
      (c.lineImpulse momentum normal spinTerm).Alike
        ((-(1 + c.restitution)) • momentum.projOnUnit normal)

theorem minNum_length_zero (v : Vec Float32) : (Scalar.minNum v.length 0 == 0) = true := by
  unfold Scalar.minNum
  split
  case isTrue => decide +kernel
  case isFalse hlt =>
    cases hnan : v.length.isNaN with
    | true =>
      rw [if_neg fun hself => Bool.false_ne_true ((isNaN_eq_false_of_beq hself).1.symm.trans hnan)]
      decide +kernel
    | false =>
      have hnonneg : 0 ≤ value v.length := value_sqrt_nonneg hnan
      rw [lt_iff_value_lt isNaN_zero hnan, value_zero, not_lt] at hlt
      rw [if_pos (beq_self hnan), beq_iff_value_eq hnan isNaN_zero, value_zero]
      exact le_antisymm hlt hnonneg

theorem hasNoEffect (h : v.magnitudeAndDirection = (0, 0)) : v.HasNoEffect := by
  have hzero : ((0 : Float32) == 0) = true := by decide +kernel
  constructor
  · rintro source strength m rfl
    simp only [ForceField.force, ForceField.pointGravity, h]
    exact if_pos hzero
  · rintro g dt a b rfl
    simp only [Attraction.attract, h]
    exact if_pos hzero
  · rintro c momentum normal spinTerm rfl hfriction
    have hcap := minNum_length_zero (momentum.projOnUnit normal)
    have hproduct : (-c.friction * Scalar.minNum (momentum.projOnUnit normal).length 0 == 0) =
        true := by
      rw [mul_swap]
      exact mul_beq_zero hcap ((isFinite_neg_iff _).trans hfriction)
    have hslide := mul_beq_zero hzero (isFinite_of_beq_zero hproduct)
    simp only [ContactLaw.lineImpulse, h]
    exact ⟨alike_add_of_beq_zero _ hslide, alike_add_of_beq_zero _ hslide⟩

/-! ## Overflow -/

theorem isFinite_lengthSq (hx : AtMost 63 v.x) (hy : AtMost 63 v.y) :
    v.lengthSq.isFinite = true :=
  ((hx.mul hx (by norm_num) (by norm_num)).add (hy.mul hy (by norm_num) (by norm_num)) (by norm_num)
    (by norm_num)).isFinite

theorem lengthSq_overflow (hlarge : AtLeast 64 v.x ∨ AtLeast 64 v.y) :
    v.lengthSq.isFinite = false := by
  by_contra h
  rw [Bool.not_eq_false] at h
  rcases hlarge with hx | hy
  · have hsq := isFinite_of_isFinite_add h
    rw [hx.mul_infinite hx (by norm_num)] at hsq
    cases hsq
  · have hsq := isFinite_right_of_add h
    rw [hy.mul_infinite hy (by norm_num)] at hsq
    cases hsq

/-- A finite vector with a component of size one or more has a length that is not below any
component and a direction that points where the large components do, if and only if its squared
length is finite. If not, it is taken for the zero vector, without length or direction, and point
gravity, attraction and friction along it are left out. The squared length is finite for components
up to `2 ^ 63` and is not from `2 ^ 64` on. -/
theorem magnitudeAndDirection_of_one_le (hv : v.IsFinite)
    (hlarge : 1 ≤ v.x.abs ∨ 1 ≤ v.y.abs) :
    (v.lengthSq.isFinite = true →
      v.IsMeasuredBy v.magnitudeAndDirection.1 v.magnitudeAndDirection.2) ∧
    (v.lengthSq.isFinite = false → v.magnitudeAndDirection = (0, 0) ∧ v.HasNoEffect) ∧
    (AtMost 63 v.x → AtMost 63 v.y → v.lengthSq.isFinite = true) ∧
    (AtLeast 64 v.x ∨ AtLeast 64 v.y → v.lengthSq.isFinite = false) := by
  refine ⟨isMeasuredBy hv hlarge, fun h => ?_, isFinite_lengthSq, lengthSq_overflow⟩
  have hzero := magnitudeAndDirection_of_overflow hv h
  exact ⟨hzero, hasNoEffect hzero⟩

/-- The vector `(3, 4)` has a length and a direction, and a vector of length `1e20` has none. -/
theorem magnitudeAndDirection_of_one_le_near_far :
    IsMeasuredBy ⟨3, 4⟩ (magnitudeAndDirection ⟨3, 4⟩).1 (magnitudeAndDirection ⟨3, 4⟩).2 ∧
      HasNoEffect ⟨1e20, 0⟩ := by
  have hnear := magnitudeAndDirection_of_one_le (v := ⟨3, 4⟩)
    ⟨by decide +kernel, by decide +kernel⟩ (.inl (by decide +kernel))
  have hfar := magnitudeAndDirection_of_one_le (v := ⟨1e20, 0⟩)
    ⟨by decide +kernel, by decide +kernel⟩ (.inl (by decide +kernel))
  exact ⟨hnear.1 (by decide +kernel), (hfar.2.1 (by decide +kernel)).2⟩

/-- A vector far from zero, with the length and the direction of the zero vector. -/
theorem far_vector_taken_for_zero : ∃ v : Vec Float32, v.IsFinite ∧ 1 ≤ v.x.abs ∧
    v.magnitudeAndDirection = (0, 0) ∧ ¬ v.x.abs ≤ v.magnitudeAndDirection.1 :=
  ⟨⟨1e20, 0⟩, ⟨by decide +kernel, by decide +kernel⟩, by decide +kernel, by decide +kernel,
    by decide +kernel⟩

end Vec

end PlanarDynamics
