import PlanarDynamics.Proofs.Binary32.Overflow
import PlanarDynamics.Proofs.Binary32.Quotient

/-!
# Opposite numbers

Rounding to nearest treats both signs alike, so every operation on opposite operands gives the
opposite result. The one exception is the sign of a zero: a sum that cancels is the positive zero
on either side. Numbers are therefore compared up to the sign of zeros, which no operation but a
division by zero lets through to a number that is not zero.
-/

namespace PlanarDynamics.Binary32

open Float.Model (Format UnpackedFloat)
open Float.Model.UnpackedFloat

/-! ## Data -/

section Data

variable {f : Format} (u v : UnpackedFloat)

theorem foldZero_add :
    foldZero (UnpackedFloat.add f u v) =
      foldZero (UnpackedFloat.add f (foldZero u) (foldZero v)) := by
  have hzero (s t : Sign) :
      foldZero (UnpackedFloat.add f (.zero s) (.zero t)) = .zero .positive := by
    rw [UnpackedFloat.add]
    split <;> rfl
  cases u with
  | zero s =>
    cases v with
    | zero t => exact (hzero s t).trans (hzero _ _).symm
    | _ => rfl
  | _ => cases v <;> rfl

theorem foldZero_mul :
    foldZero (UnpackedFloat.mul f u v) =
      foldZero (UnpackedFloat.mul f (foldZero u) (foldZero v)) := by
  cases u <;> cases v <;> rfl

/-- The divisor keeps its sign: it decides between the two infinities if it is zero. -/
theorem foldZero_div :
    foldZero (UnpackedFloat.div f u v) = foldZero (UnpackedFloat.div f (foldZero u) v) := by
  cases u <;> cases v <;> rfl

theorem foldZero_sqrt :
    foldZero (UnpackedFloat.sqrt f u) = foldZero (UnpackedFloat.sqrt f (foldZero u)) := by
  cases u <;> rfl

theorem foldZero_neg : foldZero u.neg = foldZero (foldZero u).neg := by
  cases u <;> rfl

theorem foldZero_abs : foldZero u.abs = foldZero (foldZero u).abs := by
  cases u <;> rfl

theorem sum_comm : UnpackedFloat.add f u v = UnpackedFloat.add f v u := by
  cases u <;> cases v <;> try rfl
  case infinity.infinity s t => cases s <;> cases t <;> rfl
  case zero.zero s t => cases s <;> cases t <;> rfl
  case finite.finite s m e hm t n k hn =>
    simp only [UnpackedFloat.add, min_comm, Int.add_comm]

theorem roundWithAccuracy_neg (s : Sign) (m : ℕ) (e : ℤ) (a : Accuracy) :
    roundWithAccuracy f (-s) m e a = (roundWithAccuracy f s m e a).neg := by
  unfold roundWithAccuracy
  dsimp only
  split <;> rfl

theorem round_neg (s : Sign) (m : ℕ) (e : ℤ) :
    UnpackedFloat.round f (-s) m e = (UnpackedFloat.round f s m e).neg :=
  roundWithAccuracy_neg ..

theorem foldZero_normalize_neg (k e : ℤ) :
    foldZero (UnpackedFloat.normalize f (-k) e .positive) =
      foldZero (UnpackedFloat.normalize f k e .positive).neg := by
  unfold UnpackedFloat.normalize
  rcases lt_trichotomy k 0 with h | rfl | h
  · rw [Int.compare_eq_lt.mpr h, Int.compare_eq_gt.mpr (Int.neg_pos_of_neg h)]
    exact congrArg foldZero (round_neg .negative _ _)
  · rfl
  · rw [Int.compare_eq_gt.mpr h, Int.compare_eq_lt.mpr (Int.neg_neg_of_pos h), neg_neg]
    exact congrArg foldZero (round_neg .positive _ _)

theorem sign_neg_mul (s t : Sign) : -s * t = -(s * t) := by
  cases s <;> cases t <;> rfl

theorem sign_neg_div (s t : Sign) : -s / t = -(s / t) := by
  cases s <;> cases t <;> rfl

theorem foldZero_neg_add_neg :
    foldZero (UnpackedFloat.add f u.neg v.neg) = foldZero (UnpackedFloat.add f u v).neg := by
  cases u <;> cases v <;> try rfl
  case infinity.infinity s t => cases s <;> cases t <;> rfl
  case zero.zero s t => cases s <;> cases t <;> rfl
  case finite.finite s m e hm t n k hn =>
    show foldZero (UnpackedFloat.add f (.finite (-s) m e hm) (.finite (-t) n k hn)) = _
    simp only [UnpackedFloat.add, apply_neg]
    rw [← neg_add, foldZero_normalize_neg]

theorem neg_mul_eq : UnpackedFloat.mul f u.neg v = (UnpackedFloat.mul f u v).neg := by
  cases u <;> cases v <;>
    simp only [UnpackedFloat.neg, UnpackedFloat.mul, sign_neg_mul, roundWithAccuracy_neg]

theorem neg_div_eq : UnpackedFloat.div f u.neg v = (UnpackedFloat.div f u v).neg := by
  cases u <;> cases v <;>
    simp only [UnpackedFloat.neg, UnpackedFloat.div, sign_neg_div, roundWithAccuracy_neg]

theorem product_comm : UnpackedFloat.mul f u v = UnpackedFloat.mul f v u := by
  have hsign (s t : Sign) : s * t = t * s := by cases s <;> cases t <;> rfl
  cases u <;> cases v <;>
    simp only [UnpackedFloat.mul, hsign, Nat.mul_comm, Int.add_comm]

end Data

/-! ## Packing -/

theorem unpack_packComponents_neg (s : Sign) (e : BitVec 8) (m : BitVec 23) :
    unpack Format.binary32 (packComponents Format.binary32 (-s) e m) =
      (unpack Format.binary32 (packComponents Format.binary32 s e m)).neg := by
  rw [unpack_eq, unpack_eq]
  simp only [biased_packComponents, fraction_packComponents, signOf_packComponents]
  split_ifs <;> rfl

/-- Packing reads the sign last. -/
theorem unpack_pack_neg (u : UnpackedFloat) :
    unpack Format.binary32 (pack Format.binary32 u.neg) =
      (unpack Format.binary32 (pack Format.binary32 u)).neg := by
  cases u with
  | notANumber =>
    simp only [UnpackedFloat.neg, unpack_pack (u := .notANumber) trivial]
    rfl
  | infinity s => exact unpack_packComponents_neg ..
  | zero s => exact unpack_packComponents_neg ..
  | finite s m e hm =>
    simp only [UnpackedFloat.neg, pack]
    split
    · exact unpack_packComponents_neg ..
    · split <;> exact unpack_packComponents_neg ..

theorem foldZero_unpack_pack (u : UnpackedFloat) :
    foldZero (unpack Format.binary32 (pack Format.binary32 u)) =
      foldZero (unpack Format.binary32 (pack Format.binary32 (foldZero u))) := by
  cases u with
  | zero s =>
    rw [foldZero, unpack_pack (u := .zero s) trivial, unpack_pack (u := .zero .positive) trivial]
    rfl
  | _ => rfl

/-- Data that agree up to the sign of zeros pack to numbers that do. -/
theorem foldZero_ofModel_pack {u v : UnpackedFloat} (h : foldZero u = foldZero v) :
    foldZero (Float32.ofModel (.pack u)).toModel.unpack =
      foldZero (Float32.ofModel (.pack v)).toModel.unpack := by
  show foldZero (unpack Format.binary32 (pack Format.binary32 u)) =
    foldZero (unpack Format.binary32 (pack Format.binary32 v))
  rw [foldZero_unpack_pack u, h, ← foldZero_unpack_pack]

theorem neg_ofModel_pack (u : UnpackedFloat) :
    -Float32.ofModel (.pack u) = Float32.ofModel (.pack u.neg) := by
  apply eq_of_unpack_eq
  rw [unpack_neg]
  exact (unpack_pack_neg u).symm

/-! ## Machine numbers -/

/-- The same number, up to the sign of a zero, or both no number. -/
def Alike (x y : Float32) : Prop := (x == y) = true ∨ x.isNaN = true ∧ y.isNaN = true

variable {x x' y y' : Float32}

theorem unpack_of_isNaN (h : x.isNaN = true) : x.toModel.unpack = .notANumber := by
  have hunpack : x.toModel.unpack.isNaN = true := h
  cases hu : x.toModel.unpack with
  | notANumber => rfl
  | _ => rw [hu] at hunpack; cases hunpack

theorem isNaN_foldZero (u : UnpackedFloat) : (foldZero u).isNaN = u.isNaN := by
  cases u <;> rfl

theorem valueOf_foldZero (u : UnpackedFloat) : valueOf (foldZero u) = valueOf u := by
  cases u <;> rfl

theorem isFinite_foldZero (u : UnpackedFloat) : (foldZero u).isFinite = u.isFinite := by
  cases u <;> rfl

theorem realOf_foldZero (u : UnpackedFloat) : realOf (foldZero u) = realOf u := by
  cases u <;> rfl

/-- Numbers are alike if adding zero makes them the same. -/
theorem alike_iff : Alike x y ↔ foldZero x.toModel.unpack = foldZero y.toModel.unpack := by
  constructor
  · rintro (h | ⟨hx, hy⟩)
    · obtain ⟨hx, hy⟩ := isNaN_eq_false_of_beq h
      have hvalue := (beq_iff_value_eq hx hy).mp h
      rcases eq_of_position_eq (canonical_toModel x) (fits_toModel x) (canonical_toModel y)
        (fits_toModel y) hx hy (position_eq_of_value_eq hx hy hvalue) with hunpack | ⟨s, t, hs, ht⟩
      · rw [hunpack]
      · rw [hs, ht]
        rfl
    · rw [unpack_of_isNaN hx, unpack_of_isNaN hy]
  · intro h
    have hnan : x.isNaN = y.isNaN :=
      (isNaN_foldZero _).symm.trans ((congrArg UnpackedFloat.isNaN h).trans (isNaN_foldZero _))
    have hvalue : value x = value y :=
      (valueOf_foldZero _).symm.trans ((congrArg valueOf h).trans (valueOf_foldZero _))
    cases hx : x.isNaN with
    | true => exact .inr ⟨hx, hnan ▸ hx⟩
    | false => exact .inl ((beq_iff_value_eq hx (hnan ▸ hx)).mpr hvalue)

namespace Alike

theorem refl (x : Float32) : Alike x x := alike_iff.mpr rfl

theorem symm (h : Alike x y) : Alike y x := alike_iff.mpr (alike_iff.mp h).symm

theorem trans (h : Alike x y) (h' : Alike y y') : Alike x y' :=
  alike_iff.mpr ((alike_iff.mp h).trans (alike_iff.mp h'))

theorem isNaN (h : Alike x y) : x.isNaN = y.isNaN := by
  have hfold := congrArg UnpackedFloat.isNaN (alike_iff.mp h)
  rwa [isNaN_foldZero, isNaN_foldZero] at hfold

theorem isFinite (h : Alike x y) : x.isFinite = y.isFinite := by
  have hfold := congrArg UnpackedFloat.isFinite (alike_iff.mp h)
  rwa [isFinite_foldZero, isFinite_foldZero] at hfold

theorem toReal (h : Alike x y) : Binary32.toReal x = Binary32.toReal y := by
  have hfold := congrArg realOf (alike_iff.mp h)
  rwa [realOf_foldZero, realOf_foldZero] at hfold

theorem value (h : Alike x y) : Binary32.value x = Binary32.value y := by
  have hfold := congrArg valueOf (alike_iff.mp h)
  rwa [valueOf_foldZero, valueOf_foldZero] at hfold

/-- Only zeros are alike without being the same. -/
theorem eq_of_ne_zero (h : Alike x y) (hzero : ¬ (y == 0) = true) : x = y := by
  apply eq_of_unpack_eq
  cases hy : y.isNaN with
  | true => rw [unpack_of_isNaN (h.isNaN.trans hy), unpack_of_isNaN hy]
  | false =>
    rw [beq_iff_value_eq hy isNaN_zero] at hzero
    rw [eq_of_value_eq (h.isNaN.trans hy) hy hzero h.value]

theorem neg (h : Alike x y) : Alike (-x) (-y) := by
  rw [alike_iff] at h ⊢
  rw [unpack_neg, unpack_neg, foldZero_neg, h, ← foldZero_neg]

theorem abs (h : Alike x y) : Alike x.abs y.abs := by
  rw [alike_iff] at h ⊢
  rw [unpack_abs, unpack_abs, foldZero_abs, h, ← foldZero_abs]

theorem add (hx : Alike x x') (hy : Alike y y') : Alike (x + y) (x' + y') := by
  rw [alike_iff] at hx hy ⊢
  apply foldZero_ofModel_pack
  rw [foldZero_add, hx, hy, ← foldZero_add]

theorem mul (hx : Alike x x') (hy : Alike y y') : Alike (x * y) (x' * y') := by
  rw [alike_iff] at hx hy ⊢
  apply foldZero_ofModel_pack
  rw [foldZero_mul, hx, hy, ← foldZero_mul]

theorem div (hx : Alike x x') (y : Float32) : Alike (x / y) (x' / y) := by
  rw [alike_iff] at hx ⊢
  apply foldZero_ofModel_pack
  rw [foldZero_div, hx, ← foldZero_div]

theorem sqrt (h : Alike x y) : Alike (Scalar.sqrt x) (Scalar.sqrt y) := by
  rw [alike_iff] at h ⊢
  apply foldZero_ofModel_pack
  rw [foldZero_sqrt, h, ← foldZero_sqrt]

end Alike

theorem add_swap (x y : Float32) : x + y = y + x :=
  congrArg (fun u => Float32.ofModel (.pack u)) (sum_comm ..)

theorem mul_swap (x y : Float32) : x * y = y * x :=
  congrArg (fun u => Float32.ofModel (.pack u)) (product_comm ..)

theorem isFinite_right_of_mul (h : (x * y).isFinite = true) : y.isFinite = true :=
  isFinite_of_isFinite_mul (mul_swap x y ▸ h)

theorem isFinite_right_of_add (h : (x + y).isFinite = true) : y.isFinite = true :=
  isFinite_of_isFinite_add (add_swap x y ▸ h)

theorem isFinite_right_of_sub (h : (x - y).isFinite = true) : y.isFinite = true :=
  isFinite_neg_iff y ▸ isFinite_right_of_add (sub_eq_add_opposite x y ▸ h)

theorem opposite_opposite (x : Float32) : - -x = x := by
  apply eq_of_unpack_eq
  rw [unpack_neg, unpack_neg]
  cases x.toModel.unpack with
  | notANumber => rfl
  | infinity s => cases s <;> rfl
  | zero s => cases s <;> rfl
  | finite s m e hm => cases s <;> rfl

theorem opposite_mul (x y : Float32) : -x * y = -(x * y) := by
  have hmul : -x * y = .ofModel (.pack
    (UnpackedFloat.mul Format.binary32 (-x).toModel.unpack y.toModel.unpack)) := rfl
  rw [hmul, unpack_neg, neg_mul_eq, ← neg_ofModel_pack]
  rfl

theorem mul_opposite (x y : Float32) : x * -y = -(x * y) := by
  rw [mul_swap, opposite_mul, mul_swap]

theorem opposite_div (x y : Float32) : -x / y = -(x / y) := by
  have hdiv : -x / y = .ofModel (.pack
    (UnpackedFloat.div Format.binary32 (-x).toModel.unpack y.toModel.unpack)) := rfl
  rw [hdiv, unpack_neg, neg_div_eq, ← neg_ofModel_pack]
  rfl

theorem alike_opposite_add_opposite (x y : Float32) : Alike (-x + -y) (-(x + y)) := by
  have hsum : -(x + y) = .ofModel (.pack
    (UnpackedFloat.add Format.binary32 x.toModel.unpack y.toModel.unpack).neg) :=
    neg_ofModel_pack _
  rw [alike_iff, hsum]
  apply foldZero_ofModel_pack
  rw [unpack_neg, unpack_neg]
  exact foldZero_neg_add_neg ..

/-- Adding a zero of either sign changes no more than the sign of a zero. -/
theorem alike_add_of_beq_zero (x : Float32) (hy : (y == 0) = true) : Alike (x + y) x := by
  apply ((Alike.refl x).add (.inl hy)).trans
  rw [alike_iff, unpack_add_zero]
  cases x.toModel.unpack <;> rfl

theorem alike_sub_of_beq_zero (x : Float32) (hy : (y == 0) = true) : Alike (x - y) x := by
  have hneg : Alike (-y) 0 := (Alike.neg (.inl hy)).trans (.inl (by decide +kernel))
  rw [sub_eq_add_opposite]
  exact ((Alike.refl x).add hneg).trans (alike_add_of_beq_zero x (by decide +kernel))

/-- A difference taken the other way round. -/
theorem alike_sub_swap (x y : Float32) : Alike (y - x) (-(x - y)) := by
  rw [sub_eq_add_opposite, sub_eq_add_opposite]
  have hneg := alike_opposite_add_opposite x (-y)
  rw [opposite_opposite, add_swap] at hneg
  exact hneg

/-! ## Comparisons -/

theorem lt_iff_isNaN_value :
    x < y ↔ x.isNaN = false ∧ y.isNaN = false ∧ value x < value y := by
  constructor
  · intro h
    obtain ⟨hx, hy⟩ := isNaN_eq_false_of_lt h
    exact ⟨hx, hy, (lt_iff_value_lt hx hy).mp h⟩
  · rintro ⟨hx, hy, h⟩
    exact (lt_iff_value_lt hx hy).mpr h

theorem le_iff_isNaN_value :
    x ≤ y ↔ x.isNaN = false ∧ y.isNaN = false ∧ value x ≤ value y := by
  constructor
  · intro h
    obtain ⟨hx, hy⟩ := isNaN_eq_false_of_le h
    exact ⟨hx, hy, (le_iff_value_le hx hy).mp h⟩
  · rintro ⟨hx, hy, h⟩
    exact (le_iff_value_le hx hy).mpr h

theorem beq_iff_isNaN_value :
    (x == y) = true ↔ x.isNaN = false ∧ y.isNaN = false ∧ value x = value y := by
  constructor
  · intro h
    obtain ⟨hx, hy⟩ := isNaN_eq_false_of_beq h
    exact ⟨hx, hy, (beq_iff_value_eq hx hy).mp h⟩
  · rintro ⟨hx, hy, h⟩
    exact (beq_iff_value_eq hx hy).mpr h

theorem Alike.lt_iff (hx : Alike x x') (hy : Alike y y') : x < y ↔ x' < y' := by
  rw [lt_iff_isNaN_value, lt_iff_isNaN_value, hx.isNaN, hy.isNaN, hx.value, hy.value]

theorem Alike.le_iff (hx : Alike x x') (hy : Alike y y') : x ≤ y ↔ x' ≤ y' := by
  rw [le_iff_isNaN_value, le_iff_isNaN_value, hx.isNaN, hy.isNaN, hx.value, hy.value]

theorem Alike.beq_eq (hx : Alike x x') (hy : Alike y y') : (x == y) = (x' == y') := by
  rw [Bool.eq_iff_iff, beq_iff_isNaN_value, beq_iff_isNaN_value, hx.isNaN, hy.isNaN, hx.value,
    hy.value]

theorem opposite_lt_opposite (x y : Float32) : -x < -y ↔ y < x := by
  rw [lt_iff_isNaN_value, lt_iff_isNaN_value, isNaN_neg, isNaN_neg, value_neg, value_neg,
    EReal.neg_lt_neg_iff]
  exact and_left_comm

end PlanarDynamics.Binary32
