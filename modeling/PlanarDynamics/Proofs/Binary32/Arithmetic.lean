import PlanarDynamics.Proofs.Binary32.Value

/-!
# Values of sums, differences and products

An operation on finite numbers gives the extended real number that the format rounds the exact
result to: the nearest one of the grid, or an infinity from `2 ^ 128` on. Bounds by a number of the
format survive the rounding, whatever its size.
-/

namespace PlanarDynamics.Binary32

open Float.Model (Format UnpackedFloat)
open Float.Model.UnpackedFloat

section Rounding

variable {u v : UnpackedFloat} {r : ℝ}

theorem abs_realOf_lt (hc : Canonical u) (hfits : Fits u) : |realOf u| < 2 ^ 128 := by
  cases u with
  | finite s m e hm =>
    have hm24 : (m : ℝ) < 2 ^ 24 := by exact_mod_cast hc.1
    have hpow : (2 : ℝ) ^ e ≤ 2 ^ (104 : ℤ) := zpow_le_zpow_right₀ one_le_two hfits
    have hpos : (0 : ℝ) < 2 ^ e := zpow_pos two_pos e
    have habs : |realOf (.finite s m e hm)| = m * 2 ^ e := by
      rw [realOf, abs_mul, abs_of_pos hpos]
      cases s <;> simp [Sign.apply]
    calc |realOf (.finite s m e hm)| = m * 2 ^ e := habs
      _ < 2 ^ 24 * 2 ^ e := mul_lt_mul_of_pos_right hm24 hpos
      _ ≤ 2 ^ 24 * 2 ^ (104 : ℤ) := by linarith
      _ = 2 ^ 128 := by norm_num
  | _ => simp [realOf]

/-- Clipping is what separates the rounding of the format from that of the grid. -/
theorem valueOf_clip (h : IsRounding u r) : valueOf (clip u) = nearest r := by
  obtain ⟨hc, hf, hreal⟩ := h
  by_cases hfits : Fits u
  · have habs := abs_realOf_lt hc hfits
    rw [hreal] at habs
    rw [clip_eq_self hfits, valueOf_of_isFinite hf, hreal, nearest_of_abs_lt habs]
  · cases u with
    | finite s m e hm =>
      have he : 105 ≤ e := not_le.mp hfits
      have hm23 : (2 : ℝ) ^ 23 ≤ m := by exact_mod_cast hc.2.2.resolve_right (by omega)
      have hpow : (2 : ℝ) ^ (105 : ℤ) ≤ 2 ^ e := zpow_le_zpow_right₀ one_le_two he
      have hlarge : (2 : ℝ) ^ 128 ≤ m * 2 ^ e := by
        have hproduct : (2 : ℝ) ^ 23 * 2 ^ (105 : ℤ) ≤ m * 2 ^ e :=
          mul_le_mul hm23 hpow (by positivity) (by positivity)
        have heq : (2 : ℝ) ^ 23 * 2 ^ (105 : ℤ) = 2 ^ 128 := by norm_num
        linarith
      rw [clip, if_neg (by exact hfits), nearest, ← hreal, realOf]
      cases s
      · simp only [Sign.apply, Int.cast_neg, Int.cast_natCast, neg_mul]
        have hlow : -((m : ℝ) * 2 ^ e) ≤ -2 ^ 128 := by linarith
        have hhigh : ¬ (2 : ℝ) ^ 128 ≤ -(m * 2 ^ e) := by
          have : (0 : ℝ) < 2 ^ 128 := by positivity
          linarith
        rw [if_neg hhigh, if_pos hlow]
        rfl
      · simp only [Sign.apply, Int.cast_natCast]
        rw [if_pos hlarge]
        rfl
    | infinity s => exact absurd trivial hfits
    | notANumber => exact absurd trivial hfits
    | zero s => exact absurd trivial hfits

theorem onGrid_realOf (hc : Canonical u) : OnGrid (realOf u) := by
  cases u with
  | finite s m e hm =>
    obtain ⟨hm24, he, -⟩ := hc
    refine ⟨s.apply m, e, ?_, he, rfl⟩
    cases s <;> simp only [Sign.apply, abs_neg, Nat.abs_cast] <;> exact_mod_cast hm24.le
  | _ => exact .zero

theorem isRounding_self (hc : Canonical u) (hf : u.isFinite = true) : IsRounding u (realOf u) :=
  ⟨hc, hf, (rounded_eq_self (onGrid_realOf hc)).symm⟩

theorem apply_neg (s : Sign) (k : ℤ) : (-s).apply k = -s.apply k := by
  cases s
  · exact (neg_neg k).symm
  · rfl

theorem apply_mul (s t : Sign) (m n : ℕ) :
    (s * t).apply (m * n : ℕ) = s.apply m * t.apply n := by
  cases s <;> cases t
  · exact (neg_mul_neg (m : ℤ) n).symm
  · exact (neg_mul (m : ℤ) n).symm
  · exact (mul_neg (m : ℤ) n).symm
  · rfl

theorem Canonical.neg (hc : Canonical u) : Canonical u.neg := by
  cases u with
  | finite s m e hm => exact hc
  | _ => trivial

theorem isFinite_neg (u : UnpackedFloat) : u.neg.isFinite = u.isFinite := by
  cases u <;> rfl

theorem realOf_neg (u : UnpackedFloat) : realOf u.neg = -realOf u := by
  cases u with
  | finite s m e hm => simp only [UnpackedFloat.neg, realOf, apply_neg, Int.cast_neg, neg_mul]
  | _ => exact neg_zero.symm

/-- Subtraction adds the negative, with the signs of zeros that this gives. -/
theorem sub_eq_add (f : Format) (u v : UnpackedFloat) :
    UnpackedFloat.sub f u v = UnpackedFloat.add f u v.neg := by
  cases u <;> cases v <;>
    simp only [UnpackedFloat.sub, UnpackedFloat.add, UnpackedFloat.neg, apply_neg,
      Int.sub_eq_add_neg]

theorem decreaseExponent_eq (s : Sign) (m : ℕ) {e f : ℤ} (h : f ≤ e) :
    ((s.apply (decreaseExponent m e f).1 : ℤ) : ℝ) * 2 ^ f = (s.apply m : ℤ) * 2 ^ e := by
  obtain ⟨n, hn⟩ := Int.eq_ofNat_of_zero_le (sub_nonneg.mpr h)
  obtain rfl : e = f + n := by omega
  have hshift : (decreaseExponent m (f + n) f).1 = m * 2 ^ n := by
    rw [decreaseExponent, Nat.shiftLeft_eq]
    simp only [add_sub_cancel_left, Int.toNat_natCast]
  rw [hshift, zpow_add₀ two_ne_zero, zpow_natCast]
  cases s <;> simp only [Sign.apply] <;> push_cast <;> ring

theorem isRounding_add (hu : Canonical u) (hv : Canonical v) (hfu : u.isFinite = true)
    (hfv : v.isFinite = true) :
    IsRounding (UnpackedFloat.add Format.binary32 u v) (realOf u + realOf v) := by
  have hzero (s : Sign) : realOf (.zero s) = 0 := rfl
  rcases zero_or_finite hfu with ⟨s, rfl⟩ | ⟨s, m, e, hm, rfl⟩ <;>
    rcases zero_or_finite hfv with ⟨t, rfl⟩ | ⟨t, n, f, hn, rfl⟩
  · rw [UnpackedFloat.add]
    split <;> exact ⟨trivial, rfl, by simp [realOf]⟩
  · rw [hzero, zero_add]
    exact isRounding_self hv hfv
  · rw [hzero, add_zero]
    exact isRounding_self hu hfu
  · have hsum : realOf (.finite s m e hm) + realOf (.finite t n f hn) =
        ((s.apply (decreaseExponent m e (min e f)).1 +
          t.apply (decreaseExponent n f (min e f)).1 : ℤ) : ℝ) * 2 ^ min e f := by
      rw [Int.cast_add, add_mul, decreaseExponent_eq s m (min_le_left e f),
        decreaseExponent_eq t n (min_le_right e f)]
      rfl
    rw [hsum]
    exact isRounding_normalize _ _ _

theorem isRounding_sub (hu : Canonical u) (hv : Canonical v) (hfu : u.isFinite = true)
    (hfv : v.isFinite = true) :
    IsRounding (UnpackedFloat.sub Format.binary32 u v) (realOf u - realOf v) := by
  rw [sub_eq_add, sub_eq_add_neg, ← realOf_neg]
  exact isRounding_add hu hv.neg hfu ((isFinite_neg v).trans hfv)

theorem isRounding_mul (hu : Canonical u) (hv : Canonical v) (hfu : u.isFinite = true)
    (hfv : v.isFinite = true) :
    IsRounding (UnpackedFloat.mul Format.binary32 u v) (realOf u * realOf v) := by
  rcases zero_or_finite hfu with ⟨s, rfl⟩ | ⟨s, m, e, hm, rfl⟩ <;>
    rcases zero_or_finite hfv with ⟨t, rfl⟩ | ⟨t, n, f, hn, rfl⟩
  · exact ⟨trivial, rfl, by simp [UnpackedFloat.mul, realOf]⟩
  · exact ⟨trivial, rfl, by simp [UnpackedFloat.mul, realOf]⟩
  · exact ⟨trivial, rfl, by simp [UnpackedFloat.mul, realOf]⟩
  · obtain ⟨-, he, hm23⟩ := hu
    obtain ⟨-, hf, hn23⟩ := hv
    have hmn : 0 < m * n := Nat.mul_pos hm hn
    have htarget : e + f ≤ ulpExponent (((m * n : ℕ) : ℝ) * 2 ^ (e + f)) := by
      rw [ulpExponent_eq hmn]
      by_cases hlarge : 2 ^ 23 ≤ m * n
      · have := (Nat.le_log2 hmn.ne').mpr hlarge
        omega
      · have hm' : ¬ 2 ^ 23 ≤ m := fun h => hlarge (h.trans (Nat.le_mul_of_pos_right m hn))
        have hn' : ¬ 2 ^ 23 ≤ n := fun h => hlarge (h.trans (Nat.le_mul_of_pos_left n hm))
        omega
    have hproduct : realOf (.finite s m e hm) * realOf (.finite t n f hn) =
        (((s * t).apply (m * n : ℕ) : ℤ) : ℝ) * 2 ^ (e + f) := by
      rw [realOf, realOf, zpow_add₀ two_ne_zero]
      rw [apply_mul]
      push_cast
      ring
    rw [hproduct]
    exact isRounding_roundWithAccuracy _ hmn htarget

end Rounding

/-! ## Machine numbers -/

/-- The real number that a finite machine number stands for. -/
noncomputable def toReal (x : Float32) : ℝ := realOf x.toModel.unpack

variable {x y : Float32}

theorem isNaN_of_isFinite (hx : x.isFinite = true) : x.isNaN = false := by
  have hx' : x.toModel.unpack.isFinite = true := hx
  show x.toModel.unpack.isNaN = false
  cases h : x.toModel.unpack with
  | notANumber => rw [h] at hx'; exact absurd hx' Bool.false_ne_true
  | _ => rfl

theorem value_eq_toReal (hx : x.isFinite = true) : value x = toReal x := valueOf_of_isFinite hx

theorem onGrid_toReal (x : Float32) : OnGrid (toReal x) := onGrid_realOf (canonical_toModel x)

theorem nearest_toReal (x : Float32) : nearest (toReal x) = toReal x := by
  have hgrid := rounded_eq_self (onGrid_toReal x)
  have habs : |rounded (toReal x)| < 2 ^ 128 := by
    rw [hgrid]
    exact abs_realOf_lt (canonical_toModel x) (fits_toModel x)
  rw [nearest_of_abs_lt habs, hgrid]

theorem isFinite_or_value (hx : x.isNaN = false) :
    x.isFinite = true ∨ x.toModel.unpack = .infinity .positive ∨
      x.toModel.unpack = .infinity .negative := by
  rcases isFinite_or_infinity hx with h | ⟨s, h⟩
  · exact .inl h
  · cases s
    · exact .inr (.inr h)
    · exact .inr (.inl h)

/-- A bound from below by a number of the format survives the rounding. -/
theorem value_le_nearest (hx : x.isNaN = false) {r : ℝ} (h : value x ≤ r) :
    value x ≤ nearest r := by
  rcases isFinite_or_value hx with hf | hinf | hinf
  · rw [value_eq_toReal hf] at h ⊢
    rw [← nearest_toReal]
    exact nearest_mono (EReal.coe_le_coe_iff.mp h)
  · rw [value, hinf] at h
    exact absurd h (EReal.coe_lt_top r).not_ge
  · rw [value, hinf]
    exact bot_le

/-- A bound from above by a number of the format survives the rounding. -/
theorem nearest_le_value (hx : x.isNaN = false) {r : ℝ} (h : (r : EReal) ≤ value x) :
    nearest r ≤ value x := by
  rcases isFinite_or_value hx with hf | hinf | hinf
  · rw [value_eq_toReal hf] at h ⊢
    rw [← nearest_toReal]
    exact nearest_mono (EReal.coe_le_coe_iff.mp h)
  · rw [value, hinf]
    exact le_top
  · rw [value, hinf] at h
    exact absurd h (EReal.bot_lt_coe r).not_ge

theorem unpack_ofModel_pack {u : UnpackedFloat} (h : Canonical u) :
    (Float32.ofModel (.pack u)).toModel.unpack = clip u := unpack_pack h

theorem isNaN_clip {u : UnpackedFloat} (h : u.isFinite = true) : (clip u).isNaN = false := by
  unfold clip
  split
  · split <;> rfl
  · cases u with
    | notANumber => exact absurd h Bool.false_ne_true
    | _ => rfl

/-- What a rounding packs to. -/
theorem value_ofModel_pack {u : UnpackedFloat} {r : ℝ} (h : IsRounding u r) :
    (Float32.ofModel (.pack u)).isNaN = false ∧ value (Float32.ofModel (.pack u)) = nearest r := by
  have hunpack := unpack_ofModel_pack h.canonical
  constructor
  · show (Float32.ofModel (.pack u)).toModel.unpack.isNaN = false
    rw [hunpack]
    exact isNaN_clip h.isFinite
  · rw [value, hunpack]
    exact valueOf_clip h

theorem value_add (hx : x.isFinite = true) (hy : y.isFinite = true) :
    (x + y).isNaN = false ∧ value (x + y) = nearest (toReal x + toReal y) :=
  value_ofModel_pack (isRounding_add (canonical_toModel x) (canonical_toModel y) hx hy)

theorem value_sub (hx : x.isFinite = true) (hy : y.isFinite = true) :
    (x - y).isNaN = false ∧ value (x - y) = nearest (toReal x - toReal y) :=
  value_ofModel_pack (isRounding_sub (canonical_toModel x) (canonical_toModel y) hx hy)

theorem value_mul (hx : x.isFinite = true) (hy : y.isFinite = true) :
    (x * y).isNaN = false ∧ value (x * y) = nearest (toReal x * toReal y) :=
  value_ofModel_pack (isRounding_mul (canonical_toModel x) (canonical_toModel y) hx hy)

/-! ## Infinities -/

theorem unpack_of_value_top (hx : x.isNaN = false) (h : value x = ⊤) :
    x.toModel.unpack = .infinity .positive := by
  rcases isFinite_or_value hx with hf | hinf | hinf
  · rw [value_eq_toReal hf] at h
    exact absurd h (EReal.coe_ne_top _)
  · exact hinf
  · rw [value, hinf] at h
    exact absurd h bot_ne_top

theorem unpack_of_value_bot (hx : x.isNaN = false) (h : value x = ⊥) :
    x.toModel.unpack = .infinity .negative := by
  rcases isFinite_or_value hx with hf | hinf | hinf
  · rw [value_eq_toReal hf] at h
    exact absurd h (EReal.coe_ne_bot _)
  · rw [value, hinf] at h
    exact absurd h top_ne_bot
  · exact hinf

theorem isFinite_of_value (hx : x.isNaN = false) (htop : value x ≠ ⊤) (hbot : value x ≠ ⊥) :
    x.isFinite = true := by
  rcases isFinite_or_value hx with hf | hinf | hinf
  · exact hf
  · rw [value, hinf] at htop
    exact absurd rfl htop
  · rw [value, hinf] at hbot
    exact absurd rfl hbot

theorem value_of_unpack_infinity {u : UnpackedFloat} {s : Sign} (hu : u = .infinity s) :
    (Float32.ofModel (.pack u)).isNaN = false ∧
      value (Float32.ofModel (.pack u)) = valueOf (.infinity s) := by
  have hunpack : (Float32.ofModel (.pack u)).toModel.unpack = .infinity s :=
    (unpack_ofModel_pack (by rw [hu]; trivial)).trans (by rw [hu]; rfl)
  constructor
  · show (Float32.ofModel (.pack u)).toModel.unpack.isNaN = false
    rw [hunpack]
    rfl
  · rw [value, hunpack]

/-- Positive infinity taken from anything smaller leaves negative infinity. -/
theorem value_sub_top (hx : x.isNaN = false) (hx' : value x ≠ ⊤) (hy : y.isNaN = false)
    (hy' : value y = ⊤) : (x - y).isNaN = false ∧ value (x - y) = ⊥ := by
  have hsub : UnpackedFloat.sub Format.binary32 x.toModel.unpack y.toModel.unpack =
      .infinity .negative := by
    rw [unpack_of_value_top hy hy']
    have hux : x.toModel.unpack.isNaN = false := hx
    cases hu : x.toModel.unpack with
    | notANumber => rw [hu] at hux; exact absurd hux Bool.true_eq_false.mp
    | infinity s =>
      cases s
      · rfl
      · rw [value, hu] at hx'
        exact absurd rfl hx'
    | zero s => rfl
    | finite s m e hm => rfl
  exact value_of_unpack_infinity hsub

/-- Anything but itself taken from negative infinity leaves it. -/
theorem value_bot_sub (hx : x.isNaN = false) (hx' : value x = ⊥) (hy : y.isNaN = false)
    (hy' : value y ≠ ⊥) : (x - y).isNaN = false ∧ value (x - y) = ⊥ := by
  have hsub : UnpackedFloat.sub Format.binary32 x.toModel.unpack y.toModel.unpack =
      .infinity .negative := by
    rw [unpack_of_value_bot hx hx']
    have huy : y.toModel.unpack.isNaN = false := hy
    cases hu : y.toModel.unpack with
    | notANumber => rw [hu] at huy; exact absurd huy Bool.true_eq_false.mp
    | infinity s =>
      cases s
      · rw [value, hu] at hy'
        exact absurd rfl hy'
      · rfl
    | zero s => rfl
    | finite s m e hm => rfl
  exact value_of_unpack_infinity hsub

/-- A positive multiple of positive infinity. -/
theorem value_top_mul (hx : x.isNaN = false) (hx' : value x = ⊤) (hy : y.isFinite = true)
    (hy' : 0 < toReal y) : (x * y).isNaN = false ∧ value (x * y) = ⊤ := by
  have hmul : UnpackedFloat.mul Format.binary32 x.toModel.unpack y.toModel.unpack =
      .infinity .positive := by
    rw [unpack_of_value_top hx hx']
    have huy : y.toModel.unpack.isFinite = true := hy
    rw [toReal] at hy'
    cases hu : y.toModel.unpack with
    | notANumber => rw [hu] at huy; exact absurd huy Bool.false_ne_true
    | infinity s => rw [hu] at huy; exact absurd huy Bool.false_ne_true
    | zero s => rw [hu] at hy'; exact absurd hy' (lt_irrefl 0)
    | finite s m e hm =>
      cases s
      · rw [hu] at hy'
        have hpos : (0 : ℝ) < m * 2 ^ e := mul_pos (by exact_mod_cast hm) (zpow_pos two_pos e)
        simp only [realOf, Sign.apply, Int.cast_neg, Int.cast_natCast, neg_mul] at hy'
        linarith
      · rfl
  exact value_of_unpack_infinity hmul

theorem toReal_of_value (hx : x.isFinite = true) {r : ℝ} (h : value x = r) : toReal x = r :=
  EReal.coe_eq_coe_iff.mp ((value_eq_toReal hx).symm.trans h)

theorem le_iff_toReal_le (hx : x.isFinite = true) (hy : y.isFinite = true) :
    x ≤ y ↔ toReal x ≤ toReal y := by
  rw [le_iff_value_le (isNaN_of_isFinite hx) (isNaN_of_isFinite hy), value_eq_toReal hx,
    value_eq_toReal hy, EReal.coe_le_coe_iff]

theorem lt_iff_toReal_lt (hx : x.isFinite = true) (hy : y.isFinite = true) :
    x < y ↔ toReal x < toReal y := by
  rw [lt_iff_value_lt (isNaN_of_isFinite hx) (isNaN_of_isFinite hy), value_eq_toReal hx,
    value_eq_toReal hy, EReal.coe_lt_coe_iff]

theorem ne_infinite_of_isFinite (hx : x.isFinite = true) : value x ≠ ⊤ ∧ value x ≠ ⊥ := by
  rw [value_eq_toReal hx]
  exact ⟨EReal.coe_ne_top _, EReal.coe_ne_bot _⟩

/-- A finite result is the rounding of the grid. -/
theorem toReal_of_nearest {r : ℝ} (hx : x.isNaN = false ∧ value x = nearest r)
    (hf : x.isFinite = true) : toReal x = rounded r := by
  obtain ⟨htop, hbot⟩ := ne_infinite_of_isFinite hf
  rw [hx.2] at htop hbot
  exact toReal_of_value hf (hx.2.trans (nearest_eq_rounded htop hbot))

theorem value_top_or_isFinite (hx : x.isNaN = false) (h0 : 0 ≤ value x) :
    value x = ⊤ ∨ x.isFinite = true := by
  by_cases htop : value x = ⊤
  · exact .inl htop
  · refine .inr (isFinite_of_value hx htop ?_)
    intro hbot
    rw [hbot] at h0
    exact h0.not_gt EReal.bot_lt_zero

/-- The product of a number that is not negative and a positive one. -/
theorem mul_nonneg_spec (hx : x.isNaN = false) (hx0 : 0 ≤ value x) (hy : y.isFinite = true)
    (hy0 : 0 < toReal y) : (x * y).isNaN = false ∧ 0 ≤ value (x * y) ∧
      (value (x * y) = ⊤ ∨
        x.isFinite = true ∧ (x * y).isFinite = true ∧
          toReal (x * y) = rounded (toReal x * toReal y)) := by
  rcases value_top_or_isFinite hx hx0 with htop | hfx
  · obtain ⟨hnan, hvalue⟩ := value_top_mul hx htop hy hy0
    exact ⟨hnan, hvalue ▸ le_top, .inl hvalue⟩
  · obtain ⟨hnan, hvalue⟩ := value_mul hfx hy
    rw [value_eq_toReal hfx] at hx0
    have hproduct : 0 ≤ toReal x * toReal y := mul_nonneg (by exact_mod_cast hx0) hy0.le
    have hnonneg : 0 ≤ value (x * y) := hvalue ▸ nearest_nonneg hproduct
    refine ⟨hnan, hnonneg, ?_⟩
    rcases value_top_or_isFinite hnan hnonneg with htop | hf
    · exact .inl htop
    · exact .inr ⟨hfx, hf, toReal_of_nearest ⟨hnan, hvalue⟩ hf⟩

/-! ## Constants -/

theorem epsilon_spec : (Scalar.epsilon : Float32).isFinite = true ∧
    toReal Scalar.epsilon = 2 ^ (-23 : ℤ) := by
  have hunpack : (Scalar.epsilon : Float32).toModel.unpack =
      .finite .positive (2 ^ 23) (-46) (by decide) := rfl
  refine ⟨rfl, ?_⟩
  rw [toReal, hunpack, realOf]
  norm_num [Sign.apply]

theorem minPositive_spec : (Scalar.minPositive : Float32).isFinite = true ∧
    toReal Scalar.minPositive = 2 ^ (-126 : ℤ) := by
  have hunpack : (Scalar.minPositive : Float32).toModel.unpack =
      .finite .positive (2 ^ 23) (-149) (by decide) := rfl
  refine ⟨rfl, ?_⟩
  rw [toReal, hunpack, realOf]
  norm_num [Sign.apply]

/-! ## Absolute values and maxima -/

theorem unpack_abs (x : Float32) : x.abs.toModel.unpack = x.toModel.unpack.abs := by
  have hc := canonical_toModel x
  have hf := fits_toModel x
  have habs : Canonical x.toModel.unpack.abs ∧ Fits x.toModel.unpack.abs := by
    cases hu : x.toModel.unpack with
    | finite s m e hm =>
      rw [hu] at hc hf
      exact ⟨hc, hf⟩
    | _ => exact ⟨trivial, trivial⟩
  exact (unpack_ofModel_pack habs.1).trans (clip_eq_self habs.2)

theorem toReal_abs (hx : x.isFinite = true) :
    x.abs.isFinite = true ∧ toReal x.abs = |toReal x| := by
  have hux : x.toModel.unpack.isFinite = true := hx
  have hfinite : x.abs.isFinite = x.abs.toModel.unpack.isFinite := rfl
  rw [hfinite, toReal, toReal, unpack_abs]
  cases hu : x.toModel.unpack with
  | notANumber => rw [hu] at hux; exact absurd hux Bool.false_ne_true
  | infinity s => rw [hu] at hux; exact absurd hux Bool.false_ne_true
  | zero s => simp [UnpackedFloat.abs, UnpackedFloat.isFinite, realOf]
  | finite s m e hm =>
    have hpos : (0 : ℝ) < 2 ^ e := zpow_pos two_pos e
    refine ⟨rfl, ?_⟩
    rw [UnpackedFloat.abs, realOf, realOf, abs_mul, abs_of_pos hpos]
    cases s <;> simp [Sign.apply]

theorem value_abs_of_infinite (hx : x.isNaN = false) (h : value x = ⊤ ∨ value x = ⊥) :
    x.abs.isNaN = false ∧ value x.abs = ⊤ := by
  have hnan : x.abs.isNaN = x.abs.toModel.unpack.isNaN := rfl
  rw [hnan, value, unpack_abs]
  rcases h with h | h
  · rw [unpack_of_value_top hx h]
    exact ⟨rfl, rfl⟩
  · rw [unpack_of_value_bot hx h]
    exact ⟨rfl, rfl⟩

theorem beq_self (hx : x.isNaN = false) : (x == x) = true := by
  have hmodel : (x == x) = x.toModel.unpack.beq x.toModel.unpack := rfl
  rw [hmodel, UnpackedFloat.beq, compare_toModel hx hx, Int.compare_eq_eq.mpr rfl]
  rfl

theorem value_maxNum (hx : x.isNaN = false) (hy : y.isNaN = false) :
    (Scalar.maxNum x y).isNaN = false ∧ value (Scalar.maxNum x y) = max (value x) (value y) := by
  unfold Scalar.maxNum
  split
  case isTrue h =>
    have hlt := (lt_iff_value_lt hx hy).mp h
    exact ⟨hy, (max_eq_right hlt.le).symm⟩
  case isFalse h =>
    have hle := not_lt.mp ((lt_iff_value_lt hx hy).not.mp h)
    rw [if_pos (beq_self hx)]
    exact ⟨hx, (max_eq_left hle).symm⟩

theorem value_minNum (hx : x.isNaN = false) (hy : y.isNaN = false) :
    (Scalar.minNum x y).isNaN = false ∧ value (Scalar.minNum x y) = min (value x) (value y) := by
  unfold Scalar.minNum
  split
  case isTrue h =>
    have hlt := (lt_iff_value_lt hy hx).mp h
    exact ⟨hy, (min_eq_right hlt.le).symm⟩
  case isFalse h =>
    have hle := not_lt.mp ((lt_iff_value_lt hy hx).not.mp h)
    rw [if_pos (beq_self hx)]
    exact ⟨hx, (min_eq_left hle).symm⟩

/-! ## Adding zero -/

/-- The number with the sign taken off a zero. -/
def foldZero : UnpackedFloat → UnpackedFloat
  | .zero _ => .zero .positive
  | u => u

theorem unpack_add_zero (x : Float32) : (x + 0).toModel.unpack = foldZero x.toModel.unpack := by
  have hzero : (0 : Float32).toModel.unpack = .zero .positive := rfl
  have hc := canonical_toModel x
  have hf := fits_toModel x
  have hadd : (x + 0 : Float32) = .ofModel (.pack
    (UnpackedFloat.add Format.binary32 x.toModel.unpack (0 : Float32).toModel.unpack)) := rfl
  rw [hadd, hzero]
  cases hu : x.toModel.unpack with
  | notANumber => exact unpack_ofModel_pack trivial
  | infinity s => exact unpack_ofModel_pack trivial
  | zero s =>
    have hpack : (Float32.ofModel (.pack (.zero .positive))).toModel.unpack = .zero .positive :=
      unpack_ofModel_pack trivial
    cases s <;> exact hpack
  | finite s m e hm =>
    rw [hu] at hc hf
    exact (unpack_ofModel_pack hc).trans (clip_eq_self hf)

theorem isNaN_add_zero (hx : x.isNaN = false) : (x + 0).isNaN = false := by
  have hunpack : x.toModel.unpack.isNaN = false := hx
  show (x + 0).toModel.unpack.isNaN = false
  rw [unpack_add_zero]
  cases hu : x.toModel.unpack with
  | notANumber =>
    rw [hu] at hunpack
    exact absurd hunpack Bool.true_eq_false.mp
  | _ => rfl

theorem value_add_zero (x : Float32) : value (x + 0) = value x := by
  rw [value, unpack_add_zero, value]
  cases x.toModel.unpack <;> rfl

theorem rank_add_zero_lt (hx : x.isNaN = false) (hy : y.isNaN = false) (h : x < y) :
    rank (x + 0) < rank (y + 0) := by
  apply rank_lt_of_value_lt (isNaN_add_zero hx) (isNaN_add_zero hy)
  rw [value_add_zero, value_add_zero]
  exact (lt_iff_value_lt hx hy).mp h

/-- Adding zero leaves one representative of equal numbers, with one rank. -/
theorem rank_add_zero_eq (hx : x.isNaN = false) (hy : y.isNaN = false) (hxy : ¬ x < y)
    (hyx : ¬ y < x) : rank (x + 0) = rank (y + 0) := by
  rw [lt_iff_value_lt hx hy, value_lt_iff_position hx hy] at hxy
  rw [lt_iff_value_lt hy hx, value_lt_iff_position hy hx] at hyx
  have hposition := le_antisymm (not_lt.mp hyx) (not_lt.mp hxy)
  have hunpack : (x + 0).toModel.unpack = (y + 0).toModel.unpack := by
    rw [unpack_add_zero, unpack_add_zero]
    rcases eq_of_position_eq (canonical_toModel x) (fits_toModel x) (canonical_toModel y)
      (fits_toModel y) hx hy hposition with h | ⟨s, t, hs, ht⟩
    · rw [h]
    · rw [hs, ht]
      rfl
  rw [rank_eq (isNaN_add_zero hx), rank_eq (isNaN_add_zero hy), hunpack]

theorem compare_rank_add_zero (hx : x.isNaN = false) (hy : y.isNaN = false) :
    compare (rank (x + 0)) (rank (y + 0)) = IntervalEntry.compareKeys x y := by
  unfold IntervalEntry.compareKeys
  split
  case isTrue h => exact Int.compare_eq_lt.mpr (rank_add_zero_lt hx hy h)
  case isFalse hxy =>
    split
    case isTrue h => exact Int.compare_eq_gt.mpr (rank_add_zero_lt hy hx h)
    case isFalse hyx => exact Int.compare_eq_eq.mpr (rank_add_zero_eq hx hy hxy hyx)

end PlanarDynamics.Binary32
