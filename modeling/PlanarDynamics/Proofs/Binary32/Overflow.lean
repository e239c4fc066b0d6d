import PlanarDynamics.Proofs.Binary32.Positive

/-!
# Sums and products that may overflow

A sum of two numbers is their exact sum, rounded, also where one of them is infinite, as long as
they are not infinities of opposite signs. Rounding is monotone, so adding what has no sign leads
nowhere below the number that it is added to, however large the two are.
-/

namespace PlanarDynamics.Binary32

open Float.Model (Format UnpackedFloat)
open Float.Model.UnpackedFloat

variable {x y : Float32}

/-! ## Rounding of extended real numbers -/

/-- The rounding of the format, which leaves infinities as they are. -/
noncomputable def rounding (v : EReal) : EReal := if v = ⊤ ∨ v = ⊥ then v else nearest v.toReal

@[simp] theorem rounding_top : rounding ⊤ = ⊤ := if_pos (.inl rfl)

@[simp] theorem rounding_bot : rounding ⊥ = ⊥ := if_pos (.inr rfl)

@[simp] theorem rounding_coe (r : ℝ) : rounding r = nearest r :=
  if_neg (not_or.mpr ⟨EReal.coe_ne_top r, EReal.coe_ne_bot r⟩)

theorem rounding_mono {v w : EReal} (h : v ≤ w) : rounding v ≤ rounding w := by
  induction v with
  | bot => exact rounding_bot ▸ bot_le
  | top =>
    obtain rfl := top_le_iff.mp h
    exact le_rfl
  | coe r =>
    induction w with
    | bot => exact absurd h (EReal.bot_lt_coe r).not_ge
    | top => exact rounding_top ▸ le_top
    | coe s =>
      rw [rounding_coe, rounding_coe]
      exact nearest_mono (EReal.coe_le_coe_iff.mp h)

/-- Numbers of the format are not rounded. -/
theorem rounding_value (hx : x.isNaN = false) : rounding (value x) = value x := by
  rcases isFinite_or_value hx with hf | hinf | hinf
  · rw [value_eq_toReal hf, rounding_coe, nearest_toReal]
  · rw [value, hinf]
    exact rounding_top
  · rw [value, hinf]
    exact rounding_bot

/-! ## Negation and comparison -/

theorem unpack_neg (x : Float32) : (-x).toModel.unpack = x.toModel.unpack.neg := by
  have hfits : Fits x.toModel.unpack.neg := by
    have hf := fits_toModel x
    cases hu : x.toModel.unpack with
    | finite s m e hm =>
      rw [hu] at hf
      exact hf
    | _ => trivial
  exact (unpack_ofModel_pack (canonical_toModel x).neg).trans (clip_eq_self hfits)

theorem isNaN_neg (x : Float32) : (-x).isNaN = x.isNaN := by
  show (-x).toModel.unpack.isNaN = x.toModel.unpack.isNaN
  rw [unpack_neg]
  cases x.toModel.unpack <;> rfl

theorem isFinite_neg_iff (x : Float32) : (-x).isFinite = x.isFinite := by
  show (-x).toModel.unpack.isFinite = x.toModel.unpack.isFinite
  rw [unpack_neg, isFinite_neg]

theorem value_neg (x : Float32) : value (-x) = -value x := by
  rw [value, value, unpack_neg]
  cases x.toModel.unpack with
  | infinity s => cases s <;> rfl
  | notANumber => exact neg_zero.symm
  | zero s => exact neg_zero.symm
  | finite s m e hm => exact congrArg Real.toEReal (realOf_neg (.finite s m e hm))

/-- A difference is the sum with the negative, to the sign of a zero. -/
theorem sub_eq_add_opposite (x y : Float32) : x - y = x + -y := by
  have hsub : x - y =
      .ofModel (.pack (UnpackedFloat.sub Format.binary32 x.toModel.unpack y.toModel.unpack)) := rfl
  have hadd : x + -y =
      .ofModel (.pack (UnpackedFloat.add Format.binary32 x.toModel.unpack (-y).toModel.unpack)) :=
    rfl
  rw [hsub, hadd, sub_eq_add, unpack_neg]

theorem value_zero : value 0 = 0 := rfl

theorem isNaN_zero : (0 : Float32).isNaN = false := rfl

theorem beq_iff_value_eq (hx : x.isNaN = false) (hy : y.isNaN = false) :
    (x == y) = true ↔ value x = value y := by
  have hbeq : (x == y) = x.toModel.unpack.beq y.toModel.unpack := rfl
  rw [hbeq, UnpackedFloat.beq, compare_toModel hx hy, beq_iff_eq, Option.some_inj,
    Int.compare_eq_eq]
  constructor
  · exact valueOf_eq (canonical_toModel x) (fits_toModel x) (canonical_toModel y) (fits_toModel y)
      hx hy
  · exact position_eq_of_value_eq hx hy

theorem isNaN_eq_false_of_beq (h : (x == y) = true) : x.isNaN = false ∧ y.isNaN = false := by
  have hbeq : (x == y) = x.toModel.unpack.beq y.toModel.unpack := rfl
  rw [hbeq, UnpackedFloat.beq, beq_iff_eq] at h
  exact isNaN_eq_false_of_compare h

/-! ## Sums -/

section Infinite

variable {u v : UnpackedFloat} {s : Sign}

theorem infinity_add (hv : v.isNaN = false) (hopposite : v ≠ .infinity (-s)) :
    UnpackedFloat.add Format.binary32 (.infinity s) v = .infinity s := by
  cases v with
  | notANumber => exact absurd hv Bool.true_eq_false.mp
  | infinity t => cases s <;> cases t <;> first | rfl | exact absurd rfl hopposite
  | zero t => rfl
  | finite t m e hm => rfl

theorem add_infinity (hu : u.isFinite = true) :
    UnpackedFloat.add Format.binary32 u (.infinity s) = .infinity s := by
  cases u with
  | notANumber => exact absurd hu Bool.false_ne_true
  | infinity t => exact absurd hu Bool.false_ne_true
  | zero t => rfl
  | finite t m e hm => rfl

theorem add_of_not_isFinite (hu : u.isFinite = false) (v : UnpackedFloat) :
    UnpackedFloat.add Format.binary32 u v = .notANumber ∨
      ∃ s, UnpackedFloat.add Format.binary32 u v = .infinity s := by
  cases u with
  | notANumber => exact .inl rfl
  | infinity s =>
    cases hv : v.isNaN with
    | true =>
      cases v with
      | notANumber => exact .inl (by cases s <;> rfl)
      | _ => cases hv
    | false =>
      by_cases hopposite : v = .infinity (-s)
      · rw [hopposite]
        exact .inl (by cases s <;> rfl)
      · exact .inr ⟨s, infinity_add hv hopposite⟩
  | zero s => cases hu
  | finite s m e hm => cases hu

end Infinite

theorem not_isFinite_ofModel_pack {u : UnpackedFloat}
    (h : u = .notANumber ∨ ∃ s, u = .infinity s) :
    ¬ (Float32.ofModel (.pack u)).isFinite = true := by
  intro hfinite
  have hclip (hu : Canonical u) : (clip u).isFinite = true :=
    (unpack_ofModel_pack hu).symm ▸ hfinite
  rcases h with rfl | ⟨s, rfl⟩
  · cases hclip trivial
  · cases hclip trivial

/-- A sum is finite only if what is added to is. -/
theorem isFinite_of_isFinite_add (h : (x + y).isFinite = true) : x.isFinite = true := by
  by_contra hx
  exact not_isFinite_ofModel_pack
    (add_of_not_isFinite (Bool.eq_false_of_not_eq_true hx) y.toModel.unpack) h

theorem isFinite_of_isFinite_sub (h : (x - y).isFinite = true) : x.isFinite = true :=
  isFinite_of_isFinite_add (sub_eq_add_opposite x y ▸ h)

theorem value_add_of_infinity_left {s : Sign} (hx : x.toModel.unpack = .infinity s)
    (hy : y.isNaN = false) (hopposite : y.toModel.unpack ≠ .infinity (-s)) :
    (x + y).isNaN = false ∧ value (x + y) = value x := by
  have hadd :
      UnpackedFloat.add Format.binary32 x.toModel.unpack y.toModel.unpack = .infinity s := by
    rw [hx]
    exact infinity_add hy hopposite
  have hvalue : value x = valueOf (.infinity s) := congrArg valueOf hx
  rw [hvalue]
  exact value_of_unpack_infinity hadd

theorem value_add_of_infinity_right {s : Sign} (hx : x.isFinite = true)
    (hy : y.toModel.unpack = .infinity s) :
    (x + y).isNaN = false ∧ value (x + y) = value y := by
  have hadd :
      UnpackedFloat.add Format.binary32 x.toModel.unpack y.toModel.unpack = .infinity s := by
    rw [hy]
    exact add_infinity hx
  have hvalue : value y = valueOf (.infinity s) := congrArg valueOf hy
  rw [hvalue]
  exact value_of_unpack_infinity hadd

/-- The sum of two numbers that are not opposite infinities is their exact sum, rounded. -/
theorem value_add_of_ne (hx : x.isNaN = false) (hy : y.isNaN = false)
    (htop : value x = ⊤ → value y ≠ ⊥) (hbot : value x = ⊥ → value y ≠ ⊤) :
    (x + y).isNaN = false ∧ value (x + y) = rounding (value x + value y) := by
  rcases isFinite_or_value hx with hfx | hux | hux
  · rcases isFinite_or_value hy with hfy | huy | huy
    · obtain ⟨hnan, hvalue⟩ := value_add hfx hfy
      refine ⟨hnan, ?_⟩
      rw [hvalue, value_eq_toReal hfx, value_eq_toReal hfy, ← EReal.coe_add, rounding_coe]
    · obtain ⟨hnan, hvalue⟩ := value_add_of_infinity_right hfx huy
      have htop' : value y = ⊤ := congrArg valueOf huy
      refine ⟨hnan, ?_⟩
      rw [hvalue, value_eq_toReal hfx, htop', EReal.coe_add_top, rounding_top]
    · obtain ⟨hnan, hvalue⟩ := value_add_of_infinity_right hfx huy
      have hbot' : value y = ⊥ := congrArg valueOf huy
      refine ⟨hnan, ?_⟩
      rw [hvalue, hbot', EReal.add_bot, rounding_bot]
  · have htop' : value x = ⊤ := congrArg valueOf hux
    have hne := htop htop'
    obtain ⟨hnan, hvalue⟩ :=
      value_add_of_infinity_left hux hy fun h => hne (congrArg valueOf h)
    refine ⟨hnan, ?_⟩
    rw [hvalue, htop', EReal.top_add_of_ne_bot hne, rounding_top]
  · have hbot' : value x = ⊥ := congrArg valueOf hux
    have hne := hbot hbot'
    obtain ⟨hnan, hvalue⟩ :=
      value_add_of_infinity_left hux hy fun h => hne (congrArg valueOf h)
    refine ⟨hnan, ?_⟩
    rw [hvalue, hbot', EReal.bot_add, rounding_bot]

/-- What has no sign, added to a number, leads to none below it. -/
theorem le_add_of_zero_le (hx : x.isNaN = false) (hy : 0 ≤ y) (hbot : value x = ⊥ → value y ≠ ⊤) :
    x ≤ x + y := by
  have hnan := (isNaN_eq_false_of_le hy).2
  rw [le_iff_value_le isNaN_zero hnan, value_zero] at hy
  have htop : value x = ⊤ → value y ≠ ⊥ := fun _ => (EReal.bot_lt_zero.trans_le hy).ne'
  obtain ⟨hsum, hvalue⟩ := value_add_of_ne hx hnan htop hbot
  rw [le_iff_value_le hx hsum, hvalue]
  calc value x = rounding (value x) := (rounding_value hx).symm
    _ ≤ rounding (value x + value y) := rounding_mono (le_add_of_nonneg_right hy)

/-- What is not positive, added to a number, leads to none above it. -/
theorem add_le_of_le_zero (hx : x.isNaN = false) (hy : y ≤ 0) (htop : value x = ⊤ → value y ≠ ⊥) :
    x + y ≤ x := by
  have hnan := (isNaN_eq_false_of_le hy).1
  rw [le_iff_value_le hnan isNaN_zero, value_zero] at hy
  have hbot : value x = ⊥ → value y ≠ ⊤ := fun _ => (hy.trans_lt EReal.zero_lt_top).ne
  obtain ⟨hsum, hvalue⟩ := value_add_of_ne hx hnan htop hbot
  rw [le_iff_value_le hsum hx, hvalue]
  calc rounding (value x + value y) ≤ rounding (value x) :=
        rounding_mono (add_le_of_nonpos_right hy)
    _ = value x := rounding_value hx

/-- Adding a zero of either sign changes no more than the sign of a zero. -/
theorem add_beq_of_value_zero (hx : x.isNaN = false) (hy : y.isNaN = false) (h : value y = 0) :
    (x + y == x) = true := by
  have hne : value y ≠ ⊥ ∧ value y ≠ ⊤ := by
    rw [h]
    exact ⟨EReal.bot_lt_zero.ne', EReal.zero_lt_top.ne⟩
  obtain ⟨hsum, hvalue⟩ := value_add_of_ne hx hy (fun _ => hne.1) (fun _ => hne.2)
  rw [beq_iff_value_eq hsum hx, hvalue, h, add_zero, rounding_value hx]

theorem opposite_le_zero (hy : 0 ≤ y) : -y ≤ 0 := by
  have hnan := (isNaN_eq_false_of_le hy).2
  rw [le_iff_value_le isNaN_zero hnan, value_zero] at hy
  rw [le_iff_value_le ((isNaN_neg y).trans hnan) isNaN_zero, value_neg, value_zero]
  exact EReal.neg_le_zero.mpr hy

theorem zero_le_opposite (hy : y ≤ 0) : 0 ≤ -y := by
  have hnan := (isNaN_eq_false_of_le hy).1
  rw [le_iff_value_le hnan isNaN_zero, value_zero] at hy
  rw [le_iff_value_le isNaN_zero ((isNaN_neg y).trans hnan), value_neg, value_zero]
  exact EReal.neg_nonneg.mpr hy

/-- Taking what has no sign from a number leads to none above it. -/
theorem sub_le_of_zero_le (hx : x.isNaN = false) (hy : 0 ≤ y) (htop : value x = ⊤ → value y ≠ ⊤) :
    x - y ≤ x := by
  rw [sub_eq_add_opposite]
  refine add_le_of_le_zero hx (opposite_le_zero hy) fun h => ?_
  rw [value_neg, Ne, EReal.neg_eq_bot_iff]
  exact htop h

/-- Of the two ways to go from a finite number by the same distance, one leads to no number above it
and the other to none below it. -/
theorem between_sub_add (hx : x.isFinite = true) (hy : y.isNaN = false) :
    (x - y ≤ x ∧ x ≤ x + y) ∨ (x + y ≤ x ∧ x ≤ x - y) := by
  have hnan := isNaN_of_isFinite hx
  obtain ⟨htop, hbot⟩ := ne_infinite_of_isFinite hx
  rcases OrderedKeys.le_total (isKey_iff.mpr isNaN_zero) (isKey_iff.mpr hy) with h | h
  · exact .inl ⟨sub_le_of_zero_le hnan h fun h => absurd h htop,
      le_add_of_zero_le hnan h fun h => absurd h hbot⟩
  · rw [sub_eq_add_opposite]
    exact .inr ⟨add_le_of_le_zero hnan h fun h => absurd h htop,
      le_add_of_zero_le hnan (zero_le_opposite h) fun h => absurd h hbot⟩

/-! ## Products -/

theorem toReal_one : toReal 1 = 1 := by
  have hunpack : (1 : Float32).toModel.unpack = .finite .positive (2 ^ 23) (-23) (by decide) := rfl
  rw [toReal, hunpack, realOf]
  norm_num [Sign.apply]

theorem toReal_half : toReal 0.5 = 1 / 2 := by
  have hunpack : (0.5 : Float32).toModel.unpack = .finite .positive (2 ^ 23) (-24) (by decide) :=
    rfl
  rw [toReal, hunpack, realOf]
  norm_num [Sign.apply]

theorem mul_of_not_isFinite {u : UnpackedFloat} (hu : u.isFinite = false) (v : UnpackedFloat) :
    UnpackedFloat.mul Format.binary32 u v = .notANumber ∨
      ∃ s, UnpackedFloat.mul Format.binary32 u v = .infinity s := by
  cases u with
  | notANumber => exact .inl rfl
  | infinity s =>
    cases v with
    | notANumber => exact .inl rfl
    | infinity t => exact .inr ⟨s * t, rfl⟩
    | zero t => exact .inl rfl
    | finite t m e hm => exact .inr ⟨s * t, rfl⟩
  | zero s => cases hu
  | finite s m e hm => cases hu

/-- A product is finite only if what is multiplied is. -/
theorem isFinite_of_isFinite_mul (h : (x * y).isFinite = true) : x.isFinite = true := by
  by_contra hx
  exact not_isFinite_ofModel_pack
    (mul_of_not_isFinite (Bool.eq_false_of_not_eq_true hx) y.toModel.unpack) h

/-- A number stays one when it is scaled by a positive finite factor. -/
theorem isNaN_mul_of_pos (hx : x.isNaN = false) (hy : y.isFinite = true) (hy0 : 0 < toReal y) :
    (x * y).isNaN = false := by
  obtain ⟨n, f, hn, huy⟩ := unpack_of_toReal_pos hy0
  have hmul {s : Sign} (hux : x.toModel.unpack = .infinity s) : (x * y).isNaN = false := by
    have hproduct : UnpackedFloat.mul Format.binary32 x.toModel.unpack y.toModel.unpack =
        .infinity (s * .positive) := by
      rw [hux, huy]
      rfl
    exact (value_of_unpack_infinity hproduct).1
  rcases isFinite_or_value hx with hfx | hux | hux
  · exact (value_mul hfx hy).1
  · exact hmul hux
  · exact hmul hux

/-- A finite number stays finite when it is scaled by a factor from minus one to one. -/
theorem isFinite_mul_of_le_one (hx : x.isFinite = true) (hlow : -1 ≤ y) (hhigh : y ≤ 1) :
    (x * y).isFinite = true := by
  have hy : y.isFinite = true := isFinite_of_between rfl rfl hlow hhigh
  have hnan := isNaN_of_isFinite hy
  obtain ⟨habs, habs_real⟩ := toReal_abs hx
  obtain ⟨hproduct, hvalue⟩ := value_mul hx hy
  have hunit : |toReal y| ≤ 1 := by
    rw [le_iff_value_le hnan rfl, value_eq_toReal hy, value_eq_toReal rfl, toReal_one] at hhigh
    rw [le_iff_value_le ((isNaN_neg 1).trans rfl) hnan, value_neg, value_eq_toReal hy,
      value_eq_toReal rfl, toReal_one] at hlow
    exact abs_le.mpr ⟨by exact_mod_cast hlow, by exact_mod_cast hhigh⟩
  have hle : |toReal x * toReal y| ≤ toReal x.abs := by
    rw [habs_real, abs_mul]
    exact mul_le_of_le_one_right (abs_nonneg _) hunit
  obtain ⟨hle_low, hle_high⟩ := abs_le.mp hle
  have hneg : (-x.abs).isFinite = true := (isFinite_neg_iff _).trans habs
  apply isFinite_of_between hneg habs
  · rw [le_iff_value_le (isNaN_of_isFinite hneg) hproduct, hvalue]
    apply value_le_nearest (isNaN_of_isFinite hneg)
    rw [value_neg, value_eq_toReal habs]
    exact_mod_cast hle_low
  · rw [le_iff_value_le hproduct (isNaN_of_isFinite habs), hvalue]
    apply nearest_le_value (isNaN_of_isFinite habs)
    rw [value_eq_toReal habs]
    exact_mod_cast hle_high

end PlanarDynamics.Binary32
