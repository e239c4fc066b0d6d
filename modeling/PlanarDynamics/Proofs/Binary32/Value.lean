import PlanarDynamics.Proofs.Binary32.Shift
import PlanarDynamics.Proofs.IntervalTree.KeyOrder

/-!
# Values of binary32 numbers

Every number stands for an extended real one, both zeros for zero. The numeric comparisons compare
these values, and so does the total order, but for the zeros. Both facts go through the position of
a number, which is its bit pattern read as a signed magnitude.
-/

namespace PlanarDynamics.Binary32

open Float.Model (Format UnpackedFloat)
open Float.Model.UnpackedFloat

/-- The distance from zero in steps of the format, with a sign. -/
def position : UnpackedFloat → Int
  | .infinity s => s.apply (255 * 2 ^ 23)
  | .notANumber => 0
  | .zero _ => 0
  | .finite s m e _ => s.apply ((e + 149) * 2 ^ 23 + m)

theorem position_infinity : position (.infinity .positive) = 255 * 2 ^ 23 := rfl

theorem position_negative_infinity : position (.infinity .negative) = -(255 * 2 ^ 23) := rfl

/-- The extended real number that a datum stands for. -/
noncomputable def valueOf : UnpackedFloat → EReal
  | .infinity .positive => ⊤
  | .infinity .negative => ⊥
  | u => realOf u

/-- The sign is negative. -/
def negativeSign : UnpackedFloat → Bool
  | .infinity .negative => true
  | .zero .negative => true
  | .finite .negative _ _ _ => true
  | _ => false

section Finite

variable {m n : ℕ} {e f : ℤ}

theorem significand_lt (hm : m < 2 ^ 24) (hn : 2 ^ 23 ≤ n ∨ f = -149) (he : -149 ≤ e)
    (hf : -149 ≤ f) (hm' : 2 ^ 23 ≤ m ∨ e = -149) (hn' : n < 2 ^ 24)
    (h : (e + 149) * 2 ^ 23 + m < (f + 149) * 2 ^ 23 + n) :
    (m : ℝ) * 2 ^ e < n * 2 ^ f := by
  rcases lt_trichotomy e f with hef | rfl | hef
  · have hn23 : (2 : ℝ) ^ 23 ≤ n := by
      exact_mod_cast hn.resolve_right (by omega)
    have hm24 : (m : ℝ) < 2 ^ 24 := by exact_mod_cast hm
    have hpow : (2 : ℝ) ^ (e + 1) ≤ 2 ^ f := zpow_le_zpow_right₀ one_le_two (by omega)
    rw [zpow_add_one₀ two_ne_zero] at hpow
    have hpos : (0 : ℝ) < 2 ^ e := zpow_pos two_pos e
    calc (m : ℝ) * 2 ^ e < 2 ^ 24 * 2 ^ e := mul_lt_mul_of_pos_right hm24 hpos
      _ = 2 ^ 23 * (2 ^ e * 2) := by ring
      _ ≤ n * 2 ^ f := mul_le_mul hn23 hpow (by linarith) (by positivity)
  · have hmn : (m : ℝ) < n := by
      exact_mod_cast (by omega : m < n)
    exact mul_lt_mul_of_pos_right hmn (zpow_pos two_pos e)
  · omega

theorem compare_significand (hm : m < 2 ^ 24) (hn : 2 ^ 23 ≤ n ∨ f = -149) (he : -149 ≤ e)
    (hf : -149 ≤ f) (hm' : 2 ^ 23 ≤ m ∨ e = -149) (hn' : n < 2 ^ 24) :
    (compare e f).then (compare m n) =
      compare ((e + 149) * 2 ^ 23 + m) ((f + 149) * 2 ^ 23 + n) := by
  rcases lt_trichotomy e f with hef | rfl | hef
  · have hlt : (e + 149) * 2 ^ 23 + (m : ℤ) < (f + 149) * 2 ^ 23 + n := by omega
    rw [Int.compare_eq_lt.mpr hef, Int.compare_eq_lt.mpr hlt]
    rfl
  · have heq : compare ((e + 149) * 2 ^ 23 + (m : ℤ)) ((e + 149) * 2 ^ 23 + n) = compare m n := by
      rcases lt_trichotomy m n with h | rfl | h
      · rw [Int.compare_eq_lt.mpr (by omega), Nat.compare_eq_lt.mpr h]
      · rw [Int.compare_eq_eq.mpr rfl, Nat.compare_eq_eq.mpr rfl]
      · rw [Int.compare_eq_gt.mpr (by omega), Nat.compare_eq_gt.mpr h]
    rw [heq, Int.compare_eq_eq.mpr rfl]
    rfl
  · have hlt : (f + 149) * 2 ^ 23 + (n : ℤ) < (e + 149) * 2 ^ 23 + m := by omega
    rw [Int.compare_eq_gt.mpr hef, Int.compare_eq_gt.mpr hlt]
    rfl

end Finite

theorem position_finite_bounds {m : ℕ} {e : ℤ} (hm : 0 < m) (hm24 : m < 2 ^ 24)
    (he : -149 ≤ e) (he' : e ≤ 104) :
    0 < (e + 149) * 2 ^ 23 + (m : ℤ) ∧ (e + 149) * 2 ^ 23 + (m : ℤ) < 255 * 2 ^ 23 := by
  omega

/-- The comparison of numbers is that of their positions. -/
theorem compare_eq {u v : UnpackedFloat} (hu : Canonical u) (hu' : Fits u) (hv : Canonical v)
    (hv' : Fits v) (hnu : u.isNaN = false) (hnv : v.isNaN = false) :
    u.compare v = some (compare (position u) (position v)) := by
  have hlt {a b : ℤ} (h : a < b) : some Ordering.lt = some (compare a b) := by
    rw [Int.compare_eq_lt.mpr h]
  have hgt {a b : ℤ} (h : b < a) : some Ordering.gt = some (compare a b) := by
    rw [Int.compare_eq_gt.mpr h]
  have hneg (a b : ℤ) : (compare a b).swap = compare (-a) (-b) := by
    rw [Int.compare_swap]
    simp only [Int.compare_eq_ite_lt, Int.neg_lt_neg_iff]
  cases u with
  | notANumber => exact absurd hnu (by decide)
  | infinity s =>
    cases v with
    | notANumber => exact absurd hnv (by decide)
    | infinity t => cases s <;> cases t <;> rfl
    | zero t => cases s <;> rfl
    | finite t n f hn =>
      have hbounds := position_finite_bounds hn hv.1 hv.2.1 hv'
      cases s <;> cases t
      · exact hlt (by simp only [position, Sign.apply]; omega)
      · exact hlt (by simp only [position, Sign.apply]; omega)
      · exact hgt (by simp only [position, Sign.apply]; omega)
      · exact hgt (by simp only [position, Sign.apply]; omega)
  | zero s =>
    cases v with
    | notANumber => exact absurd hnv (by decide)
    | infinity t => cases t <;> rfl
    | zero t => rfl
    | finite t n f hn =>
      have hbounds := position_finite_bounds hn hv.1 hv.2.1 hv'
      cases t
      · exact hgt (by simp only [position, Sign.apply]; omega)
      · exact hlt (by simp only [position, Sign.apply]; omega)
  | finite s m e hm =>
    have hbounds := position_finite_bounds hm hu.1 hu.2.1 hu'
    cases v with
    | notANumber => exact absurd hnv (by decide)
    | infinity t =>
      cases s <;> cases t
      · exact hgt (by simp only [position, Sign.apply]; omega)
      · exact hlt (by simp only [position, Sign.apply]; omega)
      · exact hgt (by simp only [position, Sign.apply]; omega)
      · exact hlt (by simp only [position, Sign.apply]; omega)
    | zero t =>
      cases s
      · exact hlt (by simp only [position, Sign.apply]; omega)
      · exact hgt (by simp only [position, Sign.apply]; omega)
    | finite t n f hn =>
      have hbounds' := position_finite_bounds hn hv.1 hv.2.1 hv'
      have hcompare := compare_significand hu.1 hv.2.2 hu.2.1 hv.2.1 hu.2.2 hv.1
      cases s <;> cases t
      · simp only [UnpackedFloat.compare, position, Sign.apply, hcompare, hneg]
      · exact hlt (by simp only [position, Sign.apply]; omega)
      · exact hgt (by simp only [position, Sign.apply]; omega)
      · simp only [UnpackedFloat.compare, position, Sign.apply, hcompare]

theorem valueOf_of_isFinite {u : UnpackedFloat} (h : u.isFinite = true) : valueOf u = realOf u := by
  cases u with
  | infinity s => exact absurd h Bool.false_ne_true
  | notANumber => rfl
  | zero s => rfl
  | finite s m e hm => rfl

theorem realOf_lt {u v : UnpackedFloat} (hu : Canonical u) (hv : Canonical v)
    (hfu : u.isFinite = true) (hfv : v.isFinite = true) (h : position u < position v) :
    realOf u < realOf v := by
  have hpos {m : ℕ} {e : ℤ} (hm : 0 < m) : (0 : ℝ) < m * 2 ^ e :=
    mul_pos (by exact_mod_cast hm) (zpow_pos two_pos e)
  rcases zero_or_finite hfu with ⟨s, rfl⟩ | ⟨s, m, e, hm, rfl⟩ <;>
    rcases zero_or_finite hfv with ⟨t, rfl⟩ | ⟨t, n, f, hn, rfl⟩
  · exact absurd h (lt_irrefl _)
  · obtain ⟨-, hf, -⟩ := hv
    cases t
    · simp only [position, Sign.apply] at h
      omega
    · exact hpos hn
  · obtain ⟨-, he, -⟩ := hu
    cases s
    · have := @hpos m e hm
      simp only [realOf, Sign.apply]
      push_cast
      linarith
    · simp only [position, Sign.apply] at h
      omega
  · obtain ⟨hm24, he, hm23⟩ := hu
    obtain ⟨hn24, hf, hn23⟩ := hv
    have hm' := @hpos m e hm
    have hn' := @hpos n f hn
    cases s <;> cases t <;> simp only [realOf, position, Sign.apply] at h ⊢ <;> push_cast
    · have := significand_lt hn24 hm23 hf he hn23 hm24 (by omega)
      linarith
    · linarith
    · omega
    · exact significand_lt hm24 hn23 he hf hm23 hn24 h

theorem abs_position_lt {u : UnpackedFloat} (hu : Canonical u) (hu' : Fits u)
    (hfu : u.isFinite = true) : |position u| < 255 * 2 ^ 23 := by
  rw [abs_lt]
  rcases zero_or_finite hfu with ⟨s, rfl⟩ | ⟨s, m, e, hm, rfl⟩
  · exact ⟨by rw [position]; decide, by rw [position]; decide⟩
  · have hbounds := position_finite_bounds hm hu.1 hu.2.1 hu'
    cases s <;> simp only [position, Sign.apply] <;> omega

theorem isFinite_or_infinity {u : UnpackedFloat} (h : u.isNaN = false) :
    u.isFinite = true ∨ ∃ s, u = .infinity s := by
  cases u with
  | infinity s => exact .inr ⟨s, rfl⟩
  | notANumber => exact absurd h Bool.true_eq_false.mp
  | zero s => exact .inl rfl
  | finite s m e hm => exact .inl rfl

theorem valueOf_lt {u v : UnpackedFloat} (hu : Canonical u) (hu' : Fits u) (hv : Canonical v)
    (hv' : Fits v) (hnu : u.isNaN = false) (hnv : v.isNaN = false)
    (h : position u < position v) : valueOf u < valueOf v := by
  rcases isFinite_or_infinity hnu with hfu | ⟨s, rfl⟩ <;>
    rcases isFinite_or_infinity hnv with hfv | ⟨t, rfl⟩
  · rw [valueOf_of_isFinite hfu, valueOf_of_isFinite hfv, EReal.coe_lt_coe_iff]
    exact realOf_lt hu hv hfu hfv h
  · have hbound := abs_lt.mp (abs_position_lt hu hu' hfu)
    rw [valueOf_of_isFinite hfu]
    cases t
    · rw [position_negative_infinity] at h
      omega
    · exact EReal.coe_lt_top _
  · have hbound := abs_lt.mp (abs_position_lt hv hv' hfv)
    rw [valueOf_of_isFinite hfv]
    cases s
    · exact EReal.bot_lt_coe _
    · rw [position_infinity] at h
      omega
  · cases s <;> cases t
    · exact absurd h (lt_irrefl _)
    · exact bot_lt_top
    · exact absurd h (by decide)
    · exact absurd h (lt_irrefl _)

theorem eq_of_position_eq_of_isFinite {u v : UnpackedFloat} (hu : Canonical u) (hu' : Fits u)
    (hv : Canonical v) (hv' : Fits v) (hfu : u.isFinite = true) (hfv : v.isFinite = true)
    (h : position u = position v) : u = v ∨ ∃ s t, u = .zero s ∧ v = .zero t := by
  rcases zero_or_finite hfu with ⟨s, rfl⟩ | ⟨s, m, e, hm, rfl⟩ <;>
    rcases zero_or_finite hfv with ⟨t, rfl⟩ | ⟨t, n, f, hn, rfl⟩
  · exact .inr ⟨s, t, rfl, rfl⟩
  · have hbounds := position_finite_bounds hn hv.1 hv.2.1 hv'
    cases t <;> simp only [position, Sign.apply] at h <;> omega
  · have hbounds := position_finite_bounds hm hu.1 hu.2.1 hu'
    cases s <;> simp only [position, Sign.apply] at h <;> omega
  · have hbounds := position_finite_bounds hm hu.1 hu.2.1 hu'
    have hbounds' := position_finite_bounds hn hv.1 hv.2.1 hv'
    obtain ⟨hm24, he, hm23⟩ := hu
    obtain ⟨hn24, hf, hn23⟩ := hv
    left
    cases s <;> cases t <;> simp only [position, Sign.apply] at h
    · obtain ⟨rfl, rfl⟩ : e = f ∧ m = n := by omega
      rfl
    · omega
    · omega
    · obtain ⟨rfl, rfl⟩ : e = f ∧ m = n := by omega
      rfl

/-- Two numbers at one position are the same, or both zeros. -/
theorem eq_of_position_eq {u v : UnpackedFloat} (hu : Canonical u) (hu' : Fits u)
    (hv : Canonical v) (hv' : Fits v) (hnu : u.isNaN = false) (hnv : v.isNaN = false)
    (h : position u = position v) : u = v ∨ ∃ s t, u = .zero s ∧ v = .zero t := by
  rcases isFinite_or_infinity hnu with hfu | ⟨s, rfl⟩ <;>
    rcases isFinite_or_infinity hnv with hfv | ⟨t, rfl⟩
  · exact eq_of_position_eq_of_isFinite hu hu' hv hv' hfu hfv h
  · have hbound := abs_lt.mp (abs_position_lt hu hu' hfu)
    cases t
    · rw [position_negative_infinity] at h
      omega
    · rw [position_infinity] at h
      omega
  · have hbound := abs_lt.mp (abs_position_lt hv hv' hfv)
    cases s
    · rw [position_negative_infinity] at h
      omega
    · rw [position_infinity] at h
      omega
  · cases s <;> cases t
    · exact .inl rfl
    · exact absurd h (by decide)
    · exact absurd h (by decide)
    · exact .inl rfl

theorem valueOf_eq {u v : UnpackedFloat} (hu : Canonical u) (hu' : Fits u) (hv : Canonical v)
    (hv' : Fits v) (hnu : u.isNaN = false) (hnv : v.isNaN = false)
    (h : position u = position v) : valueOf u = valueOf v := by
  rcases eq_of_position_eq hu hu' hv hv' hnu hnv h with rfl | ⟨s, t, rfl, rfl⟩ <;> rfl

/-! ## Machine numbers -/

/-- The extended real number that a machine number stands for. -/
noncomputable def value (x : Float32) : EReal := valueOf x.toModel.unpack

variable {x y : Float32}

theorem canonical_toModel (x : Float32) : Canonical x.toModel.unpack := canonical_unpack _

theorem fits_toModel (x : Float32) : Fits x.toModel.unpack := fits_unpack _

theorem value_lt_iff_position (hx : x.isNaN = false) (hy : y.isNaN = false) :
    value x < value y ↔ position x.toModel.unpack < position y.toModel.unpack := by
  have hcx := canonical_toModel x
  have hcy := canonical_toModel y
  have hfx := fits_toModel x
  have hfy := fits_toModel y
  rcases lt_trichotomy (position x.toModel.unpack) (position y.toModel.unpack) with h | h | h
  · exact iff_of_true (valueOf_lt hcx hfx hcy hfy hx hy h) h
  · exact iff_of_false (valueOf_eq hcx hfx hcy hfy hx hy h).not_lt h.not_lt
  · exact iff_of_false (valueOf_lt hcy hfy hcx hfx hy hx h).not_gt h.not_gt

theorem position_eq_of_value_eq (hx : x.isNaN = false) (hy : y.isNaN = false)
    (h : value x = value y) : position x.toModel.unpack = position y.toModel.unpack := by
  have hxy := (value_lt_iff_position hx hy).not.mp h.not_lt
  have hyx := (value_lt_iff_position hy hx).not.mp h.not_gt
  omega

theorem compare_toModel (hx : x.isNaN = false) (hy : y.isNaN = false) :
    x.toModel.unpack.compare y.toModel.unpack =
      some (compare (position x.toModel.unpack) (position y.toModel.unpack)) :=
  compare_eq (canonical_toModel x) (fits_toModel x) (canonical_toModel y) (fits_toModel y) hx hy

theorem lt_iff_lt_unpack : x < y ↔ x.toModel.unpack.lt y.toModel.unpack = true := by
  show Float32.lt x y = true ↔ _
  exact decide_eq_true_iff

theorem le_iff_le_unpack : x ≤ y ↔ x.toModel.unpack.le y.toModel.unpack = true := by
  show Float32.le x y = true ↔ _
  exact decide_eq_true_iff

theorem lt_iff_value_lt (hx : x.isNaN = false) (hy : y.isNaN = false) :
    x < y ↔ value x < value y := by
  rw [lt_iff_lt_unpack, value_lt_iff_position hx hy, UnpackedFloat.lt, compare_toModel hx hy]
  simp [Int.compare_eq_lt]

theorem le_iff_value_le (hx : x.isNaN = false) (hy : y.isNaN = false) :
    x ≤ y ↔ value x ≤ value y := by
  rw [le_iff_le_unpack, ← not_lt, value_lt_iff_position hy hx, UnpackedFloat.le,
    compare_toModel hx hy]
  simp [Int.isLE_compare]

theorem isNaN_eq_false_of_compare {u v : UnpackedFloat} {o : Ordering}
    (h : u.compare v = some o) : u.isNaN = false ∧ v.isNaN = false := by
  cases u <;> cases v <;>
    first | exact ⟨rfl, rfl⟩ | exact absurd h (by simp [UnpackedFloat.compare])

/-- A value that is not a number compares to nothing. -/
theorem isNaN_eq_false_of_le (h : x ≤ y) : x.isNaN = false ∧ y.isNaN = false := by
  rw [le_iff_le_unpack, UnpackedFloat.le, Option.any_eq_true] at h
  obtain ⟨o, ho, -⟩ := h
  exact isNaN_eq_false_of_compare ho

theorem isNaN_eq_false_of_lt (h : x < y) : x.isNaN = false ∧ y.isNaN = false := by
  rw [lt_iff_lt_unpack, UnpackedFloat.lt, beq_iff_eq] at h
  exact isNaN_eq_false_of_compare h

theorem isKey_iff : IsKey x ↔ x.isNaN = false := by
  constructor
  · intro h
    exact (isNaN_eq_false_of_le h).1
  · intro h
    exact (le_iff_value_le h h).mpr le_rfl

instance : OrderedKeys Float32 where
  isKey_of_le h := by
    rw [isKey_iff, isKey_iff]
    exact isNaN_eq_false_of_le h
  le_trans {a b c} hab hbc := by
    obtain ⟨ha, hb⟩ := isNaN_eq_false_of_le hab
    have hc := (isNaN_eq_false_of_le hbc).2
    rw [le_iff_value_le ha hb] at hab
    rw [le_iff_value_le hb hc] at hbc
    exact (le_iff_value_le ha hc).mpr (hab.trans hbc)
  le_total {a b} ha hb := by
    rw [isKey_iff] at ha hb
    rw [le_iff_value_le ha hb, le_iff_value_le hb ha]
    exact le_total _ _
  lt_iff {a b} := by
    rw [isKey_iff, isKey_iff]
    constructor
    · intro h
      obtain ⟨ha, hb⟩ := isNaN_eq_false_of_lt h
      refine ⟨ha, hb, ?_⟩
      rw [le_iff_value_le hb ha, not_le]
      exact (lt_iff_value_lt ha hb).mp h
    · rintro ⟨ha, hb, h⟩
      rw [le_iff_value_le hb ha, not_le] at h
      exact (lt_iff_value_lt ha hb).mpr h

/-! ## The total order -/

theorem position_unpack {b : BitVec 32} (h : (unpack Format.binary32 b).isNaN = false) :
    position (unpack Format.binary32 b) = (signOf b).apply (b.toNat % 2 ^ 31 : ℕ) := by
  have hbits : b.toNat % 2 ^ 31 = biased b * 2 ^ 23 + fraction b := by
    unfold biased fraction
    omega
  rw [hbits]
  rw [unpack_eq] at h ⊢
  split
  case isTrue hall =>
    rw [if_pos hall] at h
    split
    case isTrue hzero =>
      rw [position, hall, hzero]
      rfl
    case isFalse hzero =>
      rw [if_neg hzero] at h
      exact absurd h Bool.true_eq_false.mp
  case isFalse =>
    split
    case isTrue hsmall =>
      split
      case isTrue hzero =>
        rw [position, hsmall, hzero]
        cases signOf b <;> rfl
      case isFalse =>
        rw [position, hsmall]
        congr 1
    case isFalse =>
      rw [position]
      congr 1
      omega

theorem negativeSign_unpack {b : BitVec 32} (h : (unpack Format.binary32 b).isNaN = false) :
    negativeSign (unpack Format.binary32 b) = decide (2 ^ 31 ≤ b.toNat) := by
  have hsign : signOf b = if 2 ^ 31 ≤ b.toNat then .negative else .positive := by
    rw [signOf]
    split <;> split <;> first | rfl | omega
  rw [unpack_eq, hsign] at h ⊢
  split
  case isTrue hall =>
    rw [if_pos hall] at h
    split
    case isTrue => split <;> simp_all [negativeSign]
    case isFalse hzero =>
      rw [if_neg hzero] at h
      exact absurd h Bool.true_eq_false.mp
  case isFalse =>
    split
    · split <;> split <;> simp_all [negativeSign]
    · split <;> simp_all [negativeSign]

/-- The rank of a number is its position, and one less where the sign is negative. -/
theorem rank_eq (hx : x.isNaN = false) : rank x =
    position x.toModel.unpack - if negativeSign x.toModel.unpack then 1 else 0 := by
  have hposition : position x.toModel.unpack =
      (signOf x.toModel.toBits.toBitVec).apply (x.toBits.toNat % 2 ^ 31 : ℕ) := position_unpack hx
  have hnegative : negativeSign x.toModel.unpack = decide (2 ^ 31 ≤ x.toBits.toNat) :=
    negativeSign_unpack hx
  have hsign : signOf x.toModel.toBits.toBitVec =
      if x.toBits.toNat < 2 ^ 31 then .positive else .negative := rfl
  have hlt : x.toBits.toNat < 2 ^ 32 := x.toBits.toNat_lt
  have hmiddle : x.toBits < 0x80000000 ↔ x.toBits.toNat < 2 ^ 31 := UInt32.lt_iff_toNat_lt
  rw [hposition, hnegative, hsign]
  simp only [rank, hmiddle, decide_eq_true_eq]
  split
  · simp only [Sign.apply]
    omega
  · simp only [Sign.apply]
    omega

theorem position_nonpos {u : UnpackedFloat} (hu : Canonical u) (h : negativeSign u = true) :
    position u ≤ 0 := by
  cases u with
  | infinity s =>
    cases s
    · exact (by decide : -(255 * 2 ^ 23 : ℤ) ≤ 0)
    · exact absurd h Bool.false_ne_true
  | notANumber => exact le_rfl
  | zero s => exact le_rfl
  | finite s m e hm =>
    obtain ⟨-, he, -⟩ := hu
    cases s
    · simp only [position, Sign.apply]
      omega
    · exact absurd h Bool.false_ne_true

theorem position_nonneg {u : UnpackedFloat} (hu : Canonical u) (h : negativeSign u = false) :
    0 ≤ position u := by
  cases u with
  | infinity s =>
    cases s
    · exact absurd h Bool.true_eq_false.mp
    · exact (by decide : (0 : ℤ) ≤ 255 * 2 ^ 23)
  | notANumber => exact le_rfl
  | zero s => exact le_rfl
  | finite s m e hm =>
    obtain ⟨-, he, -⟩ := hu
    cases s
    · exact absurd h Bool.true_eq_false.mp
    · simp only [position, Sign.apply]
      omega

theorem rank_lt_of_value_lt (hx : x.isNaN = false) (hy : y.isNaN = false)
    (h : value x < value y) : rank x < rank y := by
  rw [value_lt_iff_position hx hy] at h
  have hneg := position_nonpos (canonical_toModel y)
  have hpos := position_nonneg (canonical_toModel x)
  rw [rank_eq hx, rank_eq hy]
  split <;> split <;> grind

end PlanarDynamics.Binary32
