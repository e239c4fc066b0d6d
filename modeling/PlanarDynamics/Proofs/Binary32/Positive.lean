import PlanarDynamics.Proofs.Binary32.Arithmetic

/-!
# Positive numbers

Bit patterns of numbers without a sign, the sign of a quotient, and the cases in which a difference
or a product is neither lost nor too large.
-/

namespace PlanarDynamics.Binary32

open Float.Model (Format UnpackedFloat)
open Float.Model.UnpackedFloat

/-! ## Bit patterns -/

theorem unpack_ofBits (b : UInt32) :
    (Float32.ofBits b).toModel.unpack = unpack Format.binary32 b.toBitVec :=
  (unpack_ofModel_pack (canonical_unpack b.toBitVec)).trans (clip_eq_self (fits_unpack b.toBitVec))

/-- The patterns below that of positive infinity are those of the finite numbers that have no
sign. -/
theorem isFinite_ofBits {n : ℕ} (h : n < 255 * 2 ^ 23) :
    (Float32.ofBits (UInt32.ofNat n)).isFinite = true ∧
      0 ≤ toReal (Float32.ofBits (UInt32.ofNat n)) := by
  have hsize : UInt32.size = 2 ^ 32 := rfl
  have hbits : (UInt32.ofNat n).toBitVec.toNat = n := UInt32.toNat_ofNat_of_lt (by omega)
  have hsign : signOf (UInt32.ofNat n).toBitVec = .positive := by
    rw [signOf, hbits]
    exact if_pos (by omega)
  have hbiased : biased (UInt32.ofNat n).toBitVec ≠ 255 := by
    rw [biased, hbits]
    omega
  have hunpack := unpack_ofBits (UInt32.ofNat n)
  rw [unpack_eq, if_neg hbiased, hsign] at hunpack
  have hfinite : (Float32.ofBits (UInt32.ofNat n)).isFinite =
    (Float32.ofBits (UInt32.ofNat n)).toModel.unpack.isFinite := rfl
  rw [hfinite, toReal, hunpack]
  split
  · split
    · exact ⟨rfl, le_rfl⟩
    · refine ⟨rfl, ?_⟩
      simp only [realOf, Sign.apply]
      positivity
  · refine ⟨rfl, ?_⟩
    simp only [realOf, Sign.apply]
    positivity

theorem unpack_of_toReal_pos {x : Float32} (h : 0 < toReal x) :
    ∃ m e hm, x.toModel.unpack = .finite .positive m e hm := by
  rw [toReal] at h
  cases hu : x.toModel.unpack with
  | finite s m e hm =>
    cases s
    · have hpos : (0 : ℝ) < m * 2 ^ e := mul_pos (by exact_mod_cast hm) (zpow_pos two_pos e)
      rw [hu] at h
      simp only [realOf, Sign.apply, Int.cast_neg, Int.cast_natCast, neg_mul] at h
      linarith
    · exact ⟨m, e, hm, rfl⟩
  | _ =>
    rw [hu] at h
    exact absurd h (lt_irrefl 0)

theorem signOf_pack_roundWithAccuracy (s : Sign) (m : ℕ) (e : ℤ) (a : Accuracy) :
    signOf (pack Format.binary32 (roundWithAccuracy Format.binary32 s m e a)) = s := by
  unfold roundWithAccuracy
  dsimp only
  split
  · exact signOf_packComponents ..
  · simp only [pack]
    split
    · exact signOf_packComponents ..
    · split <;> exact signOf_packComponents ..

/-- The quotient of positive numbers has no sign, so its pattern is below that of infinity. -/
theorem toBits_div_lt {x y : Float32} (hx : x.isNaN = false) (hx0 : 0 < value x)
    (hy0 : 0 < toReal y) (h : (x / y).isFinite = true) :
    (x / y).toBits.toNat < 255 * 2 ^ 23 := by
  obtain ⟨n, f, hn, huy⟩ := unpack_of_toReal_pos hy0
  let u := UnpackedFloat.div Format.binary32 x.toModel.unpack y.toModel.unpack
  have hbits : (x / y).toBits.toNat = (pack Format.binary32 u).toNat := rfl
  have hunpack : (unpack Format.binary32 (pack Format.binary32 u)).isFinite = true := h
  have hsign : signOf (pack Format.binary32 u) = .positive := by
    rcases value_top_or_isFinite hx hx0.le with htop | hfx
    · have hinf : u = .infinity .positive := by
        simp only [u, unpack_of_value_top hx htop, huy]
        rfl
      rw [hinf]
      exact signOf_packComponents ..
    · rw [value_eq_toReal hfx] at hx0
      obtain ⟨m, e, hm, hux⟩ := unpack_of_toReal_pos (EReal.coe_pos.mp hx0)
      have hdiv : u = roundWithAccuracy Format.binary32 .positive
          (divCore Format.binary32 m e n f).1 (divCore Format.binary32 m e n f).2.1
            (divCore Format.binary32 m e n f).2.2 := by
        simp only [u, hux, huy]
        rfl
      rw [hdiv]
      exact signOf_pack_roundWithAccuracy ..
  have hpositive : (pack Format.binary32 u).toNat < 2 ^ 31 := by
    by_contra hge
    rw [signOf, if_neg hge] at hsign
    cases hsign
  have hbiased : biased (pack Format.binary32 u) ≠ 255 := by
    intro hall
    rw [unpack_eq, if_pos hall] at hunpack
    split at hunpack <;> exact absurd hunpack Bool.false_ne_true
  rw [hbits]
  unfold biased at hbiased
  omega

theorem lt_of_le_of_beq {x y : Float32} (h : x ≤ y) (hne : ¬ (x == y) = true) : x < y := by
  obtain ⟨hx, hy⟩ := isNaN_eq_false_of_le h
  rw [le_iff_value_le hx hy] at h
  rw [lt_iff_value_lt hx hy]
  refine lt_of_le_of_ne h fun heq => hne ?_
  have hmodel : (x == y) = x.toModel.unpack.beq y.toModel.unpack := rfl
  rw [hmodel, UnpackedFloat.beq, compare_toModel hx hy,
    Int.compare_eq_eq.mpr (position_eq_of_value_eq hx hy heq)]
  rfl

/-- The difference of two numbers is not lost to rounding. -/
theorem value_sub_pos {x y : Float32} (hx : x.isFinite = true) (hy : y.isFinite = true)
    (h : y < x) : (x - y).isNaN = false ∧ 0 < value (x - y) := by
  obtain ⟨hnan, hvalue⟩ := value_sub hx hy
  rw [lt_iff_toReal_lt hy hx] at h
  have hgap : 0 < toReal x - toReal y := sub_pos.mpr h
  have hnear := abs_le.mp (abs_rounded_sub_sub_le (onGrid_toReal x) (onGrid_toReal y))
  rw [abs_of_pos hgap] at hnear
  have hrounded : 0 < rounded (toReal x - toReal y) := by linarith
  refine ⟨hnan, ?_⟩
  rw [hvalue, nearest]
  split_ifs with hhigh hlow
  · exact EReal.zero_lt_top
  · have : (0 : ℝ) < 2 ^ 128 := by positivity
    linarith
  · exact EReal.coe_pos.mpr hrounded

/-- A product that is between zero and a number of the format is finite. -/
theorem toReal_mul {x y z : Float32} (hx : x.isFinite = true) (hy : y.isFinite = true)
    (hz : z.isFinite = true) (h0 : 0 ≤ toReal x * toReal y) (hle : toReal x * toReal y ≤ toReal z) :
    (x * y).isFinite = true ∧ toReal (x * y) = rounded (toReal x * toReal y) := by
  obtain ⟨hnan, hvalue⟩ := value_mul hx hy
  have hlow : 0 ≤ nearest (toReal x * toReal y) := nearest_nonneg h0
  have hhigh : nearest (toReal x * toReal y) ≤ toReal z := by
    rw [← value_eq_toReal hz]
    apply nearest_le_value (isNaN_of_isFinite hz)
    rw [value_eq_toReal hz]
    exact EReal.coe_le_coe_iff.mpr hle
  have htop : nearest (toReal x * toReal y) ≠ ⊤ := (hhigh.trans_lt (EReal.coe_lt_top _)).ne
  have hbot : nearest (toReal x * toReal y) ≠ ⊥ := (EReal.bot_lt_zero.trans_le hlow).ne'
  have hfinite : (x * y).isFinite = true :=
    isFinite_of_value hnan (hvalue ▸ htop) (hvalue ▸ hbot)
  exact ⟨hfinite, toReal_of_nearest ⟨hnan, hvalue⟩ hfinite⟩

/-- A difference that is a number of the format is exact. -/
theorem toReal_sub {x y : Float32} (hx : x.isFinite = true) (hy : y.isFinite = true) {r : ℝ}
    (hr : toReal x - toReal y = r) (hgrid : OnGrid r) (hsmall : |r| < 2 ^ 128) :
    (x - y).isFinite = true ∧ toReal (x - y) = r := by
  obtain ⟨hnan, hvalue⟩ := value_sub hx hy
  rw [hr, nearest_of_abs_lt (by rwa [rounded_eq_self hgrid]), rounded_eq_self hgrid] at hvalue
  have hfinite : (x - y).isFinite = true := by
    apply isFinite_of_value hnan
    · rw [hvalue]
      exact EReal.coe_ne_top r
    · rw [hvalue]
      exact EReal.coe_ne_bot r
  exact ⟨hfinite, toReal_of_value hfinite hvalue⟩

/-- What lies between finite numbers is finite. -/
theorem isFinite_of_between {lo x hi : Float32} (hlo : lo.isFinite = true)
    (hhi : hi.isFinite = true) (hlow : lo ≤ x) (hhigh : x ≤ hi) : x.isFinite = true := by
  have hnan : x.isNaN = false := (isNaN_eq_false_of_le hlow).2
  rw [le_iff_value_le (isNaN_of_isFinite hlo) hnan, value_eq_toReal hlo] at hlow
  rw [le_iff_value_le hnan (isNaN_of_isFinite hhi), value_eq_toReal hhi] at hhigh
  exact isFinite_of_value hnan (hhigh.trans_lt (EReal.coe_lt_top _)).ne
    ((EReal.bot_lt_coe _).trans_le hlow).ne'

end PlanarDynamics.Binary32
