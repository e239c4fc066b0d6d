import PlanarDynamics.Candidates.IndexQuery
import PlanarDynamics.Proofs.Binary32.Arithmetic

/-!
# Widened bounds

A box that overlaps another begins no further to the left of it than its own width, and no width is
larger than the largest one. The bound that a query is given suffers four roundings; the widening
makes up for them at every magnitude, down to the smallest unit and up to overflow.
-/

namespace PlanarDynamics.Candidates

open Binary32

/-- The widening exceeds what the other roundings lose. Where the loss is not zero it is at least
the smallest unit, and then the widening is too large to be lost itself. -/
theorem rounded_sub_widening_le {a b c w : ℝ} (ha : OnGrid a) (hb : OnGrid b) (hc : OnGrid c)
    (hw : OnGrid w) (hac : a ≤ c) (hw0 : 0 ≤ w) (hwidth : rounded (c - b) ≤ w) :
    rounded (a - w) - rounded (max |rounded (a - w)| w * 4 * 2 ^ (-23 : ℤ)) ≤ b := by
  let v := rounded (a - w)
  let m := max |v| w
  have hm0 : 0 ≤ m := le_max_of_le_right hw0
  have hspread : 0 ≤ rounded (m * 4 * 2 ^ (-23 : ℤ)) := rounded_nonneg (by positivity)
  show v - rounded (m * 4 * 2 ^ (-23 : ℤ)) ≤ b
  by_cases hvb : v ≤ b
  · linarith
  rw [not_le] at hvb
  -- The box to the right is not inverted: otherwise it would begin right of the bound.
  have hbc : b ≤ c := by
    by_contra hcb
    have : a - w ≤ b := by linarith
    exact hvb.not_ge (rounded_le hb this)
  have hwidth_error := abs_le.mp (abs_rounded_sub_sub_le hc hb)
  rw [abs_of_nonneg (sub_nonneg.mpr hbc)] at hwidth_error
  have hbound_error := abs_rounded_sub_sub_le ha hw
  have hv : |a - w| ≤ |v| + |a - w| / 2 ^ 24 := by
    have htriangle := abs_sub_abs_le_abs_sub (a - w) v
    rw [abs_sub_comm (a - w) v] at htriangle
    linarith
  have hloss : v - b ≤ 3 * m / 2 ^ 24 := by
    have hvm : |v| ≤ m := le_max_left _ _
    have hwm : w ≤ m := le_max_right _ _
    have := (abs_le.mp hbound_error).2
    linarith
  have hunit : (2 : ℝ) ^ (-149 : ℤ) ≤ v - b := by
    obtain ⟨j, hj⟩ := (onGrid_rounded (a - w)).exists_multiple
    obtain ⟨k, hk⟩ := hb.exists_multiple
    have hpos : (0 : ℝ) < 2 ^ (-149 : ℤ) := by positivity
    have hdifference : v - b = ((j - k : ℤ) : ℝ) * 2 ^ (-149 : ℤ) := by
      rw [show v = _ from hj, hk]
      push_cast
      ring
    have hjk : 0 < j - k := by
      have : (0 : ℝ) < ((j - k : ℤ) : ℝ) * 2 ^ (-149 : ℤ) := by linarith
      exact_mod_cast pos_of_mul_pos_left this hpos.le
    have hone : (1 : ℝ) ≤ ((j - k : ℤ) : ℝ) := by exact_mod_cast hjk
    rw [hdifference]
    exact le_mul_of_one_le_left hpos.le hone
  have hhalf : (2 : ℝ) ^ (-149 : ℤ) = 2 * 2 ^ (-150 : ℤ) := by norm_num
  have hscale : (2 : ℝ) ^ (-23 : ℤ) = 2 / 2 ^ 24 := by norm_num
  have herror := abs_rounded_sub_self_le (m * 4 * 2 ^ (-23 : ℤ))
  rw [abs_of_nonneg (by positivity : 0 ≤ m * 4 * 2 ^ (-23 : ℤ)), hscale] at herror
  have hmax : max (m * 4 * (2 / 2 ^ 24) / 2 ^ 24) ((2 : ℝ) ^ (-150 : ℤ)) ≤ 5 * m / 2 ^ 24 := by
    rw [hhalf] at hunit
    generalize (2 : ℝ) ^ (-150 : ℤ) = δ at hunit ⊢
    apply max_le
    · linarith
    · linarith
  have := (abs_le.mp (herror.trans hmax)).1
  rw [hscale]
  linarith

/-! ## Over the machine numbers -/

section Machine

variable {a b c w x : Float32}

theorem four_spec : (4.0 : Float32).isFinite = true ∧ toReal 4.0 = 4 := by
  have hunpack : (4.0 : Float32).toModel.unpack = .finite .positive (2 ^ 23) (-21) (by decide) :=
    rfl
  refine ⟨rfl, ?_⟩
  rw [toReal, hunpack, realOf]
  norm_num [Float.Model.UnpackedFloat.Sign.apply]

/-- What a bound is widened by. It is infinite, or the rounding of `8` units of the larger size. -/
theorem spread_spec (hx : x.isNaN = false) (hx0 : 0 ≤ value x) :
    (x * 4.0 * Scalar.epsilon).isNaN = false ∧ 0 ≤ value (x * 4.0 * Scalar.epsilon) ∧
      (value (x * 4.0 * Scalar.epsilon) = ⊤ ∨
        x.isFinite = true ∧ (x * 4.0 * Scalar.epsilon).isFinite = true ∧
          toReal (x * 4.0 * Scalar.epsilon) = rounded (toReal x * 4 * 2 ^ (-23 : ℤ))) := by
  obtain ⟨hfour, hfour_real⟩ := four_spec
  obtain ⟨heps, heps_real⟩ := epsilon_spec
  obtain ⟨hnan, hnonneg, hproduct⟩ :=
    mul_nonneg_spec hx hx0 hfour (by rw [hfour_real]; norm_num)
  obtain ⟨hnan', hnonneg', hproduct'⟩ :=
    mul_nonneg_spec hnan hnonneg heps (by rw [heps_real]; positivity)
  refine ⟨hnan', hnonneg', ?_⟩
  rcases hproduct' with htop | ⟨hf, hf', hreal'⟩
  · exact .inl htop
  · rcases hproduct with htop | ⟨hfx, -, hreal⟩
    · rw [value_eq_toReal hf] at htop
      exact absurd htop (EReal.coe_ne_top _)
    · refine .inr ⟨hfx, hf', ?_⟩
      have hexact : OnGrid (toReal x * 4) := (onGrid_toReal x).mul_four
      rw [hreal', hreal, hfour_real, heps_real, rounded_eq_self hexact]

theorem zero_spec : (0 : Float32).isFinite = true ∧ value 0 = 0 :=
  ⟨rfl, by
    have hunpack : (0 : Float32).toModel.unpack = .zero .positive := rfl
    rw [value, hunpack]
    rfl⟩

/-- Before it is widened, the bound is a number below infinity. -/
theorem sub_extent_spec (ha : a.isFinite = true) (hw : w.isNaN = false) (hw0 : 0 ≤ value w) :
    (a - w).isNaN = false ∧ value (a - w) ≠ ⊤ := by
  rcases value_top_or_isFinite hw hw0 with htop | hfw
  · have hatop : value a ≠ ⊤ := by
      rw [value_eq_toReal ha]
      exact EReal.coe_ne_top _
    obtain ⟨hnan, hbot⟩ := value_sub_top (isNaN_of_isFinite ha) hatop hw htop
    exact ⟨hnan, by rw [hbot]; exact bot_ne_top⟩
  · obtain ⟨hnan, hvalue⟩ := value_sub ha hfw
    have hle : nearest (toReal a - toReal w) ≤ value a := by
      apply nearest_le_value (isNaN_of_isFinite ha)
      rw [value_eq_toReal hfw] at hw0
      have : 0 ≤ toReal w := by exact_mod_cast hw0
      rw [value_eq_toReal ha, EReal.coe_le_coe_iff]
      linarith
    rw [value_eq_toReal ha] at hle
    rw [hvalue]
    exact ⟨hnan, (hle.trans_lt (EReal.coe_lt_top _)).ne⟩

/-- What the widening is measured by: the larger of the bound's size and the extent. -/
theorem size_spec (hx : x.isNaN = false) (hw : w.isNaN = false) (hw0 : 0 ≤ value w) :
    (Scalar.maxNum x.abs w).isNaN = false ∧ 0 ≤ value (Scalar.maxNum x.abs w) ∧
      (x.isFinite = true → (Scalar.maxNum x.abs w).isFinite = true → w.isFinite = true ∧
        toReal (Scalar.maxNum x.abs w) = max |toReal x| (toReal w)) := by
  have habs : x.abs.isNaN = false := by
    rcases isFinite_or_value hx with hf | htop | hbot
    · exact isNaN_of_isFinite (toReal_abs hf).1
    · exact (value_abs_of_infinite hx (.inl (by rw [value, htop]; rfl))).1
    · exact (value_abs_of_infinite hx (.inr (by rw [value, hbot]; rfl))).1
  obtain ⟨hnan, hmax⟩ := value_maxNum habs hw
  have hnonneg : 0 ≤ value (Scalar.maxNum x.abs w) := by
    rw [hmax]
    exact le_max_of_le_right hw0
  refine ⟨hnan, hnonneg, fun hfx hfm => ?_⟩
  obtain ⟨hfabs, hreal⟩ := toReal_abs hfx
  have hfw : w.isFinite = true := by
    rcases value_top_or_isFinite hw hw0 with htop | hfw
    · rw [htop, max_top_right, value_eq_toReal hfm] at hmax
      exact absurd hmax (EReal.coe_ne_top _)
    · exact hfw
  refine ⟨hfw, toReal_of_value hfm ?_⟩
  rw [hmax, value_eq_toReal hfabs, value_eq_toReal hfw, hreal]
  exact (EReal.coe_strictMono.monotone.map_max).symm

/-- Where nothing overflows, the error analysis over the reals applies. -/
theorem widen_le_of_isFinite (ha : a.isFinite = true) (hb : b.isFinite = true)
    (hc : c.isFinite = true) (hw : w.isFinite = true) (hac : value a ≤ value c)
    (hw0 : 0 ≤ value w) (hwidth : value (c - b) ≤ value w) (hv : (a - w).isFinite = true)
    (hs : x.isFinite = true)
    (hx : toReal x = rounded (max |toReal (a - w)| (toReal w) * 4 * 2 ^ (-23 : ℤ))) :
    value ((a - w) - x) ≤ value b := by
  have hreal : toReal (a - w) = rounded (toReal a - toReal w) := by
    have hvalue := (value_sub ha hw).2
    have htop : value (a - w) ≠ ⊤ := by
      rw [value_eq_toReal hv]
      exact EReal.coe_ne_top _
    have hbot : value (a - w) ≠ ⊥ := by
      rw [value_eq_toReal hv]
      exact EReal.coe_ne_bot _
    apply toReal_of_value hv
    rw [hvalue] at htop hbot ⊢
    exact nearest_eq_rounded htop hbot
  have hw0_real : 0 ≤ toReal w := by
    rw [value_eq_toReal hw] at hw0
    exact_mod_cast hw0
  have hwidth_real : rounded (toReal c - toReal b) ≤ toReal w := by
    rw [(value_sub hc hb).2, value_eq_toReal hw] at hwidth
    exact rounded_le_of_nearest_le hw0_real hwidth
  rw [value_eq_toReal ha, value_eq_toReal hc, EReal.coe_le_coe_iff] at hac
  rw [(value_sub hv hs).2]
  apply nearest_le_value (isNaN_of_isFinite hb)
  rw [value_eq_toReal hb, EReal.coe_le_coe_iff, hx, hreal]
  exact rounded_sub_widening_le (onGrid_toReal a) (onGrid_toReal b) (onGrid_toReal c)
    (onGrid_toReal w) hac hw0_real hwidth_real

/-- The widened bound is a number, and no box of at most the given width that reaches to the right
of `a` begins below it. -/
theorem widen_le (ha : a.isFinite = true) (hb : b.isFinite = true) (hc : c.isFinite = true)
    (hw : w.isNaN = false) (hac : value a ≤ value c) (hw0 : 0 ≤ value w)
    (hwidth : value (c - b) ≤ value w) :
    (widen (a - w) w).isNaN = false ∧ value (widen (a - w) w) ≤ value b := by
  obtain ⟨hnv, hvtop⟩ := sub_extent_spec ha hw hw0
  obtain ⟨hnm, hm0, hm⟩ := size_spec hnv hw hw0
  obtain ⟨hns, hs0, hspread⟩ := spread_spec hnm hm0
  show ((a - w) - Scalar.maxNum (a - w).abs w * 4.0 * Scalar.epsilon).isNaN = false ∧
    value ((a - w) - Scalar.maxNum (a - w).abs w * 4.0 * Scalar.epsilon) ≤ value b
  by_cases hvbot : value (a - w) = ⊥
  · have hsbot : value (Scalar.maxNum (a - w).abs w * 4.0 * Scalar.epsilon) ≠ ⊥ := by
      intro hbot
      rw [hbot] at hs0
      exact hs0.not_gt EReal.bot_lt_zero
    obtain ⟨hnan, hbot⟩ := value_bot_sub hnv hvbot hns hsbot
    exact ⟨hnan, hbot ▸ bot_le⟩
  · rcases hspread with hstop | ⟨hfm, hfs, hreal⟩
    · obtain ⟨hnan, hbot⟩ := value_sub_top hnv hvtop hns hstop
      exact ⟨hnan, hbot ▸ bot_le⟩
    · have hfv := isFinite_of_value hnv hvtop hvbot
      obtain ⟨hfw, hmax⟩ := hm hfv hfm
      rw [hmax] at hreal
      exact ⟨(value_sub hfv hfs).1,
        widen_le_of_isFinite ha hb hc hfw hac hw0 hwidth hfv hfs hreal⟩

end Machine

end PlanarDynamics.Candidates
