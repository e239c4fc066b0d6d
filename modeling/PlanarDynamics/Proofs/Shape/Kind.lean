import Mathlib.Data.Nat.Digits.Lemmas
import PlanarDynamics.Shape.Kind

/-!
# The tree of tags

A tag descends from another exactly if the digits of the other begin its own. The loop behind the
test compares sizes and not digits; it cannot pass by the ancestor, because every value that it
drops digits of is larger, and it stops after eight rounds at the latest.
-/

namespace PlanarDynamics.Tag

/-- The tag without its last `n` hexadecimal digits, as `n` rounds of the loop leave it. -/
def withoutLast (n : ℕ) (tag : UInt32) : UInt32 := (fun t : UInt32 => t >>> 4)^[n] tag

/-- The hexadecimal digits of a tag, the leading one first. -/
def digits (tag : UInt32) : List ℕ := (Nat.digits 16 tag.toNat).reverse

variable {a b t : UInt32}

theorem toNat_shiftRight_four (t : UInt32) : (t >>> 4).toNat = t.toNat / 16 := by
  rw [UInt32.toNat_shiftRight]
  exact Nat.shiftRight_eq_div_pow t.toNat 4

theorem toNat_withoutLast (n : ℕ) (t : UInt32) :
    (withoutLast n t).toNat = t.toNat / 16 ^ n := by
  induction n with
  | zero => exact (Nat.div_one _).symm
  | succ n ih =>
    rw [withoutLast, Function.iterate_succ_apply', toNat_shiftRight_four, ← withoutLast, ih,
      Nat.div_div_eq_div_mul, Nat.pow_succ]

theorem toNat_withoutLast_eq_shiftRight (n : ℕ) (t : UInt32) :
    (withoutLast n t).toNat = t.toNat >>> (4 * n) := by
  rw [toNat_withoutLast, Nat.shiftRight_eq_div_pow, Nat.pow_mul]

theorem withoutLast_le (n : ℕ) (t : UInt32) : withoutLast n t ≤ t := by
  rw [UInt32.le_iff_toNat_le, toNat_withoutLast]
  exact Nat.div_le_self ..

/-- After eight rounds nothing is left of a tag. -/
theorem withoutLast_eight (t : UInt32) : withoutLast 8 t = 0 := by
  apply UInt32.toNat_inj.mp
  rw [toNat_withoutLast]
  exact Nat.div_eq_of_lt t.toNat_lt

/-- The loop stops after the first round that leaves no more than the ancestor, of at most eight. -/
theorem exists_rounds (a t : UInt32) : ∃ n ≤ 8, (∀ i < n, a < withoutLast i t) ∧
    ¬ a < withoutLast n t ∧ climb a t = withoutLast n t := by
  have hrounds : ∃ n, (∀ i < n, a < withoutLast i t) ∧ ¬ a < withoutLast n t ∧
      climb a t = withoutLast n t := by
    fun_induction climb a t with
    | case1 t hlt ih =>
      obtain ⟨n, hbefore, hafter, hclimb⟩ := ih
      refine ⟨n + 1, fun i hi => ?_, hafter, hclimb⟩
      cases i with
      | zero => exact hlt
      | succ i => exact hbefore i (Nat.lt_of_succ_lt_succ hi)
    | case2 t hle => exact ⟨0, nofun, hle, rfl⟩
  obtain ⟨n, hbefore, hafter⟩ := hrounds
  refine ⟨n, ?_, hbefore, hafter⟩
  by_contra hn
  have hlt := hbefore 8 (Nat.lt_of_not_le hn)
  rw [withoutLast_eight] at hlt
  exact Nat.not_lt_zero _ (UInt32.lt_iff_toNat_lt.mp hlt)

/-- The loop ends at the ancestor if it comes by it at all. -/
theorem climb_eq_iff : climb a t = a ↔ ∃ n, withoutLast n t = a := by
  constructor
  · intro h
    obtain ⟨n, -, -, -, hclimb⟩ := exists_rounds a t
    exact ⟨n, hclimb.symm.trans h⟩
  · rintro ⟨n, h⟩
    fun_induction climb a t generalizing n with
    | case1 t hlt ih =>
      cases n with
      | zero => exact absurd hlt (h ▸ UInt32.lt_irrefl t)
      | succ n => exact ih n h
    | case2 t hle =>
      -- The tag is not above the ancestor, and dropping digits leads to nothing larger.
      exact UInt32.le_antisymm (UInt32.not_lt.mp hle) (h ▸ withoutLast_le n t)

theorem ne_zero_of_withoutLast {n : ℕ} (h : withoutLast n t ≠ 0) : t ≠ 0 := by
  rintro rfl
  exact h (UInt32.le_zero_iff.mp (withoutLast_le n 0))

theorem descendsFrom_iff : descendsFrom a t = true ↔ a ≠ 0 ∧ ∃ n, withoutLast n t = a := by
  unfold descendsFrom
  split
  case isTrue h =>
    rw [Bool.or_eq_true, beq_iff_eq, beq_iff_eq] at h
    refine iff_of_false nofun ?_
    rintro ⟨ha, n, rfl⟩
    exact h.elim ha (ne_zero_of_withoutLast ha)
  case isFalse h =>
    rw [Bool.or_eq_true, beq_iff_eq, beq_iff_eq, not_or] at h
    rw [beq_iff_eq, climb_eq_iff, and_iff_right h.1]

theorem ne_zero_of_descendsFrom (h : descendsFrom a t = true) : a ≠ 0 ∧ t ≠ 0 := by
  obtain ⟨ha, n, rfl⟩ := descendsFrom_iff.mp h
  exact ⟨ha, ne_zero_of_withoutLast ha⟩

/-- A tag descends from itself and from whatever its parent, the tag without the last digit,
descends from. -/
theorem descendsFrom_iff_parent :
    descendsFrom a t = true ↔ (a ≠ 0 ∧ a = t) ∨ descendsFrom a (t >>> 4) = true := by
  rw [descendsFrom_iff, descendsFrom_iff, ← and_or_left]
  refine and_congr_right fun _ => ?_
  constructor
  · rintro ⟨n, h⟩
    cases n with
    | zero => exact .inl h.symm
    | succ n => exact .inr ⟨n, h⟩
  · rintro (rfl | ⟨n, h⟩)
    · exact ⟨0, rfl⟩
    · exact ⟨n + 1, h⟩

/-! ## Digits -/

theorem digits_div_pow (m n : ℕ) : Nat.digits 16 (m / 16 ^ n) = (Nat.digits 16 m).drop n := by
  induction n with
  | zero => rw [Nat.pow_zero, Nat.div_one, List.drop_zero]
  | succ n ih =>
    rw [Nat.pow_succ, ← Nat.div_div_eq_div_mul, ← List.drop_drop, ← ih]
    by_cases hzero : m / 16 ^ n = 0
    · rw [hzero]
      rfl
    · rw [Nat.digits_eq_cons_digits_div (by decide) hzero]
      rfl

theorem digits_injective : Function.Injective digits := by
  intro s t h
  exact UInt32.toNat_inj.mp (Nat.digits.injective 16 (List.reverse_injective h))

/-- What is left when digits are dropped are the leading ones. -/
theorem exists_withoutLast_iff : (∃ n, withoutLast n t = a) ↔ digits a <+: digits t := by
  rw [digits, digits, List.reverse_prefix]
  constructor
  · rintro ⟨n, rfl⟩
    rw [toNat_withoutLast, digits_div_pow]
    exact List.drop_suffix ..
  · intro h
    refine ⟨(Nat.digits 16 t.toNat).length - (Nat.digits 16 a.toNat).length, ?_⟩
    apply UInt32.toNat_inj.mp
    apply Nat.digits.injective 16
    rw [toNat_withoutLast, digits_div_pow]
    exact (List.suffix_iff_eq_drop.mp h).symm

theorem descendsFrom_iff_digits : descendsFrom a t = true ↔ a ≠ 0 ∧ digits a <+: digits t := by
  rw [descendsFrom_iff, exists_withoutLast_iff]

theorem descendsFrom_antisymm (hab : descendsFrom a b = true) (hba : descendsFrom b a = true) :
    a = b := by
  rw [descendsFrom_iff_digits] at hab hba
  exact digits_injective (hab.2.eq_of_length_le hba.2.length_le)

theorem descendsFrom_trans (hab : descendsFrom a b = true) (hbt : descendsFrom b t = true) :
    descendsFrom a t = true := by
  rw [descendsFrom_iff_digits] at hab hbt ⊢
  exact ⟨hab.1, hab.2.trans hbt.2⟩

/-- Of two ancestors of a tag one descends from the other. -/
theorem descendsFrom_or (ha : descendsFrom a t = true) (hb : descendsFrom b t = true) :
    descendsFrom a b = true ∨ descendsFrom b a = true := by
  rw [descendsFrom_iff_digits] at ha hb
  rw [descendsFrom_iff_digits, descendsFrom_iff_digits]
  exact (List.prefix_or_prefix_of_prefix ha.2 hb.2).imp (⟨ha.1, ·⟩) (⟨hb.1, ·⟩)

/-- The loop ends after eight rounds at the latest, and the test tells whether tags that are not
zero become equal when digits of the second are dropped, or, what is the same, whether the digits of
the first begin those of the second. Descent is a partial order of these tags in which the ancestors
of each form a chain, from the tag itself over its parent. -/
theorem tags_form_tree :
    (∀ ancestor tag, ∃ rounds ≤ 8, (∀ i < rounds, ancestor < withoutLast i tag) ∧
      ¬ ancestor < withoutLast rounds tag ∧ climb ancestor tag = withoutLast rounds tag) ∧
    (∀ ancestor tag, descendsFrom ancestor tag = true ↔
      ancestor ≠ 0 ∧ tag ≠ 0 ∧ ∃ n, tag.toNat >>> (4 * n) = ancestor.toNat) ∧
    (∀ ancestor tag, descendsFrom ancestor tag = true ↔
      ancestor ≠ 0 ∧ tag ≠ 0 ∧ digits ancestor <+: digits tag) ∧
    (∀ tag, tag ≠ 0 → descendsFrom tag tag = true) ∧
    (∀ a b, descendsFrom a b = true → descendsFrom b a = true → a = b) ∧
    (∀ a b t, descendsFrom a b = true → descendsFrom b t = true → descendsFrom a t = true) ∧
    (∀ a b t, descendsFrom a t = true → descendsFrom b t = true →
      descendsFrom a b = true ∨ descendsFrom b a = true) ∧
    ∀ ancestor tag, descendsFrom ancestor tag = true ↔
      (ancestor ≠ 0 ∧ ancestor = tag) ∨ descendsFrom ancestor (tag >>> 4) = true := by
  have hzero {a t : UInt32} {P : Prop} (h : descendsFrom a t = true ↔ a ≠ 0 ∧ P) :
      descendsFrom a t = true ↔ a ≠ 0 ∧ t ≠ 0 ∧ P :=
    ⟨fun hd => ⟨(h.mp hd).1, (ne_zero_of_descendsFrom hd).2, (h.mp hd).2⟩,
      fun ⟨ha, _, hP⟩ => h.mpr ⟨ha, hP⟩⟩
  refine ⟨exists_rounds, fun a t => hzero ?_, fun a t => hzero descendsFrom_iff_digits, ?_, ?_, ?_,
    ?_, ?_⟩
  · simp only [descendsFrom_iff, ← toNat_withoutLast_eq_shiftRight, UInt32.toNat_inj]
  · exact fun t ht => descendsFrom_iff.mpr ⟨ht, 0, rfl⟩
  · exact fun a b => descendsFrom_antisymm
  · exact fun a b t => descendsFrom_trans
  · exact fun a b t => descendsFrom_or
  · exact fun a t => descendsFrom_iff_parent

end PlanarDynamics.Tag
