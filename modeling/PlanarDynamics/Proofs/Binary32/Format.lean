import Mathlib
import PlanarDynamics.Scalar.Binary32

/-!
# The binary32 format

Bit patterns and the data they stand for. A datum is canonical when its significand fills 24 bits or
its exponent is the smallest one; unpacking gives such data, and packing one of them loses nothing
unless its exponent is too large, which makes it infinite.
-/

namespace PlanarDynamics.Binary32

open Float.Model (Format UnpackedFloat)
open Float.Model.UnpackedFloat

theorem toNat_unpackMantissa (b : BitVec 32) :
    (@unpackMantissa Format.binary32 b).toNat = b.toNat % 2 ^ 23 := by
  simp [unpackMantissa]

theorem toNat_unpackExponent (b : BitVec 32) :
    (@unpackExponent Format.binary32 b).toNat = b.toNat / 2 ^ 23 % 2 ^ 8 := by
  simp [unpackExponent, Nat.shiftRight_eq_div_pow]

theorem toNat_unpackSign (b : BitVec 32) :
    (@unpackSign Format.binary32 b).toNat = b.toNat / 2 ^ 31 := by
  have hlt : b.toNat < 2 ^ 32 := b.isLt
  simp [unpackSign, Nat.shiftRight_eq_div_pow]
  omega

/-- The fraction bits of a bit pattern. -/
def fraction (b : BitVec 32) : Nat := b.toNat % 2 ^ 23

/-- The exponent bits of a bit pattern. -/
def biased (b : BitVec 32) : Nat := b.toNat / 2 ^ 23 % 2 ^ 8

/-- The sign of a bit pattern. -/
def signOf (b : BitVec 32) : Sign := if b.toNat < 2 ^ 31 then .positive else .negative

theorem ofBitVec_unpackSign (b : BitVec 32) :
    Sign.ofBitVec (@unpackSign Format.binary32 b) = signOf b := by
  have hlt : b.toNat < 2 ^ 32 := b.isLt
  unfold Sign.ofBitVec signOf
  congr 1
  rw [← BitVec.toNat_inj, toNat_unpackSign, BitVec.toNat_ofNat]
  apply propext
  omega

theorem unpack_eq (b : BitVec 32) : unpack Format.binary32 b =
    if biased b = 255 then if fraction b = 0 then .infinity (signOf b) else .notANumber
    else if biased b = 0 then
      if h : fraction b = 0 then .zero (signOf b)
      else .finite (signOf b) (fraction b) (-149) (Nat.pos_of_ne_zero h)
    else
      .finite (signOf b) (2 ^ 23 + fraction b) (biased b - 150)
        (Nat.add_pos_left (by decide) _) := by
  have hall : (@unpackExponent Format.binary32 b = -1#_) ↔ biased b = 255 := by
    rw [← BitVec.toNat_inj, toNat_unpackExponent]
    rfl
  have hzero : (@unpackExponent Format.binary32 b = 0#_) ↔ biased b = 0 := by
    rw [← BitVec.toNat_inj, toNat_unpackExponent]
    rfl
  have hfraction : (@unpackMantissa Format.binary32 b = 0#_) ↔ fraction b = 0 := by
    rw [← BitVec.toNat_inj, toNat_unpackMantissa]
    rfl
  have happend : (1#1 ++ @unpackMantissa Format.binary32 b).toNat = 2 ^ 23 + fraction b := by
    rw [BitVec.toNat_append, ← Nat.shiftLeft_add_eq_or_of_lt (BitVec.isLt _), toNat_unpackMantissa]
    rfl
  unfold unpack
  simp only [hall, hzero, hfraction, ofBitVec_unpackSign, happend, toNat_unpackMantissa,
    toNat_unpackExponent]
  split
  · rfl
  split
  case isTrue h =>
    split
    · rfl
    · congr 1
      show ((biased b : Int) - _) + 1 = _
      rw [h]
      decide
  · congr 1

/-! ## Canonical data -/

/-- The significand fills 24 bits, or the exponent is the smallest one. -/
def Canonical : UnpackedFloat → Prop
  | .finite _ m e _ => m < 2 ^ 24 ∧ -149 ≤ e ∧ (2 ^ 23 ≤ m ∨ e = -149)
  | _ => True

/-- The exponent is not too large for the format. -/
def Fits : UnpackedFloat → Prop
  | .finite _ _ e _ => e ≤ 104
  | _ => True

/-- A number that is too large becomes infinite. -/
def clip : UnpackedFloat → UnpackedFloat
  | .finite s m e h => if e ≤ 104 then .finite s m e h else .infinity s
  | u => u

theorem zero_or_finite {u : UnpackedFloat} (h : u.isFinite = true) :
    (∃ s, u = .zero s) ∨ ∃ s m e hm, u = .finite s m e hm := by
  cases u with
  | infinity s => exact absurd h Bool.false_ne_true
  | notANumber => exact absurd h Bool.false_ne_true
  | zero s => exact .inl ⟨s, rfl⟩
  | finite s m e hm => exact .inr ⟨s, m, e, hm, rfl⟩

theorem clip_eq_self {u : UnpackedFloat} (h : Fits u) : clip u = u := by
  unfold clip
  split
  · exact if_pos h
  · rfl

theorem canonical_unpack (b : BitVec 32) : Canonical (unpack Format.binary32 b) := by
  have hfraction : fraction b < 2 ^ 23 := Nat.mod_lt _ (by decide)
  rw [unpack_eq]
  split
  · split <;> trivial
  split
  · split
    · trivial
    · exact ⟨by omega, by omega, .inr rfl⟩
  · exact ⟨by omega, by omega, .inl (Nat.le_add_right ..)⟩

theorem fits_unpack (b : BitVec 32) : Fits (unpack Format.binary32 b) := by
  have hbiased : biased b < 2 ^ 8 := Nat.mod_lt _ (by decide)
  rw [unpack_eq]
  split
  · split <;> trivial
  split
  · split
    · trivial
    · exact (by decide : (-149 : Int) ≤ 104)
  · show (biased b : Int) - 150 ≤ 104
    omega

section Components

variable (s : Sign) (e : BitVec 8) (m : BitVec 23)

theorem toNat_packComponents : (packComponents Format.binary32 s e m).toNat =
    s.toBitVec.toNat * 2 ^ 31 + e.toNat * 2 ^ 23 + m.toNat := by
  have hshift : (packComponents Format.binary32 s e m).toNat =
      (s.toBitVec.toNat <<< 8 + e.toNat) <<< 23 + m.toNat := by
    rw [Nat.shiftLeft_add_eq_or_of_lt e.isLt, ← BitVec.toNat_append,
      Nat.shiftLeft_add_eq_or_of_lt m.isLt, ← BitVec.toNat_append]
    rfl
  rw [hshift, Nat.shiftLeft_eq, Nat.shiftLeft_eq]
  ring

theorem fraction_packComponents : fraction (packComponents Format.binary32 s e m) = m.toNat := by
  have hm : m.toNat < 2 ^ 23 := m.isLt
  rw [fraction, toNat_packComponents]
  omega

theorem biased_packComponents : biased (packComponents Format.binary32 s e m) = e.toNat := by
  have he : e.toNat < 2 ^ 8 := e.isLt
  have hm : m.toNat < 2 ^ 23 := m.isLt
  rw [biased, toNat_packComponents]
  omega

theorem signOf_packComponents : signOf (packComponents Format.binary32 s e m) = s := by
  have he : e.toNat < 2 ^ 8 := e.isLt
  have hm : m.toNat < 2 ^ 23 := m.isLt
  rw [signOf, toNat_packComponents]
  cases s with
  | positive => exact if_pos (by simp only [Sign.toBitVec, BitVec.toNat_ofNat]; omega)
  | negative => exact if_neg (by simp only [Sign.toBitVec, BitVec.toNat_ofNat]; omega)

end Components

/-- Packing keeps a canonical datum, but for one that is too large. -/
theorem unpack_pack {u : UnpackedFloat} (h : Canonical u) :
    unpack Format.binary32 (pack Format.binary32 u) = clip u := by
  cases u with
  | notANumber =>
    rw [pack, packedNaN, unpack_eq, biased_packComponents, fraction_packComponents]
    rfl
  | infinity s =>
    rw [pack, packedInfinity, unpack_eq, biased_packComponents, fraction_packComponents,
      signOf_packComponents]
    rfl
  | zero s =>
    rw [pack, packedZero, unpack_eq, biased_packComponents, fraction_packComponents,
      signOf_packComponents]
    rfl
  | finite s m e hm =>
    obtain ⟨hm24, he, hfull⟩ := h
    have hexp : (e + Format.binary32.exponentBias +
        Format.binary32.mantissaBitsWithoutImplicit).toNat = (e + 150).toNat := by
      show (e + 127 + 23).toNat = _
      omega
    have hlog : m.log2 + 1 = Format.binary32.mantissaBits ↔ 2 ^ 23 ≤ m := by
      show m.log2 + 1 = 24 ↔ _
      rw [← Nat.le_log2 hm.ne']
      have := (Nat.log2_lt hm.ne').mpr hm24
      omega
    have hlarge : 2 ^ Format.binary32.exponentBits ≤ (e + 150).toNat + 1 ↔ ¬ e ≤ 104 := by
      show 256 ≤ _ ↔ _
      omega
    rw [pack]
    simp only [hexp, hlog, hlarge, clip]
    split
    case isTrue h =>
      rw [packedInfinity, unpack_eq, biased_packComponents, fraction_packComponents,
        signOf_packComponents]
      rfl
    case isFalse h =>
      rw [if_pos (not_not.mp h)]
      split
      case isTrue hnormal =>
        have hbiased : (BitVec.ofNat 8 (e + 150).toNat).toNat = (e + 150).toNat := by
          rw [BitVec.toNat_ofNat, Nat.mod_eq_of_lt (by omega)]
        have hfraction : (BitVec.ofNat 23 m).toNat = m - 2 ^ 23 := by
          rw [BitVec.toNat_ofNat]
          omega
        rw [unpack_eq, biased_packComponents, fraction_packComponents, signOf_packComponents,
          hbiased, hfraction, if_neg (by omega), if_neg (by omega)]
        have hm' : 2 ^ 23 + (m - 2 ^ 23) = m := by omega
        have he' : ((e + 150).toNat : Int) - 150 = e := by omega
        simp only [hm', he']
      case isFalse hsubnormal =>
        have hfraction : (BitVec.ofNat 23 m).toNat = m := by
          rw [BitVec.toNat_ofNat, Nat.mod_eq_of_lt (by omega)]
        rw [unpack_eq, biased_packComponents, fraction_packComponents, signOf_packComponents,
          hfraction, if_neg (by decide), if_pos (by decide), dif_neg hm.ne']
        congr 1
        omega

end PlanarDynamics.Binary32
