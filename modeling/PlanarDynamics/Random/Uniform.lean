import PlanarDynamics.Random.WordSource
import PlanarDynamics.Scalar.Binary32

/-!
# Uniform samples of a closed range

A word gives 23 bits for a number from zero up to `1 - 2 ^ -23`, which is scaled to the range. The
scale is the range's width over the largest such number, lowered as far as rounding demands for
the largest sample not to exceed the range. A range whose width is not finite cannot be sampled.
-/

namespace PlanarDynamics.Uniform

/-- The largest number that a word gives: `1 - 2 ^ -23`. -/
def largest : Float32 := Float32.ofBits 0x3f7ffffe

/-- The number from zero up to `largest` that the upper 23 bits of a word give. -/
def fraction (word : UInt32) : Float32 :=
  Float32.ofBits ((word >>> 9) ||| 0x3f800000) - Float32.ofBits 0x3f800000

/-- The largest number with a bit pattern up to `bits` that scales `largest` to at most `hi`. -/
def fitScale (lo hi : Float32) : Nat → Float32
  | 0 => Float32.ofBits 0
  | bits + 1 =>
    let scale := Float32.ofBits (UInt32.ofNat (bits + 1))
    if hi < scale * largest + lo then fitScale lo hi bits else scale

/-- The scale from fractions to a range from `lo` to `hi`, if it can be sampled. -/
def scale? (lo hi : Float32) : Option Float32 :=
  let scale := (hi - lo) / largest
  if scale.isFinite then some (fitScale lo hi scale.toBits.toNat) else none

/-- A sample of the range from `lo` to `hi`, and the source after one word. There is none, and no
word is drawn, if the range is too wide. -/
def sample? {γ : Type} [WordSource γ] (lo hi : Float32) (source : γ) : Option (Float32 × γ) :=
  (scale? lo hi).map fun scale =>
    let (word, source) := WordSource.next source
    (fraction word * scale + lo, source)

end PlanarDynamics.Uniform
