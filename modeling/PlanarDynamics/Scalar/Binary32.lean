import PlanarDynamics.Scalar

/-!
# Binary32 scalars

The instance that runs: IEEE binary32 with round to nearest, ties to even.
-/

namespace PlanarDynamics.Binary32

/-- The position of a value in the total order: negative values below all others, each sign by
magnitude, so that `-0` comes right before `+0` and the value that is no number comes last. -/
def rank (x : Float32) : Int :=
  if x.toBits < 0x80000000 then x.toBits.toNat else 0x7fffffff - x.toBits.toNat

/-- The value that is no number. -/
def notANumber : Float32 := Float32.ofBits 0x7fc00000

/-- Positive infinity. -/
def infinity : Float32 := Float32.ofBits 0x7f800000

instance : Scalar Float32 where
  zero := Float32.ofBits 0
  one := Float32.ofBits 0x3f800000
  natCast := Float32.ofNat
  decidableLT := Float32.decLt
  decidableLE := Float32.decLe
  abs := Float32.abs
  sqrt := Float32.sqrt
  sin := Float32.sin
  cos := Float32.cos
  isFinite := Float32.isFinite
  totalCmp := compareOn rank
  totalCmp_trans := inferInstance
  epsilon := Float32.ofBits 0x34000000
  minPositive := Float32.ofBits 0x00800000

end PlanarDynamics.Binary32
