import PlanarDynamics.Decimal.Notation

/-!
# Binary32 numbers as text

A finite number is written with the fewest decimal digits that read back as it.
-/

namespace PlanarDynamics.Binary32

/-- The fraction bits and the exponent bits. -/
def fields (x : Float32) : Nat × Nat :=
  let bits := x.toBits.toNat
  (bits % 0x800000, bits / 0x800000 % 0x100)

/-- The sign bit. -/
def isNegative (x : Float32) : Bool := decide (0x80000000 ≤ x.toBits)

/-- The magnitude of a finite number as `mantissa · 2 ^ exponent`. -/
def magnitude (x : Float32) : Nat × Int :=
  let (fraction, exponent) := fields x
  if exponent = 0 then (fraction, -149) else (fraction + 0x800000, exponent - 150)

/-- The reals that round to the magnitude of a finite number, in quarters of its last place. They
reach half way to the neighbours, the lower of which is nearer at a power of two, and the ends
round to the number if its mantissa is even. -/
def window (x : Float32) : Decimal.Window :=
  let (fraction, exponent) := fields x
  let (m, e) := magnitude x
  let reach := if fraction = 0 ∧ 1 < exponent then 1 else 2
  let k := Nat.pow 2 (e - 2).toNat
  ⟨(4 * m - reach) * k, 4 * m * k, (4 * m + 2) * k, Nat.pow 2 (2 - e).toNat, m % 2 == 0⟩

/-- The shortest decimal that reads back as the magnitude of a finite number other than zero. All
binary32 numbers are below `10 ^ 39`, and multiples of `10 ^ -149`. -/
def shortestDecimal (x : Float32) : Decimal :=
  ((window x).shortest? 39 189).getD ⟨0, 0⟩

/-- A binary32 value as text. -/
def text (style : NumberStyle) (x : Float32) : String :=
  if x.isNaN then
    "NaN"
  else
    (if isNegative x then "-" else "") ++
      if x.isInf then "inf"
      else if magnitude x = (0, -149) then style.zeroText
      else style.text (shortestDecimal x)

end PlanarDynamics.Binary32
