/-!
# Scalars

Everything in this library is written over a type of scalars that offers the operations of a
floating-point format and no laws beyond its total order. The same definitions therefore run on
binary32 numbers, with one rounding per operation in the order written, and can be read over the
real numbers, where no operation rounds.
-/

namespace PlanarDynamics

/-- The arithmetic, the comparisons and the few constants that the simulation needs.

`<`, `≤` and `==` are the numeric comparisons, which a value that is not a number fails.
`totalCmp` is a total order on all values, for sorting. -/
class Scalar (α : Type) extends Zero α, One α, Add α, Sub α, Mul α, Div α, Neg α, NatCast α,
    OfScientific α, LT α, LE α, BEq α where
  decidableLT : DecidableLT α
  decidableLE : DecidableLE α
  abs : α → α
  sqrt : α → α
  sin : α → α
  cos : α → α
  isFinite : α → Bool
  /-- Orders every two values, also those that the numeric comparisons leave unordered. -/
  totalCmp : α → α → Ordering
  totalCmp_trans : Std.TransCmp totalCmp
  /-- The gap between one and the next number above it. -/
  epsilon : α
  /-- The smallest positive number of full precision. -/
  minPositive : α

namespace Scalar

attribute [reducible] decidableLT decidableLE

attribute [instance] decidableLT decidableLE totalCmp_trans

variable {α : Type} [Scalar α]

/-- The smaller of two numbers; of a number and a value that is none, the number. -/
def minNum (a b : α) : α :=
  if b < a then b else if a == a then a else b

/-- The larger of two numbers; of a number and a value that is none, the number. -/
def maxNum (a b : α) : α :=
  if a < b then b else if a == a then a else b

/-- Moves a number into `lo ≤ x ≤ hi`; a value that is not a number stays. -/
def clamp (lo hi x : α) : α :=
  if x < lo then lo else if hi < x then hi else x

/-- Equality up to one part in `1 / epsilon` of the operands' sum, or up to a difference too small
for full precision; the second case makes it usable as a test against zero. -/
def almostEqual (x y : α) : Bool :=
  let gap := abs (x - y)
  decide (gap ≤ epsilon * abs (x + y)) || decide (gap < minPositive)

end Scalar

end PlanarDynamics
