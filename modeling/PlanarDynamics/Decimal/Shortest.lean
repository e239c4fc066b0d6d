/-!
# Shortest decimals

Among the decimals that lie in a window around a value, one with the fewest digits, and of those
the nearest to the value. If the window holds the reals that round to the value in some format, this
is the shortest text that reads back.
-/

namespace PlanarDynamics

/-- A decimal `digits · 10 ^ exponent`. -/
structure Decimal where
  digits : Nat
  exponent : Int
  deriving DecidableEq

namespace Decimal

/-- The value `mid / scale` with bounds around it, which belong to the window if it is closed. -/
structure Window where
  low : Nat
  mid : Nat
  high : Nat
  scale : Nat
  closed : Bool

namespace Window

/-- A number of units, in the unit of the window, lies between the bounds. -/
def holds (w : Window) (n : Nat) : Bool :=
  if w.closed then decide (w.low ≤ n) && decide (n ≤ w.high)
  else decide (w.low < n) && decide (n < w.high)

/-- The same window in units smaller by a power of ten. -/
def magnify (w : Window) (power : Nat) : Window :=
  let factor := Nat.pow 10 power
  { w with low := w.low * factor, mid := w.mid * factor, high := w.high * factor }

/-- The multiple of `10 ^ exponent` in the window next to the value, below or above it; of two at
the same distance the upper one. -/
def nearest? (w : Window) (exponent : Int) : Option Nat :=
  let w := w.magnify (-exponent).toNat
  let unit := w.scale * Nat.pow 10 exponent.toNat
  let below := w.mid / unit
  match w.holds (below * unit), w.holds ((below + 1) * unit) with
  | true, true => some (if 2 * w.mid < (2 * below + 1) * unit then below else below + 1)
  | true, false => some below
  | false, true => some (below + 1)
  | false, false => none

/-- The nearest decimal of the coarsest grid that has one in the window, trying `count` grids from
`10 ^ top` down. -/
def shortest? (w : Window) (top : Int) (count : Nat) : Option Decimal :=
  (List.range count).findSome? fun (i : Nat) =>
    (w.nearest? (top - i)).map fun digits => ⟨digits, top - i⟩

end Window

end Decimal

end PlanarDynamics
