import PlanarDynamics.Decimal.Shortest

/-!
# Decimal notation

Decimals as text, with a point and with an exponent.
-/

namespace PlanarDynamics

/-- The decisions of a number format. -/
structure NumberStyle where
  /-- Decimals whose leading digit stands for this power of ten are written without exponent. -/
  positional : Int → Bool
  /-- What follows a whole number that is written without exponent. -/
  wholeTail : String

namespace NumberStyle

/-- Never an exponent, and no fraction on whole numbers. -/
def plain : NumberStyle := ⟨fun _ => true, ""⟩

/-- An exponent below `10 ^ -4` and from `10 ^ 16` on, and a fraction on every number without
one. -/
def detailed : NumberStyle := ⟨fun k => decide (-4 ≤ k) && decide (k < 16), ".0"⟩

/-- Digits with the point after the first `point` of them, filled up with zeros. -/
def positionalText (style : NumberStyle) (ds : List Char) (point : Int) : String :=
  if point ≤ 0 then
    "0." ++ String.ofList (List.replicate (-point).toNat '0' ++ ds)
  else if ds.length ≤ point.toNat then
    String.ofList (ds ++ List.replicate (point.toNat - ds.length) '0') ++ style.wholeTail
  else
    String.ofList (ds.take point.toNat) ++ "." ++ String.ofList (ds.drop point.toNat)

/-- Digits with the point after the first of them, if others follow, and a power of ten. -/
def exponentText (ds : List Char) (power : Int) : String :=
  let fraction := if ds.length ≤ 1 then "" else "." ++ String.ofList (ds.drop 1)
  String.ofList (ds.take 1) ++ fraction ++ "e" ++ toString power

/-- A positive decimal as text. -/
def text (style : NumberStyle) (d : Decimal) : String :=
  let ds := Nat.toDigits 10 d.digits
  let point := (ds.length : Int) + d.exponent
  if style.positional (point - 1) then style.positionalText ds point
  else exponentText ds (point - 1)

/-- Zero as text. -/
def zeroText (style : NumberStyle) : String := "0" ++ style.wholeTail

end NumberStyle

end PlanarDynamics
