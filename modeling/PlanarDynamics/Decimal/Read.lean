/-!
# Numbers read from text

Decimal integers and binary32 numbers, in ASCII digits. A text that is not wholly a number has no
value.
-/

namespace PlanarDynamics.Decimal

/-- The value of a list of digits. -/
def digitsValue (ds : List Char) : Nat := ds.foldl (fun n c => 10 * n + (c.toNat - 48)) 0

/-- The value of a text of digits, at least one. -/
def readDigits? (cs : List Char) : Option Nat :=
  if cs.isEmpty || !cs.all Char.isDigit then none else some (digitsValue cs)

/-- Splits a sign off a text; a minus makes the result true. -/
def splitSign : List Char → Bool × List Char
  | '-' :: cs => (true, cs)
  | '+' :: cs => (false, cs)
  | cs => (false, cs)

/-- A signed integer of any size. -/
def readInt? (cs : List Char) : Option Int :=
  let (negative, ds) := splitSign cs
  (readDigits? ds).map fun n => if negative then -n else n

/-- An integer below `2 ^ 32`, with an optional plus. -/
def readUInt32? : List Char → Option Nat
  | '-' :: _ => none
  | cs => (readInt? cs).bind fun n => if n < 0x100000000 then some n.toNat else none

/-- A signed integer of 64 bits. -/
def readInt64? (cs : List Char) : Option Int :=
  (readInt? cs).bind fun n =>
    if -0x8000000000000000 ≤ n ∧ n < 0x8000000000000000 then some n else none

/-- The exponent part that ends a number; without one the exponent is zero. -/
def readExponent? : List Char → Option Int
  | [] => some 0
  | c :: cs => if c = 'e' ∨ c = 'E' then readInt? cs else none

/-- The magnitude of a number: digits with at most one point, at least one digit, and an optional
exponent. It is rounded once, to the nearest binary32 number. -/
def readMagnitude? (cs : List Char) : Option Float32 :=
  let whole := cs.takeWhile Char.isDigit
  let (fraction, rest) :=
    match cs.dropWhile Char.isDigit with
    | '.' :: rest => (rest.takeWhile Char.isDigit, rest.dropWhile Char.isDigit)
    | rest => ([], rest)
  if whole.isEmpty && fraction.isEmpty then
    none
  else
    (readExponent? rest).map fun (e : Int) =>
      let exponent := e - fraction.length
      Float32.ofScientific (digitsValue (whole ++ fraction)) (decide (exponent < 0)) exponent.natAbs

/-- The words for values that have no digits, in letters of either case. -/
def readSpecial? (cs : List Char) : Option Float32 :=
  match String.ofList (cs.map Char.toLower) with
  | "inf" => some (Float32.ofBits 0x7f800000)
  | "infinity" => some (Float32.ofBits 0x7f800000)
  | "nan" => some (Float32.ofBits 0x7fc00000)
  | _ => none

/-- A binary32 number: an optional sign and a magnitude or a word. -/
def readFloat? (cs : List Char) : Option Float32 :=
  let (negative, body) := splitSign cs
  ((readSpecial? body).or (readMagnitude? body)).map fun x => if negative then -x else x

end PlanarDynamics.Decimal
