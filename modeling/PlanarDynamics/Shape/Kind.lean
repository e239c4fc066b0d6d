/-!
# Shape kinds

Kinds form a tree. A kind's tag is its parent's tag with one hexadecimal digit appended, so a kind
specialises another exactly if the digits of the other's tag begin its own.
-/

namespace PlanarDynamics

namespace Tag

/-- Drops trailing hexadecimal digits of `tag` until the value is at most `ancestor`. -/
def climb (ancestor tag : UInt32) : UInt32 :=
  if _h : ancestor < tag then climb ancestor (tag >>> 4) else tag
termination_by tag.toNat
decreasing_by
  have hpos : 0 < tag.toNat := Nat.lt_of_le_of_lt (Nat.zero_le _) (UInt32.lt_iff_toNat_lt.mp ‹_›)
  simp only [UInt32.toNat_shiftRight]
  exact Nat.lt_of_le_of_lt (Nat.le_of_eq (Nat.shiftRight_eq_div_pow _ _))
    (Nat.div_lt_self hpos (by decide))

/-- `tag` is `ancestor` or descends from it; zero is no tag and is related to nothing. -/
def descendsFrom (ancestor tag : UInt32) : Bool :=
  if ancestor == 0 || tag == 0 then false else climb ancestor tag == ancestor

end Tag

/-- The kinds of shapes, general and special. -/
inductive ShapeKind where
  | base
  | dynamic
  | line
  | particle
  | rigid
  | ball
  | box
  deriving DecidableEq

namespace ShapeKind

/-- The tag of a kind; the kinds right below it have one digit more. -/
def tag : ShapeKind → UInt32
  | base => 0x1
  | dynamic => 0x11
  | line => 0x12
  | particle => 0x111
  | rigid => 0x112
  | ball => 0x1121
  | box => 0x1122

/-- `kind` is `ancestor` or specialises it. -/
def isA (kind ancestor : ShapeKind) : Bool := Tag.descendsFrom ancestor.tag kind.tag

/-- Shapes of this kind never move, and two of them need no contact. -/
def isStatic (kind : ShapeKind) : Bool := !kind.isA dynamic

end ShapeKind

end PlanarDynamics
