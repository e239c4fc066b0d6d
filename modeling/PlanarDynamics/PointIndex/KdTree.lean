import PlanarDynamics.PointIndex.Basic
import PlanarDynamics.PointIndex.Selection

/-!
# K-d trees

The tree is implicit in the order of an array: the middle item of every range splits it, with no
greater coordinates before it and no smaller ones behind it. Levels split by `x` and by `y` in
turn.
-/

namespace PlanarDynamics

/-- Points with values, arranged for queries. -/
structure KdTree (α V : Type) where
  items : Array (Vec α × V)

namespace KdTree

variable {α V : Type} [Scalar α]

/-- The coordinate that a level of the tree splits by. -/
def coordinate (level : Nat) (p : Vec α) : α := if level % 2 = 0 then p.x else p.y

/-- The total order of items by the coordinate of a level. -/
def levelOrder (level : Nat) (a b : Vec α × V) : Ordering :=
  Scalar.totalCmp (coordinate level a.1) (coordinate level b.1)

/-- Arranges items so that the middle one of every range splits it. -/
def arrange (s : Selection) (level : Nat) (items : List (Vec α × V)) : List (Vec α × V) :=
  if items.length ≤ 1 then
    items
  else
    let mid := (items.length - 1) / 2
    let placed := s.run (levelOrder level) mid items
    match _h : placed.drop mid with
    | [] => placed
    | p :: upper => arrange s (level + 1) (placed.take mid) ++ p :: arrange s (level + 1) upper
termination_by items.length
decreasing_by
  · simp only [List.length_take]; omega
  · have hlen := congrArg List.length ‹placed.drop mid = p :: upper›
    have hperm : placed.length = items.length := (s.perm _ _ _).length_eq
    simp only [List.length_drop, List.length_cons] at hlen
    omega

/-- The tree that a selection routine arranges. -/
def buildWith (s : Selection) (points : List (Vec α)) (values : List V) :
    Except LengthMismatch (KdTree α V) :=
  (pairPoints points values).map fun items => ⟨(arrange s 0 items).toArray⟩

/-- The tree that sorting arranges. -/
def build (points : List (Vec α)) (values : List V) : Except LengthMismatch (KdTree α V) :=
  buildWith .bySorting points values

/-- The number of points. -/
def size (t : KdTree α V) : Nat := t.items.size

/-- There are no points. -/
def isEmpty (t : KdTree α V) : Bool := t.items.isEmpty

/-- The values in a rectangle among the items from `lo` up to `hi`. A side of the split that lies
beyond the rectangle is skipped. -/
def queryRange (items : Array (Vec α × V)) (r : Rect α) (level lo hi : Nat) : List V :=
  if lo < hi then
    let mid := lo + (hi - lo - 1) / 2
    match items[mid]? with
    | none => []
    | some (p, value) =>
      let span := if level % 2 = 0 then r.x else r.y
      let c := coordinate level p
      if span.stop < c then
        queryRange items r (level + 1) lo mid
      else if c < span.start then
        queryRange items r (level + 1) (mid + 1) hi
      else
        (if r.contains p then [value] else []) ++
          queryRange items r (level + 1) lo mid ++ queryRange items r (level + 1) (mid + 1) hi
  else
    []
termination_by hi - lo

/-- The values of the points in a rectangle. -/
def query (t : KdTree α V) (r : Rect α) : List V := queryRange t.items r 0 0 t.items.size

instance : PointIndex (KdTree α) α where
  build := KdTree.build
  query := KdTree.query

end KdTree

end PlanarDynamics
