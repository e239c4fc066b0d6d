import PlanarDynamics.PointIndex.Basic
import PlanarDynamics.PointIndex.PartitionPoint

/-!
# Range trees

A balanced split of the points in order of `x`, in which every node keeps all its points in order
of `y`. Only the array of the root is searched: each of its entries refers to the first entries of
the children that are not below it, so that a walk down carries the position in the arrays along.
-/

namespace PlanarDynamics

/-- A point in the order of `y` of a node, with the positions in the children's arrays of the
first entries that are not below it; none where a child has no such entry. -/
structure YEntry (α V : Type) where
  point : Vec α
  value : V
  left : Option Nat
  right : Option Nat

namespace YEntry

variable {α V : Type} [Scalar α]

/-- Merges the arrays of two children. At each step both positions are noted and the lower entry is
taken, the left one where they are level. -/
def merge (i j : Nat) : List (YEntry α V) → List (YEntry α V) → List (YEntry α V)
  | [], [] => []
  | l :: ls, [] => { l with left := some i, right := none } :: merge (i + 1) j ls []
  | [], r :: rs => { r with left := none, right := some j } :: merge i (j + 1) [] rs
  | l :: ls, r :: rs =>
    if l.point.y ≤ r.point.y then
      { l with left := some i, right := some j } :: merge (i + 1) j ls (r :: rs)
    else
      { r with left := some i, right := some j } :: merge i (j + 1) (l :: ls) rs

end YEntry

/-- A node over points that follow one another in the order of `x`. -/
inductive RangeNode (α V : Type) where
  | leaf (point : Vec α) (value : V)
  | fork (x : Span α) (ys : Array (YEntry α V)) (left right : RangeNode α V)

namespace RangeNode

variable {α V : Type}

/-- The span from the first point's `x` to the last one's. -/
def x : RangeNode α V → Span α
  | leaf point _ => ⟨point.x, point.x⟩
  | fork x _ _ _ => x

/-- The points of the node in the order of `y`. -/
def ys : RangeNode α V → Array (YEntry α V)
  | leaf point value => #[⟨point, value, none, none⟩]
  | fork _ ys _ _ => ys

variable [Scalar α]

/-- The node over points in the order of `x`, split in the middle. There is none over no points. -/
def ofSorted? (items : List (Vec α × V)) : Option (RangeNode α V) :=
  match items with
  | [] => none
  | [(point, value)] => some (leaf point value)
  | first :: second :: rest =>
    let all := first :: second :: rest
    let mid := all.length / 2
    match ofSorted? (all.take mid), ofSorted? (all.drop mid) with
    | some l, some r =>
      let last := (second :: rest).getLast (List.cons_ne_nil _ _)
      some (fork ⟨first.1.x, last.1.x⟩ (YEntry.merge 0 0 l.ys.toList r.ys.toList).toArray l r)
    | _, _ => none
termination_by items.length
decreasing_by
  · simp only [List.length_take, List.length_cons]; omega
  · simp only [List.length_drop, List.length_cons]; omega

/-- The values from position `start` on, up to the first entry above `top`. -/
def report (ys : Array (YEntry α V)) (start : Nat) (top : α) : List V :=
  ((ys.toList.drop start).takeWhile fun e => decide (e.point.y ≤ top)).map (·.value)

/-- The values of the points below a node in a rectangle, where `start` is the position of the
node's first entry that is not below the rectangle, and nothing without one. A node whose span lies
in the rectangle reports its entries without looking at `x` again. -/
def query (r : Rect α) : RangeNode α V → Option Nat → List V
  | _, none => []
  | leaf point value, some start =>
    let span : Span α := ⟨point.x, point.x⟩
    if 1 ≤ start || !r.x.intersects span then []
    else if r.x.containsSpan span then report #[⟨point, value, none, none⟩] start r.y.stop
    else if r.contains point then [value]
    else []
  | fork span ys left right, some start =>
    match ys[start]? with
    | none => []
    | some e =>
      if !r.x.intersects span then []
      else if r.x.containsSpan span then report ys start r.y.stop
      else query r left e.left ++ query r right e.right

end RangeNode

/-- Points with values under a range tree's root, if there are any. -/
structure RangeTree (α V : Type) where
  size : Nat
  root : Option (RangeNode α V)

namespace RangeTree

variable {α V : Type} [Scalar α]

/-- Total order of points by `x`, then by `y`. -/
def pointOrder (a b : Vec α × V) : Ordering :=
  (Scalar.totalCmp a.1.x b.1.x).then (Scalar.totalCmp a.1.y b.1.y)

/-- Sorts the points and builds the tree over them. -/
def build (points : List (Vec α)) (values : List V) : Except LengthMismatch (RangeTree α V) :=
  (pairPoints points values).map fun items =>
    ⟨items.length, RangeNode.ofSorted? (items.mergeSort fun a b => (pointOrder a b).isLE)⟩

/-- There are no points. -/
def isEmpty (t : RangeTree α V) : Bool := t.size == 0

/-- The values of the points in a rectangle. -/
def query (t : RangeTree α V) (r : Rect α) : List V :=
  match t.root with
  | none => []
  | some root =>
    let start := partitionPoint (fun e => decide (e.point.y < r.y.start)) root.ys
    if start < root.ys.size then root.query r (some start) else []

instance : PointIndex (RangeTree α) α where
  build := RangeTree.build
  query := RangeTree.query

end RangeTree

end PlanarDynamics
