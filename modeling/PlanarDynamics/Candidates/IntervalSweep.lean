import PlanarDynamics.Candidates.Pair
import PlanarDynamics.IntervalTree.Basic

/-!
# Interval sweep

A vertical line sweeps over the edges of the shapes from left to right. The vertical extents of the
shapes that it crosses are kept in an interval tree, which a shape that the line reaches is looked
up in.
-/

namespace PlanarDynamics.Candidates

variable {α : Type} [Scalar α]

/-- The line reaches or leaves a shape. -/
inductive Edge where
  | start
  | stop
  deriving DecidableEq

/-- At one place the line reaches shapes before it leaves others. -/
def Edge.rank : Edge → Nat
  | start => 0
  | stop => 1

/-- An edge of the shape at position `shape`. -/
structure EdgeEvent (α : Type) where
  x : α
  edge : Edge
  shape : Nat

namespace EdgeEvent

/-- Order of events: by place, at one place by edge, then by position. -/
def order (e f : EdgeEvent α) : Ordering :=
  (Scalar.totalCmp e.x f.x).then
    ((compare e.edge.rank f.edge.rank).then (compare e.shape f.shape))

/-- The events of one shape. Adding zero makes the two zeros one place. -/
def ofShape (shape : Proxy α × Nat) : List (EdgeEvent α) :=
  [⟨shape.1.aabb.left + 0, .start, shape.2⟩, ⟨shape.1.aabb.right + 0, .stop, shape.2⟩]

/-- The events of all shapes in the order of the sweep. -/
def ofShapes (shapes : Array (Proxy α)) : List (EdgeEvent α) :=
  (shapes.toList.zipIdx.flatMap ofShape).mergeSort fun e f => (order e f).isLE

end EdgeEvent

/-- The vertical extent of a shape. -/
def extent (shapes : Array (Proxy α)) (i : Nat) : Option (IntervalEntry α Nat) :=
  shapes[i]?.map fun p => ⟨p.aabb.bottom, p.aabb.top, i⟩

/-- Two positions of shapes of which one moves. -/
def oneMoves (shapes : Array (Proxy α)) (i j : Nat) : Bool :=
  match shapes[i]?, shapes[j]? with
  | some p, some q => !p.bothStatic q
  | _, _ => false

/-- The extents that the line crosses and the pairs found so far. -/
structure SweepState (α : Type) where
  active : IntervalTree α Nat
  pairs : List Pair

namespace SweepState

/-- One event: a shape that begins is paired with the active ones that it overlaps and becomes
active, one that ends is active no longer. -/
def step (shapes : Array (Proxy α)) (s : SweepState α) (event : EdgeEvent α) : SweepState α :=
  match extent shapes event.shape with
  | none => s
  | some e =>
    match event.edge with
    | .start =>
      let hits := (s.active.searchAll e.low e.high).filter (oneMoves shapes event.shape)
      ⟨s.active.insert e, hits.map (Pair.ordered event.shape) ++ s.pairs⟩
    | .stop => { s with active := (s.active.remove e).1 }

/-- The state after a list of events. -/
def run (shapes : Array (Proxy α)) (events : List (EdgeEvent α)) : SweepState α :=
  events.foldl (step shapes) ⟨.withCapacity shapes.size, []⟩

end SweepState

/-- Sweeps over all edges. -/
def intervalSweep (shapes : Array (Proxy α)) : List Pair :=
  Pair.sort (SweepState.run shapes (EdgeEvent.ofShapes shapes)).pairs

end PlanarDynamics.Candidates
