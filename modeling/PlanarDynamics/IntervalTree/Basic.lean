import PlanarDynamics.IntervalTree.Descent

/-!
# Interval trees

Multisets of closed intervals with values that answer which intervals overlap a range. The tree is
height-balanced and ordered by entry; equal entries coexist.
-/

namespace PlanarDynamics

/-- A balanced tree of intervals in an arena of slots. -/
structure IntervalTree (K V : Type) where
  arena : IntervalArena K V
  root : Option Nat
  size : Nat

namespace IntervalTree

variable {K V : Type}

/-- The tree without entries. -/
def empty : IntervalTree K V := ⟨.empty, none, 0⟩

/-- The tree without entries, with room for `capacity` of them. -/
def withCapacity (capacity : Nat) : IntervalTree K V :=
  ⟨⟨Array.emptyWithCapacity capacity, []⟩, none, 0⟩

/-- Removes every entry. -/
def clear (_ : IntervalTree K V) : IntervalTree K V := empty

/-- There are no entries. -/
def isEmpty (t : IntervalTree K V) : Bool := t.size == 0

/-- The number of levels. -/
def height (t : IntervalTree K V) : Nat := t.arena.heightOf t.root

/-- The bound on the levels of a walk: there are no more levels than slots. -/
def depth (t : IntervalTree K V) : Nat := t.arena.nodes.size

variable [LT K] [LE K] [DecidableLT K] [DecidableLE K] [Ord V]

/-- Adds an entry. -/
def insert (t : IntervalTree K V) (e : IntervalEntry K V) : IntervalTree K V :=
  match t.arena.insertAt t.depth t.root e with
  | some (arena, root) => ⟨arena, some root, t.size + 1⟩
  | none => t

/-- Removes one entry equal to `e` and says whether there was one. -/
def remove (t : IntervalTree K V) (e : IntervalEntry K V) : IntervalTree K V × Bool :=
  match t.arena.removeAt t.depth t.root e with
  | some (arena, root, true) => (⟨arena, root, t.size - 1⟩, true)
  | some (arena, root, false) => (⟨arena, root, t.size⟩, false)
  | none => (t, false)

/-- The values of the entries that overlap the closed range from `low` to `high`. -/
def searchAll (t : IntervalTree K V) (low high : K) : List V :=
  t.arena.searchAt t.depth t.root low high

/-- Appends the values of the entries that overlap a range to a buffer. -/
def searchAllInto (t : IntervalTree K V) (low high : K) (buffer : Array V) : Array V :=
  buffer ++ t.searchAll low high

/-- The entries in order. -/
def toList (t : IntervalTree K V) : List (IntervalEntry K V) := t.arena.entriesAt t.depth t.root

/-- No entry is greater than the one after it. -/
def isOrdered : List (IntervalEntry K V) → Bool
  | e :: f :: rest => e.order f != .gt && isOrdered (f :: rest)
  | _ => true

/-- Every node is balanced and stores what holds of its subtree, and the entries are as many as
counted and in order. -/
def isBalanced (t : IntervalTree K V) : Bool :=
  (t.arena.checkAt t.depth t.root).isSome && t.toList.length == t.size && isOrdered t.toList

end IntervalTree

end PlanarDynamics
