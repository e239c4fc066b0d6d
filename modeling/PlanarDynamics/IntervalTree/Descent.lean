import PlanarDynamics.IntervalTree.Arena

/-!
# Walks down the interval tree

The operations on a subtree, given by the link to its top. A walk visits each level once, so
`depth`, the number of levels it may still visit, never runs out if it starts at the number of
slots; a walk that runs out has no result.
-/

namespace PlanarDynamics.IntervalArena

variable {K V : Type} [LT K] [LE K] [DecidableLT K] [DecidableLE K] [Ord V]

/-- Adds an entry below a link, to the right of the entries equal to it. The result is the new top
of the subtree. -/
def insertAt (depth : Nat) (a : IntervalArena K V) (link : Option Nat) (e : IntervalEntry K V) :
    Option (IntervalArena K V × Nat) :=
  match link, depth with
  | none, _ => some (a.allocate e)
  | some _, 0 => none
  | some i, depth + 1 => do
    let n ← a.nodes[i]?
    if e.order n.entry = .lt then
      let (a, child) ← insertAt depth a n.left e
      (a.setLeft i (some child)).restore i
    else
      let (a, child) ← insertAt depth a n.right e
      (a.setRight i (some child)).restore i

/-- The slot of the first entry of a subtree. -/
def firstSlot (depth : Nat) (a : IntervalArena K V) (i : Nat) : Option Nat :=
  match depth with
  | 0 => none
  | depth + 1 => do
    let n ← a.nodes[i]?
    match n.left with
    | none => return i
    | some l => firstSlot depth a l

/-- Takes the first entry out of a subtree, without releasing its slot. The result links to what is
left. -/
def detachFirst (depth : Nat) (a : IntervalArena K V) (i : Nat) :
    Option (IntervalArena K V × Option Nat) :=
  match depth with
  | 0 => none
  | depth + 1 => do
    let n ← a.nodes[i]?
    match n.left with
    | none => return (a, n.right)
    | some l =>
      let (a, child) ← detachFirst depth a l
      let (a, top) ← (a.setLeft i child).restore i
      return (a, some top)

/-- Takes the node in slot `i` out of the tree and releases the slot. With two children, the first
entry of the right one takes its place. -/
def removeTop (depth : Nat) (a : IntervalArena K V) (i : Nat) (n : IntervalNode K V) :
    Option (IntervalArena K V × Option Nat) :=
  let a := a.release i
  match n.left, n.right with
  | none, right => some (a, right)
  | left, none => some (a, left)
  | some l, some r => do
    let next ← firstSlot depth a r
    let (a, rest) ← detachFirst depth a r
    let (a, top) ← ((a.setRight next rest).setLeft next (some l)).restore next
    return (a, some top)

/-- Removes an entry equal to `e` from the subtree below a link, if it holds one. The result links
to the subtree that is left and says whether an entry was removed. -/
def removeAt (depth : Nat) (a : IntervalArena K V) (link : Option Nat) (e : IntervalEntry K V) :
    Option (IntervalArena K V × Option Nat × Bool) :=
  match link, depth with
  | none, _ => some (a, none, false)
  | some _, 0 => none
  | some i, depth + 1 => do
    let n ← a.nodes[i]?
    match e.order n.entry with
    | .lt =>
      let (a, child, removed) ← removeAt depth a n.left e
      let (a, top) ← (a.setLeft i child).restore i
      return (a, some top, removed)
    | .gt =>
      let (a, child, removed) ← removeAt depth a n.right e
      let (a, top) ← (a.setRight i child).restore i
      return (a, some top, removed)
    | .eq =>
      let (a, rest) ← removeTop depth a i n
      return (a, rest, true)

/-- The values of the entries below a link that overlap the range from `low` to `high`: node, left
subtree, right subtree. A subtree whose upper ends all lie below the range is skipped, and the
right subtree too where the node begins above it. -/
def searchAt (depth : Nat) (a : IntervalArena K V) (link : Option Nat) (low high : K) : List V :=
  match depth with
  | 0 => []
  | depth + 1 =>
    match a.node? link with
    | none => []
    | some n =>
      if n.maxEnd < low then
        []
      else
        (if n.entry.overlaps low high then [n.entry.value] else []) ++
          searchAt depth a n.left low high ++
            if n.entry.low ≤ high then searchAt depth a n.right low high else []

/-- The entries below a link from left to right. -/
def entriesAt (depth : Nat) (a : IntervalArena K V) (link : Option Nat) :
    List (IntervalEntry K V) :=
  match depth with
  | 0 => []
  | depth + 1 =>
    match a.node? link with
    | none => []
    | some n => entriesAt depth a n.left ++ n.entry :: entriesAt depth a n.right

/-- Checks what every node below a link stores about its subtree and that no two sides differ by
more than one level. The result is the height and the largest upper end. -/
def checkAt (depth : Nat) (a : IntervalArena K V) (link : Option Nat) :
    Option (Nat × Option K) :=
  match link, depth with
  | none, _ => some (0, none)
  | some _, 0 => none
  | some i, depth + 1 => do
    let n ← a.nodes[i]?
    let (hl, ml) ← checkAt depth a n.left
    let (hr, mr) ← checkAt depth a n.right
    let height := 1 + max hl hr
    let balance := (hl : Int) - hr
    let maxEnd := (ml.toList ++ mr.toList).foldl IntervalEntry.maxKey n.entry.high
    if balance.natAbs ≤ 1 ∧ n.balance = balance ∧ n.height = height ∧
        IntervalEntry.compareKeys n.maxEnd maxEnd = .eq then
      return (height, some maxEnd)
    else
      none

end PlanarDynamics.IntervalArena
