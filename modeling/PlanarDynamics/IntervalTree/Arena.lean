import PlanarDynamics.IntervalTree.Entry

/-!
# Node arena of the interval tree

The nodes of a search tree in an array, linked by index. Released slots are listed and given out
again before the array grows. Each node carries the height and balance of its subtree and the
largest upper end in it; `refresh` brings them up to date from the children, and the rotations
refresh the nodes that they move, lower one first. An operation that meets a link to no slot has no
result (`none`).
-/

namespace PlanarDynamics

/-- A node of the tree. The links are slots of the arena. -/
structure IntervalNode (K V : Type) where
  entry : IntervalEntry K V
  /-- The largest upper end in the subtree. -/
  maxEnd : K
  left : Option Nat
  right : Option Nat
  /-- The number of levels of the subtree. -/
  height : Nat
  /-- The height of the left subtree less that of the right. -/
  balance : Int

/-- The node of an entry without children. -/
def IntervalNode.single {K V : Type} (e : IntervalEntry K V) : IntervalNode K V :=
  ⟨e, e.high, none, none, 1, 0⟩

/-- Slots for nodes, and those of them that are free, the last released first. -/
structure IntervalArena (K V : Type) where
  nodes : Array (IntervalNode K V)
  free : List Nat

namespace IntervalArena

variable {K V : Type}

/-- An arena without slots. -/
def empty : IntervalArena K V := ⟨#[], []⟩

/-- Changes the node in slot `i`. -/
def modify (a : IntervalArena K V) (i : Nat) (f : IntervalNode K V → IntervalNode K V) :
    IntervalArena K V :=
  { a with nodes := a.nodes.modify i f }

/-- Links the left side of slot `i`. -/
def setLeft (a : IntervalArena K V) (i : Nat) (link : Option Nat) : IntervalArena K V :=
  a.modify i fun n => { n with left := link }

/-- Links the right side of slot `i`. -/
def setRight (a : IntervalArena K V) (i : Nat) (link : Option Nat) : IntervalArena K V :=
  a.modify i fun n => { n with right := link }

/-- Puts an entry into a slot of its own: the last one released, or a new one. -/
def allocate (a : IntervalArena K V) (e : IntervalEntry K V) : IntervalArena K V × Nat :=
  match a.free with
  | i :: free => (⟨a.nodes.setIfInBounds i (.single e), free⟩, i)
  | [] => (⟨a.nodes.push (.single e), []⟩, a.nodes.size)

/-- Frees a slot. Its node stays until the slot is given out again. -/
def release (a : IntervalArena K V) (i : Nat) : IntervalArena K V := { a with free := i :: a.free }

/-- The node that a link leads to. -/
def node? (a : IntervalArena K V) (link : Option Nat) : Option (IntervalNode K V) :=
  link.bind fun i => a.nodes[i]?

/-- The stored height of a subtree, zero without one. -/
def heightOf (a : IntervalArena K V) (link : Option Nat) : Nat :=
  ((a.node? link).map (·.height)).getD 0

variable [LT K] [DecidableLT K]

/-- The larger of a key and the largest upper end stored for a subtree. -/
def maxWith (a : IntervalArena K V) (m : K) (link : Option Nat) : K :=
  ((a.node? link).map fun n => IntervalEntry.maxKey m n.maxEnd).getD m

/-- Recomputes what slot `i` stores about its subtree from what its children store. -/
def refresh (a : IntervalArena K V) (i : Nat) : IntervalArena K V :=
  a.modify i fun n =>
    { n with
      height := 1 + max (a.heightOf n.left) (a.heightOf n.right)
      balance := (a.heightOf n.left : Int) - a.heightOf n.right
      maxEnd := a.maxWith (a.maxWith n.entry.high n.left) n.right }

/-- Lifts the left child of slot `i` above it. The result is the slot now on top. -/
def rotateRight (a : IntervalArena K V) (i : Nat) : Option (IntervalArena K V × Nat) := do
  let n ← a.nodes[i]?
  let l ← n.left
  let m ← a.nodes[l]?
  return ((((a.setLeft i m.right).setRight l (some i)).refresh i).refresh l, l)

/-- Lifts the right child of slot `i` above it. The result is the slot now on top. -/
def rotateLeft (a : IntervalArena K V) (i : Nat) : Option (IntervalArena K V × Nat) := do
  let n ← a.nodes[i]?
  let r ← n.right
  let m ← a.nodes[r]?
  return ((((a.setRight i m.left).setLeft r (some i)).refresh i).refresh r, r)

/-- Rotates a subtree whose sides differ by more than one level, so that they no longer do. The
result is the slot now on top. -/
def rebalance (a : IntervalArena K V) (i : Nat) : Option (IntervalArena K V × Nat) := do
  let n ← a.nodes[i]?
  if 1 < n.balance then
    let l ← n.left
    let m ← a.nodes[l]?
    if m.balance < 0 then
      let (a, l) ← a.rotateLeft l
      (a.setLeft i (some l)).rotateRight i
    else
      a.rotateRight i
  else if n.balance < -1 then
    let r ← n.right
    let m ← a.nodes[r]?
    if 0 < m.balance then
      let (a, r) ← a.rotateRight r
      (a.setRight i (some r)).rotateLeft i
    else
      a.rotateLeft i
  else
    return (a, i)

/-- Refreshes slot `i`, then rebalances it. -/
def restore (a : IntervalArena K V) (i : Nat) : Option (IntervalArena K V × Nat) :=
  (a.refresh i).rebalance i

end IntervalArena

end PlanarDynamics
